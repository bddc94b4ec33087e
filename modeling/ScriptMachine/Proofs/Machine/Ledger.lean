import ScriptMachine.Proofs.Machine.Runs

/-!
# The books of a call

While a call of the host is under way, the entries and the active coroutines of a machine are those
from before the call, and those that the ones who wait have to take back.

* `Kont.debts`: what those who wait have to take back.
* `Owes`: the state shows these debts, and the call of the host is among them.
* `advance_owes`: a step keeps the books, until it pays for the call of the host.
-/

namespace ScriptMachine

/-- What has to be taken back once there is an outcome. -/
inductive Debt
  /-- A call of the host. -/
  | call
  | resumption (mode : ResumeMode) (c : ThreadId)

namespace Debt

/-- The entries among debts. -/
def entries : List Debt → Nat
  | [] => 0
  | call :: debts | resumption .synchronous _ :: debts => entries debts + 1
  | resumption .asynchronous _ :: debts => entries debts

def active : List Debt → List ThreadId
  | [] => []
  | call :: debts => active debts
  | resumption _ c :: debts => c :: active debts

end Debt

variable {ν : Type}

/-- What those who wait have to take back, the innermost first. -/
def Kont.debts : {a : Awaited} → Kont ν a → List Debt
  | _, .host => []
  | _, .exit k => .call :: k.debts
  | _, .resumed mode c _ k => .resumption mode c :: k.debts
  | _, .routine _ k | _, .collapse k | _, .method _ _ _ k | _, .asyncMethod _ _ k
  | _, .nested k | _, .drive _ k => k.debts
  | _, .native k | _, .finish _ k | _, .instruction _ _ k | _, .decorator _ _ _ _ k
  | _, .task _ k | _, .loop _ _ k | _, .protect _ _ _ k => k.debts

def Control.debts : Control ν → List Debt
  | .execute _ _ k | .step _ k => k.debts
  | .run _ k | .value _ k | .await _ k => k.debts

/-- The state shows these debts on top of entries `E` and active coroutines `A`. A call of the host
is among them. -/
structure Owed (E : Nat) (A : List ThreadId) (debts : List Debt) (s : State ν) : Prop where
  entries : s.entries = E + Debt.entries debts
  active : s.active = Debt.active debts ++ A
  call : .call ∈ debts

/-- The books of a machine in the middle of a call of the host. -/
def Owes (E : Nat) (A : List ThreadId) (x : Control ν × State ν) : Prop := Owed E A x.1.debts x.2

theorem Owed.same {E : Nat} {A : List ThreadId} {debts : List Debt} {s s' : State ν}
    (h : Owed E A debts s) (entries : s'.entries = s.entries) (active : s'.active = s.active) :
    Owed E A debts s' :=
  ⟨entries.trans h.entries, active.trans h.active, h.call⟩

theorem Owed.local {E : Nat} {A : List ThreadId} {debts : List Debt} {s s' : State ν} {σ : Prop}
    {bound : Nat} {w : ThreadId → Nat → Prop} (h : Owed E A debts s) (hl : Local σ bound w s s') :
    Owed E A debts s' := h.same hl.entries hl.active

theorem State.HasCurrent.modify {s : State ν} (h : s.HasCurrent) (f : Processor → Processor) :
    (s.modifyProcessor f).HasCurrent := by
  unfold State.HasCurrent
  simp only [State.modifyProcessor, State.modifyProcessorOf, Array.size_modify]
  exact h

namespace Machine

variable {E : Nat} {A : List ThreadId} {s s' : State ν} {library : Library ν}

theorem performCall_owes {k : Kont ν .step} (hc : s.HasCurrent) (owed : Owed E A k.debts s)
    (spec : CallSpec) : Owes E A (performCall library spec k s) := by
  have entering := enterCall_entering (σ := False) (w := fun _ _ => False) (b := 0) (s := s) spec
    ⟨hc, False.elim⟩
  unfold performCall Exec.andThen
  generalize enterCall spec s = result at entering
  cases entering with
  | failed steady _ _ => exact owed.local steady.toLocal
  | script hl _ _ _ _ => exact owed.local hl
  | native hl _ _ _ _ => exact owed.local hl

theorem executeCall_owes {k : Kont ν .step} (hc : s.HasCurrent) (owed : Owed E A k.debts s)
    (function : Value) (arguments : List Value) (flags : FrameFlags) (name : Option String) :
    Owes E A (executeCall library function arguments flags name k s) :=
  performCall_owes (k := .loop (mark s) 0 k) (hc.modify _) (owed.same rfl rfl) _

theorem nestedCall_owes {k : Kont ν .value} (hc : s.HasCurrent) (owed : Owed E A k.debts s)
    (function : Value) (arguments : List Value) (flags : FrameFlags) (name : Option String) :
    Owes E A ((do
      beginNested
      executeCall library function arguments flags name (.nested k) : Move ν (Control ν)) s) :=
  executeCall_owes (k := .nested k) (hc.modify _) (owed.same rfl rfl) ..

theorem callNested_owes {k : Kont ν .value} (hc : s.HasCurrent) (owed : Owed E A k.debts s)
    (function : Value) (arguments : List Value) :
    Owes E A (callNested library function arguments k s) := by
  change Owes E A ((if _ then _ else _ : Move ν (Control ν)) s)
  split
  · exact owed
  · exact nestedCall_owes hc owed ..

theorem indexNested_owes {k : Kont ν .value} (hc : s.HasCurrent) (owed : Owed E A k.debts s)
    (object key : Value) : Owes E A (indexNested library object key k s) := by
  rw [indexNested_eq]
  cases s.resolveIndex key State.maxChain object with
  | error e => exact owed
  | ok found =>
    cases found with
    | value v => exact owed
    | call handler receiver => exact callNested_owes (k := .collapse k) hc owed ..

theorem deliver_owes {k : Kont ν .step} (owed : Owed E A k.debts s) (flags : FrameFlags)
    (returnAddress : Nat) (v : Value) : Owes E A (deliver flags returnAddress v k s) := by
  unfold deliver
  split
  · exact owed
  · split
    · exact owed.same rfl rfl
    · exact owed

theorem performTailRequest_owes {k : Kont ν .step} (hc : s.HasCurrent) (owed : Owed E A k.debts s)
    (frame : Frame) (request : TailCall) :
    Owes E A (performTailRequest library frame request k s) := by
  unfold performTailRequest
  split
  · exact owed
  · refine performCall_owes (hc.modify _) ?_ _
    split <;> exact owed.same rfl rfl

theorem suspendForYield_owes {k : Kont ν .step} (owed : Owed E A k.debts s) (frame : Frame)
    (values : List Value) : Owes E A (suspendForYield frame values k s) := by
  change Owes E A ((if _ then _ else if _ then _ else _ : Move ν (Control ν)) s)
  split
  · exact owed
  · split
    · exact owed
    · exact owed.same rfl rfl

theorem handleAwait_owes {k : Kont ν .step} (owed : Owed E A k.debts s) (frame : Frame)
    (request : RequestId) : Owes E A (handleAwait frame request k s) := by
  rw [handleAwait_eq]
  cases s.heap.takeTask request with
  | error e => exact owed
  | ok taken =>
    change Owes E A ((if _ then _ else if _ then _ else _ : Move ν (Control ν)) (s.setHeap _))
    split
    · exact owed.same rfl rfl
    · split <;> exact owed.same rfl rfl

theorem finishFrame_owes {k : Kont ν .step} (hc : s.HasCurrent) (owed : Owed E A k.debts s)
    (frame : Frame) (v : Value) (fromNative : Bool) :
    Owes E A (finishFrame library frame v fromNative k s) := by
  unfold finishFrame
  split
  · exact performTailRequest_owes hc owed ..
  · exact suspendForYield_owes owed ..
  · exact handleAwait_owes owed ..
  · cases frame.handlers.continuation with
    | some f => exact owed
    | none => exact deliver_owes owed ..

theorem resumePending_owes {k : Kont ν .step} (hc : s.HasCurrent) (owed : Owed E A k.debts s)
    (input : Except Fault Value) (fromTask : Bool) :
    Owes E A (resumePending library input fromTask k s) := by
  cases pending : s.processor.pending with
  | none =>
    rw [resumePending_nothing library input fromTask k pending]
    exact owed
  | some x =>
    have owed' : Owed E A k.debts
        (s.modifyProcessor fun p => { p with pending := none, sinceResume := 0 }) :=
      owed.same rfl rfl
    obtain ⟨frame | ip, mark⟩ := x
    · rw [resumePending_deliver library input fromTask k pending]
      cases input with
      | ok v => exact finishFrame_owes (k := .loop mark _ k) (hc.modify _) owed' ..
      | error e => exact owed'
    · rw [resumePending_instruction library input fromTask k pending]
      exact owed'

theorem dropFrame_local (hc : s.HasCurrent) :
    Local False 0 (fun _ _ => False) s (dropFrame s).2 := by
  cases standing : (s.shape s.current).standing with
  | nil =>
    have empty : s.processor.frames = #[] := by
      simpa [State.shape, Processor.shape, State.processor] using standing
    have run : dropFrame s = (none, s) := by
      simp only [dropFrame, Exec.popFrame, Exec.topFrame?, bind, EStateM.bind, get, getThe,
        MonadStateOf.get, EStateM.get, pure, EStateM.pure, empty]
      rfl
    rw [run]
    exact .refl s
  | cons a rest =>
    obtain ⟨f, s', popped, -, hl, -⟩ := Exec.popFrame_ok (σ := False) (w := fun _ _ => False) hc
      standing
    have run : dropFrame s = (some f, s') := by
      simp only [dropFrame, popped]
    rw [run]
    exact hl.weaken False.elim

theorem dropFrames_local (hc : s.HasCurrent) (count : Nat) :
    Local False 0 (fun _ _ => False) s (dropFrames count s).2 := by
  induction count generalizing s with
  | zero => exact .refl s
  | succ count ih =>
    have dropped := dropFrame_local hc
    exact dropped.trans (ih (dropped.hasCurrent hc))

theorem popToHandler_owes {k : Kont ν .step} (hc : s.HasCurrent) (owed : Owed E A k.debts s)
    (e : ScriptError) (mark : Mark) (count : Nat) :
    Owes E A (popToHandler library e mark k count s) := by
  induction count generalizing s with
  | zero => exact owed.same rfl rfl
  | succ count ih =>
    have dropped := dropFrame_local hc
    have owed := owed.local dropped
    have hc := dropped.hasCurrent hc
    generalize run : dropFrame s = result at owed hc
    obtain ⟨_ | frame, s'⟩ := result
    · rw [popToHandler, bind_of_eq run]
      exact owed.same rfl rfl
    · rw [popToHandler_succ library e count run]
      cases frame.handlers.errorHandler with
      | some handler => exact owed
      | none =>
        dsimp only
        split
        · exact owed.same rfl rfl
        · exact ih hc owed

theorem runDecorators_owes {k : Kont ν .step} (hc : s.HasCurrent) (owed : Owed E A k.debts s)
    (e : ScriptError) (caught : Bool) (mark : Mark) (decorators : List Value) :
    Owes E A (runDecorators library e caught mark k decorators s) := by
  cases decorators with
  | nil => exact popToHandler_owes hc owed ..
  | cons decorator others =>
    exact callNested_owes (k := .decorator e others caught mark k) hc owed ..

theorem unwind_owes {k : Kont ν .step} (hc : s.HasCurrent) (owed : Owed E A k.debts s)
    (fault : Fault) (ip : Nat) (mark : Mark) : Owes E A (unwind library fault ip mark k s) := by
  cases fault with
  | script e =>
    change Owes E A ((if _ then _ else _ : Move ν (Control ν)) s)
    generalize (if e.isDecorated then e else s.decorate e ip) = e
    split
    · exact popToHandler_owes hc owed ..
    · exact runDecorators_owes hc owed ..
  | _ =>
    have dropped := dropFrames_local hc (s.callDepth - mark.frames)
    exact (owed.local dropped).same rfl rfl

theorem resumeFrom_owes {k : Kont ν .step} (hc : s.HasCurrent) (owed : Owed E A k.debts s)
    (function : Value) (state : CoroutineState) (arguments : List Value) :
    Owes E A (resumeFrom library function state arguments k s) := by
  have hc' := hc.modify fun p => { p with sinceResume := 0 }
  have owed' : Owed E A k.debts (s.modifyProcessor fun p => { p with sinceResume := 0 }) :=
    owed.same rfl rfl
  cases state with
  | notStarted => exact executeCall_owes hc' owed' ..
  | suspended => exact resumePending_owes hc' owed' (.ok (Value.ofList arguments)) false
  | forceSuspended => exact resumePending_owes hc' owed' (.ok .void) false
  | running | dead => exact owed'

theorem resume_owes {k : Kont ν .value} (size : s.processors.size = s.coroutines.size + 1)
    (owed : Owed E A k.debts s) (mode : ResumeMode) (c : ThreadId) (arguments : List Value) :
    Owes E A (resume library mode c arguments k s) := by
  rw [resume_eq]
  cases refusal : resumeRefusal (s.coroutineState c) arguments with
  | some cause => exact owed
  | none =>
    have alive : s.coroutineState c ≠ .dead := fun h => by simp [resumeRefusal, h] at refusal
    have inRange : c.index < s.processors.size := by
      rw [size]
      exact Nat.lt_succ_of_le (State.inRange_of_coroutineState alive).2
    have call : Debt.call ∈ Debt.resumption mode c :: k.debts := List.mem_cons_of_mem _ owed.call
    have active : c :: s.active = Debt.active (.resumption mode c :: k.debts) ++ A := by
      rw [owed.active]
      rfl
    let s' : State ν :=
      { s.setCoroutineState c .running with active := c :: s.active, current := c }
    have runs : s'.HasCurrent := inRange
    cases mode with
    | synchronous =>
      have owed' : Owed E A (.resumption .synchronous c :: k.debts)
          { s' with entries := s.entries + 1 } :=
        ⟨congrArg Nat.succ owed.entries, active, call⟩
      exact resumeFrom_owes (s := { s' with entries := s.entries + 1 })
        (k := .resumed .synchronous c s.current k) runs owed' ..
    | asynchronous =>
      have owed' : Owed E A (.resumption .asynchronous c :: k.debts)
          (s'.modifyProcessor fun p => { p with asyncMode := true }) :=
        ⟨owed.entries, active, call⟩
      exact resumeFrom_owes (k := .resumed .asynchronous c s.current k) (runs.modify _) owed' ..

theorem endResume_owes {k : Kont ν .value} {mode : ResumeMode} {c : ThreadId}
    (owed : Owed E A (.resumption mode c :: k.debts) s) (previous : ThreadId)
    (outcome : Except Fault Step) : Owes E A (endResume mode c previous outcome k s) := by
  have call : Debt.call ∈ k.debts := (List.mem_cons.1 owed.call).resolve_left nofun
  have active : s.active.tail = Debt.active k.debts ++ A := by
    rw [owed.active]
    rfl
  cases mode with
  | synchronous => exact ⟨congrArg Nat.pred owed.entries, active, call⟩
  | asynchronous => exact ⟨owed.entries, active, call⟩

theorem driveAsync_owes {k : Kont ν .value} (hc : s.HasCurrent) (owed : Owed E A k.debts s)
    (function : Value) (arguments : List Value) :
    Owes E A (driveAsync library function arguments k s) := by
  change Owes E A ((if _ then _ else _ : Move ν (Control ν)) s)
  split
  · exact owed
  · exact executeCall_owes (k := .drive s.processor.asyncMode k) (hc.modify _)
      (owed.same rfl rfl) ..

/-- Work on the spot that keeps the books. -/
theorem direct_owes {k : Kont ν .value} {next : Except Fault Value → Program ν}
    {work : Exec ν Value} (ok : ∀ v s', work s = .ok v s' → Owed E A k.debts s')
    (error : ∀ e s', work s = .error e s' → Owed E A k.debts s') :
    Owes E A (runProgram.direct k work next s) := by
  unfold runProgram.direct Exec.andThen
  cases run : work s with
  | ok v s' => exact ok v s' run
  | error e s' => exact error e s' run

theorem spawn_owes {k : Kont ν .value} (owed : Owed E A k.debts s) (function : Value)
    (next : Except Fault Value → Program ν) :
    Owes E A (runProgram.direct k (Exec.spawn function) next s) := by
  refine direct_owes (fun v s' run => ?_) fun e s' run => ?_
  · unfold Exec.spawn at run
    split at run
    · cases run
      exact owed.same rfl rfl
    · contradiction
  · unfold Exec.spawn at run
    split at run
    · contradiction
    · cases run
      exact owed

theorem undump_owes {k : Kont ν .value} (owed : Owed E A k.debts s) (bytes : List UInt8)
    (next : Except Fault Value → Program ν) :
    Owes E A (runProgram.direct k (Exec.undump bytes) next s) := by
  have aside := aside_undump (s := s) bytes
  unfold WorksAside at aside
  refine direct_owes (fun v s' run => ?_) fun e s' run => ?_
  all_goals
    rw [run] at aside
    exact owed.same aside.entries aside.active

theorem assign_owes {k : Kont ν .value} (hc : s.HasCurrent) (owed : Owed E A k.debts s)
    (name : String) (v : Value) (next : Except Fault Value → Program ν) :
    Owes E A (runProgram.direct k (do Exec.assignAll [(name, v)]; return .void) next s) := by
  have assigned := Exec.stays_assignAll (σ := False) (w := fun _ _ => False) id [(name, v)] (b := 0)
    (s := s) ⟨hc, False.elim⟩
  have work : Exec.Stays False 0 (fun _ _ => False) s
      (do Exec.assignAll [(name, v)]; return .void : Exec ν Value) fun _ _ => True :=
    Exec.stays_bind assigned fun _ _ _ _ => Exec.stays_pure trivial
  exact direct_owes (fun v s' run => owed.local (work.ok v s' run).1.toLocal)
    fun e s' run => owed.local (work.error e s' run).1.toLocal

theorem runProgram_owes {k : Kont ν .value} (hc : s.HasCurrent)
    (size : s.processors.size = s.coroutines.size + 1) (owed : Owed E A k.debts s)
    (p : Program ν) : Owes E A (runProgram library k p s) := by
  have entered : Owed E A (.call :: k.debts) { s with entries := s.entries + 1 } :=
    ⟨congrArg Nat.succ owed.entries, owed.active, List.mem_cons_self ..⟩
  cases p with
  | finish outcome => exact owed
  | change action next => exact owed.same rfl rfl
  | ask query next => exact owed
  | print values next => exact owed.same rfl rfl
  | spawn function next => exact spawn_owes owed ..
  | autoYield c budget next =>
    change Owed E A k.debts (Exec.setAutoYield c budget s).2
    change Owed E A k.debts (if _ then _ else _)
    split
    · exact owed
    · exact owed.same rfl rfl
  | undump bytes next => exact undump_owes owed ..
  | assign name v next => exact assign_owes hc owed ..
  | call function arguments next => exact callNested_owes (k := .routine next k) hc owed ..
  | index object key next => exact indexNested_owes (k := .routine next k) hc owed ..
  | resume c arguments next => exact resume_owes (k := .routine next k) size owed ..
  | enter function arguments next =>
    exact callNested_owes (s := { s with entries := s.entries + 1 })
      (k := .exit (.routine next k)) hc entered ..
  | enterMethod object method arguments next =>
    exact indexNested_owes (s := { s with entries := s.entries + 1 })
      (k := .method object method arguments (.exit (.routine next k))) hc entered ..
  | enterAsync function arguments next =>
    exact driveAsync_owes (s := { s with entries := s.entries + 1 })
      (k := .exit (.routine next k)) hc entered ..

variable {σ : Prop} {V : ThreadId → List Place} {t : Thread} {W ts : List Thread}

theorem handValue_owes (library : Library ν) (hc : s.HasCurrent) {k : Kont ν .value}
    (confined : k.Confined) (holds : Holds σ k t W) (owed : Owed E A k.debts s)
    (outcome : Except Fault Value) :
    k = .exit .host ∨ Owes E A (handValue library outcome k s) := by
  cases holds with
  | host _ _ _ => exact absurd owed.call (List.not_mem_nil)
  | exit _ => exact .inl (congrArg Kont.exit confined)
  | routine _ | collapse _ => exact .inr owed
  | @method _ _ _ k _ _ _ =>
    right
    cases outcome with
    | ok v => exact nestedCall_owes (k := k) hc owed ..
    | error e => exact owed
  | @asyncMethod _ _ k _ _ _ =>
    right
    cases outcome with
    | ok v => exact driveAsync_owes (k := k) hc owed ..
    | error e => exact owed
  | @native k a under e h _ _ _ _ _ =>
    right
    cases outcome with
    | error e => exact owed
    | ok v =>
      have dropped := dropFrame_local hc
      simp only [dropFrame] at dropped
      change Owes E A (Exec.popFrame.andThen (fun frame => finishFrame library frame v true k)
        (fun e => pure (.step (.error e) k)) s)
      unfold Exec.andThen
      cases run : Exec.popFrame s with
      | ok frame s' =>
        rw [run] at dropped
        exact finishFrame_owes (dropped.hasCurrent hc) (owed.local dropped) ..
      | error e s' =>
        rw [run] at dropped
        exact owed.local dropped
  | finish _ _ _ =>
    right
    cases outcome with
    | error e => exact owed
    | ok v => exact finishFrame_owes hc owed ..
  | @instruction after ip mark at_ k _ _ _ _ _ _ _ _ _ =>
    right
    cases outcome with
    | error e => exact owed
    | ok v =>
      have work := stays_finishNested (σ := False) (w := fun _ _ => False) after v (b := 0) (s := s)
        ⟨hc, False.elim⟩
      change Owes E A ((Exec.finishNested after v).andThen
        (fun _ => pure (.step (.ok (.proceed (ip + 1))) (.loop mark at_ k)))
        (fun e => pure (.step (.error e) (.loop mark at_ k))) s)
      unfold Exec.andThen
      cases run : Exec.finishNested after v s with
      | ok u s' => exact owed.local (work.ok u s' run).1.toLocal
      | error e s' => exact owed.local (work.error e s' run).1.toLocal
  | decorator _ _ _ _ => exact .inr (runDecorators_owes hc owed ..)

theorem handStep_owes {k : Kont ν .step} {outcome : Except Fault Step}
    (hc : ∀ e, outcome = .error e → s.HasCurrent) (owed : Owed E A k.debts s) :
    Owes E A (handStep library outcome k s) := by
  cases k with
  | loop mark ip k =>
    match outcome with
    | .ok (.proceed _) | .ok (.return _) | .ok (.suspend _) => exact owed
    | .error e => exact unwind_owes (k := k) (hc e rfl) owed ..
  | protect frame handler mark k =>
    cases outcome with
    | ok _ => exact owed
    | error e =>
      cases e with
      | script e =>
        change Owes E A ((if _ then _ else _ : Move ν (Control ν)) s)
        split
        · exact owed.same rfl rfl
        · exact owed
      | _ => exact owed
  | nested k => exact owed.same rfl rfl
  | drive previous k =>
    match outcome with
    | .ok (.suspend (.await _)) => exact owed
    | .ok (.proceed _) | .ok (.return _) | .ok (.suspend (.yield _)) | .ok (.suspend .forced)
    | .error _ => exact owed.same rfl rfl
  | resumed mode c previous k =>
    have ended : Owes E A (endResume mode c previous outcome k s) :=
      endResume_owes owed previous outcome
    match mode, outcome with
    | .asynchronous, .ok (.suspend (.await _)) => exact owed.same rfl rfl
    | .synchronous, _ | .asynchronous, .ok (.proceed _) | .asynchronous, .ok (.return _)
    | .asynchronous, .ok (.suspend (.yield _)) | .asynchronous, .ok (.suspend .forced)
    | .asynchronous, .error _ => exact ended

theorem execute_owes {k : Kont ν .step} (hc : s.HasCurrent) {g : Activation}
    {rest : List Activation} (standing : (s.shape s.current).standing = g :: rest)
    (script : g.isNative = false) (owed : Owed E A k.debts s) (ip : Nat) (mark : Mark) :
    Owes E A (advance library (.execute ip mark k) s) := by
  have turned : Exec.Turned False (fun _ _ => False) s g rest ip (Exec.executeAt ip s) :=
    Exec.executeAt_turned ⟨hc, False.elim⟩ standing script nofun nofun
  change Owes E A ((Exec.executeAt ip).andThen (fun effect => perform library ip mark k effect)
    (fun e => unwind library e ip mark k) s)
  unfold Exec.andThen
  generalize Exec.executeAt ip s = result at turned
  cases turned with
  | failed steady _ _ => exact unwind_owes (steady.hasCurrent hc) (owed.local steady.toLocal) ..
  | forced _ hl _ _ => exact owed.local hl
  | left hl _ _ _ =>
    exact finishFrame_owes (k := .loop mark ip k) (hl.hasCurrent hc) (owed.local hl) ..
  | reused hl _ _ _ _ _ =>
    exact performCall_owes (k := .loop mark ip k) (hl.hasCurrent hc) (owed.local hl) _
  | @asked effect s' steady _ =>
    have owed := owed.local steady.toLocal
    have hc := steady.hasCurrent hc
    cases effect with
    | next | jump _ => exact owed
    | call spec => exact performCall_owes (k := .loop mark ip k) hc owed _
    | leave frame v => exact finishFrame_owes (k := .loop mark ip k) hc owed ..
    | nested function arguments after =>
      exact callNested_owes (k := .instruction after ip (.loop mark ip k)) hc owed ..

/-- A suspended call goes on with the outcome of its task. -/
theorem settle_owes {c : ThreadId} {k : Kont ν .step} (stands : Stands σ s V ts)
    (tasked : Tasked σ s c k ts) (owed : Owed E A k.debts s) (outcome : Except Fault Value) :
    Owes E A (handValue library outcome (.task c k) s) := by
  have inRange : c.index < s.processors.size := stands.inRange tasked.phase
  exact resumePending_owes (s := { s with current := c }) inRange (owed.same rfl rfl) ..

/-- **A step keeps the books**, unless it pays for the call of the host. -/
theorem advance_owes (library : Library ν) {control : Control ν} (stands : Stands σ s V ts)
    (poised : Poised σ s control ts) (confined : control.Confined) (owes : Owes E A (control, s)) :
    (∃ r, control = .value r (.exit .host)) ∨ Owes E A (advance library control s) := by
  cases poised with
  | execute current script hl room loops =>
    exact .inr (execute_owes (stands.hasCurrent current) (stands.standing current) script owes ..)
  | run current _ => exact .inr (runProgram_owes (stands.hasCurrent current) stands.size owes _)
  | @value r k _ _ current holds =>
    obtain rfl | owes := handValue_owes library (stands.hasCurrent current) confined holds owes r
    · exact .inl ⟨r, rfl⟩
    · exact .inr owes
  | @blocked task _ _ _ _ _ => cases task <;> exact .inr owes
  | idle _ => exact absurd owes.call List.not_mem_nil
  | @awaits task _ _ _ _ => cases task <;> exact .inr owes
  | settles tasked => exact .inr (settle_owes stands tasked owes _)
  | @arrives r k a under e t W current arrives guards =>
    have runs : s.current = t.id := by
      cases arrives <;> exact current
    exact .inr (handStep_owes (fun _ _ => stands.hasCurrent runs) owes)
  | leaves current _ _ => exact .inr (handStep_owes (fun _ _ => stands.hasCurrent current) owes)
  | parts _ _ _ _ _ => exact .inr (handStep_owes nofun owes)

end Machine

end ScriptMachine
