import ScriptMachine.Proofs.Machine.Blind
import ScriptMachine.Proofs.Machine.Ledger

/-!
# While a coroutine runs

Between the moment a host resumes a coroutine and the moment it gets the turn back, all who wait are
nested in that one resumption.

* `Kont.Serves`: who may wait. The indexes say which thread runs, and how many calls are nested in
  the activations of the coroutine.
* `Served`: the state agrees with those who wait.
* `advance_served`: a step keeps it so, until the coroutine stops.
-/

namespace ScriptMachine

variable {ν : Type}

structure Visit where
  coroutine : ThreadId
  /-- The thread that goes on when the coroutine stops. -/
  previous : ThreadId
  entries : Nat
  active : List ThreadId

def Visit.kont (v : Visit) : Kont ν .step := .resumed .synchronous v.coroutine v.previous .host

/-- Below a loop is the call it is nested in, or the resumption of its thread. The loop of the
coroutine itself has the empty mark. -/
inductive Kont.Loops (c : ThreadId) (mark : Mark) : Kont ν .step → Prop
  | nested (k : Kont ν .value) : Loops c mark (.nested k)
  | resumed {mode : ResumeMode} {d previous : ThreadId} {k : Kont ν .value} :
      (d = c → mark = {}) → Loops c mark (.resumed mode d previous k)

/-- Those who wait during a visit, while the thread `d` runs and `n` calls are nested in the
activations of the coroutine. -/
inductive Kont.Serves (v : Visit) : {a : Awaited} → (d : ThreadId) → (n : Nat) → Kont ν a → Prop
  | host : Serves v v.coroutine 0 v.kont
  | resumed {d p : ThreadId} {n : Nat} {k : Kont ν .value} : d ≠ v.coroutine → d ≠ .root →
      Serves v p n k → Serves v d n (.resumed .synchronous d p k)
  | nestedOwn {n : Nat} {k : Kont ν .value} : Serves v v.coroutine n k →
      Serves v v.coroutine (n + 1) (.nested k)
  | nested {d : ThreadId} {n : Nat} {k : Kont ν .value} : d ≠ v.coroutine → Serves v d n k →
      Serves v d n (.nested k)
  | loop {d : ThreadId} {n : Nat} {mark : Mark} {ip : Nat} {k : Kont ν .step} :
      k.Loops v.coroutine mark → Serves v d n k → Serves v d n (.loop mark ip k)
  | decorator {d : ThreadId} {n : Nat} {error : ScriptError} {others : List Value} {caught : Bool}
      {mark : Mark} {k : Kont ν .step} : k.Loops v.coroutine mark → Serves v d n k →
      Serves v d n (.decorator error others caught mark k)
  | protect {d : ThreadId} {n : Nat} {frame : Frame} {handler : NativeId} {mark : Mark}
      {k : Kont ν .step} : Serves v d n k → Serves v d n (.protect frame handler mark k)
  | native {d : ThreadId} {n : Nat} {k : Kont ν .step} : Serves v d n k → Serves v d n (.native k)
  | finish {d : ThreadId} {n : Nat} {frame : Frame} {k : Kont ν .step} : Serves v d n k →
      Serves v d n (.finish frame k)
  | instruction {d : ThreadId} {n : Nat} {after : After} {ip : Nat} {k : Kont ν .step} :
      Serves v d n k → Serves v d n (.instruction after ip k)
  | collapse {d : ThreadId} {n : Nat} {k : Kont ν .value} : Serves v d n k →
      Serves v d n (.collapse k)
  | method {d : ThreadId} {n : Nat} {object : Value} {name : String} {arguments : List Value}
      {k : Kont ν .value} : Serves v d n k → Serves v d n (.method object name arguments k)
  | exit {d : ThreadId} {n : Nat} {k : Kont ν .value} : Serves v d n k → Serves v d n (.exit k)
  | routine {d : ThreadId} {n : Nat} {next : Except Fault Value → Program ν} {k : Kont ν .value} :
      (∀ r, (next r).Unaware) → Serves v d n k → Serves v d n (.routine next k)

/-- The state during a visit. The coroutine has no share. -/
structure State.Visited (v : Visit) (d : ThreadId) (n : Nat) (debts : List Debt) (s : State ν) :
    Prop where
  current : s.current = d
  inRange : v.coroutine.index < s.processors.size
  running : s.coroutineState v.coroutine = .running
  nested : (s.processorOf v.coroutine).nestedCalls = n
  off : (s.processorOf v.coroutine).autoYield = 0
  entries : s.entries = v.entries + Debt.entries debts
  active : s.active = Debt.active debts ++ v.active
  unlimited : s.options.instructionLimit = none

/-- The state agrees with those who wait, and the coroutine is not suspended. -/
def Kont.Tends {a : Awaited} (v : Visit) (k : Kont ν a) (s : State ν) : Prop :=
  ∃ d n, k.Serves v d n ∧ s.Visited v d n k.debts ∧ (s.processorOf v.coroutine).pending = none

inductive Served (v : Visit) : Control ν × State ν → Prop
  | execute {s : State ν} {ip : Nat} {mark : Mark} {k : Kont ν .step} :
      k.Loops v.coroutine mark → k.Tends v s → Served v (.execute ip mark k, s)
  | run {s : State ν} {program : Program ν} {k : Kont ν .value} : program.Unaware → k.Tends v s →
      Served v (.run program k, s)
  | step {s : State ν} {outcome : Except Fault Step} {k : Kont ν .step} : k.Tends v s →
      (∀ x, outcome = .ok (.suspend x) → s.current ≠ v.coroutine) →
      Served v (.step outcome k, s)
  /-- The coroutine has yielded, or waits for a task. -/
  | suspended {s : State ν} {x : Suspension} {k : Kont ν .step} : x ≠ .forced →
      k.Serves v v.coroutine 0 → s.Visited v v.coroutine 0 k.debts →
      (∀ r mark, (s.processorOf v.coroutine).pending = some (r, mark) → mark = {}) →
      Served v (.step (.ok (.suspend x)) k, s)
  | value {s : State ν} {outcome : Except Fault Value} {k : Kont ν .value} : k.Tends v s →
      Served v (.value outcome k, s)
  | await {s : State ν} {task : Task} {k : Kont ν .value} : k.Tends v s →
      Served v (.await task k, s)

namespace Kont

variable {v : Visit} {s s' : State ν} {a b : Awaited}

/-- Another one waits, for the same thread. -/
theorem Tends.push {k : Kont ν a} {k' : Kont ν b} (h : k.Tends v s)
    (serves : ∀ d n, k.Serves v d n → k'.Serves v d n) (debts : k'.debts = k.debts) :
    k'.Tends v s := by
  obtain ⟨d, n, hk, visited, pending⟩ := h
  exact ⟨d, n, serves d n hk, debts ▸ visited, pending⟩

theorem Tends.quiet {k : Kont ν a} (h : k.Tends v s) (q : Quiet v.coroutine s s') :
    k.Tends v s' := by
  obtain ⟨d, n, hk, visited, pending⟩ := h
  refine ⟨d, n, hk, ⟨q.current.trans visited.current, q.size ▸ visited.inRange, ?_, ?_, ?_,
    q.entries.trans visited.entries, q.active.trans visited.active, ?_⟩, ?_⟩
  · simp only [State.coroutineState, State.coroutine, q.coroutines]
    exact visited.running
  · exact (congrArg Processor.nestedCalls q.bare).trans visited.nested
  · exact (congrArg Processor.autoYield q.bare).trans visited.off
  · rw [q.options]
    exact visited.unlimited
  · exact (congrArg Processor.pending q.bare).trans pending

theorem Tends.running {k : Kont ν a} (h : k.Tends v s) :
    s.coroutineState v.coroutine = .running := by
  obtain ⟨_, _, _, visited, _⟩ := h
  exact visited.running

theorem Tends.inRange {k : Kont ν a} (h : k.Tends v s) :
    v.coroutine.index < s.processors.size := by
  obtain ⟨_, _, _, visited, _⟩ := h
  exact visited.inRange

theorem Tends.native {k : Kont ν .step} (h : k.Tends v s) : (Kont.native k).Tends v s :=
  h.push (fun _ _ => .native) rfl

theorem Tends.loop {k : Kont ν .step} {mark : Mark} (h : k.Tends v s)
    (loops : k.Loops v.coroutine mark) (ip : Nat) : (Kont.loop mark ip k).Tends v s :=
  h.push (fun _ _ => .loop loops) rfl

theorem Tends.finish {k : Kont ν .step} (h : k.Tends v s) (frame : Frame) :
    (Kont.finish frame k).Tends v s :=
  h.push (fun _ _ => .finish) rfl

theorem Tends.of_loop {k : Kont ν .step} {mark : Mark} {ip : Nat}
    (h : (Kont.loop mark ip k).Tends v s) : k.Loops v.coroutine mark ∧ k.Tends v s := by
  obtain ⟨d, n, hk, visited, pending⟩ := h
  cases hk with
  | loop loops hk => exact ⟨loops, d, n, hk, visited, pending⟩

/-- The processor that runs changes, apart from what is seen of the coroutine. -/
theorem Tends.modify {k : Kont ν a} (h : k.Tends v s) (f : Processor → Processor)
    (hf : s.current = v.coroutine → ∀ p, (f p).bare = p.bare) :
    k.Tends v (s.modifyProcessor f) := by
  refine h.quiet ⟨rfl, rfl, rfl, rfl, rfl,
    by simp [State.modifyProcessor, State.modifyProcessorOf], ?_⟩
  by_cases own : s.current = v.coroutine
  · exact State.view_modifyProcessorOf s f _ _ Processor.bare (hf own)
  · exact congrArg _ (State.processorOf_modifyProcessorOf_ne s f (Ne.symm own))

/-- A call is nested in the activations of the thread that runs. -/
theorem Tends.nested {k : Kont ν .value} (h : k.Tends v s) :
    (Kont.nested k).Tends v
      (s.modifyProcessor fun p => { p with nestedCalls := p.nestedCalls + 1 }) := by
  by_cases own : s.current = v.coroutine
  · obtain ⟨d, n, hk, visited, pending⟩ := h
    obtain rfl : d = v.coroutine := visited.current.symm.trans own
    have changed : (s.modifyProcessor fun p => { p with nestedCalls := p.nestedCalls + 1 }).processorOf
        v.coroutine = { s.processorOf v.coroutine with
          nestedCalls := (s.processorOf v.coroutine).nestedCalls + 1 } := by
      rw [State.modifyProcessor, own]
      exact State.processorOf_modifyProcessorOf s _ visited.inRange
    refine ⟨_, n + 1, .nestedOwn hk, ⟨own, ?_, visited.running, ?_, ?_, visited.entries,
      visited.active, visited.unlimited⟩, ?_⟩
    · simpa [State.modifyProcessor, State.modifyProcessorOf] using visited.inRange
    · rw [changed, visited.nested]
    · rw [changed, visited.off]
    · rw [changed, pending]
  · obtain ⟨d, n, hk, visited, pending⟩ := h.modify (fun p =>
      { p with nestedCalls := p.nestedCalls + 1 }) fun e => absurd e own
    exact ⟨d, n, .nested (fun e => own (visited.current.trans e)) hk, visited, pending⟩

theorem Tends.of_nested {k : Kont ν .value} (h : (Kont.nested k).Tends v s) :
    k.Tends v (s.modifyProcessor fun p => { p with nestedCalls := p.nestedCalls - 1 }) := by
  obtain ⟨d, n, hk, visited, pending⟩ := h
  cases hk with
  | @nestedOwn n _ hk =>
    have own : s.current = v.coroutine := visited.current
    have changed : (s.modifyProcessor fun p => { p with nestedCalls := p.nestedCalls - 1 }).processorOf
        v.coroutine = { s.processorOf v.coroutine with
          nestedCalls := (s.processorOf v.coroutine).nestedCalls - 1 } := by
      rw [State.modifyProcessor, own]
      exact State.processorOf_modifyProcessorOf s _ visited.inRange
    refine ⟨_, n, hk, ⟨own, ?_, visited.running, ?_, ?_, visited.entries, visited.active,
      visited.unlimited⟩, ?_⟩
    · simpa [State.modifyProcessor, State.modifyProcessorOf] using visited.inRange
    · rw [changed, visited.nested]
      rfl
    · rw [changed, visited.off]
    · rw [changed, pending]
  | nested other hk =>
    exact Tends.modify ⟨d, n, hk, visited, pending⟩ _ fun e =>
      absurd (visited.current.symm.trans e) other

end Kont

theorem Served.fails {v : Visit} {s : State ν} {k : Kont ν .step} (h : k.Tends v s) (e : Fault) :
    Served v (.step (.error e) k, s) := .step h fun _ e => by cases e

theorem Served.proceeds {v : Visit} {s : State ν} {k : Kont ν .step} (h : k.Tends v s) (ip : Nat) :
    Served v (.step (.ok (.proceed ip)) k, s) := .step h fun _ e => by cases e

theorem Served.returns {v : Visit} {s : State ν} {k : Kont ν .step} (h : k.Tends v s) (x : Value) :
    Served v (.step (.ok (.return x)) k, s) := .step h fun _ e => by cases e

namespace Machine

variable {library : Library ν} {v : Visit} {s : State ν}

theorem unaware_ofRoutine (unaware : library.Unaware) (routine : Routine ν) (i : Invocation) :
    (Program.ofRoutine library routine i).Unaware := by
  cases routine with
  | host r => exact unaware r i
  | tableNext =>
    change (Program.andThen _ _).Unaware
    unfold Program.andThen
    split
    · exact .ask (fun _ _ _ => rfl) fun _ => .finish _
    · exact .finish _
  | rangeNext =>
    change (Program.rangeNext i).Unaware
    unfold Program.rangeNext
    split
    · split <;> exact .finish _
    · exact .finish _

theorem invoke_served (unaware : library.Unaware) {k : Kont ν .value} (h : k.Tends v s)
    (f : NativeId) (operands : List Value) (isMethod : Bool) :
    Served v (invoke library f operands isMethod k s) :=
  .run (unaware_ofRoutine unaware ..) h

theorem performCall_served (unaware : library.Unaware) {k : Kont ν .step} (h : k.Tends v s)
    (spec : CallSpec) : Served v (performCall library spec k s) := by
  have blind : (enterCall spec).Blind v.coroutine {} s := Exec.blind_enterCall spec
  unfold performCall Exec.andThen
  cases run : enterCall spec s with
  | error e s' => exact .fails (h.quiet (blind.quiet_error run)) _
  | ok entered s' =>
    have h := h.quiet (blind.quiet_ok run)
    cases entered with
    | script => exact .proceeds h 0
    | native f operands => exact invoke_served unaware h.native ..

theorem executeCall_served (unaware : library.Unaware) {k : Kont ν .step} (h : k.Tends v s)
    (loops : k.Loops v.coroutine (mark s)) (function : Value) (arguments : List Value)
    (flags : FrameFlags) (name : Option String) :
    Served v (executeCall library function arguments flags name k s) :=
  performCall_served unaware ((h.loop loops 0).quiet (quiet_modifyStack ..)) _

theorem nestedCall_served (unaware : library.Unaware) {k : Kont ν .value} (h : k.Tends v s)
    (function : Value) (arguments : List Value) (flags : FrameFlags) (name : Option String) :
    Served v ((do
      beginNested
      executeCall library function arguments flags name (.nested k) : Move ν (Control ν)) s) :=
  executeCall_served unaware h.nested (.nested k) ..

theorem callNested_served (unaware : library.Unaware) {k : Kont ν .value} (h : k.Tends v s)
    (function : Value) (arguments : List Value) :
    Served v (callNested library function arguments k s) := by
  change Served v ((if _ then _ else _ : Move ν (Control ν)) s)
  split
  · exact .value h
  · exact nestedCall_served unaware h ..

theorem indexNested_served (unaware : library.Unaware) {k : Kont ν .value} (h : k.Tends v s)
    (object key : Value) : Served v (indexNested library object key k s) := by
  rw [indexNested_eq]
  cases s.resolveIndex key State.maxChain object with
  | error e => exact .value h
  | ok found =>
    cases found with
    | value v => exact .value h
    | call handler receiver =>
      exact callNested_served unaware (h.push (fun _ _ => .collapse) rfl) ..

theorem deliver_served {k : Kont ν .step} (h : k.Tends v s) (flags : FrameFlags)
    (returnAddress : Nat) (x : Value) : Served v (deliver flags returnAddress x k s) := by
  unfold deliver
  split
  · exact .returns h _
  · split
    · exact .proceeds (h.quiet (quiet_modifyStack ..)) _
    · exact .proceeds h _

theorem performTailRequest_served (unaware : library.Unaware) {k : Kont ν .step}
    (h : k.Tends v s) (frame : Frame) (request : TailCall) :
    Served v (performTailRequest library frame request k s) := by
  unfold performTailRequest
  split
  · exact .fails h _
  · refine performCall_served unaware (.quiet ?_ (quiet_modifyStack ..)) _
    split
    · exact h.push (fun _ _ => .protect) rfl
    · exact h

/-- The thread that runs is suspended with a frame. -/
theorem suspendOn_served {k : Kont ν .step} (h : k.Tends v s) (idle : s.processor.nestedCalls = 0)
    (frame : Frame) {x : Suspension} (yields : x ≠ .forced) :
    Served v (suspendOn frame x k s) := by
  by_cases own : s.current = v.coroutine
  · obtain ⟨d, n, hk, visited, pending⟩ := h
    obtain rfl : d = v.coroutine := visited.current.symm.trans own
    obtain rfl : n = 0 := by
      rw [← visited.nested, ← own]
      exact idle
    have changed : (s.modifyProcessor fun p =>
        { p with pending := some (.deliver frame, {}) }).processorOf v.coroutine =
        { s.processorOf v.coroutine with pending := some (.deliver frame, {}) } := by
      rw [State.modifyProcessor, own]
      exact State.processorOf_modifyProcessorOf s _ visited.inRange
    refine .suspended yields hk ⟨own, ?_, visited.running, ?_, ?_, visited.entries, visited.active,
      visited.unlimited⟩ ?_
    · simpa [State.modifyProcessor, State.modifyProcessorOf] using visited.inRange
    · rw [changed, visited.nested]
    · rw [changed, visited.off]
    · rw [changed]
      rintro r mark ⟨⟩
      rfl
  · exact .step (h.modify _ fun e => absurd e own) fun _ _ => own

theorem suspendForYield_served {k : Kont ν .step} (h : k.Tends v s) (frame : Frame)
    (values : List Value) : Served v (suspendForYield frame values k s) := by
  change Served v ((if _ then _ else if _ then _ else _ : Move ν (Control ν)) s)
  split
  · exact .fails h _
  · split
    · exact .fails h _
    · rename_i idle
      exact suspendOn_served h (Nat.eq_zero_of_not_pos idle) frame (by simp)

theorem handleAwait_served {k : Kont ν .step} (h : k.Tends v s) (frame : Frame)
    (request : RequestId) : Served v (handleAwait frame request k s) := by
  rw [handleAwait_eq]
  cases s.heap.takeTask request with
  | error e => exact .fails h _
  | ok taken =>
    have h : k.Tends v (s.setHeap taken.2) := h.quiet (quiet_of_eq rfl)
    change Served v ((if _ then _ else if _ then _ else _ : Move ν (Control ν)) (s.setHeap _))
    split
    · rename_i idle
      simp only [Bool.and_eq_true, beq_iff_eq] at idle
      exact suspendOn_served h idle.2 frame (by simp)
    · split
      · exact .await (h.finish frame)
      · exact .fails h _

theorem finishFrame_served (unaware : library.Unaware) {k : Kont ν .step} (h : k.Tends v s)
    (frame : Frame) (x : Value) (fromNative : Bool) :
    Served v (finishFrame library frame x fromNative k s) := by
  unfold finishFrame
  split
  · exact performTailRequest_served unaware h ..
  · exact suspendForYield_served h ..
  · exact handleAwait_served h ..
  · cases frame.handlers.continuation with
    | some f => exact invoke_served unaware (h.finish _) ..
    | none => exact deliver_served h ..

theorem dropFrame_quiet (c : ThreadId) (s : State ν) : Quiet c s (dropFrame s).2 := by
  have blind : Exec.popFrame.Blind c {} s := Exec.blind_popFrame
  unfold dropFrame
  cases run : Exec.popFrame s with
  | ok frame s' => exact blind.quiet_ok run
  | error e s' => exact blind.quiet_error run

theorem dropFrames_quiet (c : ThreadId) (s : State ν) (count : Nat) :
    Quiet c s (dropFrames count s).2 := by
  induction count generalizing s with
  | zero => exact .refl s
  | succ count ih => exact (dropFrame_quiet c s).trans (ih _)

theorem popToHandler_served (unaware : library.Unaware) {k : Kont ν .step} {mark : Mark}
    (loops : k.Loops v.coroutine mark) (h : k.Tends v s) (e : ScriptError) (count : Nat) :
    Served v (popToHandler library e mark k count s) := by
  have gaveUp : ∀ {s : State ν}, k.Tends v s → Served v (popToHandler.giveUp e mark k s) :=
    fun h => .fails (h.quiet (quiet_modifyStack ..)) _
  induction count generalizing s with
  | zero => exact gaveUp h
  | succ count ih =>
    have h := h.quiet (dropFrame_quiet v.coroutine s)
    generalize run : dropFrame s = result at h
    obtain ⟨_ | frame, s'⟩ := result
    · rw [popToHandler, bind_of_eq run]
      exact gaveUp h
    · rw [popToHandler_succ library e count run]
      cases frame.handlers.errorHandler with
      | some handler => exact invoke_served unaware ((h.loop loops _).finish _) ..
      | none =>
        dsimp only
        split
        · exact gaveUp h
        · exact ih h

theorem runDecorators_served (unaware : library.Unaware) {k : Kont ν .step} {mark : Mark}
    (loops : k.Loops v.coroutine mark) (h : k.Tends v s) (e : ScriptError) (caught : Bool)
    (decorators : List Value) :
    Served v (runDecorators library e caught mark k decorators s) := by
  cases decorators with
  | nil => exact popToHandler_served unaware loops h ..
  | cons decorator others =>
    exact callNested_served unaware (h.push (fun _ _ => .decorator loops) rfl) ..

theorem unwind_served (unaware : library.Unaware) {k : Kont ν .step} {mark : Mark}
    (loops : k.Loops v.coroutine mark) (h : k.Tends v s) (fault : Fault) (ip : Nat) :
    Served v (unwind library fault ip mark k s) := by
  cases fault with
  | script e =>
    change Served v ((if _ then _ else _ : Move ν (Control ν)) s)
    generalize (if e.isDecorated then e else s.decorate e ip) = e
    split
    · exact popToHandler_served unaware loops h ..
    · exact runDecorators_served unaware loops h ..
  | _ =>
    have dropped := dropFrames_quiet v.coroutine s (s.callDepth - mark.frames)
    exact .fails (h.quiet (dropped.trans (quiet_modifyStack ..))) _

theorem resumePending_served (unaware : library.Unaware) {k : Kont ν .step} (h : k.Tends v s)
    (other : s.current ≠ v.coroutine) (loops : ∀ mark, k.Loops v.coroutine mark)
    (input : Except Fault Value) :
    Served v (resumePending library input false k s) := by
  have h' := h.modify (fun p => { p with pending := none, sinceResume := 0 }) fun e =>
    absurd e other
  cases pending : s.processor.pending with
  | none =>
    rw [resumePending_nothing library input false k pending]
    exact .fails h _
  | some x =>
    obtain ⟨frame | ip, mark⟩ := x
    · rw [resumePending_deliver library input false k pending]
      cases input with
      | ok x => exact finishFrame_served unaware (h'.loop (loops mark) _) ..
      | error e => exact .fails (h'.loop (loops mark) _) _
    · rw [resumePending_instruction library input false k pending]
      exact .execute (loops mark) h'

theorem resumeFrom_served (unaware : library.Unaware) {k : Kont ν .step} (h : k.Tends v s)
    (other : s.current ≠ v.coroutine) (loops : ∀ mark, k.Loops v.coroutine mark)
    (function : Value) (state : CoroutineState) (arguments : List Value) :
    Served v (resumeFrom library function state arguments k s) := by
  have h' := h.modify (fun p => { p with sinceResume := 0 }) fun e => absurd e other
  have other' : (s.modifyProcessor fun p => { p with sinceResume := 0 }).current ≠ v.coroutine :=
    other
  cases state with
  | notStarted => exact executeCall_served unaware h' (loops _) ..
  | suspended => exact resumePending_served unaware h' other' loops (.ok (Value.ofList arguments))
  | forceSuspended => exact resumePending_served unaware h' other' loops (.ok .void)
  | running | dead => exact .fails h' _

/-- Another coroutine is resumed. -/
theorem tends_resumed {k : Kont ν .value} (h : k.Tends v s) {d : ThreadId} (root : d ≠ .root)
    (other : d ≠ v.coroutine) :
    (Kont.resumed .synchronous d s.current k).Tends v (s.resuming d) := by
  obtain ⟨p, n, hk, visited, pending⟩ := h
  refine ⟨d, n, .resumed other root (visited.current ▸ hk), ⟨rfl, visited.inRange, ?_,
    visited.nested, visited.off, congrArg Nat.succ visited.entries, ?_, visited.unlimited⟩, pending⟩
  · exact (State.coroutineState_set_ne s .running root other.symm).trans visited.running
  · exact congrArg (d :: ·) visited.active

theorem resume_served (unaware : library.Unaware) {k : Kont ν .value} (h : k.Tends v s)
    (d : ThreadId) (arguments : List Value) :
    Served v (resume library .synchronous d arguments k s) := by
  cases refusal : resumeRefusal (s.coroutineState d) arguments with
  | some cause =>
    rw [resume_refused refusal]
    exact .value h
  | none =>
    rw [resume_accepted refusal]
    have alive : s.coroutineState d ≠ .dead := fun e => by simp [resumeRefusal, e] at refusal
    have other : d ≠ v.coroutine := by
      rintro rfl
      simp [resumeRefusal, h.running] at refusal
    have root := (State.inRange_of_coroutineState alive).1
    exact resumeFrom_served unaware (tends_resumed h root other) other
      (fun _ => .resumed fun e => absurd e other) ..

/-- Another coroutine stops, and the thread that resumed it goes on. -/
theorem endResume_served {k : Kont ν .value} {d p : ThreadId}
    (h : (Kont.resumed .synchronous d p k).Tends v s) (other : d ≠ v.coroutine)
    (outcome : Except Fault Step) : Served v (endResume .synchronous d p outcome k s) := by
  obtain ⟨_, n, hk, visited, pending⟩ := h
  cases hk with
  | host => exact absurd rfl other
  | resumed _ root hk =>
    refine .value ⟨p, n, hk, ⟨rfl, visited.inRange, ?_, visited.nested, visited.off,
      congrArg Nat.pred visited.entries, ?_, visited.unlimited⟩, pending⟩
    · exact (State.coroutineState_set_ne s _ root other.symm).trans visited.running
    · exact congrArg List.tail visited.active

theorem direct_served {work : Exec ν Value} {k : Kont ν .value} (h : k.Tends v s)
    (blind : work.Blind v.coroutine {} s) {next : Except Fault Value → Program ν}
    (unaware : ∀ r, (next r).Unaware) : Served v (runProgram.direct k work next s) := by
  unfold runProgram.direct Exec.andThen
  cases run : work s with
  | ok x s' => exact .run (unaware _) (h.quiet (blind.quiet_ok run))
  | error e s' => exact .run (unaware _) (h.quiet (blind.quiet_error run))

/-- A new coroutine does not concern the one that is visited. -/
theorem tends_newCoroutine {k : Kont ν .value} (h : k.Tends v s) (function : Value) :
    k.Tends v (s.newCoroutine function).2 := by
  obtain ⟨d, n, hk, visited, pending⟩ := h
  have same : (s.newCoroutine function).2.processorOf v.coroutine = s.processorOf v.coroutine := by
    simp only [State.newCoroutine, State.processorOf, Array.getElem?_push,
      Nat.ne_of_lt visited.inRange, ↓reduceIte]
  have alive : s.coroutineState v.coroutine ≠ .dead := by
    rw [visited.running]
    decide
  refine ⟨d, n, hk, ⟨visited.current, ?_, ?_, ?_, ?_, visited.entries, visited.active,
    visited.unlimited⟩, ?_⟩
  · simpa [State.newCoroutine] using Nat.lt_succ_of_lt visited.inRange
  · rw [← visited.running]
    obtain ⟨root, below⟩ := State.inRange_of_coroutineState alive
    generalize v.coroutine = c at root below
    obtain ⟨_ | i⟩ := c
    · exact absurd rfl root
    · simp only [State.newCoroutine, State.coroutineState, State.coroutine, Array.getElem?_push,
        Nat.ne_of_lt below, ↓reduceIte]
  · rw [same, visited.nested]
  · rw [same, visited.off]
  · rw [same, pending]

theorem setAutoYield_served {k : Kont ν .value} (h : k.Tends v s) (d : ThreadId) (budget : Nat) :
    k.Tends v (Exec.setAutoYield d budget s).2 := by
  change k.Tends v (if s.coroutineState d = .running then s else _)
  split
  · exact h
  · rename_i rests
    have other : d ≠ v.coroutine := fun e => rests (e ▸ h.running)
    exact h.quiet ⟨rfl, rfl, rfl, rfl, rfl, by simp [State.modifyProcessorOf],
      congrArg _ (State.processorOf_modifyProcessorOf_ne s _ other.symm)⟩

/-- A host call inside the visit is counted in. -/
theorem tends_exit {k : Kont ν .value} (h : k.Tends v s) :
    (Kont.exit k).Tends v { s with entries := s.entries + 1 } := by
  obtain ⟨d, n, hk, visited, pending⟩ := h
  exact ⟨d, n, .exit hk, { visited with entries := congrArg Nat.succ visited.entries }, pending⟩

theorem runProgram_served (unaware : library.Unaware) {k : Kont ν .value} (h : k.Tends v s)
    {program : Program ν} (hp : program.Unaware) : Served v (runProgram library k program s) := by
  have waits : ∀ {next : Except Fault Value → Program ν} {s : State ν}, (∀ r, (next r).Unaware) →
      k.Tends v s → (Kont.routine next k).Tends v s := fun hn h =>
    h.push (fun _ _ => .routine hn) rfl
  cases hp with
  | finish outcome => exact .value h
  | change hn => exact .run (hn _) (h.quiet (quiet_of_eq rfl))
  | ask _ hn => exact .run (hn _) h
  | print hn => exact .run hn (h.quiet (quiet_of_eq rfl))
  | @spawn function next hn =>
    change Served v (runProgram.direct k (Exec.spawn function) next s)
    rw [direct_spawn]
    split
    · exact .run (hn _) (tends_newCoroutine h function)
    · exact .run (hn _) h
  | autoYield hn => exact .run hn (setAutoYield_served h ..)
  | undump hn => exact direct_served h (Exec.blind_undump _) hn
  | assign hn =>
    exact direct_served h
      (Exec.blind_bind (Exec.blind_assignAll _) fun _ _ => Exec.blind_pure _) hn
  | call hn => exact callNested_served unaware (waits hn h) ..
  | index hn => exact indexNested_served unaware (waits hn h) ..
  | resume hn => exact resume_served unaware (waits hn h) ..
  | enter hn => exact callNested_served unaware (tends_exit (waits hn h)) ..
  | enterMethod hn =>
    exact indexNested_served unaware ((tends_exit (waits hn h)).push (fun _ _ => .method) rfl) ..

theorem handValue_served (unaware : library.Unaware) {k : Kont ν .value} (h : k.Tends v s)
    (outcome : Except Fault Value) : Served v (handValue library outcome k s) := by
  obtain ⟨d, n, hk, visited, pending⟩ := h
  cases hk with
  | @routine _ _ next k hn hk => exact .run (hn _) ⟨d, n, hk, visited, pending⟩
  | @native _ _ k hk =>
    have h : k.Tends v s := ⟨d, n, hk, visited, pending⟩
    cases outcome with
    | error e => exact .fails h _
    | ok x =>
      have blind : Exec.popFrame.Blind v.coroutine {} s := Exec.blind_popFrame
      change Served v (Exec.popFrame.andThen (fun frame => finishFrame library frame x true k)
        (fun e => pure (.step (.error e) k)) s)
      unfold Exec.andThen
      cases run : Exec.popFrame s with
      | ok frame s' => exact finishFrame_served unaware (h.quiet (blind.quiet_ok run)) ..
      | error e s' => exact .fails (h.quiet (blind.quiet_error run)) _
  | @finish _ _ frame k hk =>
    have h : k.Tends v s := ⟨d, n, hk, visited, pending⟩
    cases outcome with
    | error e => exact .fails h _
    | ok x => exact finishFrame_served unaware h ..
  | @instruction _ _ after ip k hk =>
    have h : k.Tends v s := ⟨d, n, hk, visited, pending⟩
    cases outcome with
    | error e => exact .fails h _
    | ok x =>
      have blind : (Exec.finishNested after x).Blind v.coroutine {} s :=
        Exec.blind_finishNested after x
      change Served v ((Exec.finishNested after x).andThen
        (fun _ => pure (.step (.ok (.proceed (ip + 1))) k)) (fun e => pure (.step (.error e) k)) s)
      unfold Exec.andThen
      cases run : Exec.finishNested after x s with
      | ok u s' => exact .proceeds (h.quiet (blind.quiet_ok run)) _
      | error e s' => exact .fails (h.quiet (blind.quiet_error run)) _
  | decorator loops hk =>
    exact runDecorators_served unaware loops ⟨d, n, hk, visited, pending⟩ ..
  | collapse hk => exact .value ⟨d, n, hk, visited, pending⟩
  | @method _ _ object name arguments k hk =>
    have h : k.Tends v s := ⟨d, n, hk, visited, pending⟩
    cases outcome with
    | error e => exact .value h
    | ok method => exact nestedCall_served unaware h ..
  | exit hk =>
    exact .value ⟨d, n, hk, { visited with entries := congrArg Nat.pred visited.entries }, pending⟩

theorem handStep_served (unaware : library.Unaware) {k : Kont ν .step} {outcome : Except Fault Step}
    (h : k.Tends v s) (others : ∀ x, outcome = .ok (.suspend x) → s.current ≠ v.coroutine) :
    k = v.kont ∨ Served v (handStep library outcome k s) := by
  obtain ⟨d, n, hk, visited, pending⟩ := h
  cases hk with
  | host => exact .inl rfl
  | @resumed _ p _ k other root hk =>
    exact .inr (endResume_served ⟨d, n, .resumed other root hk, visited, pending⟩ other outcome)
  | nestedOwn hk => exact .inr (.value (Kont.Tends.of_nested ⟨_, _, .nestedOwn hk, visited, pending⟩))
  | nested other hk =>
    exact .inr (.value (Kont.Tends.of_nested ⟨_, _, .nested other hk, visited, pending⟩))
  | @loop _ _ mark ip k loops hk =>
    right
    have h : k.Tends v s := ⟨d, n, hk, visited, pending⟩
    match outcome with
    | .ok (.proceed _) => exact .execute loops h
    | .ok (.return _) => exact .returns h _
    | .ok (.suspend x) => exact .step h others
    | .error e => exact unwind_served unaware loops h ..
  | @protect _ _ frame handler mark k hk =>
    right
    have h : k.Tends v s := ⟨d, n, hk, visited, pending⟩
    cases outcome with
    | ok x => exact .step h others
    | error e =>
      cases e with
      | script e =>
        change Served v ((if _ then _ else _ : Move ν (Control ν)) s)
        split
        · exact invoke_served unaware ((h.quiet (quiet_modifyStack ..)).finish _) ..
        · exact .fails h _
      | _ => exact .fails h _

theorem suspended_served (library : Library ν) {k : Kont ν .step} {x : Suspension} (yields : x ≠ .forced)
    (hk : k.Serves v v.coroutine 0) (visited : s.Visited v v.coroutine 0 k.debts)
    (marks : ∀ r mark, (s.processorOf v.coroutine).pending = some (r, mark) → mark = {}) :
    k = v.kont ∨ Served v (handStep library (.ok (.suspend x)) k s) := by
  cases hk with
  | host => exact .inl rfl
  | resumed other _ _ => exact absurd rfl other
  | nested other _ => exact absurd rfl other
  | loop _ hk => exact .inr (.suspended yields hk visited marks)
  | protect hk => exact .inr (.suspended yields hk visited marks)

theorem execute_served (unaware : library.Unaware) {k : Kont ν .step} {mark : Mark}
    (loops : k.Loops v.coroutine mark) (h : k.Tends v s) (ip : Nat) :
    Served v (advance library (.execute ip mark k) s) := by
  obtain ⟨d, n, hk, visited, pending⟩ := h
  have peaceful := Exec.executeAt_peaceful (c := v.coroutine) ip visited.unlimited visited.off
  have h : k.Tends v s := ⟨d, n, hk, visited, pending⟩
  change Served v ((Exec.executeAt ip).andThen (fun effect => perform library ip mark k effect)
    (fun e => unwind library e ip mark k) s)
  unfold Exec.andThen
  cases run : Exec.executeAt ip s with
  | error e s' => exact unwind_served unaware loops (h.quiet (peaceful.error e s' run)) ..
  | ok effect s' =>
    have quiet := peaceful.ok effect s' run
    have h := h.quiet quiet
    match effect with
    | none =>
      refine .step h fun _ _ => ?_
      rw [quiet.current]
      exact peaceful.taken s' run
    | some .next | some (.jump _) => exact .execute loops h
    | some (.call spec) => exact performCall_served unaware (h.loop loops ip) _
    | some (.leave frame x) => exact finishFrame_served unaware (h.loop loops ip) frame x false
    | some (.nested function arguments after) =>
      exact callNested_served unaware ((h.loop loops ip).push (fun _ _ => .instruction) rfl) ..

/-- **A step of a visit**, unless the coroutine stops. -/
theorem advance_served (unaware : library.Unaware) {control : Control ν}
    (served : Served v (control, s)) :
    (∃ outcome, control = .step outcome v.kont) ∨ Served v (advance library control s) := by
  cases served with
  | execute loops h => exact .inr (execute_served unaware loops h _)
  | run hp h => exact .inr (runProgram_served unaware h hp)
  | @step _ outcome _ h others =>
    obtain rfl | served := handStep_served unaware h others
    · exact .inl ⟨outcome, rfl⟩
    · exact .inr served
  | @suspended _ x _ yields hk visited marks =>
    obtain rfl | served := suspended_served library yields hk visited marks
    · exact .inl ⟨_, rfl⟩
    · exact .inr served
  | value h => exact .inr (handValue_served unaware h _)
  | @await _ task _ h =>
    cases task with
    | settles _ => exact .inr (.value h)
    | never => exact .inr (.await h)

end Machine

end ScriptMachine
