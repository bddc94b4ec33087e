import ScriptMachine.Machine.Entry
import ScriptMachine.Proofs.Machine.Meter
import ScriptMachine.Proofs.Machine.Unwinding

/-!
# Moves that look at no meter

What a machine does next does not depend on what its meters show, as long as its routines do not
look at them.

* `Program.Unaware`: a routine that does not depend on meters and forced yields.
* `Machine.Blind`: a move that does the same whatever the meters show.
-/

namespace ScriptMachine

variable {ν α β : Type}

/-- The routine observes neither the meters nor forced yields. An asynchronous call would run in
the loop of its own processor, and the routine would see a forced yield there as a fault. -/
inductive Program.Unaware : Program ν → Prop
  | finish (outcome : Except Fault Value) : Unaware (.finish outcome)
  | change {action : World ν → Except Fault Value × World ν} {next : Except Fault Value → Program ν} :
      (∀ r, Unaware (next r)) → Unaware (.change action next)
  | ask {query : State ν → Except Fault Value} {next : Except Fault Value → Program ν} :
      (∀ s c m, query (s.metered c m) = query s) → (∀ r, Unaware (next r)) →
      Unaware (.ask query next)
  | print {values : List Value} {next : Program ν} : Unaware next → Unaware (.print values next)
  | spawn {function : Value} {next : Except Fault Value → Program ν} :
      (∀ r, Unaware (next r)) → Unaware (.spawn function next)
  | autoYield {c : ThreadId} {budget : Nat} {next : Program ν} :
      Unaware next → Unaware (.autoYield c budget next)
  | undump {bytes : List UInt8} {next : Except Fault Value → Program ν} :
      (∀ r, Unaware (next r)) → Unaware (.undump bytes next)
  | assign {name : String} {v : Value} {next : Except Fault Value → Program ν} :
      (∀ r, Unaware (next r)) → Unaware (.assign name v next)
  | call {function : Value} {arguments : List Value} {next : Except Fault Value → Program ν} :
      (∀ r, Unaware (next r)) → Unaware (.call function arguments next)
  | index {object key : Value} {next : Except Fault Value → Program ν} :
      (∀ r, Unaware (next r)) → Unaware (.index object key next)
  | resume {c : ThreadId} {arguments : List Value} {next : Except Fault Value → Program ν} :
      (∀ r, Unaware (next r)) → Unaware (.resume c arguments next)
  | enter {function : Value} {arguments : List Value} {next : Except Fault Value → Program ν} :
      (∀ r, Unaware (next r)) → Unaware (.enter function arguments next)
  | enterMethod {object : Value} {method : String} {arguments : List Value}
      {next : Except Fault Value → Program ν} :
      (∀ r, Unaware (next r)) → Unaware (.enterMethod object method arguments next)

/-- No routine of the library observes meters or forced yields. -/
def Library.Unaware (library : Library ν) : Prop := ∀ r i, (library r i).Unaware

def State.resuming (s : State ν) (d : ThreadId) : State ν :=
  { s.setCoroutineState d .running with
    active := d :: s.active, current := d, entries := s.entries + 1 }

namespace Machine

variable {library : Library ν} {c : ThreadId} {m : Meter} {s : State ν}

/-- The move does the same whatever the meters show. -/
def Blind (c : ThreadId) (m : Meter) (s : State ν) (move : Move ν α) : Prop :=
  move (s.metered c m) = ((move s).1, (move s).2.metered c m)

theorem blind_pure (a : α) : Blind c m s (pure a) := rfl

theorem blind_bind {x : Move ν α} {f : α → Move ν β} (hx : Blind c m s x)
    (hf : Blind c m (x s).2 (f (x s).1)) : Blind c m s (x >>= f) := by
  change f (x (s.metered c m)).1 (x (s.metered c m)).2 = _
  rw [hx]
  exact hf

theorem blind_get {f : State ν → Move ν α}
    (h : f (s.metered c m) (s.metered c m) = ((f s s).1, (f s s).2.metered c m)) :
    Blind c m s (get >>= f) := h

theorem blind_modify {f : State ν → State ν} (h : f (s.metered c m) = (f s).metered c m) :
    Blind c m s (modify f) := congrArg (Prod.mk _) h

theorem blind_andThen {work : Exec ν α} {ok : α → Move ν (Control ν)}
    {error : Fault → Move ν (Control ν)} (hw : work.Blind c m.guise s)
    (hok : ∀ a s', Blind c m s' (ok a)) (herror : ∀ e s', Blind c m s' (error e)) :
    Blind c m s (work.andThen ok error) := by
  have agree : Exec.Agree (fun _ => Metered c m s 0) (Metered c m s 0) (work s)
      (work (s.metered c m)) := hw s (.refl s)
  unfold Blind Exec.andThen
  generalize work s = x at agree
  generalize work (s.metered c m) = y at agree
  cases agree with
  | ok h =>
    obtain ⟨rfl, -⟩ := h
    exact hok _ _
  | error h =>
    obtain ⟨rfl, -⟩ := h
    exact herror _ _

theorem blind_modifyStack (f : ValueStack → ValueStack) :
    Blind c m s (modify fun s => s.modifyStack f) :=
  blind_modify (s.modifyStack_guised c m.guise f)

/-- A change of the processor that runs, apart from its meters. -/
theorem blind_modifyProcessor {f : Processor → Processor}
    (h : s.current = c → ∀ p, f (p.metered m) = (f p).metered m) :
    Blind c m s (modify fun s => s.modifyProcessor f) :=
  blind_modify (s.modifyProcessorOf_metered c s.current m f h)

theorem mark_metered : mark (s.metered c m) = mark s := s.mark_guised c m.guise

theorem blind_invoke (f : NativeId) (operands : List Value) (isMethod : Bool)
    (k : Kont ν .value) : Blind c m s (invoke library f operands isMethod k) := rfl

theorem blind_performCall (spec : CallSpec) (k : Kont ν .step) :
    Blind c m s (performCall library spec k) := by
  refine blind_andThen (Exec.blind_enterCall spec) (fun entered s => ?_) fun _ _ => blind_pure _
  cases entered with
  | script => exact blind_pure _
  | native f operands => exact blind_invoke ..

theorem blind_executeCall (function : Value) (arguments : List Value) (flags : FrameFlags)
    (name : Option String) (k : Kont ν .step) :
    Blind c m s (executeCall library function arguments flags name k) := by
  apply blind_get
  rw [mark_metered]
  exact blind_bind (blind_modifyStack _) (blind_performCall ..)

theorem blind_beginNested : Blind c m s beginNested := blind_modifyProcessor fun _ _ => rfl

theorem blind_endNested : Blind c m s endNested := blind_modifyProcessor fun _ _ => rfl

theorem blind_callNested (function : Value) (arguments : List Value) (k : Kont ν .value) :
    Blind c m s (callNested library function arguments k) := by
  apply blind_get
  rw [State.nestedCalls_metered]
  split
  · rfl
  · exact blind_bind blind_beginNested (blind_executeCall ..)

theorem blind_indexNested (object key : Value) (k : Kont ν .value) :
    Blind c m s (indexNested library object key k) := by
  apply blind_get
  rw [State.resolveIndex_congr (s.world_metered c m)]
  cases s.resolveIndex key State.maxChain object with
  | error e => rfl
  | ok found =>
    cases found with
    | value v => rfl
    | call handler receiver => exact blind_callNested ..

theorem blind_deliver (flags : FrameFlags) (returnAddress : Nat) (v : Value) (k : Kont ν .step) :
    Blind c m s (deliver flags returnAddress v k) := by
  unfold deliver
  generalize (if flags.scalarResult then v.scalar else v) = v
  dsimp only
  split
  · rfl
  · split
    · exact blind_bind (blind_modifyStack _) (blind_pure _)
    · rfl

theorem blind_performTailRequest (frame : Frame) (request : TailCall) (k : Kont ν .step) :
    Blind c m s (performTailRequest library frame request k) := by
  unfold performTailRequest
  generalize (if frame.handlers.isEmpty = true then _ else frame.handlers) = handlers
  dsimp only
  split
  · rfl
  · apply blind_get
    rw [mark_metered]
    exact blind_bind (blind_modifyStack _) (blind_performCall ..)

theorem blind_suspendOn (frame : Frame) (suspension : Suspension) (k : Kont ν .step) :
    Blind c m s (suspendOn frame suspension k) :=
  blind_bind (blind_modifyProcessor fun _ _ => rfl) (blind_pure _)

theorem blind_suspendForYield (frame : Frame) (values : List Value) (k : Kont ν .step) :
    Blind c m s (suspendForYield frame values k) := by
  apply blind_get
  rw [State.nestedCalls_metered, show (s.metered c m).inCoroutine = s.inCoroutine from rfl]
  split
  · rfl
  · split
    · rfl
    · exact blind_suspendOn ..

theorem blind_handleAwait (frame : Frame) (request : RequestId) (k : Kont ν .step) :
    Blind c m s (handleAwait frame request k) := by
  apply blind_get
  rw [show (s.metered c m).heap = s.heap from rfl]
  simp only [State.nestedCalls_metered, State.asyncMode_metered, State.options_metered]
  cases s.heap.takeTask request with
  | error e => rfl
  | ok taken =>
    obtain ⟨task, heap⟩ := taken
    have rest : Blind c m (s.setHeap heap)
        (if s.processor.asyncMode && s.processor.nestedCalls == 0 then
          suspendOn frame (.await task) k
        else if s.options.autoAwait then return .await task (.finish frame k)
        else return .step (.error (.raise .awaitInSynchronousCall)) k : Move ν (Control ν)) := by
      split
      · exact blind_suspendOn ..
      · split <;> rfl
    exact rest

theorem blind_finishFrame (frame : Frame) (v : Value) (fromNative : Bool) (k : Kont ν .step) :
    Blind c m s (finishFrame library frame v fromNative k) := by
  unfold finishFrame
  split
  · exact blind_performTailRequest ..
  · exact blind_suspendForYield ..
  · exact blind_handleAwait ..
  · cases frame.handlers.continuation with
    | some f => exact blind_invoke ..
    | none => exact blind_deliver ..

theorem blind_dropFrame : Blind c m s dropFrame := by
  have popped : Exec.Agree (fun _ => Metered c m s 0) (Metered c m s 0) (Exec.popFrame s)
      (Exec.popFrame (s.metered c m)) := Exec.blind_popFrame (g := m.guise) s (.refl s)
  unfold Blind dropFrame
  generalize Exec.popFrame s = x at popped
  generalize Exec.popFrame (s.metered c m) = y at popped
  cases popped with
  | ok h | error h =>
    obtain ⟨rfl, -⟩ := h
    rfl

theorem blind_dropFrames (count : Nat) : Blind c m s (dropFrames count) := by
  induction count generalizing s with
  | zero => rfl
  | succ count ih => exact blind_bind blind_dropFrame ih

theorem callDepth_metered : (s.metered c m).callDepth = s.callDepth := s.callDepth_guised c m.guise

theorem blind_abandon (mark : Mark) : Blind c m s (abandon mark) := by
  apply blind_get
  rw [callDepth_metered]
  exact blind_bind (blind_dropFrames _) (blind_modifyStack _)

theorem blind_popToHandler (e : ScriptError) (mark : Mark) (k : Kont ν .step) (count : Nat) :
    Blind c m s (popToHandler library e mark k count) := by
  have gaveUp : ∀ s, Blind c m s (popToHandler.giveUp e mark k) := fun s =>
    blind_bind (blind_modifyStack _) (blind_pure _)
  induction count generalizing s with
  | zero => exact gaveUp s
  | succ count ih =>
    refine blind_bind blind_dropFrame ?_
    cases (dropFrame s).1 with
    | none => exact gaveUp _
    | some frame =>
      dsimp only
      cases frame.handlers.errorHandler with
      | some handler => exact blind_invoke ..
      | none =>
        dsimp only
        split
        · exact gaveUp _
        · exact ih

theorem blind_runDecorators (e : ScriptError) (caught : Bool) (mark : Mark) (k : Kont ν .step)
    (decorators : List Value) : Blind c m s (runDecorators library e caught mark k decorators) := by
  cases decorators with
  | nil =>
    apply blind_get
    rw [callDepth_metered]
    exact blind_popToHandler ..
  | cons decorator others => exact blind_callNested ..

theorem blind_unwind (fault : Fault) (ip : Nat) (mark : Mark) (k : Kont ν .step) :
    Blind c m s (unwind library fault ip mark k) := by
  have abandoned : ∀ fault : Fault, Blind c m s
      (do abandon mark; return .step (.error fault) k : Move ν (Control ν)) := fun fault =>
    blind_bind (blind_abandon mark) (blind_pure _)
  cases fault with
  | script e =>
    apply blind_get
    have decorated : (s.metered c m).decorate e ip = s.decorate e ip :=
      s.decorate_guised c m.guise e ip
    have above : (s.metered c m).framesAbove mark = s.framesAbove mark :=
      s.framesAbove_guised c m.guise mark
    rw [decorated, above, callDepth_metered]
    generalize (if e.isDecorated = true then e else s.decorate e ip) = e
    dsimp only
    split
    · exact blind_popToHandler ..
    · exact blind_runDecorators ..
  | _ => exact abandoned _

theorem blind_setAsync (mode : Bool) : Blind c m s (setAsync mode) :=
  blind_modifyProcessor fun _ _ => rfl

/-- To pick up a processor sets its meter to zero. -/
theorem blind_resumePending (zero : s.current = c → m.sinceResume = 0) (input : Except Fault Value)
    (fromTask : Bool) (k : Kont ν .step) :
    Blind c m s (resumePending library input fromTask k) := by
  apply blind_get
  rw [State.pending_metered]
  cases s.processor.pending with
  | none => rfl
  | some x =>
    obtain ⟨resumption, mark⟩ := x
    refine blind_bind (blind_modifyProcessor fun e p => ?_) ?_
    · simp only [Processor.metered, zero e]
    cases resumption with
    | instruction ip => rfl
    | deliver frame =>
      cases input with
      | ok v => exact blind_finishFrame ..
      | error e => rfl

theorem blind_resumeFrom (zero : s.current = c → m.sinceResume = 0) (function : Value) (state : CoroutineState)
    (arguments : List Value) (k : Kont ν .step) :
    Blind c m s (resumeFrom library function state arguments k) := by
  let s' := s.modifyProcessor fun p => { p with sinceResume := 0 }
  have zero' : s'.current = c → m.sinceResume = 0 := zero
  refine blind_bind (blind_modifyProcessor fun e p => ?_) ?_
  · simp only [Processor.metered, zero e]
  change Blind c m s' _
  cases state with
  | notStarted => exact blind_executeCall ..
  | suspended => exact blind_resumePending zero' (.ok (Value.ofList arguments)) false k
  | forceSuspended => exact blind_resumePending zero' (.ok .void) false k
  | running | dead => rfl

theorem resume_refused {mode : ResumeMode} {d : ThreadId} {arguments : List Value} {cause : Cause}
    (refused : resumeRefusal (s.coroutineState d) arguments = some cause) (k : Kont ν .value) :
    resume library mode d arguments k s = (.value (.error (.raise cause)) k, s) := by
  unfold resume
  refine (bind_of_eq (x := get) rfl _).trans ?_
  dsimp only
  rw [show resumeRefusal (s.coroutine d).state arguments = some cause from refused]
  rfl

theorem resume_accepted {d : ThreadId} {arguments : List Value}
    (accepted : resumeRefusal (s.coroutineState d) arguments = none) (k : Kont ν .value) :
    resume library .synchronous d arguments k s =
      resumeFrom library (s.coroutine d).function (s.coroutineState d) arguments
        (.resumed .synchronous d s.current k) (s.resuming d) := by
  unfold resume
  refine (bind_of_eq (x := get) rfl _).trans ?_
  dsimp only
  rw [show resumeRefusal (s.coroutine d).state arguments = none from accepted]
  rfl

/-- A coroutine that runs already is not resumed. -/
theorem blind_resume (running : s.coroutineState c = .running) (d : ThreadId)
    (arguments : List Value) (k : Kont ν .value) :
    Blind c m s (resume library .synchronous d arguments k) := by
  have same : (s.metered c m).coroutineState d = s.coroutineState d := rfl
  unfold Blind
  cases refusal : resumeRefusal (s.coroutineState d) arguments with
  | some cause => rw [resume_refused refusal, resume_refused (same ▸ refusal)]
  | none =>
    have other : d ≠ c := by
      rintro rfl
      simp [resumeRefusal, running] at refusal
    rw [resume_accepted refusal, resume_accepted (same ▸ refusal)]
    exact blind_resumeFrom (s := s.resuming d) (fun e => absurd e other) ..

theorem blind_endResume (mode : ResumeMode) (d previous : ThreadId) (outcome : Except Fault Step)
    (k : Kont ν .value) : Blind c m s (endResume mode d previous outcome k) := by
  cases mode with
  | synchronous => rfl
  | asynchronous => exact blind_bind (blind_setAsync false) rfl

theorem blind_setAutoYield (running : s.coroutineState c = .running) (d : ThreadId) (budget : Nat) :
    Blind c m s (Exec.setAutoYield d budget) := by
  refine blind_modify ?_
  change (if s.coroutineState d = .running then _ else _) = _
  split
  · rfl
  · rename_i rests
    exact s.modifyProcessorOf_metered c d m _ fun e => absurd (e ▸ running) rests

theorem blind_driveAsync (function : Value) (arguments : List Value) (k : Kont ν .value) :
    Blind c m s (driveAsync library function arguments k) := by
  apply blind_get
  rw [State.nestedCalls_metered, State.frames_metered, State.asyncMode_metered]
  split
  · rfl
  · exact blind_bind (blind_setAsync true) (blind_executeCall ..)

theorem blind_direct {work : Exec ν Value} (hw : work.Blind c m.guise s) (k : Kont ν .value)
    (next : Except Fault Value → Program ν) : Blind c m s (runProgram.direct k work next) :=
  blind_andThen hw (fun _ _ => blind_pure _) fun _ _ => blind_pure _

theorem direct_spawn (s : State ν) (function : Value) (k : Kont ν .value)
    (next : Except Fault Value → Program ν) :
    runProgram.direct k (Exec.spawn function) next s =
      if function.isFunction then
        (.run (next (.ok (.thread (s.newCoroutine function).1))) k, (s.newCoroutine function).2)
      else
        (.run (next (.error (.raise (.badArgument 1 "create" "function" function.foundName)))) k,
          s) := by
  unfold Exec.spawn
  split <;> rfl

theorem blind_spawn (inRange : c.index < s.processors.size) (function : Value) (k : Kont ν .value)
    (next : Except Fault Value → Program ν) :
    Blind c m s (runProgram.direct k (Exec.spawn function) next) := by
  unfold Blind
  have same : (s.metered c m).newCoroutine function =
      ((s.newCoroutine function).1, (s.newCoroutine function).2.metered c m) :=
    Exec.newCoroutine_guised (g := m.guise) function inRange
  rw [direct_spawn, direct_spawn, same]
  split <;> rfl

theorem blind_runProgram (running : s.coroutineState c = .running)
    (inRange : c.index < s.processors.size) {program : Program ν} (unaware : program.Unaware)
    (k : Kont ν .value) : Blind c m s (runProgram library k program) := by
  cases unaware with
  | finish outcome => rfl
  | change _ => rfl
  | @ask query next same _ =>
    exact congrArg (fun r => (Control.run (next r) k, s.metered c m)) (same s c m)
  | print _ => rfl
  | spawn _ => exact blind_spawn inRange ..
  | autoYield _ => exact blind_bind (blind_setAutoYield running ..) (blind_pure _)
  | undump _ => exact blind_direct (Exec.blind_undump _) ..
  | assign _ =>
    exact blind_direct (Exec.blind_bind (Exec.blind_assignAll _) fun _ _ => Exec.blind_pure _) ..
  | call _ => exact blind_callNested ..
  | index _ => exact blind_indexNested ..
  | @resume d arguments next _ =>
    exact blind_resume running d arguments (.routine next k)
  | enter _ => exact blind_bind (blind_modify rfl) (blind_callNested ..)
  | enterMethod _ => exact blind_bind (blind_modify rfl) (blind_indexNested ..)

theorem blind_handValue {k : Kont ν .value} (noTask : ∀ d k', k ≠ .task d k')
    (outcome : Except Fault Value) : Blind c m s (handValue library outcome k) := by
  cases k with
  | host | routine _ _ | collapse _ => rfl
  | native k =>
    cases outcome with
    | error e => rfl
    | ok v =>
      exact blind_andThen Exec.blind_popFrame (fun frame _ => blind_finishFrame ..) fun _ _ =>
        blind_pure _
  | finish frame k =>
    cases outcome with
    | error e => rfl
    | ok v => exact blind_finishFrame ..
  | instruction after ip k =>
    cases outcome with
    | error e => rfl
    | ok v =>
      exact blind_andThen (Exec.blind_finishNested after v) (fun _ _ => blind_pure _) fun _ _ =>
        blind_pure _
  | decorator error others caught mark k => exact blind_runDecorators ..
  | method object name arguments k =>
    cases outcome with
    | error e => rfl
    | ok method => exact blind_bind blind_beginNested (blind_executeCall ..)
  | asyncMethod object arguments k =>
    cases outcome with
    | error e => rfl
    | ok method => exact blind_driveAsync ..
  | exit k => rfl
  | task d k => exact absurd rfl (noTask d k)

theorem blind_handStep (outcome : Except Fault Step) (k : Kont ν .step) :
    Blind c m s (handStep library outcome k) := by
  cases k with
  | loop mark ip k =>
    match outcome with
    | .ok (.proceed _) | .ok (.return _) | .ok (.suspend _) => rfl
    | .error e => exact blind_unwind ..
  | protect frame handler mark k =>
    cases outcome with
    | ok _ => rfl
    | error e =>
      cases e with
      | script e =>
        apply blind_get
        rw [callDepth_metered]
        split
        · exact blind_bind (blind_modifyStack _) (blind_invoke ..)
        · rfl
      | _ => rfl
  | nested k => exact blind_bind blind_endNested rfl
  | drive previous k =>
    match outcome with
    | .ok (.suspend (.await _)) => rfl
    | .ok (.proceed _) | .ok (.return _) | .ok (.suspend (.yield _)) | .ok (.suspend .forced)
    | .error _ => exact blind_bind (blind_setAsync previous) rfl
  | resumed mode d previous k =>
    have ended : Blind c m s (endResume mode d previous outcome k) := blind_endResume ..
    match mode, outcome with
    | .asynchronous, .ok (.suspend (.await _)) => rfl
    | .synchronous, _ | .asynchronous, .ok (.proceed _) | .asynchronous, .ok (.return _)
    | .asynchronous, .ok (.suspend (.yield _)) | .asynchronous, .ok (.suspend .forced)
    | .asynchronous, .error _ => exact ended

theorem blind_perform (ip : Nat) (mark : Mark) (k : Kont ν .step) (effect : Option Effect) :
    Blind c m s (perform library ip mark k effect) := by
  match effect with
  | none | some .next | some (.jump _) => rfl
  | some (.call spec) => exact blind_performCall ..
  | some (.leave frame v) => exact blind_finishFrame frame v false (.loop mark ip k)
  | some (.nested function arguments after) => exact blind_callNested ..

end Machine

end ScriptMachine
