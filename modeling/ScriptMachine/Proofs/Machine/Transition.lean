import ScriptMachine.Proofs.Machine.Outline
import ScriptMachine.Proofs.Machine.Switching
import ScriptMachine.Proofs.Machine.Unwinding

/-!
# What one step can do

Each function of the machine, by what it can make of the control and the outline. Invariants of
runs are proved by cases on these.

* `Calls`, `Nests`: a call is made, in the loop that runs or in one of its own.
* `Finishes`: a popped frame gives its result, or what it requested instead.
* `Unwinds`, `Fails`: a fault reaches a loop.
* `Picks`: a suspended processor is picked up.
-/

namespace ScriptMachine

variable {ν : Type}

structure Frame.Answers (f : Frame) (spec : CallSpec) : Prop where
  handlers : f.handlers = spec.handlers
  flags : f.flags = spec.flags
  returnAddress : f.returnAddress = spec.returnAddress

structure CallSpec.Enters (spec : CallSpec) : Prop where
  handlers : spec.handlers = {}
  entryPoint : spec.flags.entryPoint = true
  returnAddress : spec.returnAddress = 0

/-- The handler that catches an error among frames, the innermost first: that of the first frame
with one, unless a frame before it was entered from outside. -/
def catcherOf : List Frame → Option NativeId
  | [] => none
  | frame :: below =>
    match frame.handlers.errorHandler with
    | some handler => some handler
    | none => if frame.flags.entryPoint then none else catcherOf below

/-- The handlers of a request. -/
def TailCall.handlers (request : TailCall) : Handlers :=
  ⟨request.continuation, request.errorHandler, request.decorator⟩

namespace Machine

variable (library : Library ν)

/-- The value below the operands is called. -/
inductive Calls (spec : CallSpec) (k : Kont ν .step) (s : State ν) : Control ν × State ν → Prop
  | refused {e : Fault} {s' : State ν} : Rigid s s' → Calls spec k s (.step (.error e) k, s')
  | script {f : Frame} {s' : State ν} : f.Answers spec → f.isNative = false →
      Shifted ((s.outlineOf s.current).push f) s s' →
      Calls spec k s (.step (.ok (.proceed 0)) k, s')
  | native {f : Frame} {r : Routine ν} {i : Invocation} {s' : State ν} : f.Answers spec →
      f.isNative = true → Shifted ((s.outlineOf s.current).push f) s s' →
      Calls spec k s (.run (.ofRoutine library r i) (.native k), s')

/-- A function is called from inside an activation. -/
inductive Nests (k : Kont ν .value) (s : State ν) : Control ν × State ν → Prop
  | refused {e : Fault} : Nests k s (.value (.error e) k, s)
  | entered {spec : CallSpec} {mark : Mark} {s' : State ν} {x : Control ν × State ν} :
      spec.Enters → mark.frames = s.callDepth →
      Shifted { s.outlineOf s.current with
        nestedCalls := (s.outlineOf s.current).nestedCalls + 1 } s s' →
      Calls library spec (.loop mark 0 (.nested k)) s' x → Nests k s x

/-- Those who wait for a requested call: the request's guard in front of them, if it has an error
handler. -/
def guarded (handlers : Handlers) (frame : Frame) (mark : Mark) (k : Kont ν .step) :
    Kont ν .step :=
  match handlers.errorHandler with
  | some handler => .protect { disarmed frame with flags := frame.flags.inherited } handler mark k
  | none => k

/-- The handlers that a requested call runs under: its own, or those of the frame that asked. -/
def effective (frame : Frame) (request : TailCall) : Handlers :=
  if frame.handlers.isEmpty then request.handlers else frame.handlers

/-- The call that is made in place of a native frame that asked for it. -/
def requestedCall (frame : Frame) (request : TailCall) : CallSpec :=
  { argc := request.arguments.length, returnAddress := frame.returnAddress,
    flags := frame.flags.inherited, handlers := effective frame request, name := frame.name }

/-- The function and the arguments of a request are on the stack. -/
def pushedFor (request : TailCall) (s : State ν) : State ν :=
  s.modifyStack fun stack => (stack.push request.function).pushAll request.arguments

/-- A call is requested in place of a native frame. -/
inductive Requests (frame : Frame) (request : TailCall) (k : Kont ν .step) (s : State ν) :
    Control ν × State ν → Prop
  | refused : frame.handlers.isEmpty = false → request.handlers.isEmpty = false →
      Requests frame request k s (.step (.error (.defect .handlersTwice)) k, s)
  | performed {spec : CallSpec} {s' : State ν} {x : Control ν × State ν} :
      frame.handlers.isEmpty = true ∨ request.handlers.isEmpty = true →
      spec.handlers = effective frame request → spec.flags = frame.flags.inherited →
      spec.returnAddress = frame.returnAddress → Rigid s s' →
      Calls library spec (guarded (effective frame request) frame (mark s) k) s' x →
      Requests frame request k s x

/-- A popped frame has its result. -/
inductive Finishes (frame : Frame) (v : Value) (fromNative : Bool) (k : Kont ν .step)
    (s : State ν) : Control ν × State ν → Prop
  | continued {f : NativeId} {r : Routine ν} {i : Invocation} :
      frame.handlers.continuation = some f →
      Finishes frame v fromNative k s
        (.run (.ofRoutine library r i) (.finish (disarmed frame) k), s)
  | returned {v' : Value} : frame.flags.entryPoint = true →
      Finishes frame v fromNative k s (.step (.ok (.return v')) k, s)
  | delivered {s' : State ν} : frame.flags.entryPoint = false → Rigid s s' →
      Finishes frame v fromNative k s (.step (.ok (.proceed frame.returnAddress)) k, s')
  | requested {r : RequestId} {x : Control ν × State ν} : fromNative = true → v = .tailCall r →
      Requests library frame (s.heap.tailCall r) k s x → Finishes frame v fromNative k s x
  | suspended {reason : Suspension} {s' : State ν} : (s.outlineOf s.current).nestedCalls = 0 →
      reason ≠ .forced → Shifted ((s.outlineOf s.current).pause (.deliver frame)) s s' →
      Finishes frame v fromNative k s (.step (.ok (.suspend reason)) k, s')
  | awaited {task : Task} {s' : State ν} : Rigid s s' →
      Finishes frame v fromNative k s (.await task (.finish frame k), s')
  | failed {e : Fault} {s' : State ν} : Rigid s s' →
      Finishes frame v fromNative k s (.step (.error e) k, s')

/-- The routine of an error handler, with the message of the error. -/
def handling (s : State ν) (handler : NativeId) (e : ScriptError) : Program ν :=
  .ofRoutine library (s.native handler).routine
    ⟨(s.native handler).name, .ofOperands [messageValue e] false⟩

/-- At most `count` frames are popped until one catches the error. -/
inductive Unwinds (e : ScriptError) (mark : Mark) (k : Kont ν .step) (count : Nat) (s : State ν) :
    Control ν × State ν → Prop
  | caught (up : List Frame) {rest : List Frame} {f : Frame} {handler : NativeId} {s' : State ν} :
      s.framesOf s.current = up ++ f.outline :: rest →
      up.length < count → f.handlers.errorHandler = some handler →
      catcherOf ((s.framesOf s.current).take count) = some handler →
      Shifted ((s.outlineOf s.current).cut rest) s s' →
      Unwinds e mark k count s (.run (handling library s' handler e)
        (.finish (disarmed f) (.loop mark (f.returnAddress - 1) k)), s')
  | lost (up : List Frame) {rest : List Frame} {s' : State ν} : s.framesOf s.current = up ++ rest →
      up.length ≤ count →
      (up.length = count ∨ rest = [] ∨
        ∃ (us : List Frame) (f : Frame), up = us ++ [f] ∧ f.flags.entryPoint = true) →
      catcherOf ((s.framesOf s.current).take count) = none →
      Shifted ((s.outlineOf s.current).cut rest) s s' →
      Unwinds e mark k count s (.step (.error (.script e)) k, s')

/-- Decorators run, and then frames are popped. -/
inductive Decorates (e : ScriptError) (caught : Bool) (mark : Mark) (k : Kont ν .step)
    (s : State ν) : List Value → Control ν × State ν → Prop
  | last {x : Control ν × State ν} : Unwinds library { e with settled := caught } mark k
      ((s.framesOf s.current).length - mark.frames) s x → Decorates e caught mark k s [] x
  | next {decorator : Value} {others : List Value} {x : Control ν × State ν} :
      Nests library (.decorator e others caught mark k) s x →
      Decorates e caught mark k s (decorator :: others) x

/-- The error as the unwinder sees it, attributed to a place. -/
def attributed (s : State ν) (e : ScriptError) (ip : Nat) : ScriptError :=
  if e.isDecorated then e else s.decorate e ip

/-- A fault reaches a loop. -/
inductive Fails (ip : Nat) (mark : Mark) (k : Kont ν .step) (s : State ν) :
    Fault → Control ν × State ν → Prop
  | dropped {fault : Fault} {up rest : List Frame} {s' : State ν} : fault.isCatchable = false →
      s.framesOf s.current = up ++ rest → up.length = (s.framesOf s.current).length - mark.frames →
      Shifted ((s.outlineOf s.current).cut rest) s s' →
      Fails ip mark k s fault (.step (.error fault) k, s')
  | settled {e : ScriptError} {x : Control ν × State ν} : (attributed s e ip).settled = true →
      Unwinds library (attributed s e ip) mark k ((s.framesOf s.current).length - mark.frames) s x →
      Fails ip mark k s (.script e) x
  | decorated {e : ScriptError} {x : Control ν × State ν} : (attributed s e ip).settled = false →
      Decorates library (attributed s e ip) (State.decoratorsOf (s.framesAbove mark)).2 mark k s
        (State.decoratorsOf (s.framesAbove mark)).1 x →
      Fails ip mark k s (.script e) x

/-- A suspended processor is picked up. -/
inductive Picks (input : Except Fault Value) (fromTask : Bool) (k : Kont ν .step) (s : State ν) :
    Control ν × State ν → Prop
  | nothing : (s.outlineOf s.current).pending = none →
      Picks input fromTask k s (.step (.error (.defect .nothingSuspended)) k, s)
  | instruction {ip : Nat} {mark : Mark} {s' : State ν} :
      (s.outlineOf s.current).pending = some (.instruction ip, mark) →
      Shifted { s.outlineOf s.current with pending := none } s s' →
      Picks input fromTask k s (.execute ip mark k, s')
  | delivered {frame : Frame} {mark : Mark} {v : Value} {s' : State ν} {x : Control ν × State ν} :
      (s.outlineOf s.current).pending = some (.deliver frame, mark) → input = .ok v →
      Shifted { s.outlineOf s.current with pending := none } s s' → s'.world = s.world →
      Finishes library frame v fromTask (.loop mark (frame.returnAddress - 1) k) s' x →
      Picks input fromTask k s x
  | failed {frame : Frame} {mark : Mark} {e : Fault} {s' : State ν} :
      (s.outlineOf s.current).pending = some (.deliver frame, mark) → input = .error e →
      Shifted { s.outlineOf s.current with pending := none } s s' →
      Picks input fromTask k s (.step (.error e) (.loop mark (frame.returnAddress - 1) k), s')

/-- Another thread runs, one coroutine is in another state, and these are active. -/
structure Switches (next changed : ThreadId) (state : CoroutineState) (active : List ThreadId)
    (s s' : State ν) : Prop where
  current : s'.current = next
  active : s'.active = active
  size : s'.processors.size = s.processors.size
  count : s'.coroutines.size = s.coroutines.size
  frames : ∀ c, s'.framesOf c = s.framesOf c
  nested : ∀ c, (s'.outlineOf c).nestedCalls = (s.outlineOf c).nestedCalls
  pending : ∀ c, (s'.outlineOf c).pending = (s.outlineOf c).pending
  own : changed ≠ .root → changed.index ≤ s.coroutines.size → s'.coroutineState changed = state
  others : changed ≠ .root → ∀ c, c ≠ changed → s'.coroutineState c = s.coroutineState c

/-- An asynchronous call is refused, or made in a loop of its own. -/
inductive Drives (k : Kont ν .value) (s : State ν) : Control ν × State ν → Prop
  | refused {e : Fault} : Drives k s (.value (.error e) k, s)
  | entered {spec : CallSpec} {mark : Mark} {previous : Bool} {s' : State ν}
      {x : Control ν × State ν} : spec.Enters → s.framesOf s.current = [] → mark.frames = 0 →
      Shifted { s.outlineOf s.current with asyncMode := true } s s' →
      Calls library spec (.loop mark 0 (.drive previous k)) s' x → Drives k s x

/-- A coroutine is resumed. -/
inductive Resumes (mode : ResumeMode) (c : ThreadId) (k : Kont ν .value) (s : State ν) :
    Control ν × State ν → Prop
  | refused {e : Fault} : Resumes mode c k s (.value (.error e) k, s)
  | started {spec : CallSpec} {mark : Mark} {s' : State ν} {x : Control ν × State ν} :
      s.coroutineState c = .notStarted → Switches c c .running (c :: s.active) s s' →
      spec.Enters → mark.frames = s'.callDepth →
      Calls library spec (.loop mark 0 (.resumed mode c s.current k)) s' x →
      Resumes mode c k s x
  | continued {v : Value} {s' : State ν} {x : Control ν × State ν} :
      s.coroutineState c = .suspended ∨ s.coroutineState c = .forceSuspended →
      Switches c c .running (c :: s.active) s s' →
      Picks library (.ok v) false (.resumed mode c s.current k) s' x → Resumes mode c k s x

section Functions

variable {library} {s s' : State ν}

theorem Calls.of_rigid {spec : CallSpec} {k : Kont ν .step} {x : Control ν × State ν}
    (h : Rigid s s') (calls : Calls library spec k s' x) : Calls library spec k s x := by
  have outline : s'.outlineOf s'.current = s.outlineOf s.current := by rw [h.current, h.outline]
  cases calls with
  | refused rigid => exact .refused (h.trans rigid)
  | script answers native shifted => exact .script answers native (.of_rigid h (outline ▸ shifted))
  | native answers native shifted => exact .native answers native (.of_rigid h (outline ▸ shifted))

theorem keeps_findCallee (name : Option String) (budget argc : Nat) :
    Exec.Keeps s (findCallee name budget argc) := Exec.within_findCallee rigid_tolerant ..

/-- A frame is pushed for the call, or it fails. -/
inductive Pushes (spec : CallSpec) (s : State ν) : EStateM.Result Fault (State ν) Entered → Prop
  | failed {e : Fault} {s' : State ν} : Rigid s s' → Pushes spec s (.error e s')
  | script {f : Frame} {s' : State ν} : f.Answers spec → f.isNative = false →
      Shifted ((s.outlineOf s.current).push f) s s' → Pushes spec s (.ok .script s')
  | native {f : Frame} {n : NativeId} {operands : List Value} {s' : State ν} : f.Answers spec →
      f.isNative = true → Shifted ((s.outlineOf s.current).push f) s s' →
      Pushes spec s (.ok (.native n operands) s')

theorem pushes_bind {α : Type} {spec : CallSpec} {t : State ν} {work : Exec ν α}
    {f : α → Exec ν Entered} (before : Rigid s t) (hx : work.Keeps t)
    (hf : ∀ a t', Rigid s t' → Pushes spec s (f a t')) : Pushes spec s ((work >>= f) t) := by
  simp only [bind, EStateM.bind]
  cases run : work t with
  | error e t' => exact .failed (before.trans (hx.error run))
  | ok a t' => exact hf a t' (before.trans (hx.ok run))

theorem enterCall_pushes (spec : CallSpec) (here : s.HasCurrent) :
    Pushes spec s (enterCall spec s) := by
  have pushed : ∀ {t : State ν} (f : Frame), Rigid s t →
      Shifted ((s.outlineOf s.current).push f) s (t.modifyFrames (·.push f)) := by
    intro t f before
    have shifted := shifted_push (before.hasCurrent here) f
    rw [before.current, before.outline] at shifted
    exact .of_rigid before shifted
  have height : ∀ t : State ν, Exec.height.Keeps t := fun _ => Exec.keeps_height
  refine pushes_bind (.refl s) (Rigid.refl s) fun t _ before => ?_
  refine pushes_bind before (keeps_findCallee ..) fun callee t before => ?_
  obtain ⟨callee, argc⟩ := callee
  cases callee with
  | script c =>
    refine pushes_bind before (Rigid.refl t) fun _ t before => ?_
    dsimp only
    split
    · exact .failed before
    · refine pushes_bind before (height t) fun height t before => ?_
      exact .script ⟨rfl, rfl, rfl⟩ rfl (pushed _ before)
  | native n =>
    refine pushes_bind before (height t) fun _ t before => ?_
    refine pushes_bind before (Exec.keeps_splitOff _) fun _ t before => ?_
    refine pushes_bind before Exec.keeps_pop fun _ t before => ?_
    refine pushes_bind before (height t) fun _ t before => ?_
    exact .native ⟨rfl, rfl, rfl⟩ rfl (pushed _ before)

theorem performCall_calls (spec : CallSpec) (k : Kont ν .step) (here : s.HasCurrent) :
    Calls library spec k s (performCall library spec k s) := by
  have pushes := enterCall_pushes spec here
  unfold performCall Exec.andThen
  cases run : enterCall spec s with
  | error e s' =>
    rw [run] at pushes
    cases pushes with
    | failed rigid => exact .refused rigid
  | ok entered s' =>
    rw [run] at pushes
    cases pushes with
    | script answers native shifted => exact .script answers native shifted
    | native answers native shifted => exact .native answers native shifted

variable (library) in
theorem executeCall_calls (function : Value) (arguments : List Value) (flags : FrameFlags)
    (name : Option String) (k : Kont ν .step) (here : s.HasCurrent) :
    ∃ spec : CallSpec, spec.Enters ∧
      Calls library spec (.loop (mark s) 0 k) s
        (executeCall library function arguments flags name k s) := by
  have pushed : Rigid s (s.modifyStack fun stack => (stack.push function).pushAll arguments) :=
    rigid_modifyStack ..
  refine ⟨_, ⟨rfl, ?_, rfl⟩, .of_rigid pushed (performCall_calls _ _ (pushed.hasCurrent here))⟩
  simp [FrameFlags.union]

theorem callNested_nests (function : Value) (arguments : List Value) (k : Kont ν .value)
    (here : s.HasCurrent) : Nests library k s (callNested library function arguments k s) := by
  unfold callNested
  refine (bind_of_eq (x := get) rfl _).symm ▸ ?_
  split
  · exact .refused
  · have begun := shifted_modifyProcessor here fun p => { p with nestedCalls := p.nestedCalls + 1 }
    obtain ⟨spec, enters, calls⟩ := executeCall_calls library function arguments {}
      none (.nested k) (begun.hasCurrent here)
    refine .entered enters ?_ begun calls
    exact (State.callDepth_eq_length _).trans
      ((congrArg List.length begun.frames).trans s.callDepth_eq_length.symm)

variable (library) in
/-- Indexing asks for a call, or is done. -/
theorem indexNested_cases (object key : Value) (k : Kont ν .value) (here : s.HasCurrent) :
    (∃ r, indexNested library object key k s = (.value r k, s)) ∨
      Nests library (.collapse k) s (indexNested library object key k s) := by
  unfold indexNested
  refine (bind_of_eq (x := get) rfl _).symm ▸ ?_
  cases s.resolveIndex key State.maxChain object with
  | error e => exact .inl ⟨_, rfl⟩
  | ok found =>
    cases found with
    | value v => exact .inl ⟨_, rfl⟩
    | call handler receiver => exact .inr (callNested_nests _ _ _ here)

/-- A request is refused where two sets of handlers would meet. -/
theorem performTailRequest_twice {frame : Frame} {request : TailCall} (k : Kont ν .step)
    (armed : frame.handlers.isEmpty = false) (again : request.handlers.isEmpty = false) :
    performTailRequest library frame request k s =
      (.step (.error (.defect .handlersTwice)) k, s) := by
  unfold performTailRequest
  have twice : (!frame.handlers.isEmpty && !request.handlers.isEmpty) = true := by
    rw [armed, again]
    rfl
  exact congrFun (if_pos twice) s

/-- Otherwise the call is made, under the handlers of the frame or of the request. -/
theorem performTailRequest_once {frame : Frame} {request : TailCall} (k : Kont ν .step)
    (once : frame.handlers.isEmpty = true ∨ request.handlers.isEmpty = true) :
    performTailRequest library frame request k s =
      performCall library (requestedCall frame request)
        (guarded (effective frame request) frame (mark s) k) (pushedFor request s) := by
  unfold performTailRequest
  have single : ¬ (!frame.handlers.isEmpty && !request.handlers.isEmpty) = true := by
    obtain empty | empty := once
    all_goals simp [empty]
  exact congrFun (if_neg single) s

theorem performTailRequest_requests (frame : Frame) (request : TailCall) (k : Kont ν .step)
    (here : s.HasCurrent) :
    Requests library frame request k s (performTailRequest library frame request k s) := by
  have made (once : frame.handlers.isEmpty = true ∨ request.handlers.isEmpty = true) :
      Requests library frame request k s (performTailRequest library frame request k s) := by
    rw [performTailRequest_once k once]
    have pushed : Rigid s (pushedFor request s) := rigid_modifyStack ..
    exact .performed once rfl rfl rfl pushed (performCall_calls _ _ (pushed.hasCurrent here))
  cases armed : frame.handlers.isEmpty with
  | true => exact made (.inl armed)
  | false =>
    cases again : request.handlers.isEmpty with
    | true => exact made (.inr again)
    | false =>
      rw [performTailRequest_twice k armed again]
      exact .refused armed again

theorem suspendOn_shifted (frame : Frame) (reason : Suspension) (k : Kont ν .step)
    (here : s.HasCurrent) :
    ∃ s', suspendOn frame reason k s = (.step (.ok (.suspend reason)) k, s') ∧
      Shifted ((s.outlineOf s.current).pause (.deliver frame)) s s' :=
  ⟨_, rfl, shifted_modifyProcessor here fun p => { p with pending := some (.deliver frame, {}) }⟩

theorem deliver_finishes {frame : Frame} {v : Value} {fromNative : Bool} {k : Kont ν .step} :
    Finishes library frame v fromNative k s
      (deliver frame.flags frame.returnAddress v k s) := by
  unfold deliver
  dsimp only
  split
  · exact .returned ‹_›
  · rename_i inner
    have inner := Bool.eq_false_iff.2 inner
    split
    · exact .delivered inner (rigid_modifyStack ..)
    · exact .delivered inner (.refl s)

theorem handleAwait_finishes {frame : Frame} {v : Value} {fromNative : Bool} {r : RequestId}
    {k : Kont ν .step} (here : s.HasCurrent) :
    Finishes library frame v fromNative k s (handleAwait frame r k s) := by
  unfold handleAwait
  refine (bind_of_eq (x := get) rfl _).symm ▸ ?_
  cases s.heap.takeTask r with
  | error e => exact .failed (.refl s)
  | ok taken =>
    obtain ⟨task, heap⟩ := taken
    have stored : Rigid s (s.setHeap heap) := rigid_of_eq rfl
    dsimp only
    rw [bind_of_eq (x := (set (s.setHeap heap) : Move ν PUnit)) rfl]
    split
    · rename_i async
      simp only [Bool.and_eq_true, beq_iff_eq] at async
      obtain ⟨s', run, shifted⟩ := suspendOn_shifted frame (.await task) k (stored.hasCurrent here)
      exact run ▸ .suspended async.2 nofun (.of_rigid stored shifted)
    · split
      · exact .awaited stored
      · exact .failed stored

theorem finishFrame_finishes (frame : Frame) (v : Value) (fromNative : Bool) (k : Kont ν .step)
    (here : s.HasCurrent) :
    Finishes library frame v fromNative k s (finishFrame library frame v fromNative k s) := by
  unfold finishFrame
  split
  · refine (bind_of_eq (x := get) rfl _).symm ▸ ?_
    exact .requested rfl rfl (performTailRequest_requests _ _ _ here)
  · refine (bind_of_eq (x := get) rfl _).symm ▸ ?_
    unfold suspendForYield
    refine (bind_of_eq (x := get) rfl _).symm ▸ ?_
    split
    · exact .failed (.refl s)
    · split
      · exact .failed (.refl s)
      · rename_i alone
        obtain ⟨s', run, shifted⟩ := suspendOn_shifted frame _ k here
        exact run ▸ .suspended (Nat.eq_zero_of_not_pos alone) nofun shifted
  · exact handleAwait_finishes here
  · cases continues : frame.handlers.continuation with
    | some f => exact .continued continues
    | none => exact deliver_finishes

/-- A frame is popped, or there is none. -/
theorem dropFrame_cases (s : State ν) :
    (s.framesOf s.current = [] ∧ dropFrame s = (none, s)) ∨
    ∃ f s' rest, dropFrame s = (some f, s') ∧ s.framesOf s.current = f.outline :: rest ∧
      Shifted ((s.outlineOf s.current).cut rest) s s' := by
  obtain ⟨empty, run⟩ | ⟨f, s', rest, run, frames, shifted, -⟩ := Exec.popFrame_cases s
  · exact .inl ⟨empty, by simp only [dropFrame, run]⟩
  · exact .inr ⟨f, s', rest, by simp only [dropFrame, run], frames, shifted⟩

theorem dropFrames_cut {count : Nat} (low : count ≤ (s.framesOf s.current).length) :
    ∃ up rest, s.framesOf s.current = up ++ rest ∧ up.length = count ∧
      Shifted ((s.outlineOf s.current).cut rest) s (dropFrames count s).2 := by
  induction count generalizing s with
  | zero => exact ⟨[], _, rfl, rfl, (Rigid.refl s).shifted⟩
  | succ count ih =>
    obtain ⟨empty, run⟩ | ⟨f, s', rest, run, frames, shifted⟩ := dropFrame_cases s
    · rw [empty] at low
      exact absurd low (Nat.not_succ_le_zero _)
    · have next : dropFrames (count + 1) s = dropFrames count s' := by
        rw [dropFrames]
        exact bind_of_eq run _
      have below : s'.framesOf s'.current = rest := shifted.frames
      rw [frames, List.length_cons, Nat.succ_le_succ_iff, ← below] at low
      obtain ⟨up, rest', frames', length, shifted'⟩ := ih low
      rw [below] at frames'
      rw [shifted.outline] at shifted'
      rw [next, frames, frames']
      exact ⟨f.outline :: up, rest', rfl, congrArg Nat.succ length, shifted.trans shifted'⟩

theorem abandon_cut (mark : Mark) :
    ∃ up rest, s.framesOf s.current = up ++ rest ∧
      up.length = (s.framesOf s.current).length - mark.frames ∧
      Shifted ((s.outlineOf s.current).cut rest) s (abandon mark s).2 := by
  have depth := s.callDepth_eq_length
  have low : s.callDepth - mark.frames ≤ (s.framesOf s.current).length := by omega
  obtain ⟨up, rest, frames, length, shifted⟩ := dropFrames_cut low
  refine ⟨up, rest, frames, by rw [length, depth], ?_⟩
  have truncated := rigid_modifyStack (dropFrames (s.callDepth - mark.frames) s).2
    (·.truncate mark.stack)
  exact shifted.trans_rigid truncated

theorem popToHandler_unwinds (e : ScriptError) (mark : Mark) (k : Kont ν .step) (count : Nat) :
    Unwinds library e mark k count s (popToHandler library e mark k count s) := by
  induction count generalizing s with
  | zero =>
    refine .lost [] (List.nil_append _).symm (Nat.le_refl 0) (.inl rfl) rfl ?_
    exact (Rigid.refl s).shifted.trans_rigid (rigid_modifyStack ..)
  | succ count ih =>
    obtain ⟨empty, run⟩ | ⟨f, s', rest, run, frames, shifted⟩ := dropFrame_cases s
    · rw [popToHandler, bind_of_eq run]
      refine .lost [] (List.nil_append _).symm (Nat.zero_le _) (.inr (.inl empty)) ?_ ?_
      · rw [empty]
        rfl
      · exact (Rigid.refl s).shifted.trans_rigid (rigid_modifyStack ..)
    · rw [popToHandler_succ _ _ _ run]
      have catcher : catcherOf ((s.framesOf s.current).take (count + 1)) =
          match f.handlers.errorHandler with
          | some handler => some handler
          | none => if f.flags.entryPoint then none else catcherOf (rest.take count) := by
        rw [frames]
        rfl
      cases handles : f.handlers.errorHandler with
      | some handler =>
        rw [handles] at catcher
        exact .caught [] frames (Nat.succ_pos _) handles catcher shifted
      | none =>
        rw [handles] at catcher
        dsimp only at catcher ⊢
        split
        · rename_i entry
          rw [if_pos entry] at catcher
          refine .lost [f.outline] frames (Nat.succ_le_succ (Nat.zero_le _))
            (.inr (.inr ⟨[], f.outline, rfl, entry⟩)) catcher ?_
          exact shifted.trans_rigid (rigid_modifyStack ..)
        · rename_i inner
          rw [if_neg inner] at catcher
          have unwinds := ih (s := s')
          have below : s'.framesOf s'.current = rest := shifted.frames
          generalize popToHandler library e mark k count s' = x at unwinds
          cases unwinds with
          | caught up frames' low handles' catcher' shifted' =>
            rw [below] at frames' catcher'
            rw [shifted.outline] at shifted'
            rw [frames'] at frames
            exact .caught (f.outline :: up) frames (Nat.succ_lt_succ low) handles'
              (catcher.trans catcher') (shifted.trans shifted')
          | lost up frames' low last catcher' shifted' =>
            rw [below] at frames' catcher'
            rw [shifted.outline] at shifted'
            rw [frames'] at frames
            refine .lost (f.outline :: up) frames (Nat.succ_le_succ low) ?_
              (catcher.trans catcher') (shifted.trans shifted')
            obtain all | none | ⟨us, g, rfl, entry⟩ := last
            · exact .inl (congrArg Nat.succ all)
            · exact .inr (.inl none)
            · exact .inr (.inr ⟨f.outline :: us, g, rfl, entry⟩)

theorem runDecorators_decorates (e : ScriptError) (caught : Bool) (mark : Mark) (k : Kont ν .step)
    (decorators : List Value) (here : s.HasCurrent) :
    Decorates library e caught mark k s decorators
      (runDecorators library e caught mark k decorators s) := by
  cases decorators with
  | nil =>
    rw [runDecorators]
    refine (bind_of_eq (x := get) rfl _).symm ▸ ?_
    rw [State.callDepth_eq_length]
    exact .last (popToHandler_unwinds ..)
  | cons decorator others => exact .next (callNested_nests _ _ _ here)

theorem unwind_fails (fault : Fault) (ip : Nat) (mark : Mark) (k : Kont ν .step)
    (here : s.HasCurrent) : Fails library ip mark k s fault (unwind library fault ip mark k s) := by
  have uncaught : fault.isCatchable = false →
      Fails library ip mark k s fault
        ((do abandon mark; return .step (.error fault) k : Move ν (Control ν)) s) := by
    intro uncatchable
    obtain ⟨up, rest, frames, length, shifted⟩ := abandon_cut (s := s) mark
    exact .dropped uncatchable frames length shifted
  unfold unwind
  split
  · rename_i e
    refine (bind_of_eq (x := get) rfl _).symm ▸ ?_
    change Fails library ip mark k s (.script e) ((if (attributed s e ip).settled then
      popToHandler library (attributed s e ip) mark k (s.callDepth - mark.frames)
      else runDecorators library (attributed s e ip) (State.decoratorsOf (s.framesAbove mark)).2
        mark k (State.decoratorsOf (s.framesAbove mark)).1 : Move ν (Control ν)) s)
    split
    · rw [State.callDepth_eq_length]
      exact .settled ‹_› (popToHandler_unwinds ..)
    · exact .decorated (Bool.eq_false_iff.2 ‹_›) (runDecorators_decorates _ _ _ _ _ here)
  · rename_i other
    cases fault with
    | script e => exact absurd rfl (other e)
    | _ => exact uncaught rfl

theorem resumePending_picks (input : Except Fault Value) (fromTask : Bool) (k : Kont ν .step)
    (here : s.HasCurrent) :
    Picks library input fromTask k s (resumePending library input fromTask k s) := by
  unfold resumePending
  refine (bind_of_eq (x := get) rfl _).symm ▸ ?_
  cases pending : s.processor.pending with
  | none => exact .nothing pending
  | some resumption =>
    obtain ⟨resumption, mark⟩ := resumption
    have picked := shifted_modifyProcessor here fun p =>
      { p with pending := none, sinceResume := 0 }
    cases resumption with
    | instruction ip => exact .instruction pending picked
    | deliver frame =>
      cases input with
      | ok v =>
        exact .delivered pending rfl picked rfl
          (finishFrame_finishes _ _ _ _ (picked.hasCurrent here))
      | error e => exact .failed pending rfl picked

/-- The threads but for modes and counts do not change with the thread that runs. -/
theorem switches_of {next c : ThreadId} {state : CoroutineState} {active : List ThreadId}
    {s' : State ν} (current : s'.current = next) (stack : s'.active = active)
    (size : s'.processors.size = s.processors.size)
    (coroutines : s'.coroutines = (s.setCoroutineState c state).coroutines)
    (frames : ∀ d, s'.framesOf d = s.framesOf d)
    (nested : ∀ d, (s'.outlineOf d).nestedCalls = (s.outlineOf d).nestedCalls)
    (pending : ∀ d, (s'.outlineOf d).pending = (s.outlineOf d).pending) :
    Switches next c state active s s' := by
  have same : ∀ d, s'.coroutineState d = (s.setCoroutineState c state).coroutineState d :=
    fun d => by simp only [State.coroutineState, State.coroutine, coroutines]
  refine ⟨current, stack, size, ?_, frames, nested, pending, fun hc inRange => ?_,
    fun hc d other => ?_⟩
  · simp [coroutines, State.setCoroutineState]
  · rw [same]
    exact s.coroutineState_set state hc inRange
  · rw [same]
    exact s.coroutineState_set_ne state hc other

/-- Another mode of the processor that runs. -/
theorem frames_setAsync (s : State ν) (mode : Bool) (c : ThreadId) :
    let s' := s.modifyProcessor fun p => { p with asyncMode := mode }
    s'.framesOf c = s.framesOf c ∧ (s'.outlineOf c).nestedCalls = (s.outlineOf c).nestedCalls ∧
      (s'.outlineOf c).pending = (s.outlineOf c).pending :=
  ⟨State.view_modifyProcessorOf s _ _ c (fun p => p.outline.frames) fun _ => rfl,
    State.view_modifyProcessorOf s _ _ c (fun p => p.outline.nestedCalls) fun _ => rfl,
    State.view_modifyProcessorOf s _ _ c (fun p => p.outline.pending) fun _ => rfl⟩

variable (library) in
/-- A coroutine that rests is started or picked up, once its count is reset. -/
theorem resumeFrom_cases (function : Value) {state : CoroutineState} (arguments : List Value)
    (k : Kont ν .step) (alive : state ≠ .dead) (rests : state ≠ .running) (here : s.HasCurrent) :
    let s' := s.modifyProcessor fun p => { p with sinceResume := 0 }
    (state = .notStarted ∧ ∃ spec : CallSpec, spec.Enters ∧
      Calls library spec (.loop (mark s') 0 k) s'
        (resumeFrom library function state arguments k s)) ∨
    (state = .suspended ∨ state = .forceSuspended) ∧
      ∃ v, Picks library (.ok v) false k s' (resumeFrom library function state arguments k s) := by
  intro s'
  have reset : Rigid s s' := rigid_modifyProcessorOf s s.current fun _ => rfl
  have here' := reset.hasCurrent here
  cases state with
  | notStarted => exact .inl ⟨rfl, executeCall_calls _ _ _ _ _ _ here'⟩
  | suspended => exact .inr ⟨.inl rfl, _, resumePending_picks _ _ _ here'⟩
  | forceSuspended => exact .inr ⟨.inr rfl, _, resumePending_picks _ _ _ here'⟩
  | running => exact absurd rfl rests
  | dead => exact absurd rfl alive

theorem resume_resumes (mode : ResumeMode) (c : ThreadId) (arguments : List Value)
    (k : Kont ν .value) (size : s.processors.size = s.coroutines.size + 1) :
    Resumes library mode c k s (resume library mode c arguments k s) := by
  unfold resume
  refine (bind_of_eq (x := get) rfl _).symm ▸ ?_
  dsimp only
  cases refusal : resumeRefusal (s.coroutine c).state arguments with
  | some cause => exact .refused
  | none =>
    have alive : s.coroutineState c ≠ .dead := fun dead => by
      rw [show (s.coroutine c).state = .dead from dead] at refusal
      simp [resumeRefusal] at refusal
    have rests : s.coroutineState c ≠ .running := fun running => by
      rw [show (s.coroutine c).state = .running from running] at refusal
      simp [resumeRefusal] at refusal
    have inRange := (State.inRange_of_coroutineState alive).2
    let woken : State ν :=
      { s.setCoroutineState c .running with active := c :: s.active, current := c }
    -- the modes differ in what they count, and the threads do not see it
    have resumes : ∀ s' : State ν, Switches c c .running (c :: s.active) s s' →
        Resumes library mode c k s (resumeFrom library (s.coroutine c).function
          (s.coroutineState c) arguments (.resumed mode c s.current k) s') := by
      intro s' switches
      have here : s'.HasCurrent := by
        unfold State.HasCurrent
        rw [switches.current, switches.size, size]
        omega
      have reset := rigid_modifyProcessorOf s' s'.current
        (f := fun p => { p with sinceResume := 0 }) fun _ => rfl
      have switches' : Switches c c .running (c :: s.active) s
          (s'.modifyProcessor fun p => { p with sinceResume := 0 }) :=
        ⟨switches.current, switches.active, reset.size.trans switches.size, switches.count,
          fun d => (reset.frames d).trans (switches.frames d),
          fun d => (congrArg Outline.nestedCalls (reset.outline d)).trans (switches.nested d),
          fun d => (congrArg Outline.pending (reset.outline d)).trans (switches.pending d),
          switches.own, switches.others⟩
      obtain ⟨fresh, spec, enters, calls⟩ | ⟨stopped, v, picks⟩ := resumeFrom_cases library
        (s.coroutine c).function arguments (.resumed mode c s.current k) alive rests here
      · exact .started fresh switches' enters rfl calls
      · exact .continued stopped switches' picks
    cases mode with
    | synchronous =>
      exact resumes { woken with entries := woken.entries + 1 }
        (switches_of rfl rfl rfl rfl (fun _ => rfl) (fun _ => rfl) fun _ => rfl)
    | asynchronous =>
      have kept := frames_setAsync woken true
      exact resumes (woken.modifyProcessor fun p => { p with asyncMode := true })
        (switches_of rfl rfl (by simp [State.modifyProcessor, State.modifyProcessorOf, woken,
          State.setCoroutineState]) rfl (fun d => (kept d).1) (fun d => (kept d).2.1)
          fun d => (kept d).2.2)

/-- A resumption ends. -/
theorem endResume_switches (mode : ResumeMode) (c previous : ThreadId)
    (outcome : Except Fault Step) (k : Kont ν .value) :
    ∃ s', endResume mode c previous outcome k s = (.value (resumeOutcome outcome).2 k, s') ∧
      Switches previous c (resumeOutcome outcome).1 s.active.tail s s' := by
  cases mode with
  | synchronous =>
    exact ⟨_, rfl, switches_of rfl rfl rfl rfl (fun _ => rfl) (fun _ => rfl) fun _ => rfl⟩
  | asynchronous =>
    have kept := frames_setAsync s false
    refine ⟨_, rfl, switches_of rfl rfl ?_ rfl (fun d => (kept d).1) (fun d => (kept d).2.1)
      fun d => (kept d).2.2⟩
    simp [State.modifyProcessor, State.modifyProcessorOf, State.setCoroutineState]

theorem driveAsync_drives (function : Value) (arguments : List Value) (k : Kont ν .value)
    (here : s.HasCurrent) : Drives library k s (driveAsync library function arguments k s) := by
  unfold driveAsync
  refine (bind_of_eq (x := get) rfl _).symm ▸ ?_
  cases busy : decide (0 < s.processor.nestedCalls) || decide (0 < s.processor.frames.size) with
  | true => exact .refused
  | false =>
    have empty : s.framesOf s.current = [] := by
      simp only [Bool.or_eq_false_iff, decide_eq_false_iff_not, Nat.not_lt, Nat.le_zero] at busy
      rw [← List.length_eq_zero_iff, ← s.callDepth_eq_length]
      exact busy.2
    have begun := shifted_modifyProcessor here fun p => { p with asyncMode := true }
    obtain ⟨spec, enters, calls⟩ := executeCall_calls library function arguments {}
      none (.drive s.processor.asyncMode k) (begun.hasCurrent here)
    refine .entered enters empty ?_ begun calls
    exact (State.callDepth_eq_length _).trans
      ((congrArg List.length begun.frames).trans (congrArg List.length empty))

section Hands

variable {k : Kont ν .value} {l : Kont ν .step} {e : Fault} {v : Value} {r : Except Fault Value}
  {frame : Frame} {mark : Mark} {ip : Nat}

theorem handValue_native_ok :
    handValue library (.ok v) (.native l) s =
      Exec.popFrame.andThen (fun frame => finishFrame library frame v true l)
        (fun e => return .step (.error e) l) s := rfl

theorem handValue_instruction_ok {after : After} :
    handValue library (.ok v) (.instruction after ip l) s =
      (Exec.finishNested after v).andThen (fun _ => return .step (.ok (.proceed (ip + 1))) l)
        (fun e => return .step (.error e) l) s := rfl

/-- A guard has its handler run, unless a frame stands for its call. -/
theorem handStep_protect_script {handler : NativeId} {error : ScriptError} :
    handStep library (.error (.script error)) (.protect frame handler mark l) s =
      if s.callDepth = mark.frames then
        invoke library handler [messageValue error] false (.finish frame l)
          (s.modifyStack (·.truncate mark.stack))
      else (.step (.error (.script error)) l, s) := by
  change (if s.callDepth = mark.frames then _ else _ : Move ν (Control ν)) s = _
  split <;> rfl

theorem handStep_protect_uncaught {handler : NativeId} (uncatchable : e.isCatchable = false) :
    handStep library (.error e) (.protect frame handler mark l) s = (.step (.error e) l, s) := by
  cases e with
  | script error => cases uncatchable
  | _ => rfl

theorem handStep_drive {previous : Bool} {step : Except Fault Step}
    (final : ∀ task, step ≠ .ok (.suspend (.await task))) :
    handStep library step (.drive previous k) s = (.value (expectReturn step) k,
      s.modifyProcessor fun p => { p with asyncMode := previous }) := by
  match step with
  | .error e => rfl
  | .ok (.proceed next) => rfl
  | .ok (.return v) => rfl
  | .ok (.suspend (.yield v)) => rfl
  | .ok (.suspend .forced) => rfl
  | .ok (.suspend (.await task)) => exact absurd rfl (final task)

theorem handStep_resumed {mode : ResumeMode} {c previous : ThreadId} {step : Except Fault Step}
    (final : mode = .synchronous ∨ ∀ task, step ≠ .ok (.suspend (.await task))) :
    handStep library step (.resumed mode c previous k) s = endResume mode c previous step k s := by
  match mode, step with
  | .synchronous, _ => rfl
  | .asynchronous, .error e => rfl
  | .asynchronous, .ok (.proceed next) => rfl
  | .asynchronous, .ok (.return v) => rfl
  | .asynchronous, .ok (.suspend (.yield v)) => rfl
  | .asynchronous, .ok (.suspend .forced) => rfl
  | .asynchronous, .ok (.suspend (.await task)) =>
    obtain sync | final := final
    · cases sync
    · exact absurd rfl (final task)

end Hands

end Functions

end Machine

end ScriptMachine
