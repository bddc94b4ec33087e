import ScriptMachine.Proofs.Machine.Chain

/-!
# Those who wait for the whole

A machine does not look at those who wait for everything it does. It can run for the host instead,
and hand them the outcome.

* `Kont.fill`, `Control.fill`: others wait in the place of the host.
* `advance_fill`: a step is the same for them.
* `iterate_fill`: so is a run, as long as the host has no outcome.
-/

namespace ScriptMachine

variable {ν α : Type}

/-- Those who wait, with others in the place of the host. -/
def Kont.fill : {a : Awaited} → Kont ν a → Kont ν .value → Kont ν a
  | _, .host, outer => outer
  | _, .routine next k, outer => .routine next (k.fill outer)
  | _, .native k, outer => .native (k.fill outer)
  | _, .finish frame k, outer => .finish frame (k.fill outer)
  | _, .instruction after ip k, outer => .instruction after ip (k.fill outer)
  | _, .decorator error others caught mark k, outer =>
    .decorator error others caught mark (k.fill outer)
  | _, .collapse k, outer => .collapse (k.fill outer)
  | _, .method object name arguments k, outer => .method object name arguments (k.fill outer)
  | _, .asyncMethod object arguments k, outer => .asyncMethod object arguments (k.fill outer)
  | _, .exit k, outer => .exit (k.fill outer)
  | _, .task c k, outer => .task c (k.fill outer)
  | _, .loop mark ip k, outer => .loop mark ip (k.fill outer)
  | _, .protect frame handler mark k, outer => .protect frame handler mark (k.fill outer)
  | _, .nested k, outer => .nested (k.fill outer)
  | _, .drive previous k, outer => .drive previous (k.fill outer)
  | _, .resumed mode c previous k, outer => .resumed mode c previous (k.fill outer)

/-- What a machine does, for others in the place of the host. -/
def Control.fill : Control ν → Kont ν .value → Control ν
  | .execute ip mark k, outer => .execute ip mark (k.fill outer)
  | .run p k, outer => .run p (k.fill outer)
  | .step r k, outer => .step r (k.fill outer)
  | .value r k, outer => .value r (k.fill outer)
  | .await task k, outer => .await task (k.fill outer)

namespace Machine

variable {library : Library ν} {outer : Kont ν .value}

/-- The second move does for others what the first does for the host. -/
structure Fills (outer : Kont ν .value) (move move' : Move ν (Control ν)) : Prop where
  eq : ∀ s, move' s = ((move s).1.fill outer, (move s).2)

theorem fills_pure {control : Control ν} :
    Fills outer (return control) (return control.fill outer) := ⟨fun _ => rfl⟩

theorem fills_bind (work : Move ν α) {f f' : α → Move ν (Control ν)}
    (h : ∀ a, Fills outer (f a) (f' a)) : Fills outer (work >>= f) (work >>= f') :=
  ⟨fun s => (h (work s).1).eq (work s).2⟩

theorem fills_andThen (work : Exec ν α) {ok ok' : α → Move ν (Control ν)}
    {error error' : Fault → Move ν (Control ν)} (hok : ∀ a, Fills outer (ok a) (ok' a))
    (herror : ∀ e, Fills outer (error e) (error' e)) :
    Fills outer (work.andThen ok error) (work.andThen ok' error') := by
  refine ⟨fun s => ?_⟩
  unfold Exec.andThen
  cases work s with
  | ok a s => exact (hok a).eq s
  | error e s => exact (herror e).eq s

variable (k : Kont ν .step) (kv : Kont ν .value)

theorem invoke_fill (f : NativeId) (operands : List Value) (isMethod : Bool) :
    Fills outer (invoke library f operands isMethod kv)
      (invoke library f operands isMethod (kv.fill outer)) :=
  fills_bind get fun _ => fills_pure

theorem performCall_fill (spec : CallSpec) :
    Fills outer (performCall library spec k) (performCall library spec (k.fill outer)) := by
  refine fills_andThen (enterCall spec) (fun entered => ?_) fun e => fills_pure
  cases entered with
  | script => exact fills_pure
  | native f operands => exact invoke_fill (.native k) f operands _

theorem executeCall_fill (function : Value) (arguments : List Value) (flags : FrameFlags)
    (name : Option String) :
    Fills outer (executeCall library function arguments flags name k)
      (executeCall library function arguments flags name (k.fill outer)) :=
  fills_bind get fun s => fills_bind (modify _) fun _ => performCall_fill (.loop (mark s) 0 k) _

theorem callNested_fill (function : Value) (arguments : List Value) :
    Fills outer (callNested library function arguments kv)
      (callNested library function arguments (kv.fill outer)) := by
  refine fills_bind get fun s => ?_
  split
  · exact fills_pure
  · exact fills_bind beginNested fun _ => executeCall_fill (.nested kv) ..

theorem indexNested_fill (object key : Value) :
    Fills outer (indexNested library object key kv)
      (indexNested library object key (kv.fill outer)) := by
  refine fills_bind get fun s => ?_
  cases s.resolveIndex key State.maxChain object with
  | error e => exact fills_pure
  | ok found =>
    cases found with
    | value v => exact fills_pure
    | call handler receiver => exact callNested_fill (.collapse kv) ..

theorem driveAsync_fill (function : Value) (arguments : List Value) :
    Fills outer (driveAsync library function arguments kv)
      (driveAsync library function arguments (kv.fill outer)) := by
  refine fills_bind get fun s => ?_
  dsimp only
  split
  · exact fills_pure
  · exact fills_bind (setAsync true) fun _ => executeCall_fill (.drive _ kv) ..

theorem deliver_fill (flags : FrameFlags) (returnAddress : Nat) (v : Value) :
    Fills outer (deliver flags returnAddress v k)
      (deliver flags returnAddress v (k.fill outer)) := by
  unfold deliver
  generalize (if flags.scalarResult then v.scalar else v) = v
  dsimp only
  split
  · exact fills_pure
  · split
    · exact fills_bind (modify _) fun _ => fills_pure
    · exact fills_pure

theorem performTailRequest_fill (frame : Frame) (request : TailCall) :
    Fills outer (performTailRequest library frame request k)
      (performTailRequest library frame request (k.fill outer)) := by
  unfold performTailRequest
  dsimp only
  generalize (if frame.handlers.isEmpty = true then _ else frame.handlers) = handlers
  split
  · exact fills_pure
  · refine fills_bind get fun s => fills_bind (modify _) fun _ => ?_
    cases handlers.errorHandler with
    | none => exact performCall_fill k _
    | some handler => exact performCall_fill (.protect _ handler (mark s) k) _

theorem suspendForYield_fill (frame : Frame) (values : List Value) :
    Fills outer (suspendForYield frame values k)
      (suspendForYield frame values (k.fill outer)) := by
  refine fills_bind get fun s => ?_
  split
  · exact fills_pure
  · split
    · exact fills_pure
    · exact fills_bind (modify _) fun _ => fills_pure

theorem handleAwait_fill (frame : Frame) (request : RequestId) :
    Fills outer (handleAwait frame request k) (handleAwait frame request (k.fill outer)) := by
  refine fills_bind get fun s => ?_
  cases s.heap.takeTask request with
  | error e => exact fills_pure
  | ok taken =>
    obtain ⟨task, heap⟩ := taken
    refine fills_bind (set _) fun _ => ?_
    split
    · exact fills_bind (modify _) fun _ => fills_pure
    · split <;> exact fills_pure

theorem finishFrame_fill (frame : Frame) (v : Value) (fromNative : Bool) :
    Fills outer (finishFrame library frame v fromNative k)
      (finishFrame library frame v fromNative (k.fill outer)) := by
  unfold finishFrame
  split
  · exact fills_bind get fun s => performTailRequest_fill k ..
  · exact fills_bind get fun s => suspendForYield_fill k ..
  · exact handleAwait_fill k ..
  · cases frame.handlers.continuation with
    | some f => exact invoke_fill (.finish (disarmed frame) k) ..
    | none => exact deliver_fill k ..

theorem giveUp_fill (e : ScriptError) (mark : Mark) :
    Fills outer (popToHandler.giveUp e mark k) (popToHandler.giveUp e mark (k.fill outer)) :=
  fills_bind (modify _) fun _ => fills_pure

theorem popToHandler_fill (e : ScriptError) (mark : Mark) (count : Nat) :
    Fills outer (popToHandler library e mark k count)
      (popToHandler library e mark (k.fill outer) count) := by
  induction count with
  | zero => exact giveUp_fill k e mark
  | succ count ih =>
    refine fills_bind dropFrame fun dropped => ?_
    cases dropped with
    | none => exact giveUp_fill k e mark
    | some frame =>
      dsimp only
      cases frame.handlers.errorHandler with
      | some handler => exact invoke_fill (.finish _ (.loop mark _ k)) ..
      | none =>
        dsimp only
        split
        · exact giveUp_fill k e mark
        · exact ih

theorem runDecorators_fill (e : ScriptError) (caught : Bool) (mark : Mark)
    (decorators : List Value) :
    Fills outer (runDecorators library e caught mark k decorators)
      (runDecorators library e caught mark (k.fill outer) decorators) := by
  cases decorators with
  | nil => exact fills_bind get fun s => popToHandler_fill k ..
  | cons decorator others => exact callNested_fill (.decorator e others caught mark k) ..

theorem unwind_fill (fault : Fault) (ip : Nat) (mark : Mark) :
    Fills outer (unwind library fault ip mark k) (unwind library fault ip mark (k.fill outer)) := by
  cases fault with
  | script e =>
    refine fills_bind get fun s => ?_
    generalize (if e.isDecorated = true then e else s.decorate e ip) = e
    dsimp only
    split
    · exact popToHandler_fill k ..
    · exact runDecorators_fill k ..
  | _ => exact fills_bind (abandon mark) fun _ => fills_pure

theorem resumePending_fill (input : Except Fault Value) (fromTask : Bool) :
    Fills outer (resumePending library input fromTask k)
      (resumePending library input fromTask (k.fill outer)) := by
  refine fills_bind get fun s => ?_
  cases s.processor.pending with
  | none => exact fills_pure
  | some x =>
    obtain ⟨resumption, mark⟩ := x
    refine fills_bind (modify _) fun _ => ?_
    cases resumption with
    | instruction ip => exact fills_pure
    | deliver frame =>
      cases input with
      | ok v => exact finishFrame_fill (.loop mark (frame.returnAddress - 1) k) ..
      | error e => exact fills_pure

theorem resumeFrom_fill (function : Value) (state : CoroutineState) (arguments : List Value) :
    Fills outer (resumeFrom library function state arguments k)
      (resumeFrom library function state arguments (k.fill outer)) := by
  refine fills_bind (modify _) fun _ => ?_
  cases state with
  | notStarted => exact executeCall_fill k ..
  | suspended | forceSuspended => exact resumePending_fill k ..
  | running | dead => exact fills_pure

theorem resume_fill (mode : ResumeMode) (c : ThreadId) (arguments : List Value) :
    Fills outer (resume library mode c arguments kv)
      (resume library mode c arguments (kv.fill outer)) := by
  refine fills_bind get fun s => ?_
  dsimp only
  cases resumeRefusal (s.coroutine c).state arguments with
  | some cause => exact fills_pure
  | none =>
    refine fills_bind (modify _) fun _ => ?_
    cases mode with
    | synchronous =>
      exact fills_bind enter fun _ => resumeFrom_fill (.resumed .synchronous c s.current kv) ..
    | asynchronous =>
      exact fills_bind (setAsync true) fun _ =>
        resumeFrom_fill (.resumed .asynchronous c s.current kv) ..

theorem endResume_fill (mode : ResumeMode) (c previous : ThreadId) (outcome : Except Fault Step) :
    Fills outer (endResume mode c previous outcome kv)
      (endResume mode c previous outcome (kv.fill outer)) := by
  cases mode with
  | synchronous => exact fills_bind leave fun _ => fills_bind (modify _) fun _ => fills_pure
  | asynchronous =>
    exact fills_bind (setAsync false) fun _ => fills_bind (modify _) fun _ => fills_pure

theorem direct_fill (work : Exec ν Value) (next : Except Fault Value → Program ν) :
    Fills outer (runProgram.direct kv work next) (runProgram.direct (kv.fill outer) work next) :=
  fills_andThen work (fun _ => fills_pure) fun _ => fills_pure

theorem runProgram_fill (p : Program ν) :
    Fills outer (runProgram library kv p) (runProgram library (kv.fill outer) p) := by
  cases p with
  | finish outcome => exact fills_pure
  | change action next => exact fills_bind get fun s => fills_bind (set _) fun _ => fills_pure
  | ask query next => exact fills_bind get fun s => fills_pure
  | print values next => exact fills_bind (modify _) fun _ => fills_pure
  | spawn function next | undump bytes next | assign name v next => exact direct_fill kv _ next
  | autoYield c budget next => exact fills_bind (Exec.setAutoYield c budget) fun _ => fills_pure
  | call function arguments next => exact callNested_fill (.routine next kv) ..
  | index object key next => exact indexNested_fill (.routine next kv) ..
  | resume c arguments next => exact resume_fill (.routine next kv) .synchronous c arguments
  | enter function arguments next =>
    exact fills_bind Machine.enter fun _ => callNested_fill (.exit (.routine next kv)) ..
  | enterMethod object method arguments next =>
    exact fills_bind Machine.enter fun _ =>
      indexNested_fill (.method object method arguments (.exit (.routine next kv))) ..
  | enterAsync function arguments next =>
    exact fills_bind Machine.enter fun _ => driveAsync_fill (.exit (.routine next kv)) ..

theorem handValue_fill (outcome : Except Fault Value) (waits : kv ≠ .host) :
    Fills outer (handValue library outcome kv) (handValue library outcome (kv.fill outer)) := by
  cases kv with
  | host => exact absurd rfl waits
  | routine next k => exact fills_pure
  | native k =>
    cases outcome with
    | error e => exact fills_pure
    | ok v =>
      exact fills_andThen Exec.popFrame (fun frame => finishFrame_fill k frame v true)
        fun _ => fills_pure
  | finish frame k =>
    cases outcome with
    | error e => exact fills_pure
    | ok v => exact finishFrame_fill k frame v true
  | instruction after ip k =>
    cases outcome with
    | error e => exact fills_pure
    | ok v =>
      exact fills_andThen (Exec.finishNested after v) (fun _ => fills_pure) fun _ => fills_pure
  | decorator error others caught mark k =>
    exact fills_bind get fun s => runDecorators_fill k ..
  | collapse k => exact fills_pure
  | method object name arguments k =>
    cases outcome with
    | error e => exact fills_pure
    | ok method => exact fills_bind beginNested fun _ => executeCall_fill (.nested k) ..
  | asyncMethod object arguments k =>
    cases outcome with
    | error e => exact fills_pure
    | ok method => exact driveAsync_fill k ..
  | exit k => exact fills_bind leave fun _ => fills_pure
  | task c k => exact fills_bind (modify _) fun _ => resumePending_fill k ..

theorem handStep_fill (outcome : Except Fault Step) :
    Fills outer (handStep library outcome k) (handStep library outcome (k.fill outer)) := by
  cases k with
  | loop mark ip k =>
    match outcome with
    | .ok (.proceed next) | .ok (.return v) | .ok (.suspend reason) => exact fills_pure
    | .error e => exact unwind_fill k ..
  | protect frame handler mark k =>
    cases outcome with
    | ok step => exact fills_pure
    | error e =>
      cases e with
      | script e =>
        refine fills_bind get fun s => ?_
        split
        · exact fills_bind (modify _) fun _ => invoke_fill (.finish frame k) ..
        · exact fills_pure
      | _ => exact fills_pure
  | nested k => exact fills_bind endNested fun _ => fills_pure
  | drive previous k =>
    match outcome with
    | .ok (.suspend (.await task)) => exact fills_bind get fun s => fills_pure
    | .ok (.proceed _) | .ok (.return _) | .ok (.suspend (.yield _)) | .ok (.suspend .forced)
    | .error _ => exact fills_bind (setAsync previous) fun _ => fills_pure
  | resumed mode c previous k =>
    match mode, outcome with
    | .asynchronous, .ok (.suspend (.await task)) => exact fills_bind (modify _) fun _ => fills_pure
    | .synchronous, outcome => exact endResume_fill k .synchronous c previous outcome
    | .asynchronous, .error e => exact endResume_fill k .asynchronous c previous (.error e)
    | .asynchronous, .ok (.proceed next) =>
      exact endResume_fill k .asynchronous c previous (.ok (.proceed next))
    | .asynchronous, .ok (.return v) =>
      exact endResume_fill k .asynchronous c previous (.ok (.return v))
    | .asynchronous, .ok (.suspend (.yield v)) =>
      exact endResume_fill k .asynchronous c previous (.ok (.suspend (.yield v)))
    | .asynchronous, .ok (.suspend .forced) =>
      exact endResume_fill k .asynchronous c previous (.ok (.suspend .forced))

theorem perform_fill (ip : Nat) (mark : Mark) (effect : Option Effect) :
    Fills outer (perform library ip mark k effect)
      (perform library ip mark (k.fill outer) effect) := by
  match effect with
  | none | some .next | some (.jump _) => exact fills_pure
  | some (.call spec) => exact performCall_fill (.loop mark ip k) spec
  | some (.leave frame v) => exact finishFrame_fill (.loop mark ip k) frame v false
  | some (.nested function arguments after) =>
    exact callNested_fill (.instruction after ip (.loop mark ip k)) ..

/-- **One step.** It is the same for those who wait in the place of the host, unless the host has
its outcome. -/
theorem advance_fill (library : Library ν) (outer : Kont ν .value) {control : Control ν}
    (going : ∀ r, control ≠ .value r .host) :
    Fills outer (advance library control) (advance library (control.fill outer)) := by
  cases control with
  | execute ip mark k =>
    exact fills_andThen (Exec.executeAt ip) (fun effect => perform_fill k ip mark effect)
      fun e => unwind_fill k e ip mark
  | run p k => exact runProgram_fill k p
  | step outcome k => exact handStep_fill k outcome
  | value outcome k => exact handValue_fill k outcome fun host => going outcome (host ▸ rfl)
  | await task k => cases task <;> exact fills_pure

def fill (m : Machine ν) (outer : Kont ν .value) : Machine ν := ⟨m.control.fill outer, m.state⟩

theorem step_fill {m : Machine ν} (going : ∀ r, m.control ≠ .value r .host) :
    (m.fill outer).step library = (m.step library).fill outer := by
  have filled := (advance_fill library outer going).eq m.state
  change Machine.mk (advance library (m.control.fill outer) m.state).1
    (advance library (m.control.fill outer) m.state).2 = _
  rw [filled]
  rfl

/-- **A run** is the same for those who wait in the place of the host, until the host has its
outcome. -/
theorem iterate_fill {m : Machine ν} {n : Nat}
    (going : ∀ i < n, ∀ r, ((step library)^[i] m).control ≠ .value r .host) :
    (step library)^[n] (m.fill outer) = ((step library)^[n] m).fill outer := by
  induction n with
  | zero => rfl
  | succ n ih =>
    rw [Function.iterate_succ_apply', Function.iterate_succ_apply',
      ih fun i hi => going i (Nat.lt_succ_of_lt hi)]
    exact step_fill (going n (Nat.lt_succ_self n))

end Machine

end ScriptMachine
