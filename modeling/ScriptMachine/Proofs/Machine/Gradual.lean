import ScriptMachine.Proofs.Machine.Changes

/-!
# Whatever a machine does consists of changes

One lemma for each function of the machine: `gradual_advance` for a step, `next_becomes` for
whatever comes next, and `Run.becomes` for a run.
-/

namespace ScriptMachine.Machine

variable {ν α β : Type}

/-- The move consists of changes, whatever the state. -/
structure Gradual (move : Move ν α) : Prop where
  becomes : ∀ s : State ν, s.Becomes (move s).2

section Moves

variable {move : Move ν α}

theorem gradual_pure (a : α) : Gradual (pure a : Move ν α) := ⟨State.Becomes.refl⟩

theorem gradual_bind {f : α → Move ν β} (hx : Gradual move) (hf : ∀ a, Gradual (f a)) :
    Gradual (move >>= f) := ⟨fun s => (hx.becomes s).trans ((hf _).becomes _)⟩

theorem gradual_get {f : State ν → Move ν β} (h : ∀ s, Gradual (f s)) : Gradual (get >>= f) :=
  ⟨fun s => (h s).becomes s⟩

theorem gradual_modify {f : State ν → State ν} (h : ∀ s : State ν, s.Becomes (f s)) :
    Gradual (modify f) := ⟨h⟩

theorem gradual_modifyStack (f : ValueStack → ValueStack) :
    Gradual (modify fun s : State ν => s.modifyStack f) := ⟨fun s => becomes_modifyStack s f⟩

theorem gradual_modifyProcessor {f : Processor → Processor} (h : ∀ p, (f p).frames = p.frames) :
    Gradual (modify fun s : State ν => s.modifyProcessor f) :=
  ⟨fun s => becomes_modifyProcessorOf s s.current h⟩

theorem gradual_andThen {work : Exec ν α} {ok : α → Move ν (Control ν)}
    {error : Fault → Move ν (Control ν)} (hw : ∀ s, work.Within State.Becomes s)
    (ho : ∀ a, Gradual (ok a)) (he : ∀ e, Gradual (error e)) : Gradual (work.andThen ok error) := by
  refine ⟨fun s => ?_⟩
  have within := hw s
  unfold Exec.andThen
  cases run : work s with
  | ok a s' => exact (within.ok run).trans ((ho a).becomes s')
  | error e s' => exact (within.error run).trans ((he e).becomes s')

end Moves

variable (library : Library ν)

theorem gradual_invoke (f : NativeId) (operands : List Value) (isMethod : Bool)
    (k : Kont ν .value) : Gradual (invoke library f operands isMethod k) :=
  gradual_get fun _ => gradual_pure _

theorem gradual_performCall (spec : CallSpec) (k : Kont ν .step) :
    Gradual (performCall library spec k) := by
  refine gradual_andThen (fun s => Exec.becomes_enterCall spec) (fun entered => ?_)
    fun _ => gradual_pure _
  cases entered with
  | script => exact gradual_pure _
  | native => exact gradual_invoke ..

theorem gradual_executeCall (function : Value) (arguments : List Value) (flags : FrameFlags)
    (name : Option String) (k : Kont ν .step) :
    Gradual (executeCall library function arguments flags name k) :=
  gradual_get fun _ => gradual_bind (gradual_modifyStack _) fun _ => gradual_performCall ..

theorem gradual_callNested (function : Value) (arguments : List Value) (k : Kont ν .value) :
    Gradual (callNested library function arguments k) := by
  refine gradual_get fun s => ?_
  split
  · exact gradual_pure _
  · exact gradual_bind (gradual_modifyProcessor fun _ => rfl) fun _ => gradual_executeCall ..

theorem gradual_indexNested (object key : Value) (k : Kont ν .value) :
    Gradual (indexNested library object key k) := by
  refine gradual_get fun s => ?_
  split
  · exact gradual_pure _
  · exact gradual_callNested ..
  · exact gradual_pure _

theorem gradual_callMethod (object : Value) (name : String) (arguments : List Value)
    (method : Value) (k : Kont ν .value) :
    Gradual (callMethod library object name arguments method k) :=
  gradual_bind (gradual_modifyProcessor fun _ => rfl) fun _ => gradual_executeCall ..

theorem gradual_setAsync (mode : Bool) : Gradual (setAsync mode : Move ν Unit) :=
  gradual_modifyProcessor fun _ => rfl

theorem gradual_driveAsync (function : Value) (arguments : List Value) (k : Kont ν .value) :
    Gradual (driveAsync library function arguments k) := by
  refine gradual_get fun s => ?_
  dsimp only
  split
  · exact gradual_pure _
  · exact gradual_bind (gradual_setAsync true) fun _ => gradual_executeCall ..

theorem gradual_deliver (flags : FrameFlags) (returnAddress : Nat) (v : Value)
    (k : Kont ν .step) : Gradual (deliver flags returnAddress v k) := by
  unfold deliver
  dsimp only
  split
  · exact gradual_pure _
  · split
    · exact gradual_bind (gradual_modifyStack _) fun _ => gradual_pure _
    · exact gradual_pure _

theorem gradual_performTailRequest (frame : Frame) (request : TailCall) (k : Kont ν .step) :
    Gradual (performTailRequest library frame request k) := by
  unfold performTailRequest
  dsimp only
  split
  · exact gradual_pure _
  · exact gradual_get fun _ => gradual_bind (gradual_modifyStack _) fun _ =>
      gradual_performCall ..

theorem gradual_suspendOn (frame : Frame) (suspension : Suspension) (k : Kont ν .step) :
    Gradual (suspendOn frame suspension k) :=
  gradual_bind (gradual_modifyProcessor fun _ => rfl) fun _ => gradual_pure _

theorem gradual_suspendForYield (frame : Frame) (values : List Value) (k : Kont ν .step) :
    Gradual (suspendForYield frame values k) := by
  refine gradual_get fun s => ?_
  split
  · exact gradual_pure _
  · split
    · exact gradual_pure _
    · exact gradual_suspendOn ..

theorem gradual_handleAwait (frame : Frame) (request : RequestId) (k : Kont ν .step) :
    Gradual (handleAwait frame request k) := by
  refine ⟨fun s => ?_⟩
  unfold handleAwait
  refine (bind_of_eq (x := get) rfl _).symm ▸ ?_
  cases s.heap.takeTask request with
  | error e => exact .refl s
  | ok taken =>
    obtain ⟨task, heap⟩ := taken
    have stored : s.Becomes (s.setHeap heap) := becomes_tolerant.arrange ..
    dsimp only
    rw [bind_of_eq (x := (set (s.setHeap heap) : Move ν PUnit)) rfl]
    split
    · exact stored.trans ((gradual_suspendOn ..).becomes _)
    · split <;> exact stored

theorem gradual_finishFrame (frame : Frame) (v : Value) (fromNative : Bool) (k : Kont ν .step) :
    Gradual (finishFrame library frame v fromNative k) := by
  unfold finishFrame
  split
  · exact gradual_get fun _ => gradual_performTailRequest ..
  · exact gradual_get fun _ => gradual_suspendForYield ..
  · exact gradual_handleAwait ..
  · split
    · exact gradual_invoke ..
    · exact gradual_deliver ..

theorem gradual_resumePending (input : Except Fault Value) (fromTask : Bool) (k : Kont ν .step) :
    Gradual (resumePending library input fromTask k) := by
  refine gradual_get fun s => ?_
  split
  · exact gradual_pure _
  · refine gradual_bind (gradual_modifyProcessor fun _ => rfl) fun _ => ?_
    split
    · exact gradual_pure _
    · split
      · exact gradual_finishFrame ..
      · exact gradual_pure _

theorem gradual_dropFrame : Gradual (dropFrame (ν := ν)) := by
  refine ⟨fun s => ?_⟩
  have popped := Exec.becomes_popFrame (s := s)
  unfold dropFrame
  cases run : Exec.popFrame s with
  | ok frame s' => exact popped.ok run
  | error e s' => exact popped.error run

theorem gradual_dropFrames (count : Nat) : Gradual (dropFrames (ν := ν) count) := by
  induction count with
  | zero => exact gradual_pure _
  | succ count ih => exact gradual_bind gradual_dropFrame fun _ => ih

theorem gradual_abandon (mark : Mark) : Gradual (abandon (ν := ν) mark) :=
  gradual_get fun _ => gradual_bind (gradual_dropFrames _) fun _ => gradual_modifyStack _

theorem gradual_popToHandler (e : ScriptError) (mark : Mark) (k : Kont ν .step) (count : Nat) :
    Gradual (popToHandler library e mark k count) := by
  have lost : Gradual (popToHandler.giveUp e mark k) :=
    gradual_bind (gradual_modifyStack _) fun _ => gradual_pure _
  induction count with
  | zero => exact lost
  | succ count ih =>
    refine gradual_bind gradual_dropFrame fun dropped => ?_
    cases dropped with
    | none => exact lost
    | some frame =>
      dsimp only
      split
      · exact gradual_invoke ..
      · split
        · exact lost
        · exact ih

theorem gradual_runDecorators (e : ScriptError) (caught : Bool) (mark : Mark) (k : Kont ν .step)
    (decorators : List Value) : Gradual (runDecorators library e caught mark k decorators) := by
  cases decorators with
  | nil => exact gradual_get fun _ => gradual_popToHandler ..
  | cons decorator others => exact gradual_callNested ..

theorem gradual_unwind (fault : Fault) (ip : Nat) (mark : Mark) (k : Kont ν .step) :
    Gradual (unwind library fault ip mark k) := by
  unfold unwind
  split
  · rename_i e
    refine gradual_get fun s => ?_
    dsimp only
    generalize (if e.isDecorated then e else s.decorate e ip) = e
    split
    · exact gradual_popToHandler ..
    · exact gradual_runDecorators ..
  · exact gradual_bind (gradual_abandon mark) fun _ => gradual_pure _

theorem gradual_enter : Gradual (enter (ν := ν)) := ⟨fun s => becomes_of_processors s rfl⟩

theorem gradual_leave : Gradual (leave (ν := ν)) := ⟨fun s => becomes_of_processors s rfl⟩

theorem gradual_resumeFrom (function : Value) (state : CoroutineState) (arguments : List Value)
    (k : Kont ν .step) : Gradual (resumeFrom library function state arguments k) := by
  refine gradual_bind (gradual_modifyProcessor fun _ => rfl) fun _ => ?_
  cases state with
  | notStarted => exact gradual_executeCall ..
  | suspended | forceSuspended => exact gradual_resumePending ..
  | running | dead => exact gradual_pure _

theorem gradual_resume (mode : ResumeMode) (c : ThreadId) (arguments : List Value)
    (k : Kont ν .value) : Gradual (resume library mode c arguments k) := by
  refine gradual_get fun s => ?_
  dsimp only
  split
  · exact gradual_pure _
  · refine gradual_bind ⟨fun s => becomes_of_processors s rfl⟩ fun _ => ?_
    cases mode with
    | synchronous => exact gradual_bind gradual_enter fun _ => gradual_resumeFrom ..
    | asynchronous => exact gradual_bind (gradual_setAsync true) fun _ => gradual_resumeFrom ..

theorem gradual_endResume (mode : ResumeMode) (c previous : ThreadId)
    (outcome : Except Fault Step) (k : Kont ν .value) :
    Gradual (endResume mode c previous outcome k) := by
  have ended : Gradual (modify fun s : State ν => { s.setCoroutineState c (resumeOutcome outcome).1
      with active := s.active.tail, current := previous }) := ⟨fun s => becomes_of_processors s rfl⟩
  cases mode with
  | synchronous =>
    exact gradual_bind gradual_leave fun _ => gradual_bind ended fun _ => gradual_pure _
  | asynchronous =>
    exact gradual_bind (gradual_setAsync false) fun _ => gradual_bind ended fun _ => gradual_pure _

theorem gradual_setAutoYield (c : ThreadId) (budget : Nat) :
    Gradual (Exec.setAutoYield (ν := ν) c budget) := by
  refine gradual_modify fun s => ?_
  split
  · exact .refl s
  · exact becomes_modifyProcessorOf s c fun _ => rfl

theorem gradual_perform (ip : Nat) (mark : Mark) (k : Kont ν .step) (effect : Option Effect) :
    Gradual (perform library ip mark k effect) := by
  match effect with
  | none | some .next | some (.jump _) => exact gradual_pure _
  | some (.call _) => exact gradual_performCall ..
  | some (.leave frame v) => exact gradual_finishFrame library frame v false (.loop mark ip k)
  | some (.nested _ _ _) => exact gradual_callNested ..

theorem gradual_runProgram (k : Kont ν .value) (p : Program ν) :
    Gradual (runProgram library k p) := by
  have direct : ∀ {work : Exec ν Value} (next : Except Fault Value → Program ν),
      (∀ s, work.Within State.Becomes s) → Gradual (runProgram.direct k work next) :=
    fun next within => gradual_andThen within (fun _ => gradual_pure _) fun _ => gradual_pure _
  cases p with
  | finish outcome => exact gradual_pure _
  | change action next => exact ⟨fun s => becomes_tolerant.arrange ..⟩
  | ask query next => exact gradual_get fun _ => gradual_pure _
  | print values next => exact ⟨fun s => becomes_tolerant.arrange ..⟩
  | spawn function next => exact direct next fun s => Exec.becomes_spawn function
  | autoYield c budget next =>
    exact gradual_bind (gradual_setAutoYield c budget) fun _ => gradual_pure _
  | undump bytes next => exact direct next fun s => Exec.within_undump becomes_tolerant bytes
  | assign name v next =>
    exact direct next fun s => Exec.within_bind becomes_tolerant
      (Exec.within_assignAll becomes_tolerant _) fun _ _ => Exec.within_pure becomes_tolerant _
  | call function arguments next => exact gradual_callNested ..
  | index object key next => exact gradual_indexNested ..
  | resume c arguments next =>
    exact gradual_resume library .synchronous c arguments (.routine next k)
  | enter function arguments next => exact gradual_bind gradual_enter fun _ => gradual_callNested ..
  | enterMethod object method arguments next =>
    exact gradual_bind gradual_enter fun _ => gradual_indexNested ..
  | enterAsync function arguments next =>
    exact gradual_bind gradual_enter fun _ => gradual_driveAsync ..

theorem gradual_handValue (outcome : Except Fault Value) (k : Kont ν .value) :
    Gradual (handValue library outcome k) := by
  cases k with
  | host | routine | collapse => exact gradual_pure _
  | native k =>
    cases outcome with
    | ok v =>
      exact gradual_andThen (fun s => Exec.becomes_popFrame) (fun _ => gradual_finishFrame ..)
        fun _ => gradual_pure _
    | error e => exact gradual_pure _
  | finish frame k =>
    cases outcome with
    | ok v => exact gradual_finishFrame ..
    | error e => exact gradual_pure _
  | instruction after ip k =>
    cases outcome with
    | ok v =>
      exact gradual_andThen (fun s => Exec.within_finishNested becomes_tolerant after v)
        (fun _ => gradual_pure _) fun _ => gradual_pure _
    | error e => exact gradual_pure _
  | decorator => exact gradual_get fun _ => gradual_runDecorators ..
  | method =>
    cases outcome with
    | ok v => exact gradual_callMethod ..
    | error e => exact gradual_pure _
  | asyncMethod =>
    cases outcome with
    | ok v => exact gradual_driveAsync ..
    | error e => exact gradual_pure _
  | exit k => exact gradual_bind gradual_leave fun _ => gradual_pure _
  | task c k =>
    exact gradual_bind ⟨fun s => becomes_of_processors s rfl⟩ fun _ => gradual_resumePending ..

theorem gradual_handStep (outcome : Except Fault Step) (k : Kont ν .step) :
    Gradual (handStep library outcome k) := by
  cases k with
  | loop mark ip k =>
    match outcome with
    | .ok (.proceed _) | .ok (.return _) | .ok (.suspend _) => exact gradual_pure _
    | .error e => exact gradual_unwind ..
  | protect frame handler mark k =>
    match outcome with
    | .error (.script e) =>
      refine gradual_get fun s => ?_
      split
      · exact gradual_bind (gradual_modifyStack _) fun _ => gradual_invoke ..
      · exact gradual_pure _
    | .ok _ | .error (.defect _) | .error (.watch _) | .error (.format _)
    | .error .instructionLimit | .error .concurrentAccess | .error (.transfer _) =>
      exact gradual_pure _
  | nested k =>
    exact gradual_bind (gradual_modifyProcessor fun _ => rfl) fun _ => gradual_pure _
  | drive previous k =>
    by_cases waits : ∃ task, outcome = .ok (.suspend (.await task))
    · obtain ⟨task, rfl⟩ := waits
      exact gradual_get fun _ => gradual_pure _
    · refine ⟨fun s => ?_⟩
      rw [handStep_drive fun task same => waits ⟨task, same⟩]
      exact becomes_modifyProcessorOf s s.current fun _ => rfl
  | resumed mode c previous k =>
    by_cases waits : mode = .asynchronous ∧ ∃ task, outcome = .ok (.suspend (.await task))
    · obtain ⟨rfl, task, rfl⟩ := waits
      exact gradual_bind ⟨fun s => becomes_of_processors s rfl⟩ fun _ => gradual_pure _
    · refine ⟨fun s => ?_⟩
      rw [handStep_resumed]
      · exact (gradual_endResume ..).becomes s
      · cases mode with
        | synchronous => exact .inl rfl
        | asynchronous => exact .inr fun task same => waits ⟨rfl, task, same⟩

/-- Whatever the control asks for. -/
theorem gradual_advance (control : Control ν) : Gradual (advance library control) := by
  match control with
  | .execute ip mark k =>
    exact gradual_andThen (fun s => Exec.becomes_executeAt ip) (fun _ => gradual_perform ..)
      fun _ => gradual_unwind ..
  | .run p k => exact gradual_runProgram library k p
  | .step outcome k => exact gradual_handStep library outcome k
  | .value outcome k => exact gradual_handValue library outcome k
  | .await (.settles _) _ | .await .never _ => exact gradual_pure _

theorem gradual_hostCall {move : Move ν (Control ν)} (call : HostCall library move) :
    Gradual move := by
  cases call with
  | call => exact gradual_bind gradual_enter fun _ => gradual_callNested ..
  | thisCall => exact gradual_bind gradual_enter fun _ => gradual_indexNested ..
  | callAsync => exact gradual_bind gradual_enter fun _ => gradual_driveAsync ..
  | thisCallAsync => exact gradual_bind gradual_enter fun _ => gradual_indexNested ..

theorem gradual_timeOut (milliseconds : Nat) : Gradual (timeOut (ν := ν) milliseconds) :=
  gradual_bind (gradual_abandon {}) fun _ =>
    gradual_bind (gradual_modifyProcessor fun _ => rfl) fun _ =>
      gradual_bind gradual_leave fun _ => gradual_pure _

variable {library} {m m' : Machine ν}

/-- **Whatever comes next**, it changes frames, cells and the count of instructions in the known
ways only. -/
theorem next_becomes (next : Next library m m') : m.state.Becomes m'.state := by
  cases next with
  | step => exact (gradual_advance library m.control).becomes m.state
  | call _ _ hm => exact (gradual_hostCall library hm).becomes m.state
  | act | await | awaitCoroutine => exact .refl m.state
  | resume mode c arguments => exact (gradual_resume library mode c arguments .host).becomes m.state
  | timeOut milliseconds =>
    have ended : Gradual (do return .value (← timeOut milliseconds) .host : Move ν (Control ν)) :=
      gradual_bind (gradual_timeOut milliseconds) fun _ => gradual_pure _
    exact ended.becomes m.state
  | arrange world => exact becomes_tolerant.arrange ..
  | @load p v s _ loaded => exact (Exec.within_load becomes_tolerant p).ok loaded
  | autoYield c budget => exact (gradual_setAutoYield c budget).becomes m.state

end ScriptMachine.Machine

namespace ScriptMachine.Run

variable {ν : Type} {library : Library ν}

theorem becomes (r : Run library) {n m : Nat} (h : n ≤ m) :
    (r.machine n).state.Becomes (r.machine m).state := by
  induction h with
  | refl => exact .refl _
  | @step m _ ih => exact ih.trans (Machine.next_becomes (r.next m))

end ScriptMachine.Run
