import ScriptMachine.Machine.Entry

/-!
# Confined routines

A routine that enters the machine through calls, indexing and resumptions only leaves no other call
from outside among those who wait.

* `Program.Confined`, `Library.Confined`: such routines.
* `Kont.Confined`: those who wait are confined, and only the host has called from outside.
* `confines_advance`: one step keeps it so.
-/

namespace ScriptMachine

variable {ν α : Type}

/-- The program enters the machine through calls, indexing and resumptions only. -/
def Program.Confined : Program ν → Prop
  | .finish _ => True
  | .change _ next | .ask _ next | .spawn _ next | .undump _ next | .assign _ _ next
  | .call _ _ next | .index _ _ next | .resume _ _ next => ∀ r, (next r).Confined
  | .print _ next | .autoYield _ _ next => next.Confined
  | .enter _ _ _ | .enterMethod _ _ _ _ | .enterAsync _ _ _ => False

/-- The library enters the machine through calls, indexing and resumptions only. -/
def Library.Confined (library : Library ν) : Prop := ∀ r i, (library r i).Confined

def Kont.Confined : {a : Awaited} → Kont ν a → Prop
  | _, .host => True
  | _, .routine next k => (∀ r, (next r).Confined) ∧ k.Confined
  | _, .exit k => k = .host
  | _, .asyncMethod _ _ k | _, .drive _ k => k = .exit .host
  | _, .collapse k | _, .method _ _ _ k | _, .nested k | _, .resumed _ _ _ k => k.Confined
  | _, .native k | _, .finish _ k | _, .instruction _ _ k | _, .decorator _ _ _ _ k
  | _, .task _ k | _, .loop _ _ k | _, .protect _ _ _ k => k.Confined

def Control.Confined : Control ν → Prop
  | .execute _ _ k | .step _ k => k.Confined
  | .run p k => p.Confined ∧ k.Confined
  | .value _ k | .await _ k => k.Confined

namespace Machine

/-- The move hands on to those who are confined, whatever the state. -/
structure Confines (move : Move ν (Control ν)) : Prop where
  confined : ∀ s : State ν, (move s).1.Confined

section Moves

theorem confines_pure {control : Control ν} (h : control.Confined) : Confines (pure control) :=
  ⟨fun _ => h⟩

theorem confines_bind {move : Move ν α} {f : α → Move ν (Control ν)} (h : ∀ a, Confines (f a)) :
    Confines (move >>= f) := ⟨fun _ => (h _).confined _⟩

theorem confines_andThen {work : Exec ν α} {ok : α → Move ν (Control ν)}
    {error : Fault → Move ν (Control ν)} (ho : ∀ a, Confines (ok a))
    (he : ∀ e, Confines (error e)) : Confines (work.andThen ok error) := by
  refine ⟨fun s => ?_⟩
  unfold Exec.andThen
  cases work s with
  | ok a s' => exact (ho a).confined s'
  | error e s' => exact (he e).confined s'

end Moves

variable {library : Library ν} (confined : library.Confined)

include confined

theorem confined_ofRoutine (routine : Routine ν) (i : Invocation) :
    (Program.ofRoutine library routine i).Confined := by
  cases routine with
  | host r => exact confined r i
  | tableNext =>
    simp only [Program.ofRoutine, Program.tableNext, Program.andThen]
    split
    · exact fun _ => trivial
    · trivial
  | rangeNext =>
    simp only [Program.ofRoutine, Program.rangeNext]
    split
    · split <;> trivial
    · trivial

theorem confines_invoke {k : Kont ν .value} (hk : k.Confined) (f : NativeId)
    (operands : List Value) (isMethod : Bool) :
    Confines (invoke library f operands isMethod k) :=
  confines_bind fun _ => confines_pure ⟨confined_ofRoutine confined .., hk⟩

theorem confines_performCall {k : Kont ν .step} (hk : k.Confined) (spec : CallSpec) :
    Confines (performCall library spec k) := by
  refine confines_andThen (fun entered => ?_) fun _ => confines_pure hk
  cases entered with
  | script => exact confines_pure hk
  | native => exact confines_invoke confined (k := .native k) hk ..

theorem confines_executeCall {k : Kont ν .step} (hk : k.Confined) (function : Value)
    (arguments : List Value) (flags : FrameFlags) (name : Option String) :
    Confines (executeCall library function arguments flags name k) :=
  confines_bind fun s => confines_bind fun _ =>
    confines_performCall confined (k := .loop (mark s) 0 k) hk _

theorem confines_callNested {k : Kont ν .value} (hk : k.Confined) (function : Value)
    (arguments : List Value) : Confines (callNested library function arguments k) := by
  refine confines_bind fun s => ?_
  split
  · exact confines_pure hk
  · exact confines_bind fun _ => confines_executeCall confined (k := .nested k) hk ..

theorem confines_indexNested {k : Kont ν .value} (hk : k.Confined) (object key : Value) :
    Confines (indexNested library object key k) := by
  refine confines_bind fun s => ?_
  split
  · exact confines_pure hk
  · exact confines_callNested confined (k := .collapse k) hk ..
  · exact confines_pure hk

/-- The host drives a call. -/
theorem confines_driveAsync (function : Value) (arguments : List Value) :
    Confines (driveAsync library function arguments (.exit .host)) := by
  refine confines_bind fun s => ?_
  dsimp only
  split
  · exact confines_pure rfl
  · exact confines_bind fun _ =>
      confines_executeCall confined (k := .drive s.processor.asyncMode (.exit .host)) rfl ..

omit confined in
theorem confines_deliver {k : Kont ν .step} (hk : k.Confined) (flags : FrameFlags)
    (returnAddress : Nat) (v : Value) : Confines (deliver flags returnAddress v k) := by
  unfold deliver
  dsimp only
  split
  · exact confines_pure hk
  · split
    · exact confines_bind fun _ => confines_pure hk
    · exact confines_pure hk

theorem confines_performTailRequest {k : Kont ν .step} (hk : k.Confined) (frame : Frame)
    (request : TailCall) : Confines (performTailRequest library frame request k) := by
  unfold performTailRequest
  dsimp only
  split
  · exact confines_pure hk
  · refine confines_bind fun _ => confines_bind fun _ => confines_performCall confined ?_ _
    split <;> exact hk

omit confined in
theorem confines_suspendForYield {k : Kont ν .step} (hk : k.Confined) (frame : Frame)
    (values : List Value) : Confines (suspendForYield frame values k) := by
  refine confines_bind fun s => ?_
  split
  · exact confines_pure hk
  · split
    · exact confines_pure hk
    · exact confines_bind fun _ => confines_pure hk

omit confined in
theorem confines_handleAwait {k : Kont ν .step} (hk : k.Confined) (frame : Frame)
    (request : RequestId) : Confines (handleAwait frame request k) := by
  refine confines_bind fun s => ?_
  split
  · exact confines_pure hk
  · refine confines_bind fun _ => ?_
    split
    · exact confines_bind fun _ => confines_pure hk
    · split <;> exact confines_pure hk

theorem confines_finishFrame {k : Kont ν .step} (hk : k.Confined) (frame : Frame) (v : Value)
    (fromNative : Bool) : Confines (finishFrame library frame v fromNative k) := by
  unfold finishFrame
  split
  · exact confines_bind fun _ => confines_performTailRequest confined hk ..
  · exact confines_bind fun _ => confines_suspendForYield hk ..
  · exact confines_handleAwait hk ..
  · split
    · exact confines_invoke confined (k := .finish (disarmed frame) k) hk ..
    · exact confines_deliver hk ..

theorem confines_resumePending {k : Kont ν .step} (hk : k.Confined) (input : Except Fault Value)
    (fromTask : Bool) : Confines (resumePending library input fromTask k) := by
  refine confines_bind fun s => ?_
  cases s.processor.pending with
  | none => exact confines_pure hk
  | some pending =>
    obtain ⟨resumption, mark⟩ := pending
    refine confines_bind fun _ => ?_
    cases resumption with
    | instruction ip => exact confines_pure hk
    | deliver frame =>
      have waits : (Kont.loop mark (frame.returnAddress - 1) k).Confined := hk
      cases input with
      | ok v => exact confines_finishFrame confined waits ..
      | error e => exact confines_pure (show (Control.step _ _).Confined from waits)

theorem confines_popToHandler {k : Kont ν .step} (hk : k.Confined) (e : ScriptError) (mark : Mark)
    (count : Nat) : Confines (popToHandler library e mark k count) := by
  have lost : Confines (popToHandler.giveUp e mark k) := confines_bind fun _ => confines_pure hk
  induction count with
  | zero => exact lost
  | succ count ih =>
    refine confines_bind fun dropped => ?_
    cases dropped with
    | none => exact lost
    | some frame =>
      dsimp only
      split
      · have waits : (Kont.finish (disarmed frame)
            (.loop mark (frame.returnAddress - 1) k)).Confined := hk
        exact confines_invoke confined waits ..
      · split
        · exact lost
        · exact ih

theorem confines_runDecorators {k : Kont ν .step} (hk : k.Confined) (e : ScriptError)
    (caught : Bool) (mark : Mark) (decorators : List Value) :
    Confines (runDecorators library e caught mark k decorators) := by
  cases decorators with
  | nil => exact confines_bind fun _ => confines_popToHandler confined hk ..
  | cons decorator others =>
    exact confines_callNested confined (k := .decorator e others caught mark k) hk ..

theorem confines_unwind {k : Kont ν .step} (hk : k.Confined) (fault : Fault) (ip : Nat)
    (mark : Mark) : Confines (unwind library fault ip mark k) := by
  unfold unwind
  split
  · rename_i e
    refine confines_bind fun s => ?_
    dsimp only
    generalize (if e.isDecorated then e else s.decorate e ip) = e
    split
    · exact confines_popToHandler confined hk ..
    · exact confines_runDecorators confined hk ..
  · exact confines_bind fun _ => confines_pure hk

theorem confines_resume {k : Kont ν .value} (hk : k.Confined) (mode : ResumeMode) (c : ThreadId)
    (arguments : List Value) : Confines (resume library mode c arguments k) := by
  refine confines_bind fun s => ?_
  dsimp only
  split
  · exact confines_pure hk
  · have picked : Confines (resumeFrom library (s.coroutine c).function (s.coroutine c).state
        arguments (.resumed mode c s.current k)) := by
      refine confines_bind fun _ => ?_
      split
      · exact confines_executeCall confined (k := .resumed mode c s.current k) hk ..
      · exact confines_resumePending confined (k := .resumed mode c s.current k) hk ..
      · exact confines_resumePending confined (k := .resumed mode c s.current k) hk ..
      all_goals
        exact confines_pure (show (Control.step _ (.resumed mode c s.current k)).Confined from hk)
    refine confines_bind fun _ => ?_
    cases mode <;> exact confines_bind fun _ => picked

omit confined in
theorem confines_endResume {k : Kont ν .value} (hk : k.Confined) (mode : ResumeMode)
    (c previous : ThreadId) (outcome : Except Fault Step) :
    Confines (endResume mode c previous outcome k) := by
  cases mode <;> exact confines_bind fun _ => confines_bind fun _ => confines_pure hk

theorem confines_perform {k : Kont ν .step} (hk : k.Confined) (ip : Nat) (mark : Mark)
    (effect : Option Effect) : Confines (perform library ip mark k effect) := by
  match effect with
  | none | some .next | some (.jump _) => exact confines_pure hk
  | some (.call spec) => exact confines_performCall confined (k := .loop mark ip k) hk spec
  | some (.leave frame v) =>
    exact confines_finishFrame confined (k := .loop mark ip k) hk frame v false
  | some (.nested _ _ after) =>
    exact confines_callNested confined (k := .instruction after ip (.loop mark ip k)) hk ..

theorem confines_runProgram {k : Kont ν .value} (hk : k.Confined) {p : Program ν}
    (hp : p.Confined) : Confines (runProgram library k p) := by
  have direct : ∀ {work : Exec ν Value} {next : Except Fault Value → Program ν},
      (∀ r, (next r).Confined) → Confines (runProgram.direct k work next) := fun hn =>
    confines_andThen (fun _ => confines_pure ⟨hn _, hk⟩) fun _ => confines_pure ⟨hn _, hk⟩
  cases p with
  | finish outcome => exact confines_pure hk
  | change action next => exact ⟨fun _ => ⟨hp _, hk⟩⟩
  | ask query next => exact confines_bind fun _ => confines_pure ⟨hp _, hk⟩
  | print values next => exact confines_bind fun _ => confines_pure ⟨hp, hk⟩
  | spawn function next | undump bytes next | assign name v next => exact direct hp
  | autoYield c budget next => exact confines_bind fun _ => confines_pure ⟨hp, hk⟩
  | call function arguments next =>
    exact confines_callNested confined (k := .routine next k) ⟨hp, hk⟩ ..
  | index object key next =>
    exact confines_indexNested confined (k := .routine next k) ⟨hp, hk⟩ ..
  | resume c arguments next =>
    exact confines_resume confined (k := .routine next k) ⟨hp, hk⟩ .synchronous c arguments
  | enter | enterMethod | enterAsync => exact hp.elim

theorem confines_handValue (outcome : Except Fault Value) {k : Kont ν .value} (hk : k.Confined) :
    Confines (handValue library outcome k) := by
  cases k with
  | host | collapse => exact confines_pure hk
  | routine next k => exact confines_pure ⟨hk.1 _, hk.2⟩
  | native k =>
    cases outcome with
    | ok v =>
      exact confines_andThen (fun _ => confines_finishFrame confined hk ..)
        fun _ => confines_pure hk
    | error e => exact confines_pure hk
  | finish frame k =>
    cases outcome with
    | ok v => exact confines_finishFrame confined hk ..
    | error e => exact confines_pure hk
  | instruction after ip k =>
    cases outcome with
    | ok v => exact confines_andThen (fun _ => confines_pure hk) fun _ => confines_pure hk
    | error e => exact confines_pure hk
  | decorator => exact confines_bind fun _ => confines_runDecorators confined hk ..
  | method object name arguments k =>
    cases outcome with
    | ok v => exact confines_bind fun _ => confines_executeCall confined (k := .nested k) hk ..
    | error e => exact confines_pure hk
  | asyncMethod object arguments k =>
    obtain rfl := hk
    cases outcome with
    | ok v => exact confines_driveAsync confined ..
    | error e => exact confines_pure rfl
  | exit k =>
    obtain rfl := hk
    exact confines_bind fun _ => confines_pure trivial
  | task c k => exact confines_bind fun _ => confines_resumePending confined hk ..

theorem confines_handStep (outcome : Except Fault Step) {k : Kont ν .step} (hk : k.Confined) :
    Confines (handStep library outcome k) := by
  cases k with
  | loop mark ip k =>
    match outcome with
    | .ok (.proceed _) | .ok (.return _) | .ok (.suspend _) => exact confines_pure hk
    | .error e => exact confines_unwind confined (k := k) hk e ip mark
  | protect frame handler mark k =>
    match outcome with
    | .error (.script e) =>
      refine confines_bind fun s => ?_
      split
      · exact confines_bind fun _ => confines_invoke confined (k := .finish frame k) hk ..
      · exact confines_pure (show (Control.step _ k).Confined from hk)
    | .ok _ | .error (.defect _) | .error (.watch _) | .error (.format _)
    | .error .instructionLimit | .error .concurrentAccess | .error (.transfer _) =>
      exact confines_pure (show (Control.step _ k).Confined from hk)
  | nested k => exact confines_bind fun _ => confines_pure hk
  | drive previous k =>
    match outcome with
    | .ok (.suspend (.await _)) => exact confines_bind fun _ => confines_pure hk
    | .ok (.proceed _) | .ok (.return _) | .ok (.suspend (.yield _)) | .ok (.suspend .forced)
    | .error _ =>
      obtain rfl := hk
      exact confines_bind fun _ => confines_pure (show (Control.value _ _).Confined from rfl)
  | resumed mode c previous k =>
    have ended := confines_endResume hk mode c previous outcome
    match mode, outcome with
    | .asynchronous, .ok (.suspend (.await _)) => exact confines_bind fun _ => confines_pure hk
    | .synchronous, _ | .asynchronous, .ok (.proceed _) | .asynchronous, .ok (.return _)
    | .asynchronous, .ok (.suspend (.yield _)) | .asynchronous, .ok (.suspend .forced)
    | .asynchronous, .error _ => exact ended

/-- **One step** of a machine with confined routines. -/
theorem confines_advance {control : Control ν} (h : control.Confined) :
    Confines (advance library control) := by
  match control with
  | .execute ip mark k =>
    exact confines_andThen (fun _ => confines_perform confined h ..)
      fun _ => confines_unwind confined h ..
  | .run p k => exact confines_runProgram confined h.2 h.1
  | .step outcome k => exact confines_handStep confined outcome h
  | .value outcome k => exact confines_handValue confined outcome h
  | .await (.settles _) _ | .await .never _ => exact confines_pure h

end Machine

end ScriptMachine
