import ScriptMachine.Machine.Entry
import ScriptMachine.Proofs.Machine.Meter

/-!
# Hosts of a coroutine

What a host gets from a coroutine that it resumes.

* `Resumes`, `Drives`: a turn of a host that resumes the coroutine once, or again after each forced
  yield.
* `Session`: one turn after the other.
* `ownInstructions`: how many instructions a coroutine executes in its own loop.
* `DrivesFrom`: a turn as a run of the machine, with the resumptions in between.
-/

namespace ScriptMachine

open Machine

variable {ν : Type}

/-- The host resumes a coroutine and gets an outcome. -/
def Resumes (library : Library ν) (c : ThreadId) (arguments : List Value) (s : State ν)
    (outcome : Except Fault Value) (s' : State ν) : Prop :=
  ∃ steps, perform? library steps (hostResume library .synchronous c arguments) s =
    (.done outcome, s')

/-- The host resumes a coroutine, and again without arguments after each forced yield. -/
inductive Drives (library : Library ν) (c : ThreadId) :
    List Value → State ν → Except Fault Value → State ν → Prop
  | answers {arguments : List Value} {s s' : State ν} {outcome : Except Fault Value} :
      Resumes library c arguments s outcome s' → s'.coroutineState c ≠ .forceSuspended →
      Drives library c arguments s outcome s'
  | again {arguments : List Value} {s s' s'' : State ν} {forced outcome : Except Fault Value} :
      Resumes library c arguments s forced s' → s'.coroutineState c = .forceSuspended →
      Drives library c [] s' outcome s'' → Drives library c arguments s outcome s''

/-- What a host gets from a coroutine, one turn after the other: each outcome, and whether the
coroutine has yielded it or is done. -/
inductive Session (turn : List Value → State ν → Except Fault Value → State ν → Prop)
    (c : ThreadId) :
    List (List Value) → State ν → List (Except Fault Value × CoroutineState) → State ν → Prop
  | nil {s : State ν} : Session turn c [] s [] s
  | cons {arguments : List Value} {rest : List (List Value)} {s s' s'' : State ν}
      {outcome : Except Fault Value} {outcomes : List (Except Fault Value × CoroutineState)} :
      turn arguments s outcome s' → Session turn c rest s' outcomes s'' →
      Session turn c (arguments :: rest) s ((outcome, s'.coroutineState c) :: outcomes) s''

/-- The states that a host meets between the resumptions of a coroutine. -/
inductive Driven (library : Library ν) (c : ThreadId) (s : State ν) : State ν → Prop
  | start : Driven library c s s
  | resume {s' s'' : State ν} {arguments : List Value} {outcome : Except Fault Value} :
      Driven library c s s' → Resumes library c arguments s' outcome s'' → Driven library c s s''

namespace Machine

/-- The machine executes an instruction in the loop of the coroutine itself. -/
def executesOwn (c : ThreadId) (m : Machine ν) : Bool :=
  match m.control with
  | .execute ip _ _ =>
    m.state.current == c && m.state.processor.nestedCalls == 0 && (m.state.instructionAt ip).isOk &&
      !(Exec.executeAt ip m.state matches .ok none _)
  | _ => false

/-- How many instructions of its own loop a coroutine executes in a run. -/
def ownInstructions (library : Library ν) (c : ThreadId) : Nat → Machine ν → Nat
  | 0, _ => 0
  | steps + 1, m =>
    if m.isHalted then 0
    else (if m.executesOwn c then 1 else 0) + ownInstructions library c steps (m.step library)

variable {library : Library ν} {c : ThreadId} {m : Machine ν} {s t : State ν}
  {outcome : Except Fault Value}

def RunsTo (library : Library ν) (m : Machine ν) (outcome : Except Fault Value) (s : State ν) :
    Prop :=
  ∃ steps, run library steps m = ⟨.value outcome .host, s⟩

theorem RunsTo.step (going : m.isHalted = false) (h : RunsTo library (m.step library) outcome s) :
    RunsTo library m outcome s := by
  obtain ⟨steps, h⟩ := h
  refine ⟨steps + 1, ?_⟩
  rw [run, going]
  exact h

theorem ending_eq_done : (m.ending, m.state) = (.done outcome, s) ↔ m = ⟨.value outcome .host, s⟩ := by
  obtain ⟨control, state⟩ := m
  constructor
  · intro h
    obtain ⟨ended, rfl⟩ := Prod.mk.inj h
    unfold ending at ended
    split at ended
    · rename_i hc
      dsimp only at hc
      cases ended
      rw [hc]
    · contradiction
    · contradiction
  · intro h
    cases h
    rfl

theorem step_eq (control : Control ν) (s : State ν) :
    Machine.step library ⟨control, s⟩ =
      ⟨(advance library control s).1, (advance library control s).2⟩ := rfl

/-- The machine after a move of the host. -/
def ofMove (move : Move ν (Control ν)) (s : State ν) : Machine ν := ⟨(move s).1, (move s).2⟩

theorem resumes_iff {arguments : List Value} :
    Resumes library c arguments s outcome t ↔
      RunsTo library (ofMove (hostResume library .synchronous c arguments) s) outcome t := by
  constructor
  · rintro ⟨steps, h⟩
    exact ⟨steps, ending_eq_done.1 h⟩
  · rintro ⟨steps, h⟩
    exact ⟨steps, ending_eq_done.2 h⟩

/-- A machine whose host resumes the coroutine after each forced yield. -/
inductive DrivesFrom (library : Library ν) (c : ThreadId) :
    Machine ν → Except Fault Value → State ν → Prop
  | answers {s : State ν} {outcome : Except Fault Value} : s.coroutineState c ≠ .forceSuspended →
      DrivesFrom library c ⟨.value outcome .host, s⟩ outcome s
  | again {s t : State ν} {forced outcome : Except Fault Value} :
      s.coroutineState c = .forceSuspended →
      DrivesFrom library c (ofMove (hostResume library .synchronous c []) s) outcome t →
      DrivesFrom library c ⟨.value forced .host, s⟩ outcome t
  | step {m : Machine ν} {outcome : Except Fault Value} {t : State ν} : m.isHalted = false →
      DrivesFrom library c (m.step library) outcome t → DrivesFrom library c m outcome t

theorem DrivesFrom.of_run {forced : Except Fault Value} (runs : RunsTo library m forced s)
    (h : DrivesFrom library c ⟨.value forced .host, s⟩ outcome t) :
    DrivesFrom library c m outcome t := by
  obtain ⟨steps, runs⟩ := runs
  induction steps generalizing m with
  | zero =>
    rw [run] at runs
    exact runs ▸ h
  | succ steps ih =>
    rw [run] at runs
    split at runs
    · exact runs ▸ h
    · rename_i going
      exact .step (Bool.eq_false_iff.2 going) (ih runs)

theorem drives_iff {arguments : List Value} :
    Drives library c arguments s outcome t ↔
      DrivesFrom library c (ofMove (hostResume library .synchronous c arguments) s) outcome t := by
  constructor
  · intro h
    induction h with
    | answers resumes stays => exact .of_run (resumes_iff.1 resumes) (.answers stays)
    | again resumes stays _ ih => exact .of_run (resumes_iff.1 resumes) (.again stays ih)
  · intro h
    generalize start : ofMove (hostResume library .synchronous c arguments) s = m at h
    -- the run up to the first time that the host gets the turn
    suffices first : (RunsTo library m outcome t ∧ t.coroutineState c ≠ .forceSuspended) ∨
        ∃ forced s', RunsTo library m forced s' ∧ s'.coroutineState c = .forceSuspended ∧
          Drives library c [] s' outcome t by
      subst start
      obtain ⟨runs, stays⟩ | ⟨forced, s', runs, stays, rest⟩ := first
      · exact .answers (resumes_iff.2 runs) stays
      · exact .again (resumes_iff.2 runs) stays rest
    clear start
    induction h with
    | answers stays => exact .inl ⟨⟨0, rfl⟩, stays⟩
    | @again s' t forced outcome stays _ ih =>
      refine .inr ⟨forced, s', ⟨0, rfl⟩, stays, ?_⟩
      obtain ⟨runs, stays'⟩ | ⟨forced', s'', runs, stays', rest⟩ := ih
      · exact .answers (resumes_iff.2 runs) stays'
      · exact .again (resumes_iff.2 runs) stays' rest
    | step going _ ih =>
      obtain ⟨runs, stays⟩ | ⟨forced, s', runs, stays, rest⟩ := ih
      · exact .inl ⟨runs.step going, stays⟩
      · exact .inr ⟨forced, s', runs.step going, stays, rest⟩

end Machine

end ScriptMachine
