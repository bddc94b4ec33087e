import ScriptMachine.Proofs.Machine.Gradual

/-!
# The limit on instructions

All threads of a machine count their instructions together. However often the host calls, whatever
routines make of a fault, and whichever coroutine runs, no more instructions take effect than the
limit allows.

* `Machine.executes`: an instruction takes effect now.
* `Machine.overruns`: the limit refuses the instruction that comes next.
* `Run.instructions_within_limit`: the bound, and that a machine that overran its limit executes
  nothing any more.
-/

namespace ScriptMachine

variable {ν : Type}

namespace Exec

/-- What comes before an instruction takes effect: it is found, counted, and shown to the debugger,
unless a yield is forced. -/
def prepare (ip : Nat) : Exec ν (Option ((Proto × Scope) × Instruction)) := do
  let x ← ofExcept ((← get).instructionAt ip)
  countInstruction
  if ← shareUsedUp ip then return none
  else
    checkpoint x.1.1 ip
    return some x

theorem executeAt_eq_prepare (ip : Nat) (s : State ν) : executeAt ip s = (do
    match ← prepare ip with
    | none => return none
    | some x => return some (← execute x.1.1 x.1.2 ip x.2) : Exec ν (Option Effect)) s := by
  have split : ∀ x : (Proto × Scope) × Instruction, (turn ip x : Exec ν (Option Effect)) = (do
      match ← (do
        if ← shareUsedUp ip then return none
        else
          checkpoint x.1.1 ip
          return some x : Exec ν (Option ((Proto × Scope) × Instruction))) with
      | none => return none
      | some x => return some (← execute x.1.1 x.1.2 ip x.2)) := by
    intro x
    simp only [turn, takeTurn, bind_assoc]
    refine congrArg _ (funext fun used => ?_)
    cases used <;> simp
  rw [executeAt_eq]
  change (ofExcept (s.instructionAt ip) >>= _ : Exec ν (Option Effect)) s =
    ((ofExcept (s.instructionAt ip) >>= _) >>= _ : Exec ν (Option Effect)) s
  simp only [bind_assoc, split]

theorem prepare_spent {ip : Nat} {x : (Proto × Scope) × Instruction} {s : State ν}
    (found : s.instructionAt ip = .ok x) (spent : s.spent = true) :
    prepare ip s = .error .instructionLimit s.counted := by
  change (ofExcept (s.instructionAt ip) >>= _ : Exec ν (Option ((Proto × Scope) × Instruction))) s
    = _
  rw [found]
  change (countInstruction >>= _ : Exec ν (Option ((Proto × Scope) × Instruction))) s = _
  simp only [bind, EStateM.bind, countInstruction_eq, spent, ↓reduceIte]

end Exec

namespace State

variable {s s' : State ν}

theorem Change.count (h : s.Change s') :
    s'.options = s.options ∧ s.instructionCount ≤ s'.instructionCount := by
  cases h with
  | passive same => exact ⟨same.options, Nat.le_of_eq same.instructionCount.symm⟩
  | counted => exact ⟨rfl, Nat.le_succ _⟩
  | newClosed | assigned | opened | poppedNative | pushed => exact ⟨rfl, Nat.le_refl _⟩
  | @closed f p =>
    have same := view_closeCells (fun s : State ν => (s.options, s.instructionCount))
      (fun _ _ => rfl) s p f.cells
    obtain ⟨options, count⟩ := Prod.mk.inj same
    exact ⟨options, Nat.le_of_eq count.symm⟩
  | @popped f =>
    have same := view_closeCells (fun s : State ν => (s.options, s.instructionCount))
      (fun _ _ => rfl) (s.modifyFrames Array.pop) (fun slot => f.base ≤ slot) f.cells
    obtain ⟨options, count⟩ := Prod.mk.inj same
    exact ⟨options, Nat.le_of_eq count.symm⟩

/-- The count never goes back, and the options stay. -/
theorem Becomes.count (h : s.Becomes s') :
    s'.options = s.options ∧ s.instructionCount ≤ s'.instructionCount := by
  induction h with
  | refl => exact ⟨rfl, Nat.le_refl _⟩
  | tail _ change ih =>
    exact ⟨change.count.1.trans ih.1, Nat.le_trans ih.2 change.count.2⟩

theorem spent_iff {limit : Nat} (limited : s.options.instructionLimit = some limit) :
    s.spent = true ↔ limit ≤ s.instructionCount := by
  simp [spent, limited]

/-- A machine whose limit is used up never has room again. -/
theorem Becomes.spent (h : s.Becomes s') (spent : s.spent = true) : s'.spent = true := by
  cases limited : s.options.instructionLimit with
  | none => simp [State.spent, limited] at spent
  | some limit =>
    obtain ⟨options, count⟩ := h.count
    rw [spent_iff limited] at spent
    rw [spent_iff (options ▸ limited)]
    exact Nat.le_trans spent count

end State

namespace Machine

variable {library : Library ν} {m m' : Machine ν}

/-- An instruction takes effect now. -/
def executes (m : Machine ν) : Bool :=
  match m.control with
  | .execute ip _ _ =>
    match Exec.prepare ip m.state with
    | .ok (some _) _ => true
    | _ => false
  | _ => false

/-- The limit refuses the instruction that comes next. -/
def overruns (m : Machine ν) : Bool :=
  match m.control with
  | .execute ip _ _ =>
    match m.state.instructionAt ip, Exec.countInstruction m.state with
    | .ok _, .error .instructionLimit _ => true
    | _, _ => false
  | _ => false

theorem spent_of_overruns (h : m.overruns = true) : m.state.spent = true := by
  unfold overruns at h
  split at h
  · split at h
    · rename_i refused
      rw [Exec.countInstruction_eq] at refused
      by_contra room
      rw [if_neg room] at refused
      cases refused
    · cases h
  · cases h

/-- Only an instruction that is found and within the limit takes effect. -/
theorem exists_of_executes (h : m.executes = true) :
    ∃ ip mark k x, m.control = .execute ip mark k ∧ m.state.instructionAt ip = .ok x ∧
      m.state.spent = false := by
  unfold executes at h
  split at h
  · rename_i ip mark k control
    cases found : m.state.instructionAt ip with
    | error e =>
      have missing : Exec.prepare ip m.state = .error e m.state := by
        change (Exec.ofExcept (m.state.instructionAt ip) >>= _ :
          Exec ν (Option ((Proto × Scope) × Instruction))) m.state = _
        rw [found]
        rfl
      simp [missing] at h
    | ok x =>
      refine ⟨ip, mark, k, x, control, found, Bool.eq_false_iff.2 fun spent => ?_⟩
      simp [Exec.prepare_spent found spent] at h
  · cases h

/-- What takes effect has been counted. -/
theorem counted_becomes (h : m.executes = true) (next : Next library m m') :
    m.state.counted.Becomes m'.state := by
  obtain ⟨ip, mark, k, x, control, found, room⟩ := exists_of_executes h
  have busy : ¬ m.Idle := by
    simp only [Idle, control, not_false_eq_true]
  obtain rfl := next.eq_step busy
  have turned := Exec.becomes_counted_turn found
  have run := Exec.executeAt_counted found
  rw [room] at run
  change m.state.counted.Becomes (advance library m.control m.state).2
  rw [control]
  change m.state.counted.Becomes ((Exec.executeAt ip).andThen _ _ m.state).2
  simp only [Exec.andThen, run, Bool.false_eq_true, ↓reduceIte]
  cases ran : Exec.turn ip x m.state.counted with
  | ok effect s =>
    exact (turned.ok ran).trans ((gradual_perform library ip mark k effect).becomes s)
  | error e s => exact (turned.error ran).trans ((gradual_unwind library e ip mark k).becomes s)

end Machine

namespace Run

variable {library : Library ν}

/-- How many instructions take effect before step `n`. -/
def executed (r : Run library) (n : Nat) : Nat :=
  (List.range n).countP fun i => (r.machine i).executes

theorem executed_succ (r : Run library) (n : Nat) :
    r.executed (n + 1) = r.executed n + if (r.machine n).executes then 1 else 0 := by
  simp [executed, List.range_succ]

/-- Every instruction that takes effect is counted. -/
theorem executed_le_count (r : Run library) (n : Nat) :
    r.executed n ≤ (r.machine n).state.instructionCount := by
  induction n with
  | zero => exact Nat.zero_le _
  | succ n ih =>
    rw [executed_succ]
    by_cases executes : (r.machine n).executes = true
    · rw [if_pos executes]
      have counted := (Machine.counted_becomes executes (r.next n)).count.2
      exact Nat.le_trans (Nat.succ_le_succ ih) counted
    · rw [if_neg executes]
      exact Nat.le_trans ih (Machine.next_becomes (r.next n)).count.2

theorem executed_le_limit (r : Run library) {limit : Nat}
    (limited : (r.machine 0).state.options.instructionLimit = some limit) (n : Nat) :
    r.executed n ≤ limit := by
  induction n with
  | zero => exact Nat.zero_le _
  | succ n ih =>
    rw [executed_succ]
    by_cases executes : (r.machine n).executes = true
    · rw [if_pos executes]
      obtain ⟨-, -, -, -, -, -, room⟩ := Machine.exists_of_executes executes
      have options := (r.becomes (Nat.zero_le n)).count.1
      have within : (r.machine n).state.instructionCount < limit := by
        rw [← Nat.not_le, ← State.spent_iff (options ▸ limited), room]
        exact Bool.false_ne_true
      exact Nat.lt_of_le_of_lt (r.executed_le_count n) within
    · rwa [if_neg executes]

/-- **No more instructions take effect than the limit allows**, whatever the host asks for and
whatever routines, handlers and coroutines do. Once the limit has refused an instruction, none takes
effect any more. -/
theorem instructions_within_limit (r : Run library) {limit : Nat}
    (limited : (r.machine 0).state.options.instructionLimit = some limit) :
    (∀ n, r.executed n ≤ limit) ∧
    ∀ i j, i ≤ j → (r.machine i).overruns = true → (r.machine j).executes = false := by
  refine ⟨r.executed_le_limit limited, fun i j later overruns => Bool.eq_false_iff.2 fun h => ?_⟩
  have spent := (r.becomes later).spent (Machine.spent_of_overruns overruns)
  obtain ⟨-, -, -, -, -, -, room⟩ := Machine.exists_of_executes h
  rw [room] at spent
  cases spent

end Run

namespace Sample

/-- The only routine calls its argument, and calls it again whatever came of the first call. -/
def insistent : Library Unit := fun _ i =>
  .call (i.arguments.get 0) [] fun _ => .call (i.arguments.get 0) [] .finish

/-- A machine that may execute two instructions, with the routine and a function of three. -/
def frugal : Machine Unit :=
  let start : Machine Unit := .start { instructionLimit := some 2 }
  ⟨start.control, { start.state with world, closures := #[⟨callee, #[]⟩] }⟩

def exceeding : Run insistent :=
  let arranged : Machine Unit := ⟨frugal.control, { frugal.state with closures := #[] }⟩
  (((Run.rest insistent { instructionLimit := some 2 }).turn 0 arranged (.arrange world trivial)).turn
    1 frugal (.load (p := callee) (v := .function ⟨0⟩) trivial rfl)).turn 2
    (frugal.after (Machine.call insistent apply [.function ⟨0⟩])) (.call trivial rfl (.call ..))

end Sample

/-- A routine that takes no notice of the fault, and has the function called again. -/
theorem Run.instructions_within_limit_exceeding :
    Sample.exceeding.executed 20 = 2 ∧ (Sample.exceeding.machine 7).overruns = true ∧
    (Sample.exceeding.machine 12).overruns = true ∧ (∀ n, Sample.exceeding.executed n ≤ 2) ∧
    ∀ i j, i ≤ j → (Sample.exceeding.machine i).overruns = true →
      (Sample.exceeding.machine j).executes = false :=
  ⟨by decide +kernel, by decide +kernel, by decide +kernel,
   Sample.exceeding.instructions_within_limit rfl⟩

end ScriptMachine
