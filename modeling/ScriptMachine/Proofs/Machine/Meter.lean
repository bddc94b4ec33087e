import ScriptMachine.Proofs.Machine.Guise

/-!
# Meters

A machine counts its instructions, and those of a coroutine since it was resumed. Nothing but the
end of a coroutine's share depends on what the meters show.

* `State.metered`: a state in which the meters show something else.
* `Exec.executeAt_turns`: a turn of a coroutine does the same whatever the meters show, unless it is
  put off.
-/

namespace ScriptMachine

variable {ν α : Type}

structure Meter where
  /-- The instructions between forced yields; zero for none. -/
  share : Nat
  sinceResume : Nat
  /-- Instructions of the whole machine. -/
  total : Nat

def Processor.metered (p : Processor) (m : Meter) : Processor :=
  { p with autoYield := m.share, sinceResume := m.sinceResume }

def Meter.guise (m : Meter) : Guise where
  autoYield _ := m.share
  sinceResume _ := m.sinceResume
  total _ := m.total

namespace State

variable (s : State ν) (c d : ThreadId) (m m' : Meter)

/-- The state in which the meters of a coroutine show something else. -/
def metered : State ν :=
  { s.modifyProcessorOf c (·.metered m) with instructionCount := m.total }

@[simp] theorem metered_metered : (s.metered c m).metered c m' = s.metered c m' := by
  have twice := s.modifyProcessorOf_twice c (·.metered m) (·.metered m')
  change { (s.modifyProcessorOf c (·.metered m)).modifyProcessorOf c (·.metered m') with
    instructionCount := m'.total } = s.metered c m'
  rw [twice]
  rfl

/-- A change of a processor that has nothing to do with the meters. -/
theorem modifyProcessorOf_metered (f : Processor → Processor)
    (h : d = c → ∀ p, f (p.metered m) = (f p).metered m) :
    (s.metered c m).modifyProcessorOf d f = (s.modifyProcessorOf d f).metered c m :=
  s.modifyProcessorOf_guised c d m.guise f h

theorem modifyProcessor_metered (f : Processor → Processor) :
    (s.metered s.current m).modifyProcessor f =
      { s.modifyProcessorOf s.current (fun p => f (p.metered m)) with
        instructionCount := m.total } := by
  rw [← s.modifyProcessorOf_twice]
  rfl

@[simp] theorem world_metered : (s.metered c m).world = s.world := rfl

@[simp] theorem options_metered : (s.metered c m).options = s.options := rfl

@[simp] theorem current_metered : (s.metered c m).current = s.current := rfl

@[simp] theorem frames_metered : (s.metered c m).processor.frames = s.processor.frames :=
  s.frames_guised c m.guise

@[simp] theorem stack_metered : (s.metered c m).processor.stack = s.processor.stack :=
  s.stack_guised c m.guise

@[simp] theorem nestedCalls_metered :
    (s.metered c m).processor.nestedCalls = s.processor.nestedCalls :=
  view_modifyProcessorOf s _ c s.current Processor.nestedCalls fun _ => rfl

@[simp] theorem isYieldable_metered : (s.metered c m).isYieldable = s.isYieldable := by
  simp only [isYieldable, nestedCalls_metered]
  rfl

@[simp] theorem asyncMode_metered : (s.metered c m).processor.asyncMode = s.processor.asyncMode :=
  view_modifyProcessorOf s _ c s.current Processor.asyncMode fun _ => rfl

@[simp] theorem pending_metered : (s.metered c m).processor.pending = s.processor.pending :=
  view_modifyProcessorOf s _ c s.current Processor.pending fun _ => rfl

end State

/-- The second state is the first with other meters, and quiet work has led from `s₀` there. -/
def Metered (c : ThreadId) (m : Meter) (s₀ : State ν) (_ : Nat) (s t : State ν) : Prop :=
  t = s.metered c m ∧ Quiet c s₀ s

theorem State.instructionAt_metered (s : State ν) (c : ThreadId) (m : Meter) (ip : Nat) :
    (s.metered c m).instructionAt ip = s.instructionAt ip :=
  s.instructionAt_guised c m.guise ip

namespace Exec

variable {c : ThreadId} {m : Meter} {s t : State ν} {ip : Nat} {x : (Proto × Scope) × Instruction}

theorem executeAt_turn (unlimited : s.options.instructionLimit = none)
    (found : s.instructionAt ip = .ok x) :
    executeAt ip s = turn ip x s.counted := by
  rw [executeAt_eq, found]
  change (countInstruction >>= _ : Exec ν (Option Effect)) s = _
  simp only [countInstruction, bind, EStateM.bind, get, getThe, MonadStateOf.get, EStateM.get, set,
    MonadStateOf.set, EStateM.set, unlimited]
  rfl

theorem shareUsedUp_off (ip : Nat) (off : s.processor.autoYield = 0) :
    shareUsedUp ip s = .ok false s := by
  simp only [shareUsedUp, bind, EStateM.bind, get, getThe, MonadStateOf.get, EStateM.get, off]
  rfl

/-- A turn of a coroutine in its own loop. -/
theorem shareUsedUp_own (ip : Nat) (inRange : s.HasCurrent) (own : s.isYieldable = true)
    (on : 0 < m.share) :
    shareUsedUp ip (s.metered s.current m) =
      if m.share < m.sinceResume + 1 then
        .ok true ((s.metered s.current { m with sinceResume := 0 }).modifyProcessor fun p =>
          { p with pending := some (.instruction ip, {}) })
      else .ok false (s.metered s.current { m with sinceResume := m.sinceResume + 1 }) := by
  have shown : (s.metered s.current m).processor = s.processor.metered m :=
    State.processorOf_modifyProcessorOf s _ inRange
  simp only [shareUsedUp, bind, EStateM.bind, get, getThe, MonadStateOf.get, EStateM.get, shown,
    State.isYieldable_metered, own, Processor.metered, on, decide_true, Bool.and_self, ↓reduceIte]
  split
  · change EStateM.Result.ok true ((s.metered s.current m).modifyProcessor _) = _
    rw [State.modifyProcessor_metered, State.modifyProcessor_metered]
    rfl
  · change EStateM.Result.ok false ((s.metered s.current m).modifyProcessor _) = _
    rw [State.modifyProcessor_metered]
    rfl

theorem turn_of_share {t' : State ν} (h : shareUsedUp ip t = .ok false t') :
    turn ip x t = takeTurn ip x t' := by
  simp only [turn, bind, EStateM.bind, h]
  rfl

/-- What a turn of a thread makes of the meters of a coroutine. -/
inductive Turns (c : ThreadId) (m : Meter) (ip : Nat) (s : State ν) : Prop
  /-- There is no instruction. -/
  | missing {e : Fault} : s.instructionAt ip = .error e → executeAt ip s = .error e s →
      executeAt ip (s.metered c m) = .error e (s.metered c m) → Turns c m ip s
  /-- The turn is none of the coroutine's own. -/
  | other {x : (Proto × Scope) × Instruction} : s.instructionAt ip = .ok x →
      (s.current = c → s.isYieldable = false) →
      Agree (fun _ => Metered c { m with total := m.total + 1 } s 0)
        (Metered c { m with total := m.total + 1 } s 0) (executeAt ip s)
        (executeAt ip (s.metered c m)) → Turns c m ip s
  | own {x : (Proto × Scope) × Instruction} : s.instructionAt ip = .ok x → s.current = c →
      s.isYieldable = true → m.sinceResume < m.share →
      Agree (fun _ => Metered c ⟨m.share, m.sinceResume + 1, m.total + 1⟩ s 0)
        (Metered c ⟨m.share, m.sinceResume + 1, m.total + 1⟩ s 0) (executeAt ip s)
        (executeAt ip (s.metered c m)) → Turns c m ip s
  /-- The share is used up. -/
  | forced {x : (Proto × Scope) × Instruction} : s.instructionAt ip = .ok x → s.current = c →
      s.isYieldable = true → m.share ≤ m.sinceResume →
      executeAt ip (s.metered c m) = .ok none
        ((s.metered c ⟨m.share, 0, m.total + 1⟩).modifyProcessor fun p =>
          { p with pending := some (.instruction ip, {}) }) → Turns c m ip s

/-- **A turn is the same whatever the meters show**, unless it is put off. The coroutine has no
share in the first state. -/
theorem executeAt_turns (ip : Nat) (unlimited : s.options.instructionLimit = none)
    (inRange : c.index < s.processors.size) (off : (s.processorOf c).autoYield = 0)
    (on : 0 < m.share) : Turns c m ip s := by
  have shown := s.instructionAt_metered c m ip
  cases found : s.instructionAt ip with
  | error e => exact .missing found (executeAt_fault found) (executeAt_fault (shown.trans found))
  | ok x =>
    let m' : Meter := { m with total := m.total + 1 }
    have first := executeAt_turn unlimited found
    have second : executeAt ip (s.metered c m) = turn ip x (s.counted.metered c m') :=
      executeAt_turn unlimited (shown.trans found)
    by_cases own : s.current = c ∧ s.isYieldable = true
    · obtain ⟨rfl, yieldable⟩ := own
      have used := shareUsedUp_own (s := s.counted) (m := m') ip inRange yieldable on
      by_cases left : m.sinceResume < m.share
      · refine .own found rfl yieldable left ?_
        rw [if_neg (Nat.not_lt.2 left)] at used
        have spent : shareUsedUp ip s.counted = .ok false s.counted := shareUsedUp_off ip off
        rw [first.trans (turn_of_share spent), second.trans (turn_of_share used)]
        let spentOne : Meter := { m' with sinceResume := m'.sinceResume + 1 }
        exact blind_takeTurn (g := spentOne.guise) ip x s (quiet_of_eq rfl)
      · refine .forced found rfl yieldable (Nat.not_lt.1 left) ?_
        rw [if_pos (Nat.lt_succ_of_le (Nat.not_lt.1 left))] at used
        rw [second]
        simp only [turn, bind, EStateM.bind]
        rw [show shareUsedUp ip (s.counted.metered s.current m') = _ from used]
        rfl
    · have others : s.current = c → s.isYieldable = false := fun e =>
        Bool.eq_false_iff.2 fun h => own ⟨e, h⟩
      refine .other found others ?_
      rw [first, second]
      have shown : (s.counted.metered c m').isYieldable = s.isYieldable :=
        s.counted.isYieldable_metered c m'
      exact blind_turn (g := m'.guise) (s := s.counted)
        (fun e => ⟨others e, shown.trans (others e)⟩) s (quiet_of_eq rfl)

/-- Without a share, a turn is quiet and is not put off. -/
structure Peaceful (c : ThreadId) (s : State ν)
    (result : EStateM.Result Fault (State ν) (Option Effect)) : Prop where
  ok : ∀ effect s', result = .ok effect s' → Quiet c s s'
  error : ∀ e s', result = .error e s' → Quiet c s s'
  taken : ∀ s', result = .ok none s' → s.current ≠ c

theorem executeAt_peaceful (ip : Nat) (unlimited : s.options.instructionLimit = none)
    (off : (s.processorOf c).autoYield = 0) : Peaceful c s (executeAt ip s) := by
  have counted : Quiet c s s.counted := quiet_of_eq rfl
  have of_blind : ∀ {work : Exec ν (Option Effect)},
      executeAt ip s = work s.counted → Blind c {} s.counted work →
      (∀ s', work s.counted = .ok none s' → s.current ≠ c) → Peaceful c s (executeAt ip s) :=
    fun run blind taken => by
      rw [run]
      exact ⟨fun _ _ h => counted.trans (blind.quiet_ok h), fun _ _ h =>
        counted.trans (blind.quiet_error h), taken⟩
  cases found : s.instructionAt ip with
  | error e =>
    rw [executeAt_fault found]
    refine ⟨fun _ _ h => ?_, fun _ _ h => ?_, fun _ h => ?_⟩
    · simp at h
    · simp only [EStateM.Result.error.injEq] at h
      rw [← h.2]
      exact .refl s
    · simp at h
  | ok x =>
    have run := executeAt_turn unlimited found
    by_cases own : s.current = c
    · subst own
      have spent : shareUsedUp ip s.counted = .ok false s.counted := shareUsedUp_off ip off
      refine of_blind (run.trans (turn_of_share spent)) (blind_takeTurn ip x) fun s' h => ?_
      exact absurd h (takeTurn_ne_none ip x s.counted s')
    · exact of_blind run (blind_turn fun e => absurd e own) fun _ _ => own

end Exec

end ScriptMachine
