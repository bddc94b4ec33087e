import ScriptMachine.Proofs.Machine.Leaving

/-!
# Switching threads

The moves that go from one thread to another reach a state in order.

* `Retuned`: a thread is in another mode, and its coroutine in another state.
* `resume_reaches`: a coroutine is resumed, by a routine or by the host.
* `endResume_reaches`, `partResume_reaches`: a resumption ends.
-/

namespace ScriptMachine

open Place

namespace State

variable {ν : Type} {c d : ThreadId}

theorem coroutineState_set (s : State ν) (state : CoroutineState) (hc : c ≠ .root)
    (inRange : c.index ≤ s.coroutines.size) :
    (s.setCoroutineState c state).coroutineState c = state := by
  obtain ⟨_ | n⟩ := c
  · exact absurd rfl hc
  · have below : n < s.coroutines.size := inRange
    simp [coroutineState, coroutine, setCoroutineState, below, Array.getElem_modify]

theorem coroutineState_set_ne (s : State ν) (state : CoroutineState) (hc : c ≠ .root)
    (hd : d ≠ c) : (s.setCoroutineState c state).coroutineState d = s.coroutineState d := by
  obtain ⟨_ | n⟩ := c
  · exact absurd rfl hc
  · obtain ⟨_ | m⟩ := d
    · rfl
    · have other : n ≠ m := fun e => hd (by rw [e])
      simp [coroutineState, coroutine, setCoroutineState, Array.getElem?_modify, other]

/-- A coroutine that is not dead has a processor. -/
theorem inRange_of_coroutineState {s : State ν} (h : s.coroutineState c ≠ .dead) :
    c ≠ .root ∧ c.index ≤ s.coroutines.size := by
  obtain ⟨_ | n⟩ := c
  · exact absurd rfl h
  · refine ⟨fun e => ?_, ?_⟩
    · cases e
    · apply Nat.succ_le_of_lt
      apply Nat.lt_of_not_le
      intro beyond
      simp [coroutineState, coroutine, Array.getElem?_eq_none beyond] at h

end State

/-- A thread that counts as running has a processor. -/
theorem Stands.inRange {ν : Type} {σ : Prop} {s : State ν} {V : ThreadId → List Place}
    {ts : List Thread} (stands : Stands σ s V ts) {c : ThreadId} (phase : s.phase c = .running) :
    c.index < s.processors.size := by
  rw [stands.size]
  by_cases hc : c = .root
  · subst hc
    exact Nat.succ_pos _
  · rw [State.phase, if_neg hc] at phase
    refine Nat.lt_succ_of_le (State.inRange_of_coroutineState (s := s) ?_).2
    intro dead
    rw [phase] at dead
    contradiction

namespace Machine

variable {ν : Type} {σ : Prop} {w : ThreadId → Nat → Prop} {allowed : Fault → Prop}
  {s s' : State ν} {V : ThreadId → List Place} {t e : Thread} {W ts : List Thread}
  {library : Library ν} {c : ThreadId} {b : Bool} {state : CoroutineState}

/-- The mode of a thread and the state of its coroutine change, and no stack. -/
structure Retuned (c : ThreadId) (b : Bool) (state : CoroutineState) (s s' : State ν) : Prop where
  beside : Beside c s s'
  shape : s'.shape c = { s.shape c with async := b }
  contents : ∀ d, s'.stackOf d = s.stackOf d
  phase : s'.phase c = state

/-- A coroutine is put in another state. -/
theorem retuned_setCoroutineState (hc : c ≠ .root) (inRange : c.index ≤ s.coroutines.size)
    (hp : s'.processors = s.processors)
    (hr : s'.coroutines = (s.setCoroutineState c state).coroutines) :
    Retuned c (s.shape c).async state s s' := by
  have processor : ∀ d, s'.processorOf d = s.processorOf d := fun d => by
    simp only [State.processorOf, hp]
  have shape : ∀ d, s'.shape d = s.shape d := fun d => congrArg _ (processor d)
  have contents : ∀ d, s'.stackOf d = s.stackOf d := fun d => congrArg _ (processor d)
  have states : ∀ d, s'.coroutineState d = (s.setCoroutineState c state).coroutineState d :=
    fun d => by simp only [State.coroutineState, State.coroutine, hr]
  refine ⟨⟨by rw [hp], by rw [hr]; simp [State.setCoroutineState], fun d _ => shape d, ?_, ?_⟩,
    shape c, contents, ?_⟩
  · intro d _
    simp only [State.heightOf, contents]
  · intro d hd
    simp only [State.phase, states, State.coroutineState_set_ne s state hc hd]
  · simp only [State.phase, if_neg hc, states, State.coroutineState_set s state hc inRange]

theorem Retuned.congr {s'' : State ν} (h : Retuned c b state s s')
    (hp : s''.processors = s'.processors) (hr : s''.coroutines = s'.coroutines) :
    Retuned c b state s s'' := by
  have processor : ∀ d, s''.processorOf d = s'.processorOf d := fun d => by
    simp only [State.processorOf, hp]
  have phase : ∀ d, s''.phase d = s'.phase d := fun d => by
    simp only [State.phase, State.coroutineState, State.coroutine, hr]
  have contents : ∀ d, s''.stackOf d = s.stackOf d := fun d =>
    (congrArg _ (processor d)).trans (h.contents d)
  refine ⟨⟨by rw [hp]; exact h.beside.processors, by rw [hr]; exact h.beside.coroutines, ?_, ?_,
    fun d hd => (phase d).trans (h.beside.phases d hd)⟩, ?_, contents, (phase c).trans h.phase⟩
  · exact fun d hd => (congrArg _ (processor d)).trans (h.beside.shapes d hd)
  · intro d _
    simp only [State.heightOf, contents]
  · exact (congrArg _ (processor c)).trans h.shape

/-- The processor of the thread changes as well, but for its calls. -/
theorem Retuned.modify (h : Retuned c b state s s') (b' : Bool) (current : s'.current = c)
    (inRange : c.index < s'.processors.size) (f : Processor → Processor)
    (stack : ∀ p, (f p).stack = p.stack)
    (shape : ∀ p, p.asyncMode = b → (f p).shape = { p.shape with async := b' }) :
    Retuned c b' state s (s'.modifyProcessor f) := by
  subst current
  have run := State.processor_modifyProcessor (s := s') inRange f
  have other : ∀ d, d ≠ s'.current → (s'.modifyProcessor f).processorOf d = s'.processorOf d :=
    fun d hd => State.processorOf_modifyProcessorOf_ne s' f hd
  have contents : ∀ d, (s'.modifyProcessor f).stackOf d = s.stackOf d := fun d =>
    (State.view_modifyProcessorOf s' f _ d Processor.stack stack).trans (h.contents d)
  refine ⟨⟨?_, h.beside.coroutines, fun d hd => ?_, fun d _ => ?_, h.beside.phases⟩, ?_, contents,
    h.phase⟩
  · rw [← h.beside.processors]
    simp [State.modifyProcessor, State.modifyProcessorOf]
  · exact (congrArg _ (other d hd)).trans (h.beside.shapes d hd)
  · simp only [State.heightOf, contents]
  · have mode : (s'.processorOf s'.current).asyncMode = b := congrArg Shape.async h.shape
    have own : (s'.modifyProcessor f).shape s'.current =
        { s'.shape s'.current with async := b' } := by
      rw [State.shape, run]
      exact shape _ mode
    rw [own, h.shape]

/-! ## Resuming -/

theorem resumeFrom_eq (library : Library ν) (function : Value) (state : CoroutineState)
    (arguments : List Value) (k : Kont ν .step) (s : State ν) :
    resumeFrom library function state arguments k s =
      (match state with
      | .notStarted => executeCall library function arguments { resumeEntry := true } none k
      | .suspended => resumePending library (.ok (Value.ofList arguments)) false k
      | .forceSuspended => resumePending library (.ok .void) false k
      | .running | .dead => pure (.step (.error (.defect (.resumeState state.label))) k) :
        Move ν (Control ν)) (s.modifyProcessor fun p => { p with sinceResume := 0 }) := rfl

/-- A thread at rest is started or goes on, once it counts as running. -/
theorem resumeFrom_reaches (stands : Stands σ s V ts)
    (retuned : Retuned c b .running s s') (current : s'.current = c) (hc : c ≠ .root)
    (inRange : c.index < s'.processors.size) (absent : ∀ u ∈ ts, u.id ≠ c) {k : Kont ν .step}
    (enters : ∀ e : Thread, e.id = c → e.Blank → e.async = b →
      ((s.shape c).async = false → Enters σ k e ts))
    (alive : s.coroutineState c ≠ .running ∧ s.coroutineState c ≠ .dead) (function : Value)
    (arguments : List Value) :
    Reaches σ w allowed s V
      (resumeFrom library function (s.coroutineState c) arguments k s') := by
  have retuned := retuned.modify b current inRange
    (fun p => { p with sinceResume := 0 }) (fun _ => rfl) fun p hp => by simp [Processor.shape, hp]
  have inRange : c.index < (s'.modifyProcessor fun p => { p with sinceResume := 0 }).processors.size :=
    by simpa [State.modifyProcessor, State.modifyProcessorOf] using inRange
  rw [resumeFrom_eq]
  change (s'.modifyProcessor fun p => { p with sinceResume := 0 }).current = c at current
  generalize (s'.modifyProcessor fun p => { p with sinceResume := 0 }) = s'' at *
  obtain ⟨t, rfl, shown, resting⟩ := stands.resting c absent
  have phase : s.phase t.id = s.coroutineState t.id := if_neg hc
  have same : Function.update V t.id t.places = V := by
    rw [← shown.places, Function.update_eq_self]
  have height : Known σ t.places → s''.heightOf t.id = t.height := fun known => by
    simp only [State.heightOf, retuned.contents]
    exact shown.height known
  have shape : s''.shape t.id = ({ t with async := b } : Thread).shape := by
    rw [retuned.shape, shown.shape]
    rfl
  have asleep : t.async = false → (s.shape t.id).async = false := fun h => by
    rw [shown.shape]
    exact h
  refine .same _ retuned.contents ?_
  rw [phase] at resting
  generalize s.coroutineState t.id = state at *
  -- A thread that goes on does so in a loop that was entered on an empty thread.
  have resumed : ({ t with async := b } : Thread).Resting σ .running → t.async = false →
      ∀ input, Reaches σ w allowed s'' V (resumePending library (.ok input) false k s'') := by
    intro resting async input
    have stands' := stands.stay (t := { t with async := b }) retuned.beside absent shape height
      (retuned.phase.symm ▸ resting)
    rw [show Function.update V t.id t.places = V from same] at stands'
    exact resumePending_reaches (e := ⟨t.id, [], 0, 0, b, none⟩) stands' current absent
      inRange retuned.phase ⟨rfl, rfl, rfl, rfl⟩ (by rw [shape]; rfl)
      (enters _ rfl ⟨rfl, rfl, rfl, rfl⟩ rfl (asleep async)) _ _ (by simp)
  cases resting with
  | notStarted blank async =>
    have blank : ({ t with async := b } : Thread).Blank :=
      ⟨blank.places, blank.nested, blank.pending, blank.height⟩
    have stands' := stands.wake (t := { t with async := b }) retuned.beside absent
      (retuned.beside.processors ▸ inRange) blank.pending shape height blank.fits retuned.phase
    rw [show Function.update V t.id t.places = V from same] at stands'
    exact executeCall_reaches stands' current blank.ground
      (enters _ rfl blank rfl (asleep async)) ..
  | suspended h async =>
    exact resumed (.parked ⟨h.pending, h.places, h.inLoop, h.nested, h.height⟩) async _
  | forced h async =>
    exact resumed (.stopped ⟨h.pending, h.places, h.script, h.inLoop, h.nested, h.height⟩) async _
  | dead _ => exact absurd rfl alive.2
  | parked _ | stopped _ => exact absurd rfl alive.1

theorem resume_eq (library : Library ν) (mode : ResumeMode) (c : ThreadId)
    (arguments : List Value) (k : Kont ν .value) (s : State ν) :
    resume library mode c arguments k s =
      (match resumeRefusal (s.coroutineState c) arguments with
      | some cause => pure (.value (.error (.raise cause)) k)
      | none => do
        modify fun s =>
          { s.setCoroutineState c .running with active := c :: s.active, current := c }
        match mode with
        | .synchronous => enter
        | .asynchronous => setAsync true
        resumeFrom library (s.coroutine c).function (s.coroutineState c) arguments
          (.resumed mode c s.current k) : Move ν (Control ν)) s := rfl

/-- **A resumption.** The one who resumes waits, or is refused. -/
theorem resume_reaches (stands : Stands σ s V ts) {k : Kont ν .value}
    (waits : Waits σ k s.current ts) (mode : ResumeMode)
    (host : mode = .asynchronous → k = .host ∧ s.current = .root)
    (poised : ∀ r, Poised σ s (.value r k) ts) (c : ThreadId) (arguments : List Value) :
    Reaches σ w allowed s V (resume library mode c arguments k s) := by
  rw [resume_eq]
  cases refusal : resumeRefusal (s.coroutineState c) arguments with
  | some cause => exact reaches_refl stands (poised _) (fails_value (by simp))
  | none =>
    have alive : s.coroutineState c ≠ .running ∧ s.coroutineState c ≠ .dead := by
      constructor <;> intro h <;> simp [resumeRefusal, h] at refusal
    obtain ⟨hc, inRange⟩ := State.inRange_of_coroutineState alive.2
    have absent : ∀ u ∈ ts, u.id ≠ c := by
      rintro u hu rfl
      have phase := (stands.busy u hu).phase
      rw [State.phase, if_neg hc] at phase
      exact alive.1 phase
    have processor : c.index < s.processors.size := by
      rw [stands.size]
      exact Nat.lt_succ_of_le inRange
    cases mode with
    | synchronous =>
      let s' : State ν :=
        { s.setCoroutineState c .running with
          active := c :: s.active, current := c, entries := s.entries + 1 }
      have retuned : Retuned c (s.shape c).async .running s s' :=
        retuned_setCoroutineState hc inRange rfl rfl
      refine resumeFrom_reaches stands retuned rfl hc processor absent ?_ alive
        _ _
      intro e id blank async asleep
      exact .resumed id hc blank (fun _ => async.trans asleep) (by simp) waits
    | asynchronous =>
      let s' : State ν :=
        { s.setCoroutineState c .running with active := c :: s.active, current := c }
      have retuned : Retuned c (s.shape c).async .running s s' :=
        retuned_setCoroutineState hc inRange rfl rfl
      have retuned := retuned.modify true rfl processor
        (fun p => { p with asyncMode := true }) (fun _ => rfl) fun _ _ => rfl
      have processor : c.index <
          (s'.modifyProcessor fun p => { p with asyncMode := true }).processors.size := by
        rw [retuned.beside.processors]
        exact processor
      refine resumeFrom_reaches stands retuned rfl hc processor absent ?_ alive _ _
      intro e id blank _ _
      exact .resumed id hc blank (by simp) (fun _ => host rfl) waits

/-! ## The end of a resumption -/

theorem exists_endResume (mode : ResumeMode) (previous : ThreadId) (outcome : Except Fault Step)
    (k : Kont ν .value) (current : s.current = c) (hc : c ≠ .root)
    (inRange : c.index ≤ s.coroutines.size) (processor : c.index < s.processors.size)
    (asleep : mode = .synchronous → (s.shape c).async = false) :
    ∃ s', endResume mode c previous outcome k s = (.value (resumeOutcome outcome).2 k, s') ∧
      Retuned c false (resumeOutcome outcome).1 s s' ∧ s'.current = previous := by
  cases mode with
  | synchronous =>
    refine ⟨_, rfl, ?_, rfl⟩
    have retuned : Retuned c (s.shape c).async (resumeOutcome outcome).1 s
        (s.setCoroutineState c (resumeOutcome outcome).1) :=
      retuned_setCoroutineState hc inRange rfl rfl
    rw [asleep rfl] at retuned
    exact retuned.congr rfl rfl
  | asynchronous =>
    refine ⟨_, rfl, ?_, rfl⟩
    have retuned : Retuned c (s.shape c).async (resumeOutcome outcome).1 s
        (s.setCoroutineState c (resumeOutcome outcome).1) :=
      retuned_setCoroutineState hc inRange rfl rfl
    have retuned := retuned.modify false current processor
      (fun p => { p with asyncMode := false }) (fun _ => rfl) fun _ _ => rfl
    exact retuned.congr rfl rfl

/-- A coroutine has returned or failed. -/
theorem endResume_reaches (stands : Stands σ s V (e :: W)) (current : s.current = e.id)
    {mode : ResumeMode} {previous : ThreadId} {k : Kont ν .value}
    (enters : Enters σ (.resumed mode c previous k) e W) {outcome : Except Fault Step}
    (leaves : Leaves outcome) (stray : ∀ x, outcome = .error x → x.isStray = true → allowed x) :
    Reaches σ w allowed s V (endResume mode c previous outcome k s) := by
  cases enters with
  | resumed id hc blank asleep host waits =>
    subst id
    have busy := stands.busy e (List.mem_cons_self ..)
    have inRange : e.id.index ≤ s.coroutines.size := by
      have := busy.inRange
      rw [stands.size] at this
      exact Nat.le_of_lt_succ this
    obtain ⟨s', run, retuned, current'⟩ := exists_endResume mode previous outcome k current hc
      inRange busy.inRange fun h => by
        rw [busy.shape]
        exact asleep h
    have shape : s'.shape e.id = ({ e with async := false } : Thread).shape := by
      rw [retuned.shape, busy.shape]
      rfl
    have dead : (resumeOutcome outcome).1 = .dead := by
      cases leaves <;> rfl
    have stands' := stands.rest { e with async := false } retuned.beside rfl shape
      (fun known => by
        simp only [State.heightOf, retuned.contents]
        exact busy.height known)
      (by
        rw [retuned.phase, dead]
        exact .dead ⟨blank.places, blank.nested, blank.pending, blank.height⟩)
    rw [run]
    refine .same _ retuned.contents ?_
    rw [show Function.update V e.id e.places = V by rw [← busy.places, Function.update_eq_self]]
      at stands'
    refine reaches_refl stands' (waits.poised current' _) ?_
    cases leaves with
    | returned => exact no_fault rfl
    | failed => exact fails_value (stray _ rfl)

/-- A coroutine has yielded. -/
theorem yieldResume_reaches (stands : Stands σ s V W) (current : s.current = c)
    (absent : ∀ u ∈ W, u.id ≠ c) (hc : c ≠ .root) (phase : s.phase c = .running)
    {mode : ResumeMode} {previous : ThreadId} {k : Kont ν .value}
    (asleep : mode = .synchronous → (s.shape c).async = false) (waits : Waits σ k previous W)
    {x : Suspension} {v : Value} (outcome : resumeOutcome (.ok (.suspend x)) = (state, .ok v))
    (rests : ∀ t : Thread, t.id = c → Shown σ s V t → t.Resting σ .running →
      ({ t with async := false } : Thread).Resting σ state) :
    Reaches σ w allowed s V (endResume mode c previous (.ok (.suspend x)) k s) := by
  have alive : s.coroutineState c ≠ .dead := by
    rw [State.phase, if_neg hc] at phase
    rw [phase]
    decide
  have inRange := (State.inRange_of_coroutineState alive).2
  have processor : c.index < s.processors.size := by
    rw [stands.size]
    exact Nat.lt_succ_of_le inRange
  obtain ⟨s', run, retuned, current'⟩ := exists_endResume mode previous (.ok (.suspend x)) k
    current hc inRange processor asleep
  rw [outcome] at run retuned
  obtain ⟨t, rfl, shown, resting⟩ := stands.resting c absent
  rw [phase] at resting
  have shape : s'.shape t.id = ({ t with async := false } : Thread).shape := by
    rw [retuned.shape, shown.shape]
    rfl
  have stands' := stands.stay (t := { t with async := false }) retuned.beside absent shape
    (fun known => by
      simp only [State.heightOf, retuned.contents]
      exact shown.height known)
    (retuned.phase.symm ▸ rests t rfl shown resting)
  rw [show Function.update V t.id t.places = V by rw [← shown.places, Function.update_eq_self]]
    at stands'
  rw [run]
  exact .same _ retuned.contents (reaches_refl stands' (waits.poised current' _) (no_fault rfl))

/-- A coroutine has yielded, or waits for a task. -/
theorem partResume_reaches (stands : Stands σ s V W) (current : s.current = e.id)
    (absent : ∀ u ∈ W, u.id ≠ e.id) {x : Suspension} (parts : Parts s e x) {mode : ResumeMode}
    {previous : ThreadId} {k : Kont ν .value}
    (enters : Enters σ (.resumed mode c previous k) e W) :
    Reaches σ w allowed s V
      (handStep library (.ok (.suspend x)) (.resumed mode c previous k) s) := by
  cases enters with
  | resumed id hc blank asleep host waits =>
    subst id
    obtain ⟨phase, async, r, pending, stops⟩ := parts
    have asleep' : mode = .synchronous → (s.shape e.id).async = false := fun h => by
      rw [async]
      exact asleep h
    cases stops with
    | @yield v _ _ =>
      have ended : Reaches σ w allowed s V
          (endResume mode e.id previous (.ok (.suspend (.yield v))) k s) :=
        yieldResume_reaches stands current absent hc phase asleep' waits rfl ?_
      · cases mode <;> exact ended
      · intro t id shown resting
        cases resting with
        | parked h => exact .suspended ⟨h.pending, h.places, h.inLoop, h.nested, h.height⟩ rfl
        | stopped h =>
          rw [← id, shown.shape] at pending
          cases h.pending.symm.trans pending
    | forced _ =>
      have ended : Reaches σ w allowed s V
          (endResume mode e.id previous (.ok (.suspend .forced)) k s) :=
        yieldResume_reaches stands current absent hc phase asleep' waits rfl ?_
      · cases mode <;> exact ended
      · intro t id shown resting
        cases resting with
        | parked h =>
          rw [← id, shown.shape] at pending
          cases h.pending.symm.trans pending
        | stopped h =>
          exact .forced ⟨h.pending, h.places, h.script, h.inLoop, h.nested, h.height⟩ rfl
    | @await task f awaits =>
      cases mode with
      | synchronous => simp [asleep rfl] at awaits
      | asynchronous =>
        obtain ⟨rfl, previous_eq⟩ := host rfl
        have running : s.coroutineState e.id = .running := by
          rw [State.phase, if_neg hc] at phase
          exact phase
        have grounded : Grounded ν σ W := by
          cases waits with
          | busy holds =>
            cases holds with
            | host root blank async => exact .idle (.host root blank async)
          | parked => exact .parked
        subst previous_eq
        refine .same { s with current := .root } (fun _ => rfl) ?_
        refine reaches_refl (stands.same rfl rfl) ?_ (no_fault rfl)
        exact .awaits (.resumed rfl hc running grounded)

end Machine

end ScriptMachine
