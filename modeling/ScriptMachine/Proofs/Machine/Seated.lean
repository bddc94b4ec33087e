import ScriptMachine.Proofs.Machine.Runs

/-!
# Every frame has its seat

In every state of every run, whatever code is loaded:

* a frame that was not entered from outside sits right on a script frame, and so does a popped
  frame that waits for its result;
* the faults of a machine whose frames are in disorder are never the machine's own: a routine or a
  task brought them in.
-/

namespace ScriptMachine

open Place

/-- Each frame that is no entry sits on a script frame, and so would a popped frame that waits for
its result. -/
structure Processor.Seated (p : Processor) : Prop where
  frames : ∀ i f, p.frames[i]? = some f → f.flags.entryPoint = false →
    ∃ j g, i = j + 1 ∧ p.frames[j]? = some g ∧ g.isNative = false
  pending : ∀ f mark, p.pending = some (.deliver f, mark) → f.flags.entryPoint = false →
    ∃ g, p.frames.back? = some g ∧ g.isNative = false

variable {ν : Type} {σ : Prop} {s : State ν} {V : ThreadId → List Place} {ts : List Thread}

theorem frames_seated {p : Processor} {ps : List Place} (hs : p.shape.standing = standing ps)
    (seated : Seated ps) {i : Nat} {f : Frame} (hf : p.frames[i]? = some f)
    (entry : f.flags.entryPoint = false) :
    ∃ j g, i = j + 1 ∧ p.frames[j]? = some g ∧ g.isNative = false := by
  rw [← Array.getElem?_toList] at hf
  obtain ⟨hi, hf⟩ := List.getElem?_eq_some_iff.1 hf
  obtain ⟨lower, upper, split, rfl⟩ :
      ∃ lower upper, p.frames.toList = lower ++ f :: upper ∧ lower.length = i :=
    ⟨_, _, by rw [← hf, ← List.drop_eq_getElem_cons hi, List.take_append_drop],
      List.length_take_of_le (Nat.le_of_lt hi)⟩
  have stack : standing ps = (upper.map Frame.activation).reverse ++
      f.activation :: (lower.map Frame.activation).reverse := by
    rw [← hs, Processor.shape, split]
    simp
  obtain ⟨g, below, hg, script⟩ := seated.standing stack entry
  rw [List.reverse_eq_cons_iff, List.map_eq_append_iff] at hg
  obtain ⟨lowest, last, rfl, -, hlast⟩ := hg
  obtain ⟨g', rfl, rfl⟩ := List.map_eq_singleton_iff.1 hlast
  refine ⟨lowest.length, g', by simp, ?_, script⟩
  rw [← Array.getElem?_toList, split]
  simp

/-- The calls of a thread give its frames their seats. -/
theorem seated_of_shown {t : Thread} (shown : Shown σ s V t) (fits : t.Fits σ)
    (pending : ∀ f mark, t.pending = some (.deliver f, mark) →
      ∃ rest, t.places = off f.activation :: rest) : (s.processorOf t.id).Seated := by
  have standing : (s.processorOf t.id).shape.standing = standing t.places :=
    congrArg Shape.standing shown.shape
  refine ⟨fun i f hf entry => frames_seated standing fits.seated hf entry, ?_⟩
  intro f mark hf entry
  obtain ⟨rest, places⟩ := pending f mark ((congrArg Shape.pending shown.shape).symm.trans hf)
  have seated := fits.seated
  rw [places] at standing seated
  obtain ⟨g, below, rfl, script⟩ := seated.1 entry
  obtain ⟨fs, g', frames, rfl, -⟩ := Processor.exists_top standing
  exact ⟨g', by simp [frames], script⟩

theorem Stands.seated (stands : Stands σ s V ts) (c : ThreadId) : (s.processorOf c).Seated := by
  by_cases busy : ∃ t ∈ ts, t.id = c
  · obtain ⟨t, ht, rfl⟩ := busy
    have busy := stands.busy t ht
    refine seated_of_shown busy.toShown busy.fits fun f mark hf => ?_
    rw [busy.pending] at hf
    contradiction
  · obtain ⟨t, rfl, shown, resting⟩ := stands.resting c fun t ht id => busy ⟨t, ht, id⟩
    refine seated_of_shown shown resting.fits fun f mark hf => ?_
    generalize s.phase t.id = phase at resting
    cases resting with
    | notStarted h _ | dead h =>
      rw [h.pending] at hf
      contradiction
    | suspended h _ | parked h =>
      rw [h.pending] at hf
      cases hf
      exact ⟨_, h.places⟩
    | forced h _ | stopped h =>
      rw [h.pending] at hf
      cases hf

namespace Run

variable {library : Library ν}

/-- A stray fault was brought in by a routine or a task. -/
theorem stray_brought (confined : library.Confined) (r : Run library) (n : Nat) {e : Fault}
    (he : (r.machine n).control.fault? = some e) (stray : e.isStray = true) :
    ∃ i, i < n ∧ (r.machine i).control.brings? = some e := by
  induction n with
  | zero =>
    obtain ⟨options, start⟩ := r.start
    rw [start] at he
    contradiction
  | succ n ih =>
    have contained := r.contained confined (n + 1)
    have last := Nat.lt_succ_self n
    obtain ⟨V, ordered⟩ := r.ordered (σ := False) n (contained.until (Nat.le_succ n)) nofun
    have faults := (Machine.next_reaches (w := fun _ _ => True) (r.next n) ordered
      (contained.held n last) (contained.turn n last) nofun nofun).faults e he stray
    obtain there | brought := faults
    · obtain ⟨i, hi, brought⟩ := ih there
      exact ⟨i, Nat.lt_succ_of_lt hi, brought⟩
    · exact ⟨n, Nat.lt_succ_self n, brought⟩

/-- **Frames are well seated** at every moment of every run of a machine whose routines enter it
through calls, indexing and resumptions only. Hence a fault of a machine in disorder is never the
machine's own. -/
theorem frames_in_order (confined : library.Confined) (r : Run library) (n : Nat) :
    (∀ c, ((r.machine n).state.processorOf c).Seated) ∧
    ∀ e, (r.machine n).control.fault? = some e → e.isStray = true →
      ∃ i, i < n ∧ (r.machine i).control.brings? = some e := by
  refine ⟨fun c => ?_, fun e he stray => r.stray_brought confined n he stray⟩
  obtain ⟨V, ts, stands, -⟩ := r.ordered (σ := False) n (r.contained confined n) nofun
  exact stands.seated c

/-- The frames of a function, a routine that it calls, and a function that the routine calls. -/
theorem frames_in_order_sample :
    (Sample.nested.machine 12).state.callDepth = 3 ∧
    (∀ c, ((Sample.nested.machine 12).state.processorOf c).Seated) ∧
    ∀ e, (Sample.nested.machine 12).control.fault? = some e → e.isStray = true →
      ∃ i, i < 12 ∧ (Sample.nested.machine i).control.brings? = some e :=
  ⟨by decide +kernel, Sample.nested.frames_in_order Sample.confined 12⟩

end Run

end ScriptMachine
