import ScriptMachine.Machine.Variable
import ScriptMachine.Proofs.Machine.Place

/-!
# Views of a state

What calls depend on in a state: the shape of each processor, the height of its stack and its
slots.

* `Local`: a change that leaves the other threads alone, and the slots below a bound. Slots may
  still change through open cells; the relation `w` says which.
* `Steady`: a local change that enters and leaves no frame.
-/

namespace ScriptMachine

structure Shape where
  standing : List Activation
  nested : Nat
  async : Bool
  pending : Option (Resumption × Mark)

def Processor.shape (p : Processor) : Shape :=
  ⟨(p.frames.toList.map Frame.activation).reverse, p.nestedCalls, p.asyncMode, p.pending⟩

theorem Processor.exists_top {p : Processor} {a : Activation} {rest : List Activation}
    (h : p.shape.standing = a :: rest) :
    ∃ (fs : Array Frame) (f : Frame), p.frames = fs.push f ∧ f.activation = a ∧
      (fs.toList.map Frame.activation).reverse = rest := by
  simp only [Processor.shape] at h
  rw [List.reverse_eq_cons_iff, List.map_eq_append_iff] at h
  obtain ⟨below, last, htoList, hbelow, hlast⟩ := h
  obtain ⟨f, rfl, hf⟩ := List.map_eq_singleton_iff.1 hlast
  refine ⟨below.toArray, f, ?_, hf, ?_⟩
  · apply Array.toList_inj.1
    simpa using htoList
  · simp [hbelow]

namespace State

variable {ν : Type}

def shape (s : State ν) (c : ThreadId) : Shape := (s.processorOf c).shape

def heightOf (s : State ν) (c : ThreadId) : Nat := (s.stackOf c).size

def slot (s : State ν) (c : ThreadId) (j : Nat) : Option Value := (s.stackOf c).values[j]?

/-- The thread that runs has a processor. -/
def HasCurrent (s : State ν) : Prop := s.current.index < s.processors.size

theorem callDepth_eq (s : State ν) : s.callDepth = (s.shape s.current).standing.length := by
  simp [callDepth, shape, Processor.shape, processor]

theorem processorOf_modifyProcessorOf (s : State ν) (f : Processor → Processor) {c : ThreadId}
    (h : c.index < s.processors.size) :
    (s.modifyProcessorOf c f).processorOf c = f (s.processorOf c) := by
  simp only [processorOf, modifyProcessorOf, Array.getElem?_modify, ↓reduceIte]
  simp [h]

theorem processorOf_modifyProcessorOf_ne (s : State ν) (f : Processor → Processor)
    {c d : ThreadId} (h : d ≠ c) : (s.modifyProcessorOf c f).processorOf d = s.processorOf d := by
  have hi : c.index ≠ d.index := fun e => h (by cases c; cases d; simp_all)
  simp [processorOf, modifyProcessorOf, Array.getElem?_modify, hi]

/-- A change of one processor that its view does not show. -/
theorem view_modifyProcessorOf {α : Type} (s : State ν) (f : Processor → Processor) (c d : ThreadId)
    (view : Processor → α) (h : ∀ p, view (f p) = view p) :
    view ((s.modifyProcessorOf c f).processorOf d) = view (s.processorOf d) := by
  by_cases hd : d = c
  · subst hd
    by_cases hr : d.index < s.processors.size
    · rw [processorOf_modifyProcessorOf s f hr, h]
    · simp [processorOf, modifyProcessorOf, hr]
  · rw [processorOf_modifyProcessorOf_ne s f hd]

theorem processor_modifyProcessor {s : State ν} (h : s.HasCurrent) (f : Processor → Processor) :
    (s.modifyProcessor f).processorOf s.current = f (s.processorOf s.current) :=
  processorOf_modifyProcessorOf s f h

end State

/-- The threads are as they were. -/
structure Aside {ν : Type} (s s' : State ν) : Prop where
  processors : s'.processors = s.processors
  coroutines : s'.coroutines = s.coroutines
  current : s'.current = s.current
  active : s'.active = s.active
  entries : s'.entries = s.entries

theorem Aside.refl {ν : Type} (s : State ν) : Aside s s := ⟨rfl, rfl, rfl, rfl, rfl⟩

theorem Aside.trans {ν : Type} {s s' s'' : State ν} (h : Aside s s') (h' : Aside s' s'') :
    Aside s s'' :=
  ⟨h'.processors.trans h.processors, h'.coroutines.trans h.coroutines,
   h'.current.trans h.current, h'.active.trans h.active, h'.entries.trans h.entries⟩

/-- Only the thread that runs changes, above a bound, apart from slots written through cells. -/
structure Local {ν : Type} (σ : Prop) (bound : Nat) (w : ThreadId → Nat → Prop) (s s' : State ν) :
    Prop where
  current : s'.current = s.current
  size : s'.processors.size = s.processors.size
  coroutines : s'.coroutines = s.coroutines
  active : s'.active = s.active
  entries : s'.entries = s.entries
  shapes : ∀ c, c ≠ s.current → s'.shape c = s.shape c
  heights : ∀ c, c ≠ s.current → s'.heightOf c = s.heightOf c
  slots : σ → ∀ c j, ¬ w c j → (c = s.current → j < bound) → s'.slot c j = s.slot c j

/-- A local change that enters and leaves no frame. -/
structure Steady {ν : Type} (σ : Prop) (bound : Nat) (w : ThreadId → Nat → Prop)
    (s s' : State ν) : Prop extends Local σ bound w s s' where
  shape : s'.shape s.current = s.shape s.current

section Local

variable {ν : Type} {σ : Prop} {bound : Nat} {w : ThreadId → Nat → Prop} {s s' s'' : State ν}

theorem Local.refl (s : State ν) : Local σ bound w s s :=
  ⟨rfl, rfl, rfl, rfl, rfl, fun _ _ => rfl, fun _ _ => rfl, fun _ _ _ _ _ => rfl⟩

theorem Local.trans (h : Local σ bound w s s') (h' : Local σ bound w s' s'') :
    Local σ bound w s s'' where
  current := h'.current.trans h.current
  size := h'.size.trans h.size
  coroutines := h'.coroutines.trans h.coroutines
  active := h'.active.trans h.active
  entries := h'.entries.trans h.entries
  shapes c hc := (h'.shapes c (h.current ▸ hc)).trans (h.shapes c hc)
  heights c hc := (h'.heights c (h.current ▸ hc)).trans (h.heights c hc)
  slots hσ c j hw hj :=
    (h'.slots hσ c j hw fun e => hj (e.trans h.current)).trans (h.slots hσ c j hw hj)

theorem Local.weaken {low : Nat} (h : Local σ bound w s s') (hl : σ → low ≤ bound) :
    Local σ low w s s' :=
  { h with slots := fun hσ c j hw hj =>
      h.slots hσ c j hw fun e => Nat.lt_of_lt_of_le (hj e) (hl hσ) }

theorem Local.mono {τ : Prop} (h : Local σ bound w s s') (hτ : τ → σ) : Local τ bound w s s' :=
  { h with slots := fun h' => h.slots (hτ h') }

theorem Local.hasCurrent (h : Local σ bound w s s') (hs : s.HasCurrent) : s'.HasCurrent := by
  unfold State.HasCurrent
  rw [h.current, h.size]
  exact hs

theorem Local.coroutineState (h : Local σ bound w s s') (c : ThreadId) :
    s'.coroutineState c = s.coroutineState c := by
  simp only [State.coroutineState, State.coroutine, h.coroutines]

theorem Steady.mono {τ : Prop} (h : Steady σ bound w s s') (hτ : τ → σ) : Steady τ bound w s s' :=
  ⟨h.toLocal.mono hτ, h.shape⟩

theorem Steady.refl (s : State ν) : Steady σ bound w s s := ⟨.refl s, rfl⟩

theorem Steady.trans (h : Steady σ bound w s s') (h' : Steady σ bound w s' s'') :
    Steady σ bound w s s'' :=
  ⟨h.toLocal.trans h'.toLocal, by
    have := h'.shape
    rw [h.current] at this
    exact this.trans h.shape⟩

/-- The threads stay as they are. -/
theorem Aside.steady (h : Aside s s') : Steady σ bound w s s' := by
  have same : ∀ c, s'.processorOf c = s.processorOf c := fun c => by
    simp only [State.processorOf, h.processors]
  refine ⟨⟨h.current, congrArg _ h.processors, h.coroutines, h.active, h.entries, ?_, ?_, ?_⟩, ?_⟩
  · exact fun c _ => congrArg _ (same c)
  · intro c _
    simp only [State.heightOf, State.stackOf, same]
  · intro _ c j _ _
    simp only [State.slot, State.stackOf, same]
  · exact congrArg _ (same _)

/-- The processor that runs changes, but not its slots below the bound. -/
theorem local_modifyProcessor (f : Processor → Processor)
    (low : σ → ∀ p : Processor, p = s.processorOf s.current → ∀ j, j < bound →
      (f p).stack.values[j]? = p.stack.values[j]?) :
    Local σ bound w s (s.modifyProcessor f) := by
  have other : ∀ c, c ≠ s.current → (s.modifyProcessor f).processorOf c = s.processorOf c :=
    fun c hc => State.processorOf_modifyProcessorOf_ne s f hc
  refine ⟨rfl, by simp [State.modifyProcessor, State.modifyProcessorOf], rfl, rfl, rfl, ?_, ?_, ?_⟩
  · exact fun c hc => congrArg _ (other c hc)
  · intro c hc
    simp only [State.heightOf, State.stackOf, other c hc]
  · intro hσ c j _ hj
    by_cases hc : c = s.current
    · subst hc
      by_cases hr : s.HasCurrent
      · simp only [State.slot, State.stackOf, State.processor_modifyProcessor hr]
        exact low hσ _ rfl j (hj rfl)
      · have hr' : ¬ s.current.index < s.processors.size := hr
        simp [State.slot, State.stackOf, State.processorOf, State.modifyProcessor,
          State.modifyProcessorOf, hr']
    · simp only [State.slot, State.stackOf, other c hc]

/-- The stack that runs changes from the bound on. -/
theorem steady_modifyStack (f : ValueStack → ValueStack)
    (low : σ → ∀ v : ValueStack, v = s.stackOf s.current → ∀ j, j < bound →
      (f v).values[j]? = v.values[j]?) :
    Steady σ bound w s (s.modifyStack f) := by
  refine ⟨local_modifyProcessor _ fun hσ p hp j hj => ?_, ?_⟩
  · exact low hσ p.stack (congrArg _ hp) j hj
  · exact State.view_modifyProcessorOf s _ _ _ Processor.shape fun _ => rfl

theorem heightOf_modifyStack (f : ValueStack → ValueStack) (h : s.HasCurrent) :
    (s.modifyStack f).heightOf s.current = (f (s.stackOf s.current)).size := by
  simp only [State.heightOf, State.stackOf, State.modifyStack, State.processor_modifyProcessor h]

theorem steady_writeCell (c : CellId) (v : Value)
    (written : σ → ∀ owner slot, s.cell c = .opened owner slot → w owner slot) :
    Steady σ bound w s (s.writeCell c v) := by
  unfold State.writeCell
  cases hc : s.cell c with
  | closed _ => exact Aside.steady ⟨rfl, rfl, rfl, rfl, rfl⟩
  | opened owner slot =>
    have shapes : ∀ d, (s.modifyProcessorOf owner fun p =>
        { p with stack := p.stack.set slot v }).shape d = s.shape d := fun d =>
      State.view_modifyProcessorOf s _ owner d Processor.shape fun _ => rfl
    have heights : ∀ d, (s.modifyProcessorOf owner fun p =>
        { p with stack := p.stack.set slot v }).heightOf d = s.heightOf d := fun d =>
      State.view_modifyProcessorOf s _ owner d (fun p => p.stack.size) fun _ => by
        simp [ValueStack.set, ValueStack.size]
    refine ⟨⟨rfl, by simp [State.modifyProcessorOf], rfl, rfl, rfl, fun d _ => shapes d,
      fun d _ => heights d, ?_⟩, shapes _⟩
    intro hσ d j hw _
    by_cases hd : d = owner
    · subst hd
      have hj : slot ≠ j := fun e => hw (e ▸ written hσ d slot hc)
      exact State.view_modifyProcessorOf s _ d d (fun p => p.stack.values[j]?) fun _ => by
        simp [ValueStack.set, hj]
    · simp only [State.slot, State.stackOf, State.processorOf_modifyProcessorOf_ne s _ hd]

/-- To close cells changes cells only. -/
theorem closeCells_aside {p : Nat → Bool} {cells kept : List CellId}
    (h : s.closeCells p cells = (kept, s')) : Aside s s' := by
  induction cells generalizing s kept with
  | nil =>
    cases h
    exact .refl _
  | cons c rest ih =>
    unfold State.closeCells at h
    split at h
    · split at h
      · have closed : Aside s (s.closeCell c) := ⟨rfl, rfl, rfl, rfl, rfl⟩
        exact closed.trans (ih h)
      · cases hr : s.closeCells p rest with
        | mk others t =>
          rw [hr] at h
          cases h
          exact ih hr
    · exact ih h

end Local

namespace ValueStack

variable (v : ValueStack) {j : Nat}

@[simp] theorem size_push (x : Value) : (v.push x).size = v.size + 1 := by simp [push, size]

@[simp] theorem size_pushAll (xs : List Value) : (v.pushAll xs).size = v.size + xs.length := by
  simp [pushAll, size]

@[simp] theorem size_truncate (n : Nat) : (v.truncate n).size = min n v.size := by
  simp [truncate, size]

@[simp] theorem size_poke (offset : Nat) (x : Value) : (v.poke offset x).size = v.size := by
  unfold poke
  split <;> simp [size]

theorem get_pushAll (xs : List Value) (h : j < v.size) :
    (v.pushAll xs).values[j]? = v.values[j]? := by
  simp only [pushAll, size, List.foldl_push_eq_append'] at *
  exact Array.getElem?_append_left h

theorem get_truncate {n : Nat} (h : j < n) : (v.truncate n).values[j]? = v.values[j]? := by
  simp only [truncate, Array.shrink_eq_take, Array.take_eq_extract, Array.getElem?_extract]
  grind

theorem get_set {i : Nat} (x : Value) (h : j ≠ i) : (v.set i x).values[j]? = v.values[j]? := by
  simp only [set]
  exact Array.getElem?_setIfInBounds_ne h.symm

theorem get_poke {offset : Nat} (x : Value) (h : j + offset + 1 < v.size) :
    (v.poke offset x).values[j]? = v.values[j]? := by
  simp only [poke, size] at *
  split
  · exact Array.getElem?_setIfInBounds_ne (by omega)
  · rfl

@[simp] theorem size_clearSlots (low high : Nat) : (v.clearSlots low high).size = v.size := by
  unfold clearSlots
  generalize min (high + 1) v.size - low = n
  induction n generalizing low v with
  | zero => rfl
  | succ n ih => exact (ih (v.set low .nil) (low + 1)).trans (by simp [set, size])

theorem get_clearSlots {low : Nat} (high : Nat) (h : j < low) :
    (v.clearSlots low high).values[j]? = v.values[j]? := by
  unfold clearSlots
  generalize min (high + 1) v.size - low = n
  induction n generalizing low v with
  | zero => rfl
  | succ n ih =>
    exact (ih (v.set low .nil) (Nat.lt_succ_of_lt h)).trans (get_set v .nil (Nat.ne_of_lt h))

end ValueStack

end ScriptMachine
