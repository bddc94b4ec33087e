import ScriptMachine.Proofs.Machine.Gradual
import ScriptMachine.Proofs.Machine.Sharing

/-!
# Open cells have live owners

A cell is open as long as the frame that captured its slot is there. This holds of any code, on any
thread, and in the middle of an instruction too.

* `State.Owned`: each open cell is listed by one frame, on the thread whose slot it is.
* `State.Kept`: what frames and cells have to do with each other, which every change preserves.
* `State.Wanes`: a change that opens no cell. `State.wanes_dropTop`: the frame on top is popped.
* `State.kept_openSlot`: the change that opens one.
* `State.Retains`: a cell that stays open stays with its frame.
* `Run.open_cells_owned`: all of this along runs, and what becomes of the cells of a popped frame.
-/

namespace ScriptMachine

variable {ν : Type}

namespace State

def frameAt (s : State ν) (c : ThreadId) (i : Nat) : Option Frame := (s.processorOf c).frames[i]?

/-- The frame lists a cell among those that it has to close. -/
def Owns (s : State ν) (c : ThreadId) (i : Nat) (x : CellId) : Prop :=
  ∃ f, s.frameAt c i = some f ∧ x ∈ f.cells

instance (s : State ν) (c : ThreadId) (i : Nat) (x : CellId) : Decidable (s.Owns c i x) :=
  decidable_of_iff ((s.frameAt c i).any (x ∈ ·.cells)) (by simp [Owns, Option.any_eq_true])

/-- Every open cell has an owner. -/
structure Owned (s : State ν) : Prop where
  /-- It is listed by one frame of all, which is on the thread whose slot it is, and whose base is
  not above the slot. -/
  owner : ∀ x o k, s.cell x = .opened o k → ∃ i f, s.frameAt o i = some f ∧ f.base ≤ k ∧
    ∀ c j, s.Owns c j x ↔ c = o ∧ j = i
  /-- No frame lists two open cells of one slot, nor one of them twice. -/
  apart : ∀ c i f, s.frameAt c i = some f →
    f.cells.Pairwise fun x y => ∀ o k, s.cell x = .opened o k → s.cell y ≠ .opened o k

/-- Frames list open cells of their own slots and no others, each slot and each cell once, and no
open cell is left out. -/
structure Kept (s : State ν) : Prop where
  own : ∀ c i f, s.frameAt c i = some f → ∀ x ∈ f.cells,
    f.isNative = false ∧ ∃ k, s.cell x = .opened c k ∧ f.base ≤ k
  apart : ∀ c i f, s.frameAt c i = some f → f.cells.Pairwise fun x y => s.cell x ≠ s.cell y
  once : ∀ c i j x, s.Owns c i x → s.Owns c j x → i = j
  listed : ∀ x o k, s.cell x = .opened o k → ∃ i, s.Owns o i x

/-- A cell that is still open was so before, and the frames that listed it do so still. -/
structure Retains (s s' : State ν) : Prop where
  size : s.cells.size ≤ s'.cells.size
  opened : ∀ x o k, x.index < s.cells.size → s'.cell x = .opened o k → s.cell x = .opened o k
  listed : ∀ x o k, x.index < s.cells.size → s'.cell x = .opened o k →
    ∀ c i, s.Owns c i x → s'.Owns c i x

variable {s s' s'' : State ν}

theorem Retains.refl (s : State ν) : s.Retains s :=
  ⟨Nat.le_refl _, fun _ _ _ _ h => h, fun _ _ _ _ _ _ _ h => h⟩

theorem Retains.trans (h : s.Retains s') (h' : s'.Retains s'') : s.Retains s'' where
  size := Nat.le_trans h.size h'.size
  opened x o k hx hk :=
    h.opened x o k hx (h'.opened x o k (Nat.lt_of_lt_of_le hx h.size) hk)
  listed x o k hx hk c i listed := by
    have hx' := Nat.lt_of_lt_of_le hx h.size
    exact h'.listed x o k hx' hk c i (h.listed x o k hx (h'.opened x o k hx' hk) c i listed)

theorem Kept.index_lt (kept : s.Kept) {c : ThreadId} {i : Nat} {x : CellId}
    (listed : s.Owns c i x) : x.index < s.cells.size := by
  obtain ⟨f, hf, hx⟩ := listed
  obtain ⟨-, k, hk, -⟩ := kept.own c i f hf x hx
  exact index_lt_of_opened hk

/-- No two frames list one cell. -/
theorem Kept.unique (kept : s.Kept) {c d : ThreadId} {i j : Nat} {x : CellId}
    (h : s.Owns c i x) (h' : s.Owns d j x) : c = d ∧ i = j := by
  obtain ⟨f, hf, hx⟩ := h
  obtain ⟨g, hg, hx'⟩ := h'
  obtain ⟨-, k, hk, -⟩ := kept.own c i f hf x hx
  obtain ⟨-, k', hk', -⟩ := kept.own d j g hg x hx'
  obtain ⟨rfl, -⟩ := Cell.opened.inj (hk.symm.trans hk')
  exact ⟨rfl, kept.once c i j x ⟨f, hf, hx⟩ ⟨g, hg, hx'⟩⟩

theorem Kept.owned (kept : s.Kept) : s.Owned where
  owner x o k hx := by
    obtain ⟨i, f, hf, member⟩ := kept.listed x o k hx
    obtain ⟨-, k', hx', low⟩ := kept.own o i f hf x member
    obtain ⟨-, rfl⟩ := Cell.opened.inj (hx.symm.trans hx')
    refine ⟨i, f, hf, low, fun c j => ⟨fun listed => kept.unique listed ⟨f, hf, member⟩, ?_⟩⟩
    rintro ⟨rfl, rfl⟩
    exact ⟨f, hf, member⟩
  apart c i f hf := (kept.apart c i f hf).imp fun apart o k hx hy => apart (hx.trans hy.symm)

/-- Cells are closed and frames are dropped or list fewer cells, or frames come that list none. -/
structure Wanes (s s' : State ν) : Prop where
  size : s.cells.size ≤ s'.cells.size
  opened : ∀ x o k, s'.cell x = .opened o k → s.cell x = .opened o k
  listed : ∀ x o k, s'.cell x = .opened o k → ∀ c i, s.Owns c i x → s'.Owns c i x
  frames : ∀ c i g, s'.frameAt c i = some g → g.cells = [] ∨
    ∃ f, s.frameAt c i = some f ∧ g.base = f.base ∧ g.isNative = f.isNative ∧
      g.cells.Sublist f.cells ∧ ∀ x ∈ g.cells, s'.cell x = s.cell x

theorem Wanes.retains (h : s.Wanes s') : s.Retains s' :=
  ⟨h.size, fun x o k _ hk => h.opened x o k hk, fun x o k _ hk => h.listed x o k hk⟩

theorem Wanes.owns (h : s.Wanes s') {c : ThreadId} {i : Nat} {x : CellId}
    (listed : s'.Owns c i x) : s.Owns c i x := by
  obtain ⟨g, hg, hx⟩ := listed
  obtain empty | ⟨f, hf, -, -, fewer, -⟩ := h.frames c i g hg
  · simp [empty] at hx
  · exact ⟨f, hf, fewer.subset hx⟩

theorem Wanes.kept (h : s.Wanes s') (kept : s.Kept) : s'.Kept where
  own c i g hg x hx := by
    obtain empty | ⟨f, hf, base, native, fewer, same⟩ := h.frames c i g hg
    · simp [empty] at hx
    · rw [same x hx, base, native]
      exact kept.own c i f hf x (fewer.subset hx)
  apart c i g hg := by
    obtain empty | ⟨f, hf, -, -, fewer, same⟩ := h.frames c i g hg
    · simp [empty]
    · refine ((kept.apart c i f hf).sublist fewer).imp_of_mem fun hx hy apart => ?_
      rwa [same _ hx, same _ hy]
  once c i j x hi hj := kept.once c i j x (h.owns hi) (h.owns hj)
  listed x o k hx := by
    obtain ⟨i, listed⟩ := kept.listed x o k (h.opened x o k hx)
    exact ⟨i, h.listed x o k hx o i listed⟩

/-- The frames stay, and no cell is opened. -/
theorem wanes_of_frames (size : s.cells.size ≤ s'.cells.size)
    (frames : ∀ c i, s'.frameAt c i = s.frameAt c i)
    (cells : ∀ x o k, s'.cell x = .opened o k ∨ s.cell x = .opened o k → s'.cell x = s.cell x)
    (kept : s.Kept) : s.Wanes s' where
  size := size
  opened x o k hx := (cells x o k (.inl hx)).symm.trans hx
  listed x o k _ c i := fun ⟨f, hf, member⟩ => ⟨f, (frames c i).trans hf, member⟩
  frames c i g hg := by
    rw [frames] at hg
    refine .inr ⟨g, hg, rfl, rfl, .refl _, fun x hx => ?_⟩
    obtain ⟨-, k, hk, -⟩ := kept.own c i g hg x hx
    exact cells x c k (.inr hk)

section Top

variable {f : Frame}

theorem frameAt_ne (g : Array Frame → Array Frame) {c : ThreadId} (hc : c ≠ s.current) (i : Nat) :
    (s.modifyFrames g).frameAt c i = s.frameAt c i := by
  simp only [frameAt, modifyFrames, modifyProcessor, processorOf_modifyProcessorOf_ne s _ hc]

theorem frameAt_modifyStack (g : ValueStack → ValueStack) (c : ThreadId) (i : Nat) :
    (s.modifyStack g).frameAt c i = s.frameAt c i :=
  congrArg (·[i]?) (view_modifyProcessorOf s _ s.current c Processor.frames fun _ => rfl)

theorem frameAt_modifyFrames (here : s.HasCurrent) (g : Array Frame → Array Frame) (i : Nat) :
    (s.modifyFrames g).frameAt s.current i = (g s.processor.frames)[i]? := by
  simp only [frameAt, modifyFrames, processor_modifyProcessor here]
  rfl

theorem frameAt_top (top : s.processor.frames.back? = some f) :
    s.frameAt s.current (s.callDepth - 1) = some f := by
  rw [Array.back?_eq_getElem?] at top
  exact top

theorem frameAt_setTop (top : s.processor.frames.back? = some f) (g : Frame) (c : ThreadId)
    (i : Nat) : (s.setTop g).frameAt c i =
      if c = s.current ∧ i = s.callDepth - 1 then some g else s.frameAt c i := by
  by_cases hc : c = s.current
  · subst hc
    obtain ⟨fs, hfs⟩ := Array.back?_eq_some_iff.1 top
    have depth : s.callDepth - 1 = fs.size := by simp [callDepth, hfs]
    rw [setTop, frameAt_modifyFrames (hasCurrent_of_back? top), depth]
    change _ = if _ then _ else s.processor.frames[i]?
    simp only [hfs, Array.getElem?_setIfInBounds, true_and, Array.size_push, Nat.add_sub_cancel]
    by_cases hi : i = fs.size
    · simp [hi]
    · simp [hi, Ne.symm hi]
  · rw [setTop, frameAt_ne _ hc, if_neg fun h => hc h.1]

theorem frameAt_pop (top : s.processor.frames.back? = some f) (c : ThreadId) (i : Nat) :
    (s.modifyFrames Array.pop).frameAt c i =
      if c = s.current ∧ i = s.callDepth - 1 then none else s.frameAt c i := by
  by_cases hc : c = s.current
  · subst hc
    obtain ⟨fs, hfs⟩ := Array.back?_eq_some_iff.1 top
    have depth : s.callDepth - 1 = fs.size := by simp [callDepth, hfs]
    rw [frameAt_modifyFrames (hasCurrent_of_back? top), depth]
    change _ = if _ then _ else s.processor.frames[i]?
    simp only [hfs, Array.pop_push, Array.getElem?_push, true_and]
    split
    · rename_i hi
      simp [hi]
    · rfl
  · rw [frameAt_ne _ hc, if_neg fun h => hc h.1]

theorem frameAt_closeCells (p : Nat → Bool) (cells : List CellId) (c : ThreadId) (i : Nat) :
    (s.closeCells p cells).2.frameAt c i = s.frameAt c i := by
  simp only [frameAt, processorOf, processors_closeCells]

theorem frameAt_push (f : Frame) (c : ThreadId) (i : Nat) :
    (s.modifyFrames (·.push f)).frameAt c i = some f ∨
      (s.modifyFrames (·.push f)).frameAt c i = s.frameAt c i := by
  by_cases here : s.HasCurrent
  · by_cases hc : c = s.current
    · subst hc
      rw [frameAt_modifyFrames here]
      simp only [Array.getElem?_push]
      split
      · exact .inl rfl
      · exact .inr rfl
    · exact .inr (frameAt_ne _ hc i)
  · refine .inr ?_
    have out := Array.getElem?_eq_none (Nat.not_lt.1 here)
    simp only [frameAt, processorOf, modifyFrames, modifyProcessor, modifyProcessorOf,
      Array.getElem?_modify]
    split
    · rename_i same
      rw [← same, out]
      rfl
    · rfl

theorem frameAt_push_of_some {c : ThreadId} {i : Nat} {g : Frame} (f : Frame)
    (h : s.frameAt c i = some g) : (s.modifyFrames (·.push f)).frameAt c i = some g := by
  by_cases hc : c = s.current
  · subst hc
    have here : s.HasCurrent := by
      refine Nat.lt_of_not_le fun out => ?_
      simp [frameAt, processorOf, Array.getElem?_eq_none out] at h
    rw [frameAt_modifyFrames here]
    have low : i < s.processor.frames.size := (Array.getElem?_eq_some_iff.1 h).1
    rw [Array.getElem?_push_lt low, ← Array.getElem?_eq_getElem low]
    exact h
  · rw [frameAt_ne _ hc]
    exact h

end Top

section Closing

variable (p : Nat → Bool) (cells : List CellId)

theorem closeCells_sublist (s : State ν) : (s.closeCells p cells).1.Sublist cells := by
  induction cells generalizing s with
  | nil => exact .refl _
  | cons x rest ih =>
    unfold closeCells
    split
    · split
      · exact (ih _).cons x
      · exact (ih s).cons_cons x
    · exact (ih s).cons x

/-- The cells that are answered are open, at slots that are not to be closed. -/
theorem opened_of_mem_closeCells (s : State ν) {x : CellId} (h : x ∈ (s.closeCells p cells).1) :
    ∃ o k, s.cell x = .opened o k ∧ p k = false := by
  induction cells generalizing s with
  | nil => simp [closeCells] at h
  | cons y rest ih =>
    unfold closeCells at h
    cases hy : s.cell y with
    | closed v =>
      simp only [hy, Cell.slot?] at h
      exact ih s h
    | opened o k =>
      simp only [hy, Cell.slot?] at h
      by_cases hp : p k = true
      · simp only [hp, ↓reduceIte] at h
        obtain ⟨o', k', hx, hp'⟩ := ih _ h
        -- a cell that is closed first is not answered later
        rw [s.cell_closeCell] at hx
        split at hx
        · cases hx
        · exact ⟨o', k', hx, hp'⟩
      · simp only [hp, Bool.false_eq_true, ↓reduceIte, List.mem_cons] at h
        obtain rfl | h := h
        · exact ⟨o, k, hy, Bool.eq_false_iff.2 hp⟩
        · exact ih s h

theorem cell_of_mem_closeCells (s : State ν) {x : CellId} (h : x ∈ (s.closeCells p cells).1) :
    (s.closeCells p cells).2.cell x = s.cell x := by
  obtain ⟨same, -⟩ | ⟨-, ⟨o, k, hx, closes⟩, -⟩ := s.cell_closeCells p cells x
  · exact same
  · obtain ⟨o', k', hx', stays⟩ := s.opened_of_mem_closeCells p cells h
    obtain ⟨-, rfl⟩ := Cell.opened.inj (hx.symm.trans hx')
    rw [closes] at stays
    cases stays

end Closing

section Change

variable {f : Frame}

theorem wanes_passive (h : Passive s s') (kept : s.Kept) : s.Wanes s' :=
  wanes_of_frames (Nat.le_of_eq (congrArg Array.size h.cells.symm))
    (fun c i => by simp only [frameAt, h.frames]) (fun x o k _ => by simp only [cell, h.cells]) kept

theorem wanes_newClosed (v : Value) (kept : s.Kept) : s.Wanes (s.newCell (.closed v)).2 := by
  refine wanes_of_frames (by simp [newCell]) (fun _ _ => rfl) (fun x o k opened => ?_) kept
  rw [cell_newCell] at opened ⊢
  split
  · rename_i new
    rw [if_pos new] at opened
    obtain closed | opened := opened
    · cases closed
    · exact absurd (index_lt_of_opened opened) (Nat.not_lt.2 (Nat.le_of_eq new.symm))
  · rfl

theorem wanes_assigned {x : CellId} {old : Value} (v : Value) (closed : s.cell x = .closed old)
    (kept : s.Kept) : s.Wanes { s with cells := s.cells.setIfInBounds x.index (.closed v) } := by
  refine wanes_of_frames (by simp) (fun _ _ => rfl) (fun y o k opened => ?_) kept
  by_cases same : x = y
  · subst same
    rw [closed] at opened
    simp only [cell, Array.getElem?_setIfInBounds, ↓reduceIte] at opened
    split at opened <;> simp at opened
  · have apart : x.index ≠ y.index := fun index => same (congrArg CellId.mk index)
    simp only [cell, Array.getElem?_setIfInBounds, if_neg apart]

/-- When the cells of the frame on top are closed, those of other frames are not among them. -/
theorem Kept.cell_closeCells (kept : s.Kept) (top : s.processor.frames.back? = some f)
    (p : Nat → Bool) {c : ThreadId} {i : Nat} (other : ¬ (c = s.current ∧ i = s.callDepth - 1))
    {x : CellId} (listed : s.Owns c i x) (t : State ν) :
    (t.closeCells p f.cells).2.cell x = t.cell x := by
  obtain ⟨same, -⟩ | ⟨member, -⟩ := t.cell_closeCells p f.cells x
  · exact same
  · exact absurd (kept.unique listed ⟨f, frameAt_top top, member⟩) other

theorem opened_of_closeCells (p : Nat → Bool) (cells : List CellId) {x : CellId} {o : ThreadId}
    {k : Nat} (h : (s.closeCells p cells).2.cell x = .opened o k) :
    s.cell x = .opened o k ∧ (x ∈ cells → p k = false) := by
  obtain ⟨same, stays⟩ | ⟨-, -, closed⟩ := s.cell_closeCells p cells x
  · exact ⟨same.symm.trans h, fun member => stays member o k (same.symm.trans h)⟩
  · rw [closed] at h
    cases h

theorem wanes_closeSlots (top : s.processor.frames.back? = some f) (p : Nat → Bool)
    (kept : s.Kept) : s.Wanes (s.closeSlots f p) := by
  have current : (s.closeCells p f.cells).2.current = s.current :=
    (rigid_closeCells s p f.cells).current
  have processor : (s.closeCells p f.cells).2.processor = s.processor := by
    simp only [State.processor, processorOf, processors_closeCells, current]
  have frames : ∀ c i, (s.closeSlots f p).frameAt c i =
      if c = s.current ∧ i = s.callDepth - 1 then
        some { f with cells := (s.closeCells p f.cells).1 } else s.frameAt c i := by
    intro c i
    have set := frameAt_setTop (s := (s.closeCells p f.cells).2) (processor ▸ top)
      { f with cells := (s.closeCells p f.cells).1 } c i
    rwa [current, callDepth, processor, frameAt_closeCells] at set
  refine ⟨Nat.le_of_eq (s.size_closeCells p f.cells).symm,
    fun x o k hx => (opened_of_closeCells p f.cells hx).1, fun x o k hx c i listed => ?_,
    fun c i g hg => ?_⟩
  · obtain ⟨was, stays⟩ := opened_of_closeCells p f.cells hx
    obtain ⟨g, hg, member⟩ := listed
    unfold Owns
    rw [frames]
    split
    · rename_i here
      obtain ⟨rfl, rfl⟩ := here
      obtain rfl := Option.some.inj (hg.symm.trans (frameAt_top top))
      exact ⟨_, rfl, (s.mem_closeCells p g.cells x).2 member o k was (stays member)⟩
    · exact ⟨g, hg, member⟩
  · rw [frames] at hg
    right
    split at hg
    · rename_i here
      obtain ⟨rfl, rfl⟩ := here
      cases hg
      exact ⟨f, frameAt_top top, rfl, rfl, s.closeCells_sublist p f.cells,
        fun x hx => s.cell_of_mem_closeCells p f.cells hx⟩
    · rename_i other
      exact ⟨g, hg, rfl, rfl, .refl _, fun x hx => kept.cell_closeCells top p other ⟨g, hg, hx⟩ s⟩

theorem wanes_dropTop (top : s.processor.frames.back? = some f) (kept : s.Kept) :
    s.Wanes (s.dropTop f) := by
  let p : Nat → Bool := fun slot => f.base ≤ slot
  have frames : ∀ c i, (s.dropTop f).frameAt c i =
      if c = s.current ∧ i = s.callDepth - 1 then none else s.frameAt c i := by
    intro c i
    rw [dropTop, frameAt_closeCells, frameAt_pop top]
  refine ⟨Nat.le_of_eq (size_closeCells (s.modifyFrames Array.pop) p f.cells).symm,
    fun x o k hx => (opened_of_closeCells p f.cells hx).1, fun x o k hx c i listed => ?_,
    fun c i g hg => ?_⟩
  · obtain ⟨was, stays⟩ := opened_of_closeCells p f.cells hx
    obtain ⟨g, hg, member⟩ := listed
    unfold Owns
    rw [frames]
    split
    · rename_i here
      obtain ⟨rfl, rfl⟩ := here
      obtain rfl := Option.some.inj (hg.symm.trans (frameAt_top top))
      -- the slots of a frame are not below its base
      obtain ⟨-, k', same, low⟩ := kept.own _ _ g hg x member
      obtain ⟨-, rfl⟩ := Cell.opened.inj (same.symm.trans was)
      exact absurd low (of_decide_eq_false (stays member))
    · exact ⟨g, hg, member⟩
  · rw [frames] at hg
    split at hg
    · cases hg
    · rename_i other
      exact .inr ⟨g, hg, rfl, rfl, .refl _, fun x hx =>
        kept.cell_closeCells top p other ⟨g, hg, hx⟩ (s.modifyFrames Array.pop)⟩

theorem wanes_pop (top : s.processor.frames.back? = some f) (native : f.isNative = true)
    (kept : s.Kept) : s.Wanes (s.modifyFrames Array.pop) := by
  refine ⟨Nat.le_refl _, fun _ _ _ hx => hx, fun x o k hx c i listed => ?_, fun c i g hg => ?_⟩
  · obtain ⟨g, hg, member⟩ := listed
    unfold Owns
    rw [frameAt_pop top]
    split
    · rename_i here
      obtain ⟨rfl, rfl⟩ := here
      obtain rfl := Option.some.inj (hg.symm.trans (frameAt_top top))
      have script := (kept.own _ _ g hg x member).1
      rw [native] at script
      cases script
    · exact ⟨g, hg, member⟩
  · rw [frameAt_pop top] at hg
    split at hg
    · cases hg
    · exact .inr ⟨g, hg, rfl, rfl, .refl _, fun _ _ => rfl⟩

theorem wanes_push (f : Frame) (none : f.cells = []) : s.Wanes (s.modifyFrames (·.push f)) := by
  refine ⟨Nat.le_refl _, fun _ _ _ hx => hx, fun x o k hx c i listed => ?_, fun c i g hg => ?_⟩
  · obtain ⟨g, hg, member⟩ := listed
    exact ⟨g, frameAt_push_of_some f hg, member⟩
  · obtain new | old := s.frameAt_push f c i
    · obtain rfl := Option.some.inj (new.symm.trans hg)
      exact .inl none
    · exact .inr ⟨g, old.symm.trans hg, rfl, rfl, .refl _, fun _ _ => rfl⟩

end Change

section Opened

variable {f : Frame} {slot : Nat}

theorem frameAt_openSlot (top : s.processor.frames.back? = some f) (c : ThreadId) (i : Nat) :
    (s.openSlot f slot).frameAt c i = if c = s.current ∧ i = s.callDepth - 1 then
      some { f with cells := f.cells ++ [⟨s.cells.size⟩] } else s.frameAt c i :=
  frameAt_setTop (s := (s.newCell (.opened s.current slot)).2) top _ c i

theorem cell_openSlot (x : CellId) : (s.openSlot f slot).cell x =
    if x.index = s.cells.size then .opened s.current slot else s.cell x :=
  s.cell_newCell (.opened s.current slot) x

theorem cell_openSlot_of_lt {x : CellId} (known : x.index < s.cells.size) :
    (s.openSlot f slot).cell x = s.cell x :=
  cell_openSlot x |>.trans (if_neg (Nat.ne_of_lt known))

/-- The frame on top lists the new cell, and else all is as it was. -/
theorem owns_openSlot (top : s.processor.frames.back? = some f) {c : ThreadId} {i : Nat}
    {x : CellId} : (s.openSlot f slot).Owns c i x ↔
      s.Owns c i x ∨ c = s.current ∧ i = s.callDepth - 1 ∧ x = ⟨s.cells.size⟩ := by
  unfold Owns
  rw [frameAt_openSlot top]
  split
  · rename_i here
    obtain ⟨rfl, rfl⟩ := here
    simp [frameAt_top top]
  · rename_i other
    exact ⟨.inl, fun h => h.resolve_right fun new => other ⟨new.1, new.2.1⟩⟩

theorem retains_openSlot (top : s.processor.frames.back? = some f) :
    s.Retains (s.openSlot f slot) where
  size := by simp [openSlot, setTop, modifyFrames, modifyProcessor, modifyProcessorOf, newCell]
  opened x o k known hx := (cell_openSlot_of_lt known).symm.trans hx
  listed x o k known hx c i listed := (owns_openSlot top).2 (.inl listed)

theorem kept_openSlot (top : s.processor.frames.back? = some f) (script : f.isNative = false)
    (low : f.base ≤ slot) (found : s.findOpenCell f slot = none) (kept : s.Kept) :
    (s.openSlot f slot).Kept := by
  let new : CellId := ⟨s.cells.size⟩
  have opened : (s.openSlot f slot).cell new = .opened s.current slot :=
    (cell_openSlot new).trans (if_pos rfl)
  have fresh : ∀ {c i}, ¬ s.Owns c i new := fun listed =>
    Nat.lt_irrefl _ (kept.index_lt listed)
  have old : ∀ {c i g x}, s.frameAt c i = some g → x ∈ g.cells →
      (s.openSlot f slot).cell x = s.cell x := fun hg hx =>
    cell_openSlot_of_lt (kept.index_lt ⟨_, hg, hx⟩)
  have apart : ∀ {c i g}, s.frameAt c i = some g → g.cells.Pairwise fun x y =>
      (s.openSlot f slot).cell x ≠ (s.openSlot f slot).cell y := fun hg =>
    (kept.apart _ _ _ hg).imp_of_mem fun hx hy apart => by rwa [old hg hx, old hg hy]
  refine ⟨fun c i g hg x hx => ?_, fun c i g hg => ?_, fun c i j x hi hj => ?_,
    fun x o k hx => ?_⟩
  · rw [frameAt_openSlot top] at hg
    split at hg
    · rename_i here
      obtain ⟨rfl, rfl⟩ := here
      cases hg
      obtain hx | hx := List.mem_append.1 hx
      · rw [old (frameAt_top top) hx]
        exact kept.own _ _ f (frameAt_top top) x hx
      · obtain rfl := List.mem_singleton.1 hx
        exact ⟨script, slot, opened, low⟩
    · rw [old hg hx]
      exact kept.own c i g hg x hx
  · rw [frameAt_openSlot top] at hg
    split at hg
    · cases hg
      refine List.pairwise_append.2 ⟨apart (frameAt_top top), List.pairwise_singleton .., ?_⟩
      intro x hx y hy same
      obtain rfl := List.mem_singleton.1 hy
      rw [old (frameAt_top top) hx, opened] at same
      exact findOpenCell_ne_none hx same found
    · exact apart hg
  · rw [owns_openSlot top] at hi hj
    obtain hi | ⟨rfl, rfl, rfl⟩ := hi
    · obtain hj | ⟨rfl, rfl, rfl⟩ := hj
      · exact kept.once c i j x hi hj
      · exact absurd hi fresh
    · exact (hj.resolve_left fresh).2.1.symm
  · simp only [owns_openSlot top]
    by_cases hnew : x = new
    · subst hnew
      obtain ⟨rfl, -⟩ := Cell.opened.inj (opened.symm.trans hx)
      exact ⟨_, .inr ⟨rfl, rfl, rfl⟩⟩
    · rw [cell_openSlot, if_neg fun index => hnew (congrArg CellId.mk index)] at hx
      obtain ⟨i, listed⟩ := kept.listed x o k hx
      exact ⟨i, .inl listed⟩

end Opened

/-- Any change preserves what frames and cells have to do with each other. -/
theorem Change.keeps (change : s.Change s') (kept : s.Kept) : s'.Kept ∧ s.Retains s' := by
  have of_wanes : s.Wanes s' → s'.Kept ∧ s.Retains s' := fun h => ⟨h.kept kept, h.retains⟩
  cases change with
  | passive h => exact of_wanes (wanes_passive h kept)
  | counted =>
    exact of_wanes (wanes_of_frames (Nat.le_refl _) (fun _ _ => rfl) (fun _ _ _ _ => rfl) kept)
  | newClosed v => exact of_wanes (wanes_newClosed v kept)
  | assigned v closed => exact of_wanes (wanes_assigned v closed kept)
  | opened top script low found =>
    exact ⟨kept_openSlot top script low found kept, retains_openSlot top⟩
  | closed p top => exact of_wanes (wanes_closeSlots top p kept)
  | popped top _ => exact of_wanes (wanes_dropTop top kept)
  | poppedNative top native => exact of_wanes (wanes_pop top native kept)
  | pushed none => exact of_wanes (wanes_push _ none)

theorem Becomes.keeps (becomes : s.Becomes s') (kept : s.Kept) : s'.Kept ∧ s.Retains s' := by
  induction becomes with
  | refl => exact ⟨kept, .refl s⟩
  | tail _ change ih =>
    obtain ⟨kept, retains⟩ := ih
    obtain ⟨kept, last⟩ := change.keeps kept
    exact ⟨kept, retains.trans last⟩

theorem kept_of_bare (frames : ∀ c i, s.frameAt c i = none) (cells : s.cells = #[]) : s.Kept where
  own c i f hf := by simp [frames] at hf
  apart c i f hf := by simp [frames] at hf
  once c i j x hi := by simp [Owns, frames] at hi
  listed x o k hx := by simp [cell, cells] at hx

/-- A cell that its frame no longer lists is closed for good, and so it is when the frame is gone. -/
theorem Kept.closed_of_not_owns (kept : s.Kept) (becomes : s.Becomes s') (later : s'.Becomes s'')
    {c : ThreadId} {i : Nat} {x : CellId} (listed : s.Owns c i x) (gone : ¬ s'.Owns c i x) :
    (s''.cell x).isOpen = false := by
  cases hx : s''.cell x with
  | closed v => rfl
  | opened o k =>
    obtain ⟨kept', retains⟩ := becomes.keeps kept
    have known := kept.index_lt listed
    have was := (later.keeps kept').2.opened x o k (Nat.lt_of_lt_of_le known retains.size) hx
    exact absurd (retains.listed x o k known was c i listed) gone

/-- Popping the frame on top closes the cells that it lists. -/
theorem Kept.popFrame (kept : s.Kept) {f : Frame} (top : s.processor.frames.back? = some f) :
    ∃ g s', Exec.popFrame s = .ok g s' ∧ s.Becomes s' ∧
      ∀ x, ¬ s'.Owns s.current (s.callDepth - 1) x := by
  obtain ⟨g, popped⟩ := Exec.popFrame_run top fun native x hx => by
    have script := (kept.own _ _ f (frameAt_top top) x hx).1
    rw [native] at script
    cases script
  refine ⟨g, _, popped, Exec.becomes_popFrame.ok popped, fun x ⟨h, found, _⟩ => ?_⟩
  rw [dropped, frameAt_modifyStack, frameAt_closeCells, frameAt_pop top, if_pos ⟨rfl, rfl⟩]
    at found
  cases found

end State

namespace Run

variable {library : Library ν}

theorem kept (r : Run library) (n : Nat) : (r.machine n).state.Kept := by
  obtain ⟨options, start⟩ := r.start
  have bare : (r.machine 0).state.Kept := by
    rw [start]
    refine State.kept_of_bare (fun c i => ?_) rfl
    obtain ⟨_ | c⟩ := c <;> rfl
  exact ((r.becomes (Nat.zero_le n)).keeps bare).1

/-- **Every open cell has an owner**, of any program and in any state on the way. A cell that its
frame no longer lists is never open again, and neither is one whose frame was popped, whatever it
was popped for. -/
theorem open_cells_owned (r : Run library) (n : Nat) :
    (r.machine n).state.Owned ∧
    (∀ m l, n ≤ m → m ≤ l → ∀ c i x, (r.machine n).state.Owns c i x →
      ¬ (r.machine m).state.Owns c i x → ((r.machine l).state.cell x).isOpen = false) ∧
    ∀ t, (r.machine n).state.Becomes t → t.Owned ∧
      (∀ t' u, t.Becomes t' → t'.Becomes u → ∀ c i x, t.Owns c i x → ¬ t'.Owns c i x →
        (u.cell x).isOpen = false) ∧
      ∀ f, t.processor.frames.back? = some f → ∃ g t', Exec.popFrame t = .ok g t' ∧
        ∀ u, t'.Becomes u → ∀ x ∈ f.cells, (u.cell x).isOpen = false := by
  have kept := r.kept n
  refine ⟨kept.owned, fun m l before after c i x listed gone => ?_, fun t becomes => ?_⟩
  · exact kept.closed_of_not_owns (r.becomes before) (r.becomes after) listed gone
  · obtain ⟨kept, -⟩ := becomes.keeps kept
    refine ⟨kept.owned, fun t' u before after c i x listed gone => ?_, fun f top => ?_⟩
    · exact kept.closed_of_not_owns before after listed gone
    · obtain ⟨g, t', popped, before, gone⟩ := kept.popFrame top
      refine ⟨g, t', popped, fun u after x hx => ?_⟩
      exact kept.closed_of_not_owns before after ⟨f, State.frameAt_top top, hx⟩ (gone x)

end Run

namespace Sample

def keeper : Proto :=
  { name := "keeper", locals := [.slot 0 "kept"],
    protos := [{ callee with upvalues := [.slot 0 "kept"] }],
    code := #[⟨.beginFn, 1, 0⟩, ⟨.closure, 0, 0⟩, ⟨.ret, 1, 0⟩] }

def keeping : Run library := run keeper rfl [.boolean true]

end Sample

/-- The function returns, and the variable that it shared is its own no longer. -/
theorem Run.open_cells_owned_returned :
    (Sample.keeping.machine 6).state.Owned ∧
    (Sample.keeping.machine 6).state.Owns .root 0 ⟨0⟩ ∧
    ((Sample.keeping.machine 6).state.cell ⟨0⟩).isOpen = true ∧
    ∀ l, 7 ≤ l → ((Sample.keeping.machine l).state.cell ⟨0⟩).isOpen = false := by
  obtain ⟨owned, returned, -⟩ := Sample.keeping.open_cells_owned 6
  have listed : (Sample.keeping.machine 6).state.Owns .root 0 ⟨0⟩ := by decide +kernel
  have gone : ¬ (Sample.keeping.machine 7).state.Owns .root 0 ⟨0⟩ := by decide +kernel
  exact ⟨owned, listed, by decide +kernel, fun l after =>
    returned 7 l (by decide) after .root 0 ⟨0⟩ listed gone⟩

end ScriptMachine
