import ScriptMachine.Proofs.Machine.Sparing

/-!
# Frames are popped and taken over

What becomes of a frame that can be spared when frames are popped and taken over above it.

* `Exec.popFrame_eq`: the frame on top is popped, and its captured variables get values of their
  own.
* `Exec.popFrame_above`: a frame above the one that can be spared is popped.
* `State.Trims.popTop_called`: the frame that can be spared is popped after the one that it called.
* `State.Trims.retake`: the frame that it called is taken over by another.
* `State.Trims.takeOver`: a frame is taken over that can be spared from now on.
-/

namespace ScriptMachine

variable {ν α β : Type} {x : Option Spare} {s t s' t' : State ν} {c : ThreadId} {n : Nat}
  {scope : Scope}

/-! ## The frame on top -/

/-- The cells that a frame lists are open, at slots that it has. -/
def Frame.Owner (cell : CellId → Cell) (f : Frame) : Prop :=
  ∀ y ∈ f.cells, f.isNative = false ∧ ∃ o k, cell y = .opened o k ∧ f.base ≤ k

theorem State.Kept.owner (kept : s.Kept) {f : Frame} (top : s.processor.frames.back? = some f) :
    f.Owner s.cell := fun y hy => by
  obtain ⟨script, k, opened, low⟩ := kept.own _ _ f (State.frameAt_top top) y hy
  exact ⟨script, _, k, opened, low⟩

/-- The states differ in stacks, frames and what cells hold, and in the count of instructions. -/
structure State.Likewise (s s' : State ν) : Prop where
  world : s'.world = s.world
  options : s'.options = s.options
  closures : s'.closures = s.closures
  coroutines : s'.coroutines = s.coroutines
  active : s'.active = s.active
  current : s'.current = s.current
  entries : s'.entries = s.entries
  size : s'.processors.size = s.processors.size
  cellCount : s'.cells.size = s.cells.size

theorem State.Likewise.trans {s'' : State ν} (h : s.Likewise s') (h' : s'.Likewise s'') :
    s.Likewise s'' :=
  ⟨h'.world.trans h.world, h'.options.trans h.options, h'.closures.trans h.closures,
   h'.coroutines.trans h.coroutines, h'.active.trans h.active, h'.current.trans h.current,
   h'.entries.trans h.entries, h'.size.trans h.size, h'.cellCount.trans h.cellCount⟩

theorem State.Likewise.hasCurrent (h : s.Likewise s') (here : s.HasCurrent) : s'.HasCurrent := by
  unfold HasCurrent at *
  rw [h.current, h.size]
  exact here

theorem State.likewise_modifyProcessor (s : State ν) (f : Processor → Processor) :
    s.Likewise (s.modifyProcessor f) :=
  ⟨rfl, rfl, rfl, rfl, rfl, rfl, rfl, Array.size_modify, rfl⟩

theorem State.likewise_closeCells (s : State ν) (p : Nat → Bool) (ys : List CellId) :
    s.Likewise (s.closeCells p ys).2 := by
  have rigid := rigid_closeCells s p ys
  exact ⟨world_closeCells .., rigid.options, view_closeCells State.closures (fun _ _ => rfl) ..,
    rigid.coroutines, rigid.active, rigid.current, rigid.entries, rigid.size,
    s.size_closeCells p ys⟩

/-- Only processors and what cells hold remain to be looked at. -/
theorem State.Trims.of_likewise {z : Option Spare} (h : s.Trims x t) (left : s.Likewise s')
    (right : t.Likewise t')
    (processors : ∀ c, (s'.processorOf c).Trims (Spare.on z c) (t'.processorOf c))
    (cells : ∀ y, Cell.Trims z s'.stackOf (s'.cell y) (t'.cell y))
    (fits : ∀ y ∈ z, y.Fits s'.closures s'.cells) : s'.Trims z t' where
  world := right.world.trans (h.world.trans left.world.symm)
  limit := left.options.symm ▸ h.limit
  options := by rw [right.options, left.options, h.options]
  closures := right.closures.trans (h.closures.trans left.closures.symm)
  coroutines := right.coroutines.trans (h.coroutines.trans left.coroutines.symm)
  active := right.active.trans (h.active.trans left.active.symm)
  current := right.current.trans (h.current.trans left.current.symm)
  entries := right.entries.trans (h.entries.trans left.entries.symm)
  size := right.size.trans (h.size.trans left.size.symm)
  processors
  cellCount := right.cellCount.trans (h.cellCount.trans left.cellCount.symm)
  cells
  fits

namespace State

/-- The frame on top is popped with its slots, and its cells are closed. -/
def popTop (s : State ν) (f : Frame) : State ν :=
  (s.dropTop f).modifyStack (·.truncate f.activation.floor)

variable {f : Frame}

theorem likewise_popTop (s : State ν) (f : Frame) : s.Likewise (s.popTop f) :=
  ((s.likewise_modifyProcessor _).trans (likewise_closeCells ..)).trans
    (likewise_modifyProcessor ..)

theorem current_popTop (s : State ν) (f : Frame) : (s.popTop f).current = s.current :=
  (s.likewise_popTop f).current

theorem processors_popTop (s : State ν) (f : Frame) :
    (s.popTop f).processors = (s.modifyProcessor fun p => { p with
      stack := p.stack.truncate f.activation.floor, frames := p.frames.pop }).processors := by
  have current : (s.dropTop f).current = s.current := (rigid_closeCells ..).current
  have processors : (s.dropTop f).processors = (s.modifyFrames Array.pop).processors :=
    processors_closeCells ..
  have twice := s.modifyProcessorOf_twice s.current (fun p => { p with frames := p.frames.pop })
    fun p => { p with stack := p.stack.truncate f.activation.floor }
  refine Eq.trans ?_ (congrArg State.processors twice)
  simp only [popTop, modifyStack, modifyProcessor, modifyProcessorOf, current, processors]
  rfl

theorem processorOf_popTop (here : s.HasCurrent) (f : Frame) (c : ThreadId) :
    (s.popTop f).processorOf c = if c = s.current then { s.processorOf c with
      stack := (s.processorOf c).stack.truncate f.activation.floor
      frames := (s.processorOf c).frames.pop } else s.processorOf c := by
  unfold processorOf
  rw [processors_popTop]
  split
  · rename_i own
    subst own
    exact processor_modifyProcessor here _
  · exact processorOf_modifyProcessorOf_ne s _ ‹_›

theorem frames_popTop (here : s.HasCurrent) (f : Frame) :
    (s.popTop f).processor.frames = s.processor.frames.pop := by
  rw [State.processor, current_popTop, processorOf_popTop here, if_pos rfl]
  rfl

/-- The cells of the frame have values of their own, and others are as they were. -/
theorem cell_popTop (owner : f.Owner s.cell) (y : CellId) :
    (s.popTop f).cell y = if y ∈ f.cells then .closed (s.readCell y) else s.cell y := by
  have read : (s.modifyFrames Array.pop).readCell y = s.readCell y := by
    have views : (s.modifyFrames Array.pop).stackOf = s.stackOf := funext fun c =>
      view_modifyProcessorOf s _ s.current c Processor.stack fun _ => rfl
    unfold readCell
    rw [views]
    rfl
  obtain ⟨same, stays⟩ | ⟨member, -, closed⟩ :=
    (s.modifyFrames Array.pop).cell_closeCells (fun slot => f.base ≤ slot) f.cells y
  · rw [if_neg fun member => ?_]
    · exact same
    · obtain ⟨-, o, k, opened, low⟩ := owner y member
      exact of_decide_eq_false (stays member o k opened) low
  · rw [if_pos member, ← read]
    exact closed

theorem wanes_popTop (top : s.processor.frames.back? = some f) (kept : s.Kept) :
    (s.popTop f).Kept :=
  ((becomes_modifyStack _ _).keeps ((wanes_dropTop top kept).kept kept)).1

end State

/-- An open cell is listed by a frame of its thread. -/
theorem State.Kept.exists_calls (kept : s.Kept) {y : CellId} {o : ThreadId} {k : Nat}
    (opened : s.cell y = .opened o k) : ∃ f ∈ s.callsOf o, y ∈ f.cells := by
  obtain ⟨i, f, hf, member⟩ := kept.listed y o k opened
  exact ⟨f, List.mem_reverse.2 (Array.mem_toList_iff.2 (Array.mem_of_getElem? hf)), member⟩

/-- The cells that a frame lists are slots of its own. -/
theorem State.Kept.own_calls (kept : s.Kept) {f : Frame} {o : ThreadId} (hf : f ∈ s.callsOf o)
    {y : CellId} (member : y ∈ f.cells) :
    f.isNative = false ∧ ∃ k, s.cell y = .opened o k ∧ f.base ≤ k := by
  obtain ⟨i, hi⟩ := Array.mem_iff_getElem?.1 (Array.mem_toList_iff.1 (List.mem_reverse.1 hf))
  exact kept.own o i f hi y member

/-- The frame on top is popped, and all its cells are detached. -/
theorem Exec.popFrame_eq {f : Frame} (top : s.processor.frames.back? = some f)
    (owner : f.Owner s.cell) : popFrame s = .ok { f with cells := [] } (s.popTop f) := by
  let popped := s.modifyFrames Array.pop
  have none : (popped.closeCells (fun slot => f.base ≤ slot) f.cells).1 = [] := by
    refine List.eq_nil_iff_forall_not_mem.2 fun y hy => ?_
    have member := (popped.mem_closeCells _ f.cells y).1 hy
    obtain ⟨o, k, opened, high⟩ := State.opened_of_mem_closeCells _ _ _ hy
    obtain ⟨-, o', k', opened', low⟩ := owner y member
    obtain ⟨-, rfl⟩ := Cell.opened.inj (opened.symm.trans opened')
    exact of_decide_eq_false high low
  by_cases native : f.isNative = true
  · have empty : f.cells = [] := by
      refine List.eq_nil_iff_forall_not_mem.2 fun y hy => ?_
      rw [(owner y hy).1] at native
      cases native
    have floor : f.activation.floor = f.base := if_pos native
    have same : { f with cells := [] } = f := by rw [← empty]
    have drop : s.dropTop f = s.modifyFrames Array.pop := by rw [State.dropTop, empty]; rfl
    rw [same, State.popTop, floor, drop]
    simp only [popFrame, topFrame?, bind, EStateM.bind, get, getThe, MonadStateOf.get,
      EStateM.get, pure, EStateM.pure, top, native]
    rfl
  · have floor : f.activation.floor = f.base - 1 := if_neg native
    rw [State.popTop, floor, ← none]
    simp only [popFrame, topFrame?, bind, EStateM.bind, get, getThe, MonadStateOf.get,
      EStateM.get, pure, EStateM.pure, top, native, modify, modifyGet, MonadStateOf.modifyGet,
      EStateM.modifyGet]
    rfl

theorem FramesTrim.tail {y : Option Spare} {f : Frame} {fs gs : List Frame}
    (h : FramesTrim y (f :: fs) gs) :
    (∃ gs', gs = f.lowered (y.elim {} Spare.cut).gap :: gs' ∧ FramesTrim y fs gs' ∧
      (y.elim {} Spare.cut).high ≤ f.activation.floor) ∨
    ∃ z, y = some z ∧ z.Calls f ∧ fs = z.frame :: z.rest ∧ gs = z.taken f :: z.rest := by
  cases h with
  | same => exact .inl ⟨fs, rfl, .same, Nat.zero_le _⟩
  | called calls => exact .inr ⟨_, rfl, calls, rfl, rfl⟩
  | above below high => exact .inl ⟨_, rfl, below, high⟩

theorem reverse_pop {fs : Array Frame} {f : Frame} {rest : List Frame}
    (h : fs.toList.reverse = f :: rest) : fs.pop.toList.reverse = rest := by
  obtain ⟨gs, rfl⟩ := Array.back?_eq_some_iff.1 (back?_of_reverse h)
  simpa using h

theorem Frame.floor_lowered (f : Frame) (n : Nat) :
    (f.lowered n).activation.floor = f.activation.floor - n := by
  have native : (f.lowered n).isNative = f.isNative := rfl
  unfold Activation.floor Frame.activation
  simp only [native] at *
  split
  · rfl
  · change f.base - n - 1 = f.base - 1 - n
    omega

namespace Exec

/-- A frame above the one that can be spared is popped. -/
theorem popFrame_above (h : Spared x c n s t) {f : Frame} {fs fs' : List Frame}
    (frames : s.processor.frames.toList.reverse = f :: fs)
    (frames' : t.processor.frames.toList.reverse = f.lowered (Spare.part x c).gap :: fs')
    (below : FramesTrim (Spare.on x c) fs fs')
    (high : (Spare.part x c).high ≤ f.activation.floor) :
    popFrame s = .ok { f with cells := [] } (s.popTop f) ∧
      popFrame t = .ok { f.lowered (Spare.part x c).gap with cells := [] }
        (t.popTop (f.lowered (Spare.part x c).gap)) ∧
      Spared x c 0 (s.popTop f) (t.popTop (f.lowered (Spare.part x c).gap)) := by
  obtain rfl := h.current
  have top := back?_of_reverse frames
  have top' := back?_of_reverse frames'
  have owner := h.kept.owner top
  have own : ∀ y ∈ f.cells, ∃ k, s.cell y = .opened s.current k ∧
      (Spare.part x s.current).high ≤ k ∧ f.base ≤ k := fun y hy => by
    obtain ⟨-, k, opened, low⟩ := h.kept.own _ _ f (State.frameAt_top top) y hy
    have := f.activation.floor_le_base
    have base : f.activation.base = f.base := rfl
    exact ⟨k, opened, by omega, low⟩
  have owner' : (f.lowered (Spare.part x s.current).gap).Owner t.cell := fun y hy => by
    obtain ⟨k, opened, above, low⟩ := own y hy
    have cell := h.trims.cells y
    rw [opened] at cell
    generalize ht : t.cell y = b at cell
    cases cell with
    | hidden out => exact absurd (.inr above) out
    | opened _ =>
      refine ⟨(owner y hy).1, _, _, rfl, ?_⟩
      rw [Cut.shift_of_high above]
      exact Nat.sub_le_sub_right low _
  have popped : (s.modifyFrames Array.pop).Trims x (t.modifyFrames Array.pop) := by
    refine h.trims.modifyFrames ?_
    rw [reverse_pop frames, reverse_pop frames']
    exact below
  have closed := (closeCells_trims (c := s.current) (l := f.cells)
    (p := fun slot => f.base ≤ slot)
    (q := fun slot => f.base - (Spare.part x s.current).gap ≤ slot) popped
    (fun y hy => by
      obtain ⟨k, opened, above, -⟩ := own y hy
      exact ⟨k, opened, above⟩)
    fun k above => by
      have := f.activation.floor_le_base
      have base : f.activation.base = f.base := rfl
      unfold Cut.high at high above
      exact decide_eq_decide.2 (by omega)).2
  have dropped : Spared x s.current 0 (s.dropTop f)
      (t.dropTop (f.lowered (Spare.part x s.current).gap)) := by
    have rigid := rigid_closeCells (s.modifyFrames Array.pop) (fun slot => f.base ≤ slot) f.cells
    have operands : Spared x s.current 0 s t :=
      { h with room := Nat.le_trans (Nat.le_add_right ..) h.room }
    refine operands.of_level rigid.current ?_ ?_
      ((State.wanes_dropTop top h.kept).kept h.kept) closed
    · simp [State.dropTop, processors_closeCells, State.modifyFrames, State.modifyProcessor,
        State.modifyProcessorOf]
    · rw [State.dropTop, State.stackOf, State.processorOf, processors_closeCells]
      exact State.view_modifyProcessorOf s _ s.current s.current Processor.stack fun _ => rfl
  refine ⟨popFrame_eq top owner, popFrame_eq top' owner', ?_⟩
  rw [State.popTop, State.popTop, Frame.floor_lowered]
  exact dropped.truncate high

end Exec

theorem ValueStack.truncate_truncate (v : ValueStack) {n m : Nat} (le : m ≤ n) :
    (v.truncate n).truncate m = v.truncate m := by
  simp only [ValueStack.truncate, Array.shrink_eq_take, Array.take_eq_extract, Array.extract_extract]
  congr 2
  omega

namespace Spare

theorem on_self (z : Spare) : on (some z) z.thread = some z := by simp [on]

theorem on_ne {z : Spare} {c : ThreadId} (other : c ≠ z.thread) : on (some z) c = none := by
  simp [on, Ne.symm other]

theorem part_self (z : Spare) : part (some z) z.thread = z.cut := by
  rw [part, on_self]
  rfl

theorem part_ne {z : Spare} {c : ThreadId} (other : c ≠ z.thread) : part (some z) c = {} := by
  simp [part, on_ne other]

theorem floor_taken {z : Spare} {f : Frame} (calls : z.Calls f) :
    (z.taken f).activation.floor = z.cut.low := by
  have same : (z.taken f).activation.floor = (f.lowered z.slots).activation.floor := rfl
  have high : z.cut.high = z.cut.low + z.slots := rfl
  rw [same, Frame.floor_lowered, calls.floor]
  omega

end Spare

theorem Cut.keeps_none (i : Nat) : Cut.Keeps {} i := .inr (Nat.zero_le i)

theorem Cut.shift_none (i : Nat) : Cut.shift {} i = i := by simp [Cut.shift]

/-- Slots are taken out, and what is above them moves down. -/
theorem Cut.Trims.take {q : Cut} {v : ValueStack} {operands : List Value}
    (above : v.above? q.high = some operands) :
    q.Trims v ((v.truncate q.low).pushAll operands) := by
  have room : q.high ≤ v.size := by
    by_contra short
    simp [ValueStack.above?, short] at above
  obtain rfl : (v.values.extract q.high).toList = operands := by
    simpa [ValueStack.above?, room] using above
  have low : q.high = q.low + q.gap := rfl
  refine ⟨room, ?_, fun i hi => ?_, fun i hi => ?_⟩
  · rw [ValueStack.size_pushAll, ValueStack.size_truncate]
    simp only [ValueStack.size] at *
    simp
    omega
  all_goals
    simp only [ValueStack.size] at room
    simp only [ValueStack.pushAll, ValueStack.truncate, List.foldl_push_eq_append',
      Array.getElem?_append, Array.shrink_eq_take, Array.take_eq_extract, Array.size_extract]
  · rw [if_pos (by omega), Array.getElem?_extract]
    grind
  · rw [if_neg (by omega)]
    grind

theorem Cut.Trims.eq {v v' : ValueStack} (h : Cut.Trims {} v v') : v' = v := by
  obtain ⟨a⟩ := v
  obtain ⟨b⟩ := v'
  exact congrArg ValueStack.mk (Array.ext_getElem? fun i => h.above i (Nat.zero_le i))

theorem Cut.Trims.truncate_low {q : Cut} {v v' : ValueStack} (h : q.Trims v v') :
    v'.truncate q.low = v.truncate q.low := by
  obtain ⟨room, size, below, -⟩ := h
  unfold Cut.high at room
  simp only [ValueStack.truncate, Array.shrink_eq_take, Array.take_eq_extract, ValueStack.size] at *
  congr 1
  apply Array.ext_getElem?
  intro i
  simp only [Array.getElem?_extract]
  grind

namespace State.Trims

/-- A frame that has taken over lists open cells of its own slots. -/
theorem owner_taken {z : Spare} (h : s.Trims (some z) t) (kept : s.Kept)
    (own : z.thread = s.current) {f : Frame} (calls : z.Calls f)
    (frames : s.processor.frames.toList.reverse = f :: z.frame :: z.rest) :
    (z.taken f).Owner t.cell := fun y hy => by
  have floor : f.activation.floor = z.cut.high := calls.floor
  have cut : Spare.part (some z) s.current = z.cut := own ▸ z.part_self
  obtain ⟨script, k, opened, low⟩ :=
    kept.own _ _ _ (State.frameAt_top (back?_of_reverse frames)) y hy
  have cell := h.cells y
  rw [opened] at cell
  have above : (Spare.part (some z) s.current).high ≤ k := by
    have := f.activation.floor_le_base
    have base : f.activation.base = f.base := rfl
    rw [cut]
    omega
  generalize t.cell y = b at cell
  cases cell with
  | hidden out => exact absurd (.inr above) out
  | opened _ =>
    refine ⟨script, _, _, rfl, ?_⟩
    rw [Cut.shift_of_high above, cut]
    exact Nat.sub_le_sub_right low _

/-- A slot of the frame that can be spared is taken out. -/
theorem not_keeps_spared {z : Spare} {k : Nat} (low : z.frame.base ≤ k) (high : k < z.cut.high) :
    ¬ (Spare.part (some z) z.thread).Keeps k := by
  have := z.frame.activation.floor_le_base
  have base : z.frame.activation.base = z.frame.base := rfl
  have floor : z.cut.low = z.frame.activation.floor := rfl
  rw [Spare.part_self]
  unfold Cut.Keeps
  omega

section Called

variable {z : Spare} (h : s.Trims (some z) t) (kept : s.Kept) (here : s.HasCurrent)
  (own : z.thread = s.current) {f : Frame} (calls : z.Calls f)
  (frames : s.processor.frames.toList.reverse = f :: z.frame :: z.rest)

include h kept here own calls frames

/-- The frame on top has no slot that a cell of the frame below is open at. -/
theorem readCell_popTop_spared {y : CellId} (hy : y ∈ z.frame.cells) :
    (s.popTop f).readCell y = s.readCell y := by
  have top := back?_of_reverse frames
  have owner := kept.owner top
  have kept₁ : (s.popTop f).Kept := State.wanes_popTop top kept
  have frames₁ : (s.popTop f).processor.frames.toList.reverse = z.frame :: z.rest := by
    rw [State.frames_popTop here]
    exact reverse_pop frames
  obtain ⟨-, k, opened₁, -⟩ := kept₁.own _ _ _ (State.frameAt_top (back?_of_reverse frames₁)) y hy
  have was := State.cell_popTop owner y
  split at was
  · exact absurd (opened₁.symm.trans was) nofun
  · have opened := was.symm.trans opened₁
    rw [s.current_popTop f] at opened opened₁
    have low := (h.fits z rfl).own y hy k (own ▸ cells_eq_some opened)
    have stack : (s.popTop f).stackOf s.current = s.processor.stack.truncate z.cut.high := by
      unfold State.stackOf
      rw [State.processorOf_popTop here, if_pos rfl, calls.floor]
      rfl
    rw [State.readCell_opened opened₁, State.readCell_opened opened, State.slot, stack]
    exact congrArg (Option.getD · Value.nil) (ValueStack.get_truncate _ low)

/-- The cells of both frames are closed. -/
theorem cell_popTop_spared (y : CellId) : ((s.popTop f).popTop z.frame).cell y =
    if y ∈ z.frame.cells ∨ y ∈ f.cells then .closed (s.readCell y) else s.cell y := by
  have top := back?_of_reverse frames
  have kept₁ : (s.popTop f).Kept := State.wanes_popTop top kept
  have frames₁ : (s.popTop f).processor.frames.toList.reverse = z.frame :: z.rest := by
    rw [State.frames_popTop here]
    exact reverse_pop frames
  rw [State.cell_popTop (kept₁.owner (back?_of_reverse frames₁)),
    State.cell_popTop (kept.owner top)]
  by_cases spare : y ∈ z.frame.cells
  · rw [if_pos spare, if_pos (.inl spare),
      readCell_popTop_spared h kept here own calls frames spare]
  · simp only [spare, false_or, if_false]

omit kept in
theorem processorOf_popTop_called
    (frames' : t.processor.frames.toList.reverse = z.taken f :: z.rest) (c : ThreadId) :
    (((s.popTop f).popTop z.frame).processorOf c).Trims none
      ((t.popTop (z.taken f)).processorOf c) := by
  have here₁ : (s.popTop f).HasCurrent := (s.likewise_popTop f).hasCurrent here
  have current' := h.current
  have processor := h.processors c
  rw [State.processorOf_popTop here₁, State.processorOf_popTop here,
    State.processorOf_popTop (h.hasCurrent here), s.current_popTop f, current']
  by_cases hc : c = s.current
  · subst hc
    rw [← own, Spare.on_self] at processor
    have low : z.cut.low ≤ z.cut.high := Nat.le_add_right ..
    have stack := processor.stack.truncate_low
    simp only [↓reduceIte, own] at *
    rw [calls.floor, Spare.floor_taken calls]
    refine ⟨?_, ?_, processor.nestedCalls, processor.asyncMode, processor.autoYield,
      processor.pending⟩
    · change Cut.Trims {} (ValueStack.truncate _ z.cut.low) _
      rw [ValueStack.truncate_truncate _ low]
      exact stack ▸ .refl _
    · unfold State.processor at frames frames'
      rw [current'] at frames'
      rw [reverse_pop (reverse_pop frames), reverse_pop frames']
      exact .same
  · rwa [if_neg hc, if_neg hc, if_neg hc, Spare.on_ne (own.symm ▸ hc)] at *

omit here calls in
/-- A cell that is open, and of neither frame, keeps its slot. -/
theorem shift_of_apart {y : CellId} {o : ThreadId} {k : Nat} (opened : s.cell y = .opened o k)
    (inner : y ∉ f.cells) (apart : y ∉ z.frame.cells) : (Spare.part (some z) o).shift k = k := by
  by_cases ho : o = s.current
  · subst ho
    obtain ⟨g, hg, member⟩ := kept.exists_calls opened
    have which : g = f ∨ g = z.frame ∨ g ∈ z.rest := by
      change g ∈ s.processor.frames.toList.reverse at hg
      simpa [frames] using hg
    obtain rfl | rfl | below := which
    · exact absurd member inner
    · exact absurd member apart
    · rw [← own, Spare.part_self]
      exact if_pos ((h.fits z rfl).below g below y member k (own ▸ cells_eq_some opened))
  · rw [Spare.part_ne (own.symm ▸ ho), Cut.shift_none]

theorem cell_popTop_called (y : CellId) : Cell.Trims none ((s.popTop f).popTop z.frame).stackOf
      (((s.popTop f).popTop z.frame).cell y) ((t.popTop (z.taken f)).cell y) := by
  rw [cell_popTop_spared h kept here own calls frames,
    State.cell_popTop (h.owner_taken kept own calls frames), h.readCell]
  change Cell.Trims none _ _ (if y ∈ f.cells then _ else _)
  by_cases inner : y ∈ f.cells
  · rw [if_pos (.inr inner), if_pos inner]
    exact .closed _
  rw [if_neg inner]
  simp only [inner, or_false]
  have cell := h.cells y
  split
  · rename_i spare
    have member : z.frame ∈ s.callsOf s.current := by
      change z.frame ∈ s.processor.frames.toList.reverse
      simp [frames]
    obtain ⟨script, k, opened, low⟩ := kept.own_calls member spare
    have high := (h.fits z rfl).own y spare k (own ▸ cells_eq_some opened)
    rw [opened] at cell
    generalize t.cell y = b at cell
    cases cell with
    | opened keeps => exact absurd (own ▸ keeps) (not_keeps_spared low high)
    | hidden _ =>
      rw [State.readCell_opened opened]
      exact .closed _
  · rename_i apart
    generalize hy : s.cell y = a at cell
    generalize t.cell y = b at cell
    cases cell with
    | closed v => exact .closed v
    | hidden out =>
      obtain ⟨z', same, spare, -⟩ := h.hidden_mem kept hy out
      cases same
      exact absurd spare apart
    | @opened o k keeps =>
      have cell : Cell.Trims none ((s.popTop f).popTop z.frame).stackOf (.opened o k) _ :=
        .opened (Cut.keeps_none k)
      rw [shift_of_apart h kept own frames hy inner apart]
      rwa [show (Spare.part none o).shift k = k from Cut.shift_none k] at cell

/-- The frame that can be spared is popped as well. -/
theorem popTop_called (frames' : t.processor.frames.toList.reverse = z.taken f :: z.rest) :
    ((s.popTop f).popTop z.frame).Trims none (t.popTop (z.taken f)) :=
  h.of_likewise ((s.likewise_popTop f).trans ((s.popTop f).likewise_popTop _))
    (t.likewise_popTop _) (processorOf_popTop_called h here own calls frames frames')
    (cell_popTop_called h kept here own calls frames)
    fun y hy => absurd hy (Option.not_mem_none y)

end Called

end State.Trims

/-! ## Frames are taken over -/

namespace State

theorem stackOf_modifyFrames (s : State ν) (f : Array Frame → Array Frame) :
    (s.modifyFrames f).stackOf = s.stackOf :=
  funext fun c => view_modifyProcessorOf s _ s.current c Processor.stack fun _ => rfl

theorem closeCell_modifyFrames (s : State ν) (f : Array Frame → Array Frame) (y : CellId) :
    (s.modifyFrames f).closeCell y = (s.closeCell y).modifyFrames f := by
  unfold closeCell
  rw [stackOf_modifyFrames]
  rfl

theorem closeCells_modifyFrames (s : State ν) (f : Array Frame → Array Frame) (p : Nat → Bool)
    (ys : List CellId) : (s.modifyFrames f).closeCells p ys =
      ((s.closeCells p ys).1, (s.closeCells p ys).2.modifyFrames f) := by
  induction ys generalizing s with
  | nil => rfl
  | cons y rest ih =>
    have same : (s.modifyFrames f).cell y = s.cell y := rfl
    unfold closeCells
    rw [same]
    split
    · split
      · rw [closeCell_modifyFrames, ih]
      · rw [ih]
    · exact ih s

theorem modifyFrames_modifyStack (s : State ν) (f : ValueStack → ValueStack)
    (g : Array Frame → Array Frame) :
    (s.modifyStack f).modifyFrames g = (s.modifyFrames g).modifyStack f :=
  s.modifyProcessorOf_comm s.current s.current (fun p => { p with stack := f p.stack })
    (fun p => { p with frames := g p.frames }) fun _ _ => rfl

def replaceTop (s : State ν) (f g : Frame) (operands : List Value) : State ν :=
  ((s.popTop f).modifyStack (·.pushAll operands)).modifyFrames (·.push g)

theorem likewise_replaceTop (s : State ν) (f g : Frame) (operands : List Value) :
    s.Likewise (s.replaceTop f g operands) :=
  ((s.likewise_popTop f).trans (likewise_modifyProcessor ..)).trans (likewise_modifyProcessor ..)

theorem processorOf_replaceTop (here : s.HasCurrent) (f g : Frame) (operands : List Value)
    (c : ThreadId) : (s.replaceTop f g operands).processorOf c =
      if c = s.current then { s.processorOf c with
        stack := ((s.processorOf c).stack.truncate f.activation.floor).pushAll operands
        frames := (s.processorOf c).frames.pop.push g } else s.processorOf c := by
  have popped := processorOf_popTop here f c
  have here₁ := (s.likewise_popTop f).hasCurrent here
  have current := s.current_popTop f
  have once : s.replaceTop f g operands = (s.popTop f).modifyProcessor fun p =>
      { p with stack := p.stack.pushAll operands, frames := p.frames.push g } :=
    (s.popTop f).modifyProcessorOf_twice (s.popTop f).current _ _
  rw [once]
  split
  · rename_i own
    subst own
    rw [if_pos rfl] at popped
    have changed := processor_modifyProcessor here₁ fun p =>
      { p with stack := p.stack.pushAll operands, frames := p.frames.push g }
    rw [current, popped] at changed
    exact changed
  · rename_i other
    rw [if_neg other] at popped
    rw [← popped]
    rw [← current] at other
    exact processorOf_modifyProcessorOf_ne _ _ other

theorem replaceTop_eq (s : State ν) (f g : Frame) (operands : List Value) :
    s.replaceTop f g operands =
      ((((s.modifyFrames fun fs => fs.pop.push g).closeCells (fun slot => f.base ≤ slot) f.cells).2
        ).modifyStack (·.truncate f.activation.floor)).modifyStack (·.pushAll operands) := by
  have twice : (s.modifyFrames Array.pop).modifyFrames (·.push g) =
      s.modifyFrames fun fs => fs.pop.push g := s.modifyProcessorOf_twice s.current _ _
  have closed := congrArg Prod.snd ((s.modifyFrames Array.pop).closeCells_modifyFrames (·.push g)
    (fun slot => f.base ≤ slot) f.cells)
  rw [twice] at closed
  rw [replaceTop, popTop, modifyFrames_modifyStack, modifyFrames_modifyStack, closed]
  rfl

end State

theorem reverse_push {fs : Array Frame} {g : Frame} :
    (fs.push g).toList.reverse = g :: fs.toList.reverse := by simp

namespace State.Trims

/-- The stack that runs is cut above the slots that are taken out. -/
theorem truncate (h : s.Trims x t) {m : Nat} (high : (Spare.part x s.current).high ≤ m) :
    (s.modifyStack (·.truncate m)).Trims x
      (t.modifyStack (·.truncate (m - (Spare.part x s.current).gap))) := by
  refine h.modifyStack (h.stack.truncate high) fun i hidden => ?_
  refine ValueStack.get_of_getElem? (ValueStack.get_truncate _ ?_)
  unfold Cut.Keeps at hidden
  omega

theorem pushAll (h : s.Trims x t) (vs : List Value) :
    (s.modifyStack (·.pushAll vs)).Trims x (t.modifyStack (·.pushAll vs)) := by
  refine h.modifyStack (h.stack.pushAll vs) fun i hidden => ?_
  refine ValueStack.get_of_getElem? (ValueStack.get_pushAll _ vs ?_)
  have := h.stack.room
  unfold Cut.Keeps at hidden
  omega

/-- A frame that was called from one that can be spared is taken over. -/
theorem retake {z : Spare} (h : s.Trims (some z) t) (kept : s.Kept) (own : z.thread = s.current)
    {f g : Frame} (calls : z.Calls f) (next : z.Calls g)
    (frames : s.processor.frames.toList.reverse = f :: z.frame :: z.rest)
    (frames' : t.processor.frames.toList.reverse = z.taken f :: z.rest) (operands : List Value) :
    (s.replaceTop f g operands).Trims (some z) (t.replaceTop (z.taken f) (z.taken g) operands) := by
  have cut : Spare.part (some z) s.current = z.cut := own ▸ z.part_self
  have floor : f.activation.floor = (Spare.part (some z) s.current).high := cut ▸ calls.floor
  have floor' : (z.taken f).activation.floor = f.activation.floor - (Spare.part (some z) s.current).gap := by
    rw [Spare.floor_taken calls, floor, cut]
    exact (Nat.add_sub_cancel ..).symm
  have replaced : (s.modifyFrames fun fs => fs.pop.push g).Trims (some z)
      (t.modifyFrames fun fs => fs.pop.push (z.taken g)) := by
    refine h.modifyFrames ?_
    rw [reverse_push, reverse_push, reverse_pop frames, reverse_pop frames', ← own, Spare.on_self]
    exact .called next
  have closed := (Exec.closeCells_trims (c := s.current) (l := f.cells)
    (p := fun slot => f.base ≤ slot) (q := fun slot => (z.taken f).base ≤ slot) replaced
    (fun y hy => by
      obtain ⟨-, k, opened, low⟩ :=
        kept.own _ _ f (State.frameAt_top (back?_of_reverse frames)) y hy
      have := f.activation.floor_le_base
      have base : f.activation.base = f.base := rfl
      exact ⟨k, opened, by omega⟩)
    fun k above => by
      have := f.activation.floor_le_base
      have base : f.activation.base = f.base := rfl
      have taken : (z.taken f).base = f.base - (Spare.part (some z) s.current).gap := by
        rw [cut]
        rfl
      rw [taken]
      unfold Cut.high at floor above
      exact decide_eq_decide.2 (by omega)).2
  have current := (rigid_closeCells (s.modifyFrames fun fs => fs.pop.push g)
    (fun slot => f.base ≤ slot) f.cells).current
  have truncated := closed.truncate (m := f.activation.floor) (by rw [current, floor]; rfl)
  rw [current] at truncated
  rw [State.replaceTop_eq, State.replaceTop_eq, floor']
  exact truncated.pushAll operands

/-- Without a frame that can be spared, cells are the same. -/
theorem cell_eq (h : s.Trims none t) (y : CellId) : t.cell y = s.cell y := by
  have cell := h.cells y
  generalize s.cell y = a at cell
  generalize t.cell y = b at cell
  cases cell with
  | closed _ => rfl
  | @opened o k _ => exact congrArg (Cell.opened o) (Cut.shift_none k)
  | hidden out => exact absurd (Cut.keeps_none _) out

/-- So are the frames of the thread that runs. -/
theorem frames_eq (h : s.Trims none t) :
    t.processor.frames.toList.reverse = s.processor.frames.toList.reverse := by
  have same : FramesTrim none _ _ := h.frames
  generalize s.processor.frames.toList.reverse = fs at same
  generalize t.processor.frames.toList.reverse = fs' at same
  cases same with
  | same => rfl

section Taken

variable {z : Spare} (h : s.Trims none t) (kept : s.Kept) (here : s.HasCurrent)
  (own : z.thread = s.current) (frames : s.processor.frames.toList.reverse = z.frame :: z.rest)

include own frames kept in
/-- The cells of the frame are open at slots that are taken out. -/
theorem owned_of_fits (fits : z.Fits s.closures s.cells) {y : CellId} (hy : y ∈ z.frame.cells) :
    z.frame.isNative = false ∧
      ∃ k, s.cell y = .opened s.current k ∧ z.frame.base ≤ k ∧ k < z.cut.high := by
  have member : z.frame ∈ s.callsOf s.current := by
    change z.frame ∈ s.processor.frames.toList.reverse
    simp [frames]
  obtain ⟨script, k, opened, base⟩ := kept.own_calls member hy
  exact ⟨script, k, opened, base, fits.own y hy k (own ▸ cells_eq_some opened)⟩

include own frames kept in
/-- A cell that is open, and not one of the frame, keeps its slot. -/
theorem keeps_of_fits (fits : z.Fits s.closures s.cells) {y : CellId} {o : ThreadId} {k : Nat}
    (opened : s.cell y = .opened o k) (apart : y ∉ z.frame.cells) :
    (Spare.part (some z) o).Keeps k ∧ (Spare.part (some z) o).shift k = k := by
  by_cases ho : o = s.current
  · subst ho
    obtain ⟨f, hf, member⟩ := kept.exists_calls opened
    change f ∈ s.processor.frames.toList.reverse at hf
    rw [frames] at hf
    obtain rfl | below := List.mem_cons.1 hf
    · exact absurd member apart
    · have low := fits.below f below y member k (own ▸ cells_eq_some opened)
      rw [← own, Spare.part_self]
      exact ⟨.inl low, if_pos low⟩
  · rw [Spare.part_ne (own.symm ▸ ho)]
    exact ⟨Cut.keeps_none k, Cut.shift_none k⟩

include h here own frames in
theorem processorOf_takeOver {g : Frame} (calls : z.Calls g) {operands : List Value}
    (above : s.processor.stack.above? z.cut.high = some operands) (c : ThreadId) :
    ((s.modifyFrames (·.push g)).processorOf c).Trims (Spare.on (some z) c)
      (((t.modifyStack (·.truncate z.cut.high)).replaceTop z.frame (z.taken g)
        operands).processorOf c) := by
  let t₀ := t.modifyStack (·.truncate z.cut.high)
  have here' := h.hasCurrent here
  have here₀ : t₀.HasCurrent := (t.likewise_modifyProcessor _).hasCurrent here'
  have current₀ : t₀.current = s.current := h.current
  have processor := h.processors c
  rw [State.processorOf_replaceTop here₀, current₀]
  by_cases hc : c = s.current
  · subst hc
    have low : z.cut.low ≤ z.cut.high := Nat.le_add_right ..
    have pushed : (s.modifyFrames (·.push g)).processorOf s.current =
        { s.processor with frames := s.processor.frames.push g } :=
      State.processor_modifyProcessor here _
    have cut : t₀.processorOf s.current =
        { t.processor with stack := t.processor.stack.truncate z.cut.high } :=
      h.current ▸ State.processor_modifyProcessor here' _
    have processor : s.processor.Trims none t.processor := by
      unfold State.processor
      rwa [h.current]
    rw [if_pos rfl, pushed, cut, ← own, Spare.on_self]
    refine ⟨?_, ?_, processor.nestedCalls, processor.asyncMode, processor.autoYield,
      processor.pending⟩
    · change z.cut.Trims s.processor.stack
        (ValueStack.pushAll (ValueStack.truncate (ValueStack.truncate _ _) z.cut.low) operands)
      rw [ValueStack.truncate_truncate _ low, processor.stack.eq]
      exact .take above
    · rw [reverse_push, reverse_push, reverse_pop (h.frames_eq.trans frames), frames]
      exact .called calls
  · rw [if_neg hc, Spare.on_ne (own.symm ▸ hc)]
    unfold State.modifyFrames State.modifyProcessor t₀ State.modifyStack State.modifyProcessor
    rw [State.processorOf_modifyProcessorOf_ne _ _ hc,
      State.processorOf_modifyProcessorOf_ne _ _ (h.current.symm ▸ hc)]
    exact processor

include h kept here own frames in
/-- The cells of the frame are closed. -/
theorem cell_takenOver (fits : z.Fits s.closures s.cells) (g : Frame) (operands : List Value)
    (y : CellId) : ((t.modifyStack (·.truncate z.cut.high)).replaceTop z.frame (z.taken g)
      operands).cell y = if y ∈ z.frame.cells then .closed (s.readCell y) else s.cell y := by
  let t₀ := t.modifyStack (·.truncate z.cut.high)
  have here' := h.hasCurrent here
  have stack : t₀.stackOf s.current = s.processor.stack.truncate z.cut.high := by
    unfold State.stackOf
    rw [← h.current]
    exact (congrArg Processor.stack (State.processor_modifyProcessor here' _)).trans
      (congrArg (ValueStack.truncate · z.cut.high) h.stack.eq)
  have owner : z.frame.Owner t₀.cell := fun y hy => by
    obtain ⟨script, k, opened, base, -⟩ := owned_of_fits kept own frames fits hy
    exact ⟨script, s.current, k, (h.cell_eq y).trans opened, base⟩
  refine (State.cell_popTop owner y).trans ?_
  split
  · rename_i hy
    obtain ⟨-, k, opened, -, high⟩ := owned_of_fits kept own frames fits hy
    have opened₀ : t₀.cell y = .opened s.current k := (h.cell_eq y).trans opened
    rw [State.readCell_opened opened, State.readCell_opened opened₀, State.slot, stack]
    exact congrArg (fun v => Cell.closed (v.getD .nil)) (ValueStack.get_truncate _ high)
  · exact h.cell_eq y

include h kept here own frames in
/-- **A frame is taken over** that can be spared from now on. -/
theorem takeOver {g : Frame} (calls : z.Calls g) {operands : List Value}
    (above : s.processor.stack.above? z.cut.high = some operands)
    (fits : z.Fits s.closures s.cells) :
    (s.modifyFrames (·.push g)).Trims (some z)
      ((t.modifyStack (·.truncate z.cut.high)).replaceTop z.frame (z.taken g) operands) := by
  refine h.of_likewise (s.likewise_modifyProcessor _) ((t.likewise_modifyProcessor _).trans
    (State.likewise_replaceTop ..)) (processorOf_takeOver h here own frames calls above)
    (fun y => ?_) fun y hy => Option.some.inj hy ▸ fits
  rw [cell_takenOver h kept here own frames fits, State.stackOf_modifyFrames]
  change Cell.Trims _ _ (s.cell y) _
  split
  · rename_i hy
    obtain ⟨-, k, opened, base, high⟩ := owned_of_fits kept own frames fits hy
    rw [State.readCell_opened opened, opened]
    exact .hidden (own ▸ not_keeps_spared base high)
  · rename_i apart
    cases hy : s.cell y with
    | closed v => exact .closed v
    | opened o k =>
      obtain ⟨keeps, same⟩ := keeps_of_fits kept own frames fits hy apart
      have cell : Cell.Trims _ s.stackOf _ _ := .opened keeps
      rwa [same] at cell

end Taken

end State.Trims

end ScriptMachine
