import ScriptMachine.Proofs.Machine.Pinned

/-!
# Work on captured slots

What operations on stacks, frames and cells do to captured variables.

* `Shallow`: nothing changes but the stack that runs, the world and counts. `Shallow.carries`: this
  is faithful as long as captured slots are left alone.
* `Level`: no stack and no frame changes.
* `faithful_closeCells`, `popFrame_carries`: cells are closed with the values of their slots.
-/

namespace ScriptMachine

variable {ν : Type} {L : Locals} {s s' t : State ν} {c : ThreadId} {n b : Nat} {f : Frame}
  {rest : List Frame}

abbrev unwritten : ThreadId → Nat → Prop := fun _ _ => False

/-- No closure is made. -/
theorem exists_made (same : s'.closures = s.closures) :
    ∃ made, s'.closures = s.closures ++ made := ⟨#[], same.trans Array.append_empty.symm⟩

theorem faithful_of_slots (cells : s'.cells = s.cells)
    (closures : ∃ made, s'.closures = s.closures ++ made)
    (slots : ∀ x o k, s.cell x = .opened o k → s'.slot o k = s.slot o k) :
    Faithful [] s s' := by
  have cell : ∀ x, s'.cell x = s.cell x := fun x => by simp only [State.cell, cells]
  refine ⟨Nat.le_of_eq (congrArg Array.size cells.symm), fun x _ o k h => (cell x).symm.trans h,
    fun x _ => ?_, closures⟩
  change s'.readCell x = s.readCell x
  cases hx : s.cell x with
  | opened o k =>
    rw [State.readCell_opened hx, State.readCell_opened ((cell x).trans hx), slots x o k hx]
  | closed v => rw [State.readCell_closed hx, State.readCell_closed ((cell x).trans hx)]

/-- Nothing changes but the stack that runs, the world and counts. -/
structure Shallow (s s' : State ν) : Prop where
  cells : s'.cells = s.cells
  closures : s'.closures = s.closures
  frames : ∀ c, (s'.processorOf c).frames = (s.processorOf c).frames

namespace Shallow

theorem refl (s : State ν) : Shallow s s := ⟨rfl, rfl, fun _ => rfl⟩

theorem trans (h : Shallow s s') (h' : Shallow s' t) : Shallow s t :=
  ⟨h'.cells.trans h.cells, h'.closures.trans h.closures,
   fun c => (h'.frames c).trans (h.frames c)⟩

theorem calls (h : Shallow s s') (c : ThreadId) : s'.callsOf c = s.callsOf c := by
  simp only [State.callsOf, h.frames]

theorem cell (h : Shallow s s') (x : CellId) : s'.cell x = s.cell x := by
  simp only [State.cell, h.cells]

theorem of_world (world : World ν) : Shallow s { s with world } := ⟨rfl, rfl, fun _ => rfl⟩

theorem of_stack (f : ValueStack → ValueStack) : Shallow s (s.modifyStack f) :=
  ⟨rfl, rfl, fun c => State.view_modifyProcessorOf s _ _ c Processor.frames fun _ => rfl⟩

theorem tidy (h : Shallow s s') (tidy : s.Tidy L)
    (pinned : ∀ c, Pinned L s.cell c (s.callsOf c) (s'.heightOf c)) : s'.Tidy L where
  pinned c := by
    rw [funext h.cell, h.calls]
    exact pinned c
  listed x o k hx := by
    rw [h.cell] at hx
    rw [h.calls]
    exact tidy.listed x o k hx
  apart x y o k hx hy := by
    rw [h.cell] at hx hy
    exact tidy.apart x y o k hx hy
  known c f hf x hx := by
    rw [h.calls] at hf
    rw [h.cells]
    exact tidy.known c f hf x hx
  closures g hg x hx := by
    rw [h.closures] at hg
    rw [h.cells]
    exact tidy.closures g hg x hx
  covers c d k hk := by
    rw [h.calls]
    exact tidy.covers c d k hk

/-- Captured slots are left alone. -/
theorem carries (h : Shallow s s') (hl : Local True b unwritten s s') (tidy : s.Tidy L)
    (pinned : Pinned L s.cell s.current (s.callsOf s.current) b)
    (high : b ≤ s'.heightOf s.current) :
    Carries L [] (s.callsOf s.current).length s s' where
  current := hl.current
  size := Nat.le_of_eq hl.size.symm
  faithful := by
    refine faithful_of_slots h.cells (exists_made h.closures) fun x o k hx => ?_
    refine hl.slots trivial o k not_false fun own => ?_
    obtain ⟨f, hf, hx'⟩ := tidy.listed x o k hx
    rw [own] at hf hx
    exact (pinned.lt hf hx' hx).2.2.2
  tidy := h.tidy tidy fun c => by
    by_cases own : c = s.current
    · exact own ▸ pinned.mono high
    · rw [hl.heights c own]
      exact tidy.pinned c
  frames _ _ := by rw [h.calls]
  deep := Nat.le_of_eq (congrArg List.length (h.calls _)).symm
  others c _ := h.calls c
  followed c d k hk := by
    refine ⟨hl.slots trivial c k not_false fun own => ?_, fun x hx => (h.cell x).trans hx⟩
    subst own
    obtain ⟨pos, deep⟩ := tidy.covers s.current d k hk
    exact pinned.lt_of_followed hk pos deep

end Shallow

/-- No stack and no frame changes. -/
structure Level (s s' : State ν) : Prop where
  cells : s'.cells = s.cells
  closures : s'.closures = s.closures
  size : s.processors.size ≤ s'.processors.size
  sameStack : ∀ c, s'.stackOf c = s.stackOf c
  frames : ∀ c, (s'.processorOf c).frames = (s.processorOf c).frames

namespace Level

theorem refl (s : State ν) : Level s s := ⟨rfl, rfl, Nat.le_refl _, fun _ => rfl, fun _ => rfl⟩

theorem trans (h : Level s s') (h' : Level s' t) : Level s t :=
  ⟨h'.cells.trans h.cells, h'.closures.trans h.closures, Nat.le_trans h.size h'.size,
   fun c => (h'.sameStack c).trans (h.sameStack c), fun c => (h'.frames c).trans (h.frames c)⟩

theorem shallow (h : Level s s') : Shallow s s' := ⟨h.cells, h.closures, h.frames⟩

theorem of_processors (cells : s'.cells = s.cells) (closures : s'.closures = s.closures)
    (processors : s'.processors = s.processors) : Level s s' :=
  ⟨cells, closures, Nat.le_of_eq (congrArg Array.size processors.symm),
   fun c => by simp only [State.stackOf, State.processorOf, processors],
   fun c => by simp only [State.processorOf, processors]⟩

theorem of_world (world : World ν) : Level s { s with world } := .of_processors rfl rfl rfl

theorem of_newCoroutine (function : Value) : Level s (s.newCoroutine function).2 := by
  have same : ∀ c, (s.newCoroutine function).2.processorOf c = s.processorOf c := by
    intro c
    simp only [State.newCoroutine, State.processorOf, Array.getElem?_push]
    split
    · rename_i new
      rw [new, Array.getElem?_eq_none (Nat.le_refl _)]
      rfl
    · rfl
  refine ⟨rfl, rfl, by simp [State.newCoroutine], fun c => ?_, fun c => congrArg _ (same c)⟩
  exact congrArg Processor.stack (same c)

theorem heights (h : Level s s') (c : ThreadId) : s'.heightOf c = s.heightOf c := by
  simp only [State.heightOf, h.sameStack]

theorem faithful (h : Level s s') : Faithful [] s s' :=
  faithful_of_slots h.cells (exists_made h.closures) fun _ o k _ => by
    simp only [State.slot, h.sameStack]

theorem remains (h : Level s s') (c : ThreadId) (k : Nat) : Remains [] c k s s' :=
  ⟨congrArg (·.values[k]?) (h.sameStack c), fun x hx => (h.shallow.cell x).trans hx⟩

theorem tidy (h : Level s s') (tidy : s.Tidy L) : s'.Tidy L :=
  h.shallow.tidy tidy fun c => by rw [h.heights]; exact tidy.pinned c

theorem carries (h : Level s s') (current : s'.current = s.current) (tidy : s.Tidy L) :
    Carries L [] (s.callsOf s.current).length s s' where
  current := current
  size := h.size
  faithful := h.faithful
  tidy := h.tidy tidy
  frames _ _ := by rw [h.shallow.calls]
  deep := Nat.le_of_eq (congrArg List.length (h.shallow.calls _)).symm
  others c _ := h.shallow.calls c
  followed c d k hk := h.remains c k

/-- Those who wait on any thread see no change. -/
theorem clears {a : Awaited} {k : Kont ν a} (h : Level s s') (clears : k.Clears L s c n) :
    k.Clears L s' c n :=
  clears.congr (fun _ _ => by rw [h.shallow.calls]) (fun c _ => h.shallow.calls c)
    fun c f _ x _ o k hx => by rwa [h.shallow.cell] at hx

end Level

section Stack

variable (tidy : s.Tidy L) (here : s.HasCurrent)

include tidy here

theorem carries_truncate {size : Nat}
    (pinned : Pinned L s.cell s.current (s.callsOf s.current) size) :
    Carries L [] (s.callsOf s.current).length s (s.modifyStack (·.truncate size)) := by
  obtain ⟨steady, height⟩ := Exec.truncate_local (σ := True) (w := unwritten) size
    (min size (s.heightOf s.current)) here fun _ => Nat.min_le_left ..
  exact (Shallow.of_stack _).carries steady.toLocal tidy
    (pinned.inter (tidy.pinned s.current)) (Nat.le_of_eq height.symm)

theorem carries_pushAll (vs : List Value) :
    Carries L [] (s.callsOf s.current).length s (s.modifyStack (·.pushAll vs)) ∧
      (s.modifyStack (·.pushAll vs)).heightOf s.current = s.heightOf s.current + vs.length := by
  obtain ⟨steady, height⟩ := Exec.pushAll_local (σ := True) (w := unwritten) vs
    (s.heightOf s.current) here fun _ => Nat.le_refl _
  refine ⟨?_, height⟩
  exact (Shallow.of_stack _).carries steady.toLocal tidy (tidy.pinned s.current)
    (by rw [height]; exact Nat.le_add_right ..)

/-- A frame is pushed whose floor is above captured slots. -/
theorem carries_pushFrame (empty : f.cells = [])
    (pinned : Pinned L s.cell s.current (s.callsOf s.current) f.activation.floor) :
    Carries L [] (s.callsOf s.current).length s (s.modifyFrames (·.push f)) ∧
      (s.modifyFrames (·.push f)).callsOf s.current = f :: s.callsOf s.current := by
  have own : (s.modifyFrames (·.push f)).callsOf s.current = f :: s.callsOf s.current := by
    simp [State.callsOf, State.modifyFrames, State.processor_modifyProcessor here]
  have others : ∀ c, c ≠ s.current → (s.modifyFrames (·.push f)).callsOf c = s.callsOf c :=
    fun c hc => by
      simp only [State.callsOf, State.modifyFrames, State.modifyProcessor,
        State.processorOf_modifyProcessorOf_ne s _ hc]
  have sameStack : ∀ c, (s.modifyFrames (·.push f)).stackOf c = s.stackOf c := fun c =>
    State.view_modifyProcessorOf s _ _ c Processor.stack fun _ => rfl
  have heights : ∀ c, (s.modifyFrames (·.push f)).heightOf c = s.heightOf c := fun c => by
    simp only [State.heightOf, sameStack]
  have member : ∀ c g, g ∈ (s.modifyFrames (·.push f)).callsOf c → g = f ∨ g ∈ s.callsOf c := by
    intro c g hg
    by_cases hc : c = s.current
    · subst hc
      rw [own] at hg
      exact List.mem_cons.1 hg
    · rw [others c hc] at hg
      exact .inr hg
  -- the slots that are followed belong to frames that were there before
  have fresh : ∀ k, ¬ L s.current ((s.callsOf s.current).length + 1) k := fun k hk =>
    absurd (tidy.covers _ _ _ hk).2 (Nat.not_succ_le_self _)
  refine ⟨⟨rfl, by simp [State.modifyFrames, State.modifyProcessor, State.modifyProcessorOf],
    faithful_of_slots rfl (exists_made rfl) fun _ o k _ => by simp only [State.slot, sameStack],
    ?_, fun m hm => ?_,
    ?_, others, fun c _ k _ => ⟨congrArg (·.values[k]?) (sameStack c), fun _ hx => hx⟩⟩, own⟩
  · refine ⟨fun c => ?_, fun x o k hx => ?_, tidy.apart, fun c g hg x hx => ?_, tidy.closures,
      fun c d k hk => ?_⟩
    · rw [heights]
      by_cases hc : c = s.current
      · subst hc
        rw [own]
        exact Pinned.push ((tidy.pinned _).inter pinned) empty fresh
      · rw [others c hc]
        exact tidy.pinned c
    · obtain ⟨g, hg, hx'⟩ := tidy.listed x o k hx
      by_cases hc : o = s.current
      · subst hc
        exact ⟨g, by rw [own]; exact List.mem_cons_of_mem _ hg, hx'⟩
      · exact ⟨g, by rw [others o hc]; exact hg, hx'⟩
    · obtain rfl | hg := member c g hg
      · rw [empty] at hx
        cases hx
      · exact tidy.known c g hg x hx
    · obtain ⟨pos, deep⟩ := tidy.covers c d k hk
      refine ⟨pos, ?_⟩
      by_cases hc : c = s.current
      · subst hc
        rw [own]
        exact Nat.le_succ_of_le deep
      · rwa [others c hc]
  · rw [own, bottom_cons hm]
  · rw [own]
    exact Nat.le_succ _

end Stack

theorem State.cell_closeCell (s : State ν) (x y : CellId) :
    (s.closeCell x).cell y = if x = y then .closed (s.readCell x) else s.cell y := by
  obtain ⟨i⟩ := x
  obtain ⟨j⟩ := y
  simp only [cell, closeCell, Array.getElem?_setIfInBounds, CellId.mk.injEq]
  split
  · split
    · rfl
    · rename_i out
      simp [readCell, cell, out, Cell.read]
  · rfl

theorem State.readCell_closeCell (s : State ν) (x y : CellId) :
    (s.closeCell x).readCell y = s.readCell y := by
  simp only [readCell, cell_closeCell]
  split
  · rename_i same
    rw [← same]
    rfl
  · rfl

/-- A cell is closed with its value if it is one of those to be closed, and else stays. -/
theorem State.cell_closeCells (s : State ν) (p : Nat → Bool) (cells : List CellId) (x : CellId) :
    (s.closeCells p cells).2.cell x = s.cell x ∧
        (x ∈ cells → ∀ o k, s.cell x = .opened o k → p k = false) ∨
      x ∈ cells ∧ (∃ o k, s.cell x = .opened o k ∧ p k = true) ∧
        (s.closeCells p cells).2.cell x = .closed (s.readCell x) := by
  induction cells generalizing s with
  | nil => exact .inl ⟨rfl, nofun⟩
  | cons y rest ih =>
    unfold closeCells
    cases hy : s.cell y with
    | closed v =>
      dsimp only [Cell.slot?]
      obtain ⟨same, stays⟩ | ⟨member, opened, closed⟩ := ih s
      · refine .inl ⟨same, fun member o k hx => ?_⟩
        obtain rfl | member := List.mem_cons.1 member
        · rw [hx] at hy
          cases hy
        · exact stays member o k hx
      · exact .inr ⟨List.mem_cons_of_mem _ member, opened, closed⟩
    | opened o' k' =>
      dsimp only [Cell.slot?]
      by_cases hp : p k' = true
      · rw [if_pos hp]
        have after := s.cell_closeCell y x
        by_cases hxy : y = x
        · subst hxy
          rw [if_pos rfl] at after
          refine .inr ⟨List.mem_cons_self .., ⟨o', k', hy, hp⟩, ?_⟩
          obtain ⟨same, -⟩ | ⟨-, ⟨o, k, opened, -⟩, -⟩ := ih (s.closeCell y)
          · exact same.trans after
          · rw [after] at opened
            cases opened
        · rw [if_neg hxy] at after
          obtain ⟨same, stays⟩ | ⟨member, opened, closed⟩ := ih (s.closeCell y)
          · refine .inl ⟨same.trans after, fun member o k hx => ?_⟩
            obtain rfl | member := List.mem_cons.1 member
            · exact absurd rfl hxy
            · exact stays member o k (after.trans hx)
          · rw [after] at opened
            rw [s.readCell_closeCell] at closed
            exact .inr ⟨List.mem_cons_of_mem _ member, opened, closed⟩
      · rw [if_neg hp]
        obtain ⟨same, stays⟩ | ⟨member, opened, closed⟩ := ih s
        · refine .inl ⟨same, fun member o k hx => ?_⟩
          obtain rfl | member := List.mem_cons.1 member
          · rw [hx] at hy
            cases hy
            exact Bool.eq_false_iff.2 hp
          · exact stays member o k hx
        · exact .inr ⟨List.mem_cons_of_mem _ member, opened, closed⟩

/-- The cells that are answered are open, and were not to be closed. -/
theorem State.mem_closeCells (s : State ν) (p : Nat → Bool) (cells : List CellId) (x : CellId) :
    (x ∈ (s.closeCells p cells).1 → x ∈ cells) ∧
      (x ∈ cells → ∀ o k, s.cell x = .opened o k → p k = false →
        x ∈ (s.closeCells p cells).1) := by
  induction cells generalizing s with
  | nil => exact ⟨nofun, nofun⟩
  | cons y rest ih =>
    unfold closeCells
    cases hy : s.cell y with
    | closed v =>
      dsimp only [Cell.slot?]
      refine ⟨fun h => List.mem_cons_of_mem _ ((ih s).1 h), fun member o k hx hp => ?_⟩
      obtain rfl | member := List.mem_cons.1 member
      · rw [hx] at hy
        cases hy
      · exact (ih s).2 member o k hx hp
    | opened o' k' =>
      dsimp only [Cell.slot?]
      by_cases hp' : p k' = true
      · rw [if_pos hp']
        refine ⟨fun h => List.mem_cons_of_mem _ ((ih _).1 h), fun member o k hx hp => ?_⟩
        by_cases hxy : y = x
        · subst hxy
          rw [hx] at hy
          cases hy
          rw [hp] at hp'
          cases hp'
        · obtain rfl | member := List.mem_cons.1 member
          · exact absurd rfl hxy
          · refine (ih (s.closeCell y)).2 member o k ?_ hp
            rw [s.cell_closeCell, if_neg hxy]
            exact hx
      · rw [if_neg hp']
        refine ⟨fun h => ?_, fun member o k hx hp => ?_⟩
        · obtain rfl | h := List.mem_cons.1 h
          · exact List.mem_cons_self ..
          · exact List.mem_cons_of_mem _ ((ih s).1 h)
        · obtain rfl | member := List.mem_cons.1 member
          · exact List.mem_cons_self ..
          · exact List.mem_cons_of_mem _ ((ih s).2 member o k hx hp)

theorem State.size_closeCells (s : State ν) (p : Nat → Bool) (cells : List CellId) :
    (s.closeCells p cells).2.cells.size = s.cells.size :=
  view_closeCells (fun s => s.cells.size) (fun s x => by simp [State.closeCell]) s p cells

theorem faithful_closeCells (s : State ν) (p : Nat → Bool) (cells : List CellId) :
    Faithful [] s (s.closeCells p cells).2 := by
  have sameStack : (s.closeCells p cells).2.stackOf = s.stackOf := by
    funext c
    simp only [State.stackOf, State.processorOf, processors_closeCells]
  refine ⟨Nat.le_of_eq (s.size_closeCells p cells).symm, fun x _ o k h => ?_, fun x _ => ?_,
    exists_made (view_closeCells State.closures (fun _ _ => rfl) s p cells)⟩
  · obtain ⟨same, -⟩ | ⟨-, -, closed⟩ := s.cell_closeCells p cells x
    · exact same.symm.trans h
    · rw [closed] at h
      cases h
  · change State.readCell _ x = s.readCell x
    obtain ⟨same, -⟩ | ⟨-, -, closed⟩ := s.cell_closeCells p cells x
    · simp only [State.readCell, same, sameStack]
    · exact State.readCell_closed closed

theorem State.frames_of_calls (calls : s.callsOf s.current = f :: rest) :
    ∃ fs : Array Frame, s.processor.frames = fs.push f ∧ fs.toList.reverse = rest := by
  unfold State.callsOf at calls
  rw [List.reverse_eq_cons_iff] at calls
  refine ⟨rest.reverse.toArray, Array.toList_inj.1 ?_, by simp⟩
  simpa [State.processor] using calls

theorem State.back?_of_calls (calls : s.callsOf s.current = f :: rest) :
    s.processor.frames.back? = some f := by
  obtain ⟨fs, hfs, -⟩ := State.frames_of_calls calls
  simp [hfs]

/-- The running frame is replaced. -/
theorem callsOf_setTopFrame (here : s.HasCurrent) (calls : s.callsOf s.current = f :: rest)
    (g : Frame) : (s.modifyFrames fun frames => frames.setIfInBounds (frames.size - 1) g).callsOf
      s.current = g :: rest := by
  obtain ⟨fs, hfs, hrest⟩ := State.frames_of_calls calls
  simp only [State.processor] at hfs
  simp only [State.callsOf, State.modifyFrames, State.processor_modifyProcessor here, hfs]
  simp [← hrest]

theorem callsOf_modifyFrames_ne {c : ThreadId} (update : Array Frame → Array Frame)
    (hc : c ≠ s.current) : (s.modifyFrames update).callsOf c = s.callsOf c := by
  simp only [State.callsOf, State.modifyFrames, State.modifyProcessor,
    State.processorOf_modifyProcessorOf_ne s _ hc]

theorem stackOf_modifyFrames (update : Array Frame → Array Frame) (c : ThreadId) :
    (s.modifyFrames update).stackOf c = s.stackOf c :=
  State.view_modifyProcessorOf s _ _ c Processor.stack fun _ => rfl

theorem State.closeCells_of_closed (p : Nat → Bool) {cells : List CellId}
    (closed : ∀ x ∈ cells, ∀ o k, s.cell x ≠ .opened o k) : (s.closeCells p cells).2 = s := by
  induction cells with
  | nil => rfl
  | cons x rest ih =>
    unfold closeCells
    cases hx : s.cell x with
    | opened o k => exact absurd hx (closed x (List.mem_cons_self ..) o k)
    | closed v => exact ih fun y hy => closed y (List.mem_cons_of_mem _ hy)

/-- The frame on top is dropped with its slots, and its cells are closed. -/
def State.dropped (s : State ν) (f : Frame) : State ν :=
  ((s.modifyFrames Array.pop).closeCells (fun slot => f.base ≤ slot) f.cells).2.modifyStack
    (·.truncate f.activation.floor)

namespace Exec

/-- The frame on top is popped: its cells are closed, and its slots dropped. -/
theorem popFrame_run (top : s.processor.frames.back? = some f)
    (native : f.isNative = true → ∀ x ∈ f.cells, ∀ o k, s.cell x ≠ .opened o k) :
    ∃ g, popFrame s = .ok g (s.dropped f) := by
  unfold State.dropped
  by_cases hf : f.isNative = true
  · refine ⟨f, ?_⟩
    have floor : f.activation.floor = f.base := if_pos hf
    have closed : ∀ x ∈ f.cells, ∀ o k, (s.modifyFrames Array.pop).cell x ≠ .opened o k :=
      native hf
    rw [State.closeCells_of_closed _ closed, floor]
    simp only [popFrame, topFrame?, bind, EStateM.bind, get, getThe, MonadStateOf.get,
      EStateM.get, pure, EStateM.pure, top, hf]
    rfl
  · refine ⟨{ f with cells := ((s.modifyFrames Array.pop).closeCells
      (fun slot => f.base ≤ slot) f.cells).1 }, ?_⟩
    have floor : f.activation.floor = f.base - 1 := if_neg hf
    rw [floor]
    simp only [popFrame, topFrame?, bind, EStateM.bind, get, getThe, MonadStateOf.get,
      EStateM.get, pure, EStateM.pure, top, hf, modify, modifyGet, MonadStateOf.modifyGet,
      EStateM.modifyGet]
    rfl

section Dropped

variable (tidy : s.Tidy L) (here : s.HasCurrent) (calls : s.callsOf s.current = f :: rest)

theorem shallow_dropped (f : Frame) : Shallow ((s.modifyFrames Array.pop).closeCells
    (fun slot => f.base ≤ slot) f.cells).2 (s.dropped f) := .of_stack _

theorem size_dropped (f : Frame) : (s.dropped f).cells.size = s.cells.size := by
  rw [(shallow_dropped f).cells, State.size_closeCells]
  rfl

theorem closures_dropped (f : Frame) : (s.dropped f).closures = s.closures := by
  rw [(shallow_dropped f).closures, view_closeCells State.closures fun _ _ => rfl]
  rfl

theorem callsOf_dropped (f : Frame) (c : ThreadId) :
    (s.dropped f).callsOf c = (s.modifyFrames Array.pop).callsOf c := by
  rw [(shallow_dropped f).calls]
  simp only [State.callsOf, State.processorOf, processors_closeCells]

include here calls in
theorem callsOf_dropped_own : (s.dropped f).callsOf s.current = rest := by
  rw [callsOf_dropped]
  obtain ⟨fs, hfs, hrest⟩ := State.frames_of_calls calls
  simp only [State.processor] at hfs
  simp only [State.callsOf, State.modifyFrames, State.processor_modifyProcessor here, hfs]
  simp [hrest]

theorem callsOf_dropped_ne (f : Frame) {c : ThreadId} (other : c ≠ s.current) :
    (s.dropped f).callsOf c = s.callsOf c :=
  (callsOf_dropped f c).trans (callsOf_modifyFrames_ne _ other)

include tidy calls in
/-- What is still open was so before, and the dropped frame has none of it. -/
theorem opened_of_dropped {x : CellId} {o : ThreadId} {k : Nat}
    (opened : (s.dropped f).cell x = .opened o k) : s.cell x = .opened o k ∧ x ∉ f.cells := by
  have pinned := tidy.pinned s.current
  rw [calls] at pinned
  rw [(shallow_dropped f).cell] at opened
  obtain ⟨same, stays⟩ | ⟨-, -, closed⟩ :=
    (s.modifyFrames Array.pop).cell_closeCells (fun slot => f.base ≤ slot) f.cells x
  · have before : s.cell x = .opened o k := same.symm.trans opened
    refine ⟨before, fun member => ?_⟩
    have low := (pinned.1.cells x member o k before).2.2.1
    simpa [low] using stays member o k before
  · rw [closed] at opened
    cases opened

include tidy here calls in
/-- The frame is popped: slots below it stay as they were. -/
theorem popFrame_dropped : ∃ g, popFrame s = .ok g (s.dropped f) ∧
    Local True f.activation.floor unwritten s (s.dropped f) ∧
    (s.dropped f).heightOf s.current = min f.activation.floor (s.heightOf s.current) := by
  have pinned := tidy.pinned s.current
  rw [calls] at pinned
  have native : f.isNative = true → ∀ x ∈ f.cells, ∀ o k, s.cell x ≠ .opened o k :=
    fun hf x hx o k hk => by simp [(pinned.1.cells x hx o k hk).1] at hf
  obtain ⟨g, run⟩ := popFrame_run (State.back?_of_calls calls) native
  have activations : (s.shape s.current).standing =
      f.activation :: rest.map Frame.activation := by
    have := congrArg (List.map Frame.activation) calls
    simpa [State.shape, Processor.shape, State.callsOf] using this
  obtain ⟨g', s', run', -, hl, -, height⟩ :=
    popFrame_ok (σ := True) (w := unwritten) here activations
  obtain ⟨rfl, rfl⟩ := EStateM.Result.ok.inj (run.symm.trans run')
  exact ⟨g, run, hl, height⟩

include tidy here calls in
/-- Captured variables have the values that they had. -/
theorem readCell_dropped (x : CellId) : (s.dropped f).readCell x = s.readCell x := by
  have readCell : (s.modifyFrames Array.pop).readCell x = s.readCell x := by
    simp only [State.readCell, funext (stackOf_modifyFrames (s := s) Array.pop)]
    rfl
  obtain ⟨-, -, hl, -⟩ := popFrame_dropped tidy here calls
  cases hx : (s.dropped f).cell x with
  | opened o k =>
    obtain ⟨before, apart⟩ := opened_of_dropped tidy calls hx
    rw [State.readCell_opened hx, State.readCell_opened before]
    refine congrArg (·.getD .nil) (hl.slots trivial o k not_false fun same => ?_)
    subst same
    exact tidy.lt_floor calls before apart
  | closed v =>
    rw [State.readCell_closed hx]
    rw [(shallow_dropped f).cell] at hx
    obtain ⟨same, -⟩ | ⟨-, -, closed⟩ :=
      (s.modifyFrames Array.pop).cell_closeCells (fun slot => f.base ≤ slot) f.cells x
    · exact (readCell.symm.trans (State.readCell_closed (same.symm.trans hx))).symm
    · rw [closed, readCell] at hx
      exact (Cell.closed.inj hx).symm

variable (spared : ∀ k, ¬ L s.current (rest.length + 1) k)

include tidy calls spared in
theorem le_of_spared {d k : Nat} (followed : L s.current d k) : d ≤ rest.length := by
  have deep := (tidy.covers _ d k followed).2
  rw [calls, List.length_cons] at deep
  obtain rfl | lower := Nat.eq_or_lt_of_le deep
  · exact absurd followed (spared k)
  · exact Nat.le_of_lt_succ lower

include tidy calls spared in
/-- The slots that are followed lie below the frame. -/
theorem lt_floor_of_spared {d k : Nat} (followed : L s.current d k) : k < f.activation.floor := by
  have pinned := tidy.pinned s.current
  rw [calls] at pinned
  exact Nat.lt_of_lt_of_le (pinned.2.lt_of_followed followed (tidy.covers _ d k followed).1
    (le_of_spared tidy calls spared followed)) (Nat.min_le_right ..)

include tidy here calls spared in
theorem tidy_dropped : (s.dropped f).Tidy L := by
  obtain ⟨-, -, hl, height⟩ := popFrame_dropped tidy here calls
  have before : ∀ {x o k}, (s.dropped f).cell x = .opened o k → s.cell x = .opened o k :=
    fun hx => (opened_of_dropped tidy calls hx).1
  have own := callsOf_dropped_own here calls
  have reseats : s.Reseats s.current (s.dropped f) := ⟨fun _ => callsOf_dropped_ne f, hl.heights,
    Nat.le_of_eq (size_dropped f).symm, closures_dropped f, fun _ _ _ hx => .inl (before hx)⟩
  refine tidy.reseats reseats ?_ (fun x k hx => ?_)
    (fun x y k hx hy => tidy.apart x y _ k (before hx) (before hy)) (fun g hg x hx => ?_)
    fun d k hk => ?_
  · have pinned := tidy.pinned s.current
    rw [calls] at pinned
    rw [own, height, Nat.min_comm]
    exact pinned.2.closed fun _ _ _ _ _ _ hx => before hx
  · obtain ⟨opened, apart⟩ := opened_of_dropped tidy calls hx
    obtain ⟨g, hg, hx'⟩ := tidy.listed x _ k opened
    rw [calls] at hg
    rw [own]
    obtain rfl | hg := List.mem_cons.1 hg
    · exact absurd hx' apart
    · exact ⟨g, hg, hx'⟩
  · rw [own] at hg
    rw [size_dropped]
    exact tidy.known s.current g (calls ▸ List.mem_cons_of_mem _ hg) x hx
  · rw [own]
    exact le_of_spared tidy calls spared hk

include tidy here calls spared in
/-- Slots that are followed keep their values and cells. -/
theorem remains_dropped {c : ThreadId} {d k : Nat} (followed : L c d k) :
    Remains [] c k s (s.dropped f) := by
  have pinned := tidy.pinned s.current
  rw [calls] at pinned
  obtain ⟨-, -, hl, -⟩ := popFrame_dropped tidy here calls
  refine ⟨hl.slots trivial c k not_false fun same =>
    lt_floor_of_spared tidy calls spared (same ▸ followed), fun x hx => ?_⟩
  -- a cell that is closed is one of the dropped frame
  rw [(shallow_dropped f).cell]
  obtain ⟨same, -⟩ | ⟨member, ⟨o, j, hx', closes⟩, -⟩ :=
    (s.modifyFrames Array.pop).cell_closeCells (fun slot => f.base ≤ slot) f.cells x
  · exact same.trans hx
  · obtain ⟨rfl, rfl⟩ := Cell.opened.inj (hx'.symm.trans hx)
    obtain ⟨-, rfl, above, -⟩ := pinned.1.cells x member _ _ hx
    have low := lt_floor_of_spared tidy calls spared followed
    have := f.activation.floor_le_base
    have : f.activation.base = f.base := rfl
    omega

include tidy here calls spared in
theorem popFrame_carries :
    ∃ g s', popFrame s = .ok g s' ∧ Carries L [] rest.length s s' ∧
      s'.callsOf s.current = rest ∧
      s'.heightOf s.current = min f.activation.floor (s.heightOf s.current) := by
  obtain ⟨g, run, hl, height⟩ := popFrame_dropped tidy here calls
  have own := callsOf_dropped_own here calls
  have before : ∀ {x o k}, (s.dropped f).cell x = .opened o k → s.cell x = .opened o k :=
    fun hx => (opened_of_dropped tidy calls hx).1
  have faithful : Faithful [] s (s.dropped f) := ⟨Nat.le_of_eq (size_dropped f).symm,
    fun _ _ _ _ => before, fun x _ => readCell_dropped tidy here calls x,
    exists_made (closures_dropped f)⟩
  refine ⟨g, _, run, ⟨hl.current, Nat.le_of_eq hl.size.symm, faithful,
    tidy_dropped tidy here calls spared, fun m hm => ?_,
    Nat.le_of_eq (congrArg List.length own).symm, fun _ => callsOf_dropped_ne f,
    fun c d k hk => remains_dropped tidy here calls spared hk⟩, own, height⟩
  rw [own, calls, bottom_cons hm]

end Dropped

end Exec

end ScriptMachine
