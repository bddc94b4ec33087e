import ScriptMachine.Proofs.Machine.Spares
import ScriptMachine.Proofs.Machine.Storing

/-!
# Functions above a frame that can be spared

A function does not see whether there is a frame that can be spared below its own, as long as it
keeps to its own slots.

* `Spared`: two states, one without the frame, with operands above the slots of the frame.
* `Exec.running_mirror`: instructions do the same in both, other than returns and tail calls.
-/

namespace ScriptMachine

variable {ν α β : Type} {x : Option Spare} {s t s' t' : State ν} {c : ThreadId} {n : Nat} {scope : Scope}

def Scope.lowered (scope : Scope) (n : Nat) : Scope := { scope with base := scope.base - n }

namespace State.Trims

theorem stack (h : s.Trims x t) :
    (Spare.part x s.current).Trims s.processor.stack t.processor.stack := by
  unfold State.processor
  rw [h.current]
  exact h.stackOf s.current

theorem frames (h : s.Trims x t) : FramesTrim (Spare.on x s.current)
    s.processor.frames.toList.reverse t.processor.frames.toList.reverse := by
  unfold State.processor
  rw [h.current]
  exact h.callsOf s.current

theorem hasCurrent (h : s.Trims x t) (here : s.HasCurrent) : t.HasCurrent := by
  unfold HasCurrent at *
  rw [h.current, h.size]
  exact here

theorem upvalueCell (h : s.Trims x t) (f : ClosureId) (index : Nat) :
    t.upvalueCell f index = s.upvalueCell f index := by
  simp only [State.upvalueCell, h.closure]

/-- A variable has the same value. -/
theorem readSymbol (h : s.Trims x t) (high : (Spare.part x s.current).high ≤ scope.base)
    (sym : Symbol) :
    t.readSymbol (scope.lowered (Spare.part x s.current).gap) sym = s.readSymbol scope sym := by
  induction sym with
  | slot index name =>
    have slot := h.stack.get (i := scope.base + index) (.inr (by omega))
    rw [Cut.shift_of_high (by omega)] at slot
    simp only [State.readSymbol, Scope.lowered, Cut.sub_add high, slot]
  | upvalue index name =>
    simp only [State.readSymbol, Scope.lowered, h.upvalueCell, h.readCell]
  | defaultEnv => simp only [State.readSymbol, h.world]
  | global name env ih =>
    simp only [State.readSymbol, ih, h.heap]

/-- A variable gets a value. -/
theorem writeSymbol (h : s.Trims x t) (kept : s.Kept)
    (high : (Spare.part x s.current).high ≤ scope.base) (v : Value) (sym : Symbol) :
    (∃ e, s.writeSymbol scope v sym = .error e ∧
      t.writeSymbol (scope.lowered (Spare.part x s.current).gap) v sym = .error e) ∨
    ∃ s' t', s.writeSymbol scope v sym = .ok s' ∧
      t.writeSymbol (scope.lowered (Spare.part x s.current).gap) v sym = .ok t' ∧
      s'.Trims x t' := by
  cases sym with
  | slot index name =>
    have keeps : (Spare.part x s.current).Keeps (scope.base + index) := .inr (by omega)
    have slot := h.stack.set keeps v
    rw [Cut.shift_of_high (by omega), ← Cut.sub_add high] at slot
    refine .inr ⟨_, _, rfl, rfl, h.modifyStack slot fun i hidden => ?_⟩
    have other : i ≠ scope.base + index := fun same => hidden (same ▸ keeps)
    simp only [ValueStack.get, ValueStack.get_set _ v other]
  | upvalue index name =>
    have found := h.upvalueCell scope.closure index
    simp only [State.writeSymbol, Scope.lowered]
    rw [found]
    cases s.upvalueCell scope.closure index with
    | error e => exact .inl ⟨e, rfl, rfl⟩
    | ok y => exact .inr ⟨_, _, rfl, rfl, h.writeCell kept y v⟩
  | defaultEnv => exact .inl ⟨_, rfl, rfl⟩
  | global name env =>
    have read := h.readSymbol high env
    simp only [State.writeSymbol]
    rw [read]
    cases s.readSymbol scope env with
    | error e => exact .inl ⟨e, rfl, rfl⟩
    | ok object =>
      cases object with
      | table t' =>
        refine .inr ⟨_, _, rfl, rfl, ?_⟩
        simp only [State.modifyHeap, h.world]
        exact h.arrange _
      | _ => exact .inl ⟨_, rfl, rfl⟩

end State.Trims

/-! ## Work -/

/-- The second state is the first without the frame that can be spared, and on the thread that runs
there are `n` operands above its slots. -/
structure Spared (x : Option Spare) (c : ThreadId) (n : Nat) (s t : State ν) : Prop where
  current : s.current = c
  here : s.HasCurrent
  kept : s.Kept
  trims : s.Trims x t
  room : (Spare.part x c).high + n ≤ s.processor.stack.size

namespace Spared

theorem stack (h : Spared x c n s t) :
    (Spare.part x c).Trims s.processor.stack t.processor.stack := h.current ▸ h.trims.stack

/-- The stack that runs changes above the slots. -/
theorem modifyStack (h : Spared x c n s t) {f f' : ValueStack → ValueStack} {m : Nat}
    (changed : (Spare.part x c).Trims (f s.processor.stack) (f' t.processor.stack))
    (hidden : ∀ i, ¬ (Spare.part x c).Keeps i →
      (f s.processor.stack).get i = s.processor.stack.get i)
    (room : (Spare.part x c).high + m ≤ (f s.processor.stack).size) :
    Spared x c m (s.modifyStack f) (t.modifyStack f') := by
  obtain ⟨rfl, here, kept, trims, -⟩ := h
  refine ⟨rfl, ?_, ((becomes_modifyStack s f).keeps kept).1, trims.modifyStack changed hidden, ?_⟩
  · simpa [State.HasCurrent, State.modifyStack, State.modifyProcessor, State.modifyProcessorOf]
      using here
  · unfold State.modifyStack State.processor
    change _ ≤ ((s.modifyProcessor _).processorOf s.current).stack.size
    rw [State.processor_modifyProcessor here]
    exact room

/-- The stack that runs is cut above the slots. -/
theorem truncate (h : Spared x c n s t) {m : Nat} (high : (Spare.part x c).high ≤ m) :
    Spared x c 0 (s.modifyStack (·.truncate m))
      (t.modifyStack (·.truncate (m - (Spare.part x c).gap))) := by
  refine h.modifyStack (h.stack.truncate high) (fun i hidden => ?_) ?_
  · simp only [ValueStack.get]
    rw [ValueStack.get_truncate _ (by unfold Cut.Keeps at hidden; omega)]
  · have := h.stack.room
    rw [ValueStack.size_truncate]
    omega

theorem arrange (h : Spared x c n s t) (world : World ν) :
    Spared x c n { s with world } { t with world } :=
  ⟨h.current, h.here, ((becomes_tolerant.arrange s world).keeps h.kept).1, h.trims.arrange world,
   h.room⟩

end Spared

/-- What holds of the first state as well, and does not depend on operands or the world. -/
theorem OperandMirror.and {R : Nat → State ν → State ν → Prop} {scope scope' : Scope}
    (M : OperandMirror R scope scope') {P : State ν → Prop}
    (arrange : ∀ s (world : World ν), P s → P { s with world })
    (modifyStack : ∀ (s : State ν) f, P s → P (s.modifyStack f)) :
    OperandMirror (fun n s t => R n s t ∧ P s) scope scope' where
  weaken h le := ⟨M.weaken h.1 le, h.2⟩
  world h := M.world h.1
  arrange world h := ⟨M.arrange world h.1, arrange _ world h.2⟩
  pushAll vs h := ⟨M.pushAll vs h.1, modifyStack _ _ h.2⟩
  peek h hi := M.peek h.1 hi
  taken h := M.taken h.1
  drop h := ⟨M.drop h.1, modifyStack _ _ h.2⟩
  poke v h hi := ⟨M.poke v h.1 hi, modifyStack _ _ h.2⟩
  read sym h := M.read sym h.1

theorem ValueStack.get_of_getElem? {v w : ValueStack} {i : Nat} (h : w.values[i]? = v.values[i]?) :
    w.get i = v.get i := by
  rw [ValueStack.get, ValueStack.get, h]

/-- Work on operands does the same above a frame that can be spared. -/
theorem spared_operands (x : Option Spare) (c : ThreadId)
    (high : (Spare.part x c).high ≤ scope.base) :
    OperandMirror (Spared (ν := ν) x c) scope (scope.lowered (Spare.part x c).gap) where
  weaken h le := { h with room := Nat.le_trans (Nat.add_le_add_left le _) h.room }
  world h := h.trims.world
  arrange world h := h.arrange world
  pushAll {n s t} vs h := by
    refine h.modifyStack (h.stack.pushAll vs) (fun i hidden => ?_) ?_
    · refine ValueStack.get_of_getElem? (ValueStack.get_pushAll _ vs ?_)
      have := h.stack.room
      unfold Cut.Keeps at hidden
      omega
    · have := h.room
      rw [ValueStack.size_pushAll]
      omega
  peek h hi := h.stack.peek? h.room hi
  taken {n m s t} h := by
    have room := h.room
    have size := h.stack.size
    have above := h.stack.above? (n := s.processor.stack.size - m) (by omega)
    unfold Cut.high at room
    rwa [show s.processor.stack.size - m - (Spare.part x c).gap = t.processor.stack.size - m by
      omega] at above
  drop {n m s t} h := by
    have room := h.room
    have size := h.stack.size
    have cut := h.stack.truncate (n := s.processor.stack.size - m) (by omega)
    have height : s.processor.stack.size - m - (Spare.part x c).gap =
        t.processor.stack.size - m := by
      unfold Cut.high at room
      omega
    rw [height] at cut
    refine h.modifyStack cut (fun i hidden => ?_) ?_
    · refine ValueStack.get_of_getElem? (ValueStack.get_truncate _ ?_)
      unfold Cut.Keeps at hidden
      omega
    · rw [ValueStack.size_truncate]
      omega
  poke {n i s t} v h hi := by
    have room := h.room
    refine h.modifyStack (h.stack.poke room hi v) (fun j hidden => ?_) ?_
    · refine ValueStack.get_of_getElem? (ValueStack.get_poke _ v ?_)
      unfold Cut.Keeps at hidden
      omega
    · rw [ValueStack.size_poke]
      exact room
  read sym h := by
    obtain ⟨rfl, -, -, trims, -⟩ := h
    exact trims.readSymbol high sym

/-! ## The running function -/

theorem reverse_setTop {fs : Array Frame} {f g : Frame} {rest : List Frame}
    (h : fs.toList.reverse = f :: rest) :
    (fs.setIfInBounds (fs.size - 1) g).toList.reverse = g :: rest := by
  obtain ⟨gs, rfl⟩ : ∃ gs : Array Frame, fs = gs.push f := by
    rw [List.reverse_eq_cons_iff] at h
    exact ⟨rest.reverse.toArray, Array.toList_inj.1 (by simpa using h)⟩
  simp at h
  simp [h]

theorem reverse_eq_of_back? {fs : Array Frame} {f : Frame} (h : fs.back? = some f) :
    ∃ rest, fs.toList.reverse = f :: rest := by
  obtain ⟨gs, rfl⟩ := Array.back?_eq_some_iff.1 h
  exact ⟨gs.toList.reverse, by simp⟩

theorem back?_of_reverse {fs : Array Frame} {f : Frame} {rest : List Frame}
    (h : fs.toList.reverse = f :: rest) : fs.back? = some f := by
  rw [← Array.getLast?_toList, ← List.head?_reverse, h]
  rfl

namespace State.Trims

/-- The frames on top belong to each other, and may list other cells. -/
theorem top (h : s.Trims x t) {f : Frame} (top : s.processor.frames.back? = some f) :
    ∃ g, t.processor.frames.back? = some g ∧ f.Lowers g (Spare.part x s.current) ∧
      ∀ cells, (s.setTop { f with cells }).Trims x (t.setTop { g with cells }) := by
  obtain ⟨rest, frames⟩ := reverse_eq_of_back? top
  have trim := h.frames
  rw [frames] at trim
  obtain ⟨g, gs, same, lowers, other⟩ := trim.top
  refine ⟨g, back?_of_reverse same, lowers, fun cells => h.modifyFrames ?_⟩
  rw [reverse_setTop frames, reverse_setTop same]
  exact other cells

theorem top_none (h : s.Trims x t) (top : s.processor.frames.back? = none) :
    t.processor.frames.back? = none := by
  have empty : s.processor.frames = #[] := Array.back?_eq_none_iff.1 top
  have trim := h.frames
  rw [empty] at trim
  have none := trim.nil_iff.1 rfl
  simpa using none

end State.Trims

namespace Spared

/-- Neither the stack that runs nor the threads change. -/
theorem of_level (h : Spared x c n s t) (current : s'.current = s.current)
    (size : s'.processors.size = s.processors.size) (stack : s'.stackOf c = s.stackOf c)
    (kept : s'.Kept) (trims : s'.Trims x t') : Spared x c n s' t' := by
  obtain ⟨rfl, here, -, -, room⟩ := h
  refine ⟨current, ?_, kept, trims, ?_⟩
  · unfold State.HasCurrent
    rw [current, size]
    exact here
  · change _ ≤ (s'.stackOf s'.current).size
    rw [current, stack]
    exact room

end Spared

theorem State.Runs.modifyStack (runs : s.Runs scope) (f : ValueStack → ValueStack) :
    (s.modifyStack f).Runs scope :=
  runs.same rfl fun d => State.view_modifyProcessorOf s _ s.current d Processor.frames fun _ => rfl

theorem Spared.newClosed (h : Spared x c n s t) (v : Value) :
    Spared x c n (s.newCell (.closed v)).2 (t.newCell (.closed v)).2 :=
  h.of_level rfl rfl rfl ((becomes_tolerant.newCell s v).keeps h.kept).1 (h.trims.newClosed v)

/-- A variable gets a value. -/
theorem Spared.writeSymbol (h : Spared x c n s t) (high : (Spare.part x c).high ≤ scope.base)
    (v : Value) (sym : Symbol) :
    (∃ e, s.writeSymbol scope v sym = .error e ∧
      t.writeSymbol (scope.lowered (Spare.part x c).gap) v sym = .error e) ∨
    ∃ s' t', s.writeSymbol scope v sym = .ok s' ∧
      t.writeSymbol (scope.lowered (Spare.part x c).gap) v sym = .ok t' ∧ Spared x c n s' t' := by
  obtain ⟨rfl, here, kept, trims, room⟩ := h
  refine (trims.writeSymbol kept high v sym).imp id ?_
  rintro ⟨s', t', written, written', trims⟩
  obtain ⟨steady, height⟩ := Exec.writeSymbol_ok (σ := False) (b := 0) (w := fun _ _ => True)
    nofun nofun written
  refine ⟨s', t', written, written', steady.current, ?_,
    ((becomes_tolerant.writeSymbol written).keeps kept).1, trims, ?_⟩
  · unfold State.HasCurrent
    rw [steady.current, steady.size]
    exact here
  · change _ ≤ s'.heightOf s'.current
    rw [steady.current, height]
    exact room

/-- The function of the scope runs above a frame that can be spared. -/
def Running (x : Option Spare) (c : ThreadId) (scope : Scope) (n : Nat) (s t : State ν) : Prop :=
  Spared x c n s t ∧ s.Runs scope

namespace Exec

variable {work work' : Exec ν α} {post : α → State ν → State ν → Prop}

theorem captureSlot_run {f : Frame} (top : s.processor.frames.back? = some f) (slot : Nat) :
    captureSlot slot s = match s.findOpenCell f slot with
      | some y => .ok y s
      | none => .ok ⟨s.cells.size⟩ (s.openSlot f slot) := by
  simp only [captureSlot, topFrame?, bind, EStateM.bind, get, getThe, MonadStateOf.get,
    EStateM.get, pure, EStateM.pure, top]
  cases s.findOpenCell f slot <;> rfl

/-- The cells of the running frame are those of slots above the ones that are taken out. -/
theorem own_spared (h : Spared x c n s t) {f g : Frame}
    (top : s.processor.frames.back? = some f) (lowers : f.Lowers g (Spare.part x c)) :
    ∀ y ∈ f.cells, ∃ k, s.cell y = .opened c k ∧ (Spare.part x c).high ≤ k := by
  obtain ⟨rfl, -, kept, -, -⟩ := h
  intro y hy
  obtain ⟨-, k, opened, low⟩ := kept.own _ _ f (State.frameAt_top top) y hy
  have floor := lowers.high
  have := f.activation.floor_le_base
  have base : f.activation.base = f.base := rfl
  exact ⟨k, opened, by omega⟩

theorem findOpenCell_spared (h : Spared x c n s t) {f g : Frame} {slot : Nat}
    (top : s.processor.frames.back? = some f) (lowers : f.Lowers g (Spare.part x c))
    (high : (Spare.part x c).high ≤ slot) :
    t.findOpenCell g (slot - (Spare.part x c).gap) = s.findOpenCell f slot := by
  rw [State.findOpenCell, State.findOpenCell, lowers.same]
  refine List.find?_congr fun y hy => ?_
  obtain ⟨k, opened, above⟩ := own_spared h top lowers y hy
  have cell := h.trims.cells y
  rw [opened] at cell ⊢
  generalize t.cell y = b at cell
  cases cell with
  | hidden out => exact absurd (.inr above) out
  | opened _ =>
    rw [Cut.shift_of_high above]
    unfold Cut.high at high above
    by_cases same : k = slot
    · simp [Cell.slot?, same]
    · simp only [Cell.slot?, Option.some_beq_some]
      rw [beq_false_of_ne same, beq_false_of_ne (by omega)]

theorem captureSlot_running (h : Running x c scope n s t)
    (high : (Spare.part x c).high ≤ scope.base) (index : Nat) :
    Mirrors (Running x c scope) s t (captureSlot (scope.base + index))
      (captureSlot ((scope.lowered (Spare.part x c).gap).base + index))
      fun _ => Running x c scope n := by
  obtain ⟨spared, runs⟩ := h
  have amid := (amid_indulgent scope).capture s index
  obtain ⟨f, top, script, base⟩ := runs
  obtain rfl := spared.current
  obtain ⟨g, top', lowers, set⟩ := spared.trims.top top
  have high' : (Spare.part x s.current).high ≤ scope.base + index :=
    Nat.le_trans high (Nat.le_add_right ..)
  unfold Mirrors
  unfold Within at amid
  rw [captureSlot_run top] at amid ⊢
  rw [captureSlot_run top', show (scope.lowered (Spare.part x s.current).gap).base + index =
    scope.base + index - (Spare.part x s.current).gap from Cut.sub_add high index,
    findOpenCell_spared spared top lowers high']
  cases opens : s.findOpenCell f (scope.base + index) with
  | some y => exact .ok ⟨spared, f, top, script, base⟩
  | none =>
    rw [opens] at amid
    obtain ⟨becomes, runs⟩ := amid ⟨f, top, script, base⟩
    have opened := spared.trims.newOpened (o := s.current) (.inr high')
    rw [Cut.shift_of_high high'] at opened
    obtain ⟨g', top'', -, set⟩ := opened.top (f := f) top
    obtain rfl := Option.some.inj (top'.symm.trans top'')
    have trims := set (f.cells ++ [⟨s.cells.size⟩])
    have same : g.cells = f.cells := by rw [lowers.same]
    have current := spared.trims.current
    have count := spared.trims.cellCount
    rw [count]
    refine .ok ⟨spared.of_level rfl ?_ ?_ (becomes.keeps spared.kept).1 ?_, runs⟩
    · simp [State.openSlot, State.setTop, State.modifyFrames, State.modifyProcessor,
        State.modifyProcessorOf, State.newCell]
    · exact State.view_modifyProcessorOf _ _ _ _ Processor.stack fun _ => rfl
    · unfold State.openSlot
      rw [same, count, current]
      exact trims

/-- Cells of slots above the ones that are taken out are detached. -/
theorem closeCells_trims (h : s.Trims x t) {p q : Nat → Bool} {l : List CellId}
    (own : ∀ y ∈ l, ∃ k, s.cell y = .opened c k ∧ (Spare.part x c).high ≤ k)
    (agree : ∀ k, (Spare.part x c).high ≤ k → q (k - (Spare.part x c).gap) = p k) :
    (t.closeCells q l).1 = (s.closeCells p l).1 ∧
      (s.closeCells p l).2.Trims x (t.closeCells q l).2 := by
  refine h.closeCells fun y hy o k opened => ?_
  obtain ⟨k', same, above⟩ := own y hy
  obtain ⟨rfl, rfl⟩ := Cell.opened.inj (opened.symm.trans same)
  refine ⟨.inr above, ?_⟩
  rw [Cut.shift_of_high above]
  exact agree k above

theorem running_operands (high : (Spare.part x c).high ≤ scope.base) :
    OperandMirror (Running (ν := ν) x c scope) scope (scope.lowered (Spare.part x c).gap) :=
  (spared_operands x c high).and (fun _ _ runs => runs.same rfl fun _ => rfl)
    fun _ f runs => runs.modifyStack f

theorem closeLocals_running (h : Running x c scope n s t)
    (high : (Spare.part x c).high ≤ scope.base) (first last : Nat) :
    Mirrors (Running x c scope) s t (closeLocals scope first last)
      (closeLocals (scope.lowered (Spare.part x c).gap) first last)
      fun _ => Running x c scope n := by
  obtain ⟨spared, runs⟩ := h
  have amid := (amid_indulgent scope).close s first last
  obtain rfl := spared.current
  obtain ⟨f, top, script, base⟩ := runs
  obtain ⟨g, top', lowers, -⟩ := spared.trims.top top
  have slots : ∀ i, (scope.lowered (Spare.part x s.current).gap).base + i =
      scope.base + i - (Spare.part x s.current).gap := fun i => Cut.sub_add high i
  let p : Nat → Bool := fun slot => scope.base + first ≤ slot && slot ≤ scope.base + last
  let p' : Nat → Bool := fun slot => scope.base + first - (Spare.part x s.current).gap ≤ slot &&
    slot ≤ scope.base + last - (Spare.part x s.current).gap
  obtain ⟨kept, closed⟩ := closeCells_trims (p := p) (q := p') spared.trims
    (own_spared spared top lowers) fun k above => by
      unfold Cut.high at high above
      simp only [p, p', ← Bool.decide_and]
      exact decide_eq_decide.2 (by omega)
  have sameCells : g.cells = f.cells := by rw [lowers.same]
  have current : (s.closeCells p f.cells).2.current = s.current :=
    (rigid_closeCells s p f.cells).current
  have processor : (s.closeCells p f.cells).2.processor = s.processor := by
    simp only [State.processor, State.processorOf, processors_closeCells, current]
  obtain ⟨g', top'', -, set⟩ := closed.top (processor ▸ top)
  have processor' : (t.closeCells p' f.cells).2.processor = t.processor := by
    simp only [State.processor, State.processorOf, processors_closeCells,
      (rigid_closeCells t p' f.cells).current]
  rw [processor'] at top''
  obtain rfl := Option.some.inj (top'.symm.trans top'')
  -- the frame on top lists the cells that are left
  have closing : Spared x s.current n (s.closeSlots f p) (t.closeSlots g p') := by
    refine spared.of_level current ?_ ?_ ?_ ?_
    · simp [State.closeSlots, State.setTop, State.modifyFrames, State.modifyProcessor,
        State.modifyProcessorOf, processors_closeCells]
    · unfold State.closeSlots
      refine (stackOf_modifyFrames _ _).trans ?_
      simp only [State.stackOf, State.processorOf, processors_closeCells]
    · exact ((State.Change.closed p top).becomes.keeps spared.kept).1
    · unfold State.closeSlots
      rw [sameCells, kept]
      exact set _
  have cleared := closing.stack.clearSlots (a := scope.base + first) (b := scope.base + last)
    (Nat.le_trans high (Nat.le_add_right ..)) (Nat.le_trans high (Nat.le_add_right ..))
  unfold Mirrors
  unfold Within at amid
  rw [closeLocals_run top] at amid ⊢
  rw [closeLocals_run top', slots, slots]
  refine .ok ⟨closing.modifyStack cleared (fun i hidden => ?_) ?_, ?_⟩
  · refine ValueStack.get_of_getElem? (ValueStack.get_clearSlots _ _ ?_)
    unfold Cut.Keeps at hidden
    omega
  · rw [ValueStack.size_clearSlots]
    exact closing.room
  · exact (amid ⟨f, top, script, base⟩).2

/-- A function begins above the slots that are taken out. -/
theorem beginFunction_running (h : Running x c scope n s t)
    (high : (Spare.part x c).high ≤ scope.base) (p : Proto) (i : Instruction) :
    Mirrors (Running x c scope) s t (beginFunction p scope i)
      (beginFunction p (scope.lowered (Spare.part x c).gap) i) fun _ => Running x c scope 0 := by
  have M := running_operands (ν := ν) high
  obtain ⟨f, top, -⟩ := h.2
  obtain ⟨g, top', lowers, -⟩ := h.1.trims.top top
  have split : Mirrors (Running x c scope) s t (splitOff scope.base)
      (splitOff (scope.lowered (Spare.part x c).gap).base) fun _ => Running x c scope 0 := by
    change Mirrors _ s t
      (present (s.processor.stack.above? scope.base) >>= fun vs =>
        truncate scope.base >>= fun _ => pure vs)
      (present (t.processor.stack.above? (scope.base - (Spare.part x c).gap)) >>= fun vs =>
        truncate (scope.base - (Spare.part x c).gap) >>= fun _ => pure vs) _
    rw [h.1.stack.above? high]
    apply mirrors_bind (mirrors_present M _ h)
    intro vs s t h
    have cut : Running x c scope 0 (s.modifyStack (·.truncate scope.base))
        (t.modifyStack (·.truncate (scope.base - (Spare.part x c).gap))) :=
      ⟨h.1.truncate high, h.2.modifyStack _⟩
    exact mirrors_bind (mirrors_modify cut) fun _ _ _ h => mirrors_pure h
  apply mirrors_get
  rw [top, top']
  have begun : ∀ isMethod, Mirrors (Running x c scope) s t
      (splitOff scope.base >>= fun vs =>
        pushAll (bindArguments p (operand i.a) (i.b != 0) isMethod vs))
      (splitOff (scope.lowered (Spare.part x c).gap).base >>= fun vs =>
        pushAll (bindArguments p (operand i.a) (i.b != 0) isMethod vs))
      fun _ => Running x c scope 0 := fun isMethod =>
    mirrors_bind split fun vs s t h =>
      (mirrors_pushAll M _ h).imp fun _ _ _ h => M.weaken h (Nat.zero_le _)
  dsimp only
  rw [lowers.methodCall]
  exact begun f.flags.methodCall

/-- **A function does the same above a frame that can be spared.** -/
theorem running_mirror (high : (Spare.part x c).high ≤ scope.base) :
    Mirror (Running (ν := ν) x c scope) scope (scope.lowered (Spare.part x c).gap) where
  toOperandMirror := running_operands high
  code h := congrArg Closure.proto (h.1.trims.closure _)
  write {n s t} sym v h := by
    obtain ⟨spared, runs⟩ := h
    apply mirrors_get
    obtain ⟨e, failed, failed'⟩ | ⟨s', t', written, written', spared'⟩ :=
      spared.writeSymbol high v sym
    · rw [failed, failed']
      exact mirrors_throw (running_operands high) ⟨spared, runs⟩
    · rw [written, written']
      exact .ok ⟨spared', ((amid_tolerant scope).writeSymbol written runs).2⟩
  capture {n s t} sym h := by
    cases sym with
    | slot index name => exact captureSlot_running h high index
    | upvalue index name =>
      apply mirrors_get
      rw [h.1.trims.upvalueCell]
      exact mirrors_ofExcept (running_operands high) _ h
    | defaultEnv =>
      obtain ⟨spared, runs⟩ := h
      have new : Running x c scope n (s.newCell (.closed (.table s.world.globals))).2
          (t.newCell (.closed (.table s.world.globals))).2 :=
        ⟨spared.newClosed _, runs.same rfl fun _ => rfl⟩
      change Agree _ _ (.ok (⟨s.cells.size⟩ : CellId) (s.newCell (.closed (.table s.world.globals))).2)
        (.ok (⟨t.cells.size⟩ : CellId) (t.newCell (.closed (.table t.world.globals))).2)
      rw [spared.trims.cellCount, spared.trims.world]
      exact .ok new
    | global name env => exact mirrors_throw (running_operands high) h
  newClosure {n s t} f h := by
    obtain ⟨spared, runs⟩ := h
    obtain ⟨same, trims⟩ := spared.trims.newClosure f
    refine ⟨same, spared.of_level rfl rfl rfl ?_ trims, runs.same rfl fun _ => rfl⟩
    exact ((becomes_tolerant.newClosure s f).keeps spared.kept).1
  close first last h := closeLocals_running h high first last
  begin p i h := beginFunction_running h high p i

end Exec

end ScriptMachine
