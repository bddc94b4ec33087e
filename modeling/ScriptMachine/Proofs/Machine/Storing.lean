import ScriptMachine.Proofs.Machine.Sharing

/-!
# Writing variables

What a write to a variable changes, and what becomes of slots that are detached from their cells or
taken for the locals of a function.

* `State.writesOf`: the cell and the slot that a write to a symbol changes.
* `carries_writeSymbol`: nothing else changes.
* `closeLocals_leads`: detached slots have no cell, and their cells keep their values.
-/

namespace ScriptMachine

variable {ν : Type} {L : Locals} {s s' t : State ν} {c o : ThreadId} {j k : Nat} {f : Frame}
  {rest : List Frame}

def Cell.place? : Cell → Option (ThreadId × Nat)
  | .opened owner slot => some (owner, slot)
  | .closed _ => none

def State.writesOf (s : State ν) (scope : Scope) (v : Value) : Symbol → List Write
  | .slot index _ =>
    [⟨s.openCell? s.current (scope.base + index), some (s.current, scope.base + index), v⟩]
  | .upvalue index _ =>
    match s.upvalueCell scope.closure index with
    | .ok x => [⟨some x, (s.cell x).place?, v⟩]
    | .error _ => []
  | .defaultEnv | .global _ _ => []

/-! ## Slots -/

def State.setSlot (s : State ν) (o : ThreadId) (k : Nat) (v : Value) : State ν :=
  s.modifyProcessorOf o fun p => { p with stack := p.stack.set k v }

theorem State.slot_setSlot_self (v : Value) (h : k < s.heightOf o) :
    (s.setSlot o k v).slot o k = some v := by
  have here : o.index < s.processors.size := by
    refine Nat.lt_of_not_le fun out => ?_
    simp [heightOf, stackOf, processorOf, Array.getElem?_eq_none out, ValueStack.size] at h
  have high : k < (s.processorOf o).stack.values.size := h
  simp only [slot, stackOf, setSlot, processorOf_modifyProcessorOf s _ here, ValueStack.set]
  simp [high]

theorem State.slot_setSlot_ne (v : Value) (h : (o, k) ≠ (c, j)) :
    (s.setSlot o k v).slot c j = s.slot c j := by
  by_cases hc : c = o
  · subst hc
    have hj : j ≠ k := fun e => h (e ▸ rfl)
    exact State.view_modifyProcessorOf s _ c c (fun p => p.stack.values[j]?) fun p =>
      ValueStack.get_set p.stack v hj
  · simp only [slot, stackOf, setSlot, processorOf_modifyProcessorOf_ne s _ hc]

/-- A write to a slot changes the variable that lives there. -/
theorem carries_setSlot (tidy : s.Tidy L) (o : ThreadId) (k : Nat) (v : Value) :
    Carries L [⟨s.openCell? o k, some (o, k), v⟩] (s.callsOf s.current).length s
      (s.setSlot o k v) := by
  have shallow : Shallow s (s.setSlot o k v) :=
    ⟨rfl, rfl, fun c => State.view_modifyProcessorOf s _ o c Processor.frames fun _ => rfl⟩
  have heights : ∀ c, (s.setSlot o k v).heightOf c = s.heightOf c := fun c =>
    State.view_modifyProcessorOf s _ o c (fun p => p.stack.size) fun _ => by
      simp [ValueStack.set, ValueStack.size]
  have slots : ∀ c j, j < s.heightOf c → (s.setSlot o k v).slot c j =
      overwritten [⟨s.openCell? o k, some (o, k), v⟩] c j (s.slot c j) := by
    intro c j hj
    by_cases same : (o, k) = (c, j)
    · obtain ⟨rfl, rfl⟩ := Prod.mk.inj same
      rw [State.slot_setSlot_self v hj]
      simp [overwritten_singleton]
    · rw [State.slot_setSlot_ne v same]
      have apart : some (o, k) ≠ some (c, j) := fun e => same (Option.some.inj e)
      simp only [overwritten_singleton, if_neg apart]
  refine ⟨rfl, by simp [State.setSlot, State.modifyProcessorOf],
    ⟨Nat.le_refl _, fun _ _ _ _ h => h, fun x _ => ?_, exists_made rfl⟩,
    shallow.tidy tidy fun c => by rw [heights]; exact tidy.pinned c,
    fun _ _ => by rw [shallow.calls],
    Nat.le_of_eq (congrArg List.length (shallow.calls _)).symm, fun c _ => shallow.calls c,
    fun c d j hj => ⟨slots c j (tidy.lt_of_followed hj), fun x hx => hx⟩⟩
  cases hx : s.cell x with
  | closed u =>
    have other : s.openCell? o k ≠ some x := fun found => by
      rw [tidy.openCell?_eq_some, hx] at found
      cases found
    rw [State.readCell_closed (s := s.setSlot o k v) hx, State.readCell_closed hx]
    simp [written_singleton, other]
  | opened c j =>
    have high := tidy.slot_lt hx
    rw [State.readCell_opened (s := s.setSlot o k v) hx, State.readCell_opened hx, slots c j high]
    by_cases same : (o, k) = (c, j)
    · obtain ⟨rfl, rfl⟩ := Prod.mk.inj same
      have found : s.openCell? o k = some x := tidy.openCell?_eq_some.2 hx
      simp [written_singleton, overwritten_singleton, found]
    · have other : s.openCell? o k ≠ some x := fun found => by
        rw [tidy.openCell?_eq_some, hx] at found
        obtain ⟨rfl, rfl⟩ := Cell.opened.inj found
        exact same rfl
      have apart : some (o, k) ≠ some (c, j) := fun e => same (Option.some.inj e)
      simp only [written_singleton, overwritten_singleton, if_neg other, if_neg apart]

/-- A write to a captured variable. -/
theorem carries_writeCell (tidy : s.Tidy L) {x : CellId} (known : x.index < s.cells.size)
    (v : Value) :
    Carries L [⟨some x, (s.cell x).place?, v⟩] (s.callsOf s.current).length s
      (s.writeCell x v) := by
  unfold State.writeCell
  cases hx : s.cell x with
  | opened o k =>
    have found : s.openCell? o k = some x := tidy.openCell?_eq_some.2 hx
    have carries := carries_setSlot tidy o k v
    rwa [found] at carries
  | closed u =>
    dsimp only
    generalize ht : ({ s with cells := s.cells.setIfInBounds x.index (.closed v) } : State ν) = t
    have cell : ∀ y, t.cell y = if y = x then .closed v else s.cell y := by
      subst ht
      intro y
      simp only [State.cell, Array.getElem?_setIfInBounds]
      obtain ⟨i⟩ := x
      obtain ⟨i'⟩ := y
      by_cases same : i = i'
      · subst same
        simp [known]
      · have other : ¬ (⟨i'⟩ : CellId) = ⟨i⟩ := fun e => same (CellId.mk.inj e).symm
        rw [if_neg same, if_neg other]
    have old : ∀ y o k, t.cell y = .opened o k → s.cell y = .opened o k := by
      intro y o k hy
      rw [cell] at hy
      split at hy
      · cases hy
      · exact hy
    have size : t.cells.size = s.cells.size := by
      subst ht
      simp
    have calls : ∀ c, t.callsOf c = s.callsOf c := fun c => by subst ht; rfl
    have closures : t.closures = s.closures := by subst ht; rfl
    refine ⟨by subst ht; rfl, by subst ht; exact Nat.le_refl _, ⟨Nat.le_of_eq size.symm,
      fun y _ o k => old y o k, fun y hy => ?_, exists_made closures⟩, ?_,
      fun _ _ => by rw [calls],
      Nat.le_of_eq (congrArg List.length (calls _)).symm, fun c _ => calls c,
      fun c d j _ => ⟨?_, fun y hy => ?_⟩⟩
    · by_cases same : y = x
      · subst same
        rw [State.readCell_closed ((cell y).trans (if_pos rfl))]
        simp [written_singleton]
      · have sameStack : t.stackOf = s.stackOf := by subst ht; rfl
        have other : some x ≠ some y := fun e => same (Option.some.inj e).symm
        simp only [State.readCell, cell, if_neg same, sameStack, written_singleton, if_neg other]
    · refine ⟨fun c => ?_, fun y o k hy => ?_, fun y z o k hy hz => ?_, fun c g hg y hy => ?_,
        fun g hg y hy => ?_, fun c d j hj => ?_⟩
      · have pinned : Pinned L t.cell c (s.callsOf c) (s.heightOf c) :=
          (tidy.pinned c).closed fun _ _ y _ => old y
        rw [calls]
        subst ht
        exact pinned
      · rw [calls]
        exact tidy.listed y o k (old y o k hy)
      · exact tidy.apart y z o k (old y o k hy) (old z o k hz)
      · rw [calls] at hg
        rw [size]
        exact tidy.known c g hg y hy
      · rw [closures] at hg
        rw [size]
        exact tidy.closures g hg y hy
      · rw [calls]
        exact tidy.covers c d j hj
    · subst ht
      rfl
    · have other : y ≠ x := fun same => by
        rw [same, hx] at hy
        cases hy
      rw [cell, if_neg other]
      exact hy

/-- **A write to a symbol** changes the variable that it names, and nothing else. -/
theorem carries_writeSymbol (tidy : s.Tidy L) {scope : Scope} {v : Value} {sym : Symbol}
    (h : s.writeSymbol scope v sym = .ok s') :
    Carries L (s.writesOf scope v sym) (s.callsOf s.current).length s s' := by
  cases sym with
  | slot index name =>
    cases h
    exact carries_setSlot tidy s.current (scope.base + index) v
  | upvalue index name =>
    simp only [State.writeSymbol] at h
    cases found : s.upvalueCell scope.closure index with
    | error e =>
      rw [found] at h
      cases h
    | ok x =>
      rw [found] at h
      cases h
      simp only [State.writesOf, found]
      exact carries_writeCell tidy (Exec.upvalueCell_known tidy found) v
  | defaultEnv => cases h
  | global name env =>
    simp only [State.writeSymbol] at h
    cases found : s.readSymbol scope env with
    | error e =>
      rw [found] at h
      cases h
    | ok object =>
      rw [found] at h
      cases object <;> cases h
      exact (Level.of_world _).carries rfl tidy

/-! ## Detaching -/

theorem ValueStack.get_clearSlots_above (v : ValueStack) (low : Nat) {high j : Nat}
    (h : high < j) : (v.clearSlots low high).values[j]? = v.values[j]? := by
  unfold ValueStack.clearSlots
  have bound : min (high + 1) v.size - low + low ≤ j ∨ min (high + 1) v.size - low = 0 := by omega
  generalize min (high + 1) v.size - low = n at *
  induction n generalizing low v with
  | zero => rfl
  | succ n ih =>
    have hj : j ≠ low := by omega
    exact (ih (v.set low .nil) (low + 1) (by omega)).trans (ValueStack.get_set v .nil hj)

/-- Slots are cleared that are neither captured nor followed. -/
theorem carries_clearSlots (tidy : s.Tidy L) (here : s.HasCurrent) (low high : Nat)
    (captured : ∀ x k, s.cell x = .opened s.current k → k < low ∨ high < k)
    (spared : ∀ d k, L s.current d k → k < low ∨ high < k) :
    Carries L [] (s.callsOf s.current).length s (s.modifyStack (·.clearSlots low high)) := by
  have shallow : Shallow s (s.modifyStack (·.clearSlots low high)) := .of_stack _
  have heights : ∀ c, (s.modifyStack (·.clearSlots low high)).heightOf c = s.heightOf c :=
    fun c => State.view_modifyProcessorOf s _ _ c (fun p => p.stack.size) fun p =>
      ValueStack.size_clearSlots p.stack low high
  have slots : ∀ c k, (c = s.current → k < low ∨ high < k) →
      (s.modifyStack (·.clearSlots low high)).slot c k = s.slot c k := by
    intro c k outside
    by_cases hc : c = s.current
    · subst hc
      have stack := congrArg Processor.stack (State.processor_modifyProcessor here fun p =>
        { p with stack := p.stack.clearSlots low high })
      refine (congrArg (·.values[k]?) stack).trans ?_
      obtain below | above := outside rfl
      · exact ValueStack.get_clearSlots _ high below
      · exact ValueStack.get_clearSlots_above _ low above
    · simp only [State.slot, State.stackOf, State.modifyStack, State.modifyProcessor,
        State.processorOf_modifyProcessorOf_ne s _ hc]
  refine ⟨rfl, by simp [State.modifyStack, State.modifyProcessor, State.modifyProcessorOf],
    faithful_of_slots rfl (exists_made rfl) fun x c k hx => slots c k fun hc =>
      captured x k (hc ▸ hx),
    shallow.tidy tidy fun c => by rw [heights]; exact tidy.pinned c,
    fun _ _ => by rw [shallow.calls],
    Nat.le_of_eq (congrArg List.length (shallow.calls _)).symm, fun c _ => shallow.calls c,
    fun c d k hk => ⟨slots c k fun hc => spared d k (hc ▸ hk), fun _ hx => hx⟩⟩

/-- The running frame without its open cells at the slots that `p` picks. -/
def State.detached (s : State ν) (f : Frame) (p : Nat → Bool) : Frame :=
  { f with cells := (s.closeCells p f.cells).1 }

/-- Cells of the running frame are closed with the values of their slots. -/
def State.detach (s : State ν) (f : Frame) (p : Nat → Bool) : State ν :=
  (s.closeCells p f.cells).2.modifyFrames fun frames =>
    frames.setIfInBounds (frames.size - 1) (s.detached f p)

section Detach

variable {p : Nat → Bool} (tidy : s.Tidy L) (here : s.HasCurrent)
  (calls : s.callsOf s.current = f :: rest)

theorem current_detach (f : Frame) (p : Nat → Bool) : (s.detach f p).current = s.current :=
  (rigid_closeCells s p f.cells).current

theorem processorOf_closeCells (f : Frame) (p : Nat → Bool) (c : ThreadId) :
    (s.closeCells p f.cells).2.processorOf c = s.processorOf c := by
  simp only [State.processorOf, processors_closeCells]

include here calls in
theorem callsOf_detach : (s.detach f p).callsOf s.current = s.detached f p :: rest := by
  have current := (rigid_closeCells s p f.cells).current
  have here' : (s.closeCells p f.cells).2.HasCurrent := by
    unfold State.HasCurrent
    rw [current, processors_closeCells]
    exact here
  have calls' : (s.closeCells p f.cells).2.callsOf (s.closeCells p f.cells).2.current =
      f :: rest := by
    rw [← calls, current]
    simp only [State.callsOf, processorOf_closeCells]
  have own := callsOf_setTopFrame here' calls' (s.detached f p)
  rwa [current] at own

theorem callsOf_detach_ne (f : Frame) (p : Nat → Bool) {c : ThreadId} (other : c ≠ s.current) :
    (s.detach f p).callsOf c = s.callsOf c := by
  have current := (rigid_closeCells s p f.cells).current
  unfold State.detach
  rw [callsOf_modifyFrames_ne _ (current ▸ other)]
  simp only [State.callsOf, processorOf_closeCells]

theorem stackOf_detach (f : Frame) (p : Nat → Bool) (c : ThreadId) :
    (s.detach f p).stackOf c = s.stackOf c := by
  unfold State.detach
  rw [stackOf_modifyFrames]
  simp only [State.stackOf, processorOf_closeCells]

theorem heightOf_detach (f : Frame) (p : Nat → Bool) (c : ThreadId) :
    (s.detach f p).heightOf c = s.heightOf c := by
  simp only [State.heightOf, stackOf_detach]

theorem size_detach (f : Frame) (p : Nat → Bool) : (s.detach f p).cells.size = s.cells.size :=
  s.size_closeCells p f.cells

theorem closures_detach (f : Frame) (p : Nat → Bool) : (s.detach f p).closures = s.closures :=
  view_closeCells State.closures (fun _ _ => rfl) s p f.cells

/-- What is still open was so before, and is not at one of the slots. -/
theorem opened_of_detach {x : CellId} {o : ThreadId} {k : Nat}
    (opened : (s.detach f p).cell x = .opened o k) :
    s.cell x = .opened o k ∧ (x ∈ f.cells → p k = false) := by
  change (s.closeCells p f.cells).2.cell x = .opened o k at opened
  obtain ⟨same, stays⟩ | ⟨-, -, closed⟩ := s.cell_closeCells p f.cells x
  · have before := same.symm.trans opened
    exact ⟨before, fun member => stays member o k before⟩
  · rw [closed] at opened
    cases opened

theorem faithful_detach (f : Frame) (p : Nat → Bool) : Faithful [] s (s.detach f p) := by
  have level : Faithful [] (s.closeCells p f.cells).2 (s.detach f p) :=
    faithful_of_slots rfl (exists_made rfl) fun _ c k _ =>
      congrArg (·.values[k]?) (stackOf_modifyFrames (s := (s.closeCells p f.cells).2) _ c)
  exact (faithful_closeCells s p f.cells).trans level

include tidy here calls in
theorem tidy_detach : (s.detach f p).Tidy L := by
  have before : ∀ {x o k}, (s.detach f p).cell x = .opened o k → s.cell x = .opened o k :=
    fun hx => (opened_of_detach hx).1
  have own := callsOf_detach (p := p) here calls
  have members := s.mem_closeCells p f.cells
  have reseats : s.Reseats s.current (s.detach f p) :=
    ⟨fun _ => callsOf_detach_ne f p, fun c _ => heightOf_detach f p c,
      Nat.le_of_eq (size_detach f p).symm, closures_detach f p, fun _ _ _ hx => .inl (before hx)⟩
  refine tidy.reseats reseats ?_ (fun x k hx => ?_)
    (fun x y k hx hy => tidy.apart x y _ k (before hx) (before hy)) (fun g hg x hx => ?_)
    fun d k hk => ?_
  · have top := tidy.pinned s.current
    rw [calls] at top
    rw [heightOf_detach, own]
    refine ⟨⟨fun x hx o k hxo => ?_, top.1.locals⟩, top.2.closed fun _ _ _ _ _ _ => before⟩
    exact top.1.cells x ((members x).1 hx) o k (before hxo)
  · obtain ⟨opened, outside⟩ := opened_of_detach hx
    obtain ⟨h, hh, member⟩ := tidy.listed x _ k opened
    rw [calls] at hh
    rw [own]
    obtain rfl | hh := List.mem_cons.1 hh
    · exact ⟨s.detached h p, List.mem_cons_self ..,
        (members x).2 member _ k opened (outside member)⟩
    · exact ⟨h, List.mem_cons_of_mem _ hh, member⟩
  · have known : ∀ g ∈ f :: rest, ∀ x ∈ g.cells, x.index < s.cells.size :=
      calls ▸ tidy.known s.current
    rw [own] at hg
    rw [size_detach]
    obtain rfl | hg := List.mem_cons.1 hg
    · exact known f (List.mem_cons_self ..) x ((members x).1 hx)
    · exact known g (List.mem_cons_of_mem _ hg) x hx
  · have deep := (tidy.covers s.current d k hk).2
    rw [calls] at deep
    rwa [own]

include tidy here calls in
theorem carries_detach (spared : ∀ d k, L s.current d k → p k = false) :
    Carries L [] rest.length s (s.detach f p) := by
  have top := tidy.pinned s.current
  rw [calls] at top
  have own := callsOf_detach (p := p) here calls
  refine ⟨current_detach f p, ?_, faithful_detach f p, tidy_detach tidy here calls, fun m hm => ?_,
    by rw [own]; exact Nat.le_succ _, fun _ => callsOf_detach_ne f p,
    fun c d k hk => ⟨congrArg (·.values[k]?) (stackOf_detach f p c), fun x hx => ?_⟩⟩
  · simp [State.detach, State.modifyFrames, State.modifyProcessor, State.modifyProcessorOf,
      processors_closeCells]
  · rw [own, calls, bottom_cons hm, bottom_cons hm]
  · change (s.closeCells p f.cells).2.cell x = .opened c k
    obtain ⟨same, -⟩ | ⟨member, ⟨o, j, hx', closes⟩, -⟩ := s.cell_closeCells p f.cells x
    · exact same.trans hx
    · obtain ⟨rfl, rfl⟩ := Cell.opened.inj (hx'.symm.trans hx)
      obtain ⟨-, rfl, -⟩ := top.1.cells x member _ _ hx
      rw [spared d _ hk] at closes
      cases closes

end Detach

namespace Exec

theorem closeLocals_run (top : s.processor.frames.back? = some f) (scope : Scope)
    (first last : Nat) :
    closeLocals scope first last s = .ok ⟨⟩ ((s.detach f fun slot =>
      scope.base + first ≤ slot && slot ≤ scope.base + last).modifyStack
        fun stack => stack.clearSlots (scope.base + first) (scope.base + last)) := by
  simp only [closeLocals, topFrame?, bind, EStateM.bind, get, getThe, MonadStateOf.get,
    EStateM.get, pure, EStateM.pure, top]
  rfl

/-- Slots are detached from their cells, which keep their values. -/
theorem closeLocals_leads (tidy : s.Tidy L) (here : s.HasCurrent)
    (calls : s.callsOf s.current = f :: rest) {scope : Scope} (base : scope.base = f.base)
    (first last : Nat) (spared : ∀ k, L s.current (rest.length + 1) k →
      k < scope.base + first ∨ scope.base + last < k) :
    Leads (Carries L [] rest.length) s (closeLocals scope first last) fun _ t =>
      ∀ k x, scope.base + first ≤ k → k ≤ scope.base + last → t.cell x ≠ .opened s.current k := by
  have run := closeLocals_run (State.back?_of_calls calls) scope first last
  have above : f.activation.floor ≤ scope.base + first := by
    have : f.activation.base = f.base := rfl
    have := f.activation.floor_le_base
    omega
  -- what is followed in the frames below lies below the floor
  have spared : ∀ d k, L s.current d k → k < scope.base + first ∨ scope.base + last < k := by
    intro d k hk
    obtain ⟨pos, deep⟩ := tidy.covers _ d k hk
    have top := tidy.pinned s.current
    rw [calls] at top deep
    obtain rfl | lower := Nat.eq_or_lt_of_le deep
    · exact spared k hk
    · have := top.2.lt_of_followed hk pos (Nat.le_of_lt_succ lower)
      exact .inl (by omega)
  have carries := carries_detach (p := fun slot =>
    scope.base + first ≤ slot && slot ≤ scope.base + last) tidy here calls fun d k hk => by
      have := spared d k hk
      simp only [Bool.and_eq_false_iff, decide_eq_false_iff_not, Nat.not_le]
      exact this
  have own := callsOf_detach (p := fun slot =>
    scope.base + first ≤ slot && slot ≤ scope.base + last) here calls
  generalize scope.base + first = low at *
  generalize scope.base + last = high at *
  -- what is still open is outside of the slots that are detached
  have outside : ∀ x k, (s.detach f fun slot => low ≤ slot && slot ≤ high).cell x =
      .opened s.current k → k < low ∨ high < k := by
    intro x k hx
    obtain ⟨before, apart⟩ := opened_of_detach hx
    by_cases member : x ∈ f.cells
    · have := apart member
      simp only [Bool.and_eq_false_iff, decide_eq_false_iff_not, Nat.not_le] at this
      exact this
    · exact .inl (Nat.lt_of_lt_of_le (tidy.lt_floor calls before member) above)
  have depth := congrArg List.length own
  have cleared := carries_clearSlots carries.tidy (carries.hasCurrent here) low high
    (by rw [carries.current]; exact outside) (by rw [carries.current]; exact spared)
  rw [carries.current, depth] at cleared
  refine leads_of_ok _ _ run (carries.trans (cleared.mono (Nat.le_succ _))) fun k x hk hk' hx => ?_
  have := outside x k hx
  omega

/-- The slots of a function take the place of its arguments. The frame owns nothing yet. -/
theorem beginFunction_leads (tidy : s.Tidy L) (here : s.HasCurrent)
    (calls : s.callsOf s.current = f :: rest) {scope : Scope} (base : scope.base = f.base)
    (uncaptured : ∀ x ∈ f.cells, ∀ o k, s.cell x ≠ .opened o k)
    (fresh : ∀ k, ¬ L s.current (rest.length + 1) k) (p : Proto) (i : Instruction) :
    Leads (Carries L [] (s.callsOf s.current).length) s (beginFunction p scope i)
      fun _ _ => True := by
  by_cases high : scope.base ≤ s.heightOf s.current
  · obtain ⟨vs, split, -⟩ := splitOff_ok scope.base high
    have pinned : Pinned L s.cell s.current (s.callsOf s.current) scope.base := by
      have top := tidy.pinned s.current
      rw [calls] at top ⊢
      refine ⟨⟨fun x hx o k hk => absurd hk (uncaptured x hx o k),
        fun k hk => absurd hk (fresh k)⟩, top.2.mono ?_⟩
      have : f.activation.base = f.base := rfl
      have := f.activation.floor_le_base
      omega
    have cut := carries_truncate tidy here pinned
    obtain ⟨pushed, -⟩ := carries_pushAll cut.tidy (cut.hasCurrent here)
      (bindArguments p (operand i.a) (i.b != 0) f.flags.methodCall vs)
    refine leads_of_ok ⟨⟩ _ ?_ (cut.trans (pushed.mono cut.deep)) trivial
    simp only [beginFunction, topFrame?, bind, EStateM.bind, get, getThe, MonadStateOf.get,
      EStateM.get, pure, EStateM.pure, State.back?_of_calls calls, split]
    rfl
  · refine leads_of_error (.defect .stackUnderflow) s ?_ (.refl tidy (Nat.le_refl _))
    have missing : s.processor.stack.above? scope.base = none := if_neg high
    simp only [beginFunction, splitOff, topFrame?, stack, bind, EStateM.bind, get, getThe,
      MonadStateOf.get, EStateM.get, pure, EStateM.pure, missing]
    rfl

end Exec

end ScriptMachine
