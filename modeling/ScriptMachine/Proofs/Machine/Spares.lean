import ScriptMachine.Proofs.Machine.Owners

/-!
# Frames that can be spared

A function that calls another in tail position only waits for the result, to return it. When the
call takes over the frame, that frame and its slots are not there, its captured variables have
values of their own, and all that stands above stands further down.

* `Cut.Trims`: a part of a value stack is taken out.
* `Spare`: a frame that can be spared. `FramesTrim`: the frames of its thread without it.
* `State.Trims`: a state without the frame.
* `State.Trims.writeCell`, `State.Trims.closeCells`: captured variables, which may be those of the
  frame, are written and detached.
-/

namespace ScriptMachine

variable {ν : Type}

/-- A part of a value stack: so many slots above so many others. -/
structure Cut where
  low : Nat := 0
  gap : Nat := 0

namespace Cut

def high (q : Cut) : Nat := q.low + q.gap

/-- The slot is not in the part. -/
def Keeps (q : Cut) (i : Nat) : Prop := i < q.low ∨ q.high ≤ i

/-- The place of a slot when the part is taken out. -/
def shift (q : Cut) (i : Nat) : Nat := if i < q.low then i else i - q.gap

/-- The part is taken out of a stack. -/
structure Trims (q : Cut) (v v' : ValueStack) : Prop where
  room : q.high ≤ v.size
  size : v'.size + q.gap = v.size
  below : ∀ i < q.low, v'.values[i]? = v.values[i]?
  above : ∀ i, q.low ≤ i → v'.values[i]? = v.values[i + q.gap]?

variable {q : Cut} {v v' : ValueStack} {i n : Nat}

theorem shift_of_high (hi : q.high ≤ i) : q.shift i = i - q.gap := by
  unfold shift high at *
  split <;> omega

theorem sub_add (h : q.high ≤ n) (i : Nat) : n - q.gap + i = n + i - q.gap := by
  unfold high at h
  omega

namespace Trims

theorem getElem? (h : q.Trims v v') (hi : q.Keeps i) :
    v'.values[q.shift i]? = v.values[i]? := by
  unfold Keeps high at hi
  unfold shift
  split
  · exact h.below i ‹_›
  · rw [h.above _ (by omega)]
    congr 1
    omega

theorem get (h : q.Trims v v') (hi : q.Keeps i) : v'.get (q.shift i) = v.get i := by
  rw [ValueStack.get, ValueStack.get, h.getElem? hi]

theorem refl (v : ValueStack) : Trims {} v v := ⟨Nat.zero_le _, rfl, fun _ _ => rfl, fun _ _ => rfl⟩

theorem pushAll (h : q.Trims v v') (vs : List Value) : q.Trims (v.pushAll vs) (v'.pushAll vs) := by
  obtain ⟨room, size, below, above⟩ := h
  refine ⟨?_, ?_, fun i hi => ?_, fun i hi => ?_⟩
  · rw [ValueStack.size_pushAll]
    omega
  · simp only [ValueStack.size_pushAll]
    omega
  all_goals
    simp only [ValueStack.pushAll, ValueStack.size, List.foldl_push_eq_append',
      Array.getElem?_append, high] at *
  · rw [below i hi, if_pos (by omega), if_pos (by omega)]
  · rw [above i hi]
    by_cases inside : i < v'.values.size
    · rw [if_pos inside, if_pos (by omega)]
    · rw [if_neg inside, if_neg (by omega)]
      congr 1
      omega

theorem truncate (h : q.Trims v v') (hn : q.high ≤ n) :
    q.Trims (v.truncate n) (v'.truncate (n - q.gap)) := by
  obtain ⟨room, size, below, above⟩ := h
  unfold high at *
  refine ⟨?_, ?_, fun i hi => ?_, fun i hi => ?_⟩
  · rw [ValueStack.size_truncate]
    exact Nat.le_min.2 ⟨hn, room⟩
  · simp only [ValueStack.size_truncate]
    omega
  all_goals
    simp only [ValueStack.truncate, Array.shrink_eq_take, Array.take_eq_extract,
      Array.getElem?_extract, ValueStack.size, Nat.zero_add, Nat.sub_zero] at *
  · rw [below i hi]
    split <;> split <;> first | rfl | omega
  · rw [above i hi]
    split <;> split <;> first | rfl | grind

theorem set (h : q.Trims v v') (hi : q.Keeps i) (x : Value) :
    q.Trims (v.set i x) (v'.set (q.shift i) x) := by
  obtain ⟨room, size, below, above⟩ := h
  simp only [Keeps, shift, high, ValueStack.size] at *
  constructor
  · simpa [high, ValueStack.size, ValueStack.set] using room
  · simpa [ValueStack.size, ValueStack.set] using size
  all_goals
    intro j hj
    simp only [ValueStack.set, Array.getElem?_setIfInBounds]
    split <;> grind

theorem hide (h : q.Trims v v') (hi : ¬ q.Keeps i) (x : Value) : q.Trims (v.set i x) v' := by
  obtain ⟨room, size, below, above⟩ := h
  simp only [Keeps, high, ValueStack.size] at *
  constructor
  · simpa [high, ValueStack.size, ValueStack.set] using room
  · simpa [ValueStack.size, ValueStack.set] using size
  all_goals
    intro j hj
    simp only [ValueStack.set, Array.getElem?_setIfInBounds]
    grind

theorem peek? (h : q.Trims v v') (room : q.high + n ≤ v.size) (hi : i < n) :
    v'.peek? i = v.peek? i := by
  have size := h.size
  have kept : q.Keeps (v.size - 1 - i) := .inr (by omega)
  have same := h.getElem? kept
  rw [shift_of_high (by omega)] at same
  unfold high at room
  rw [ValueStack.peek?, ValueStack.peek?, if_pos (by omega), if_pos (by omega), ← same]
  congr 1
  omega

theorem poke (h : q.Trims v v') (room : q.high + n ≤ v.size) (hi : i < n) (x : Value) :
    q.Trims (v.poke i x) (v'.poke i x) := by
  have size := h.size
  have kept : q.Keeps (v.size - 1 - i) := .inr (by omega)
  have poked := h.set kept x
  have top : ∀ v : ValueStack, i < v.size → v.poke i x = v.set (v.size - 1 - i) x := fun v hi => by
    exact if_pos hi
  rw [shift_of_high (by omega)] at poked
  unfold high at room
  rw [top v (by omega), top v' (by omega)]
  rwa [show v'.size - 1 - i = v.size - 1 - i - q.gap by omega]

theorem above? (h : q.Trims v v') (hn : q.high ≤ n) : v'.above? (n - q.gap) = v.above? n := by
  have size := h.size
  have kept : ∀ j, v'.values[n - q.gap + j]? = v.values[n + j]? := fun j => by
    have same := h.getElem? (i := n + j) (.inr (by omega))
    rwa [shift_of_high (by omega), show n + j - q.gap = n - q.gap + j by
      unfold high at hn; omega] at same
  unfold high at hn
  unfold ValueStack.above?
  by_cases inside : n ≤ v.size
  · rw [if_pos inside, if_pos (by omega)]
    refine congrArg (fun vs : Array Value => some vs.toList) (Array.ext_getElem? fun j => ?_)
    simp only [Array.getElem?_extract, ValueStack.size] at *
    rw [kept j]
    split <;> split <;> first | rfl | omega
  · rw [if_neg inside, if_neg (by omega)]

theorem clearSlots {a b : Nat} (h : q.Trims v v') (ha : q.high ≤ a) (hb : q.high ≤ b) :
    q.Trims (v.clearSlots a b) (v'.clearSlots (a - q.gap) (b - q.gap)) := by
  have size := h.size
  unfold ValueStack.clearSlots
  have count : min (b - q.gap + 1) v'.size - (a - q.gap) = min (b + 1) v.size - a := by
    unfold high at ha hb
    omega
  rw [count]
  generalize min (b + 1) v.size - a = n
  clear size count hb
  induction n generalizing v v' a with
  | zero => exact h
  | succ n ih =>
    have cleared := h.set (.inr ha) .nil
    rw [shift_of_high ha] at cleared
    have next : a - q.gap + 1 = a + 1 - q.gap := by
      unfold high at ha
      omega
    simp only [List.range'_succ, List.foldl_cons]
    rw [next]
    exact ih cleared (Nat.le_succ_of_le ha)

end Trims

end Cut

/-! ## Frames -/

def Frame.lowered (f : Frame) (n : Nat) : Frame := { f with base := f.base - n }

/-- A frame that only waits for the result of the call above it, to return it. -/
structure Spare where
  thread : ThreadId
  frame : Frame
  closure : ClosureId
  /-- The frames below it, the innermost first. -/
  rest : List Frame
  /-- The slots between its floor and that of the frame above it. -/
  slots : Nat
  /-- Where it goes on. -/
  address : Nat
  callee : frame.callee = .script closure
  bare : frame.handlers.isEmpty = true
  room : 0 < slots

namespace Spare

def cut (x : Spare) : Cut := ⟨x.frame.activation.floor, x.slots⟩

/-- A frame was called from the frame that can be spared. -/
structure Calls (x : Spare) (f : Frame) : Prop where
  script : f.isNative = false
  bare : f.handlers.isEmpty = true
  flags : f.flags.inherited = {}
  plain : f.flags.methodCall = false
  returnAddress : f.returnAddress = x.address
  floor : f.activation.floor = x.cut.high

/-- The frame that was called, when it takes over the frame that can be spared. -/
def taken (x : Spare) (f : Frame) : Frame :=
  { f.lowered x.slots with
    returnAddress := x.frame.returnAddress
    flags := x.frame.flags.inherited.union { tailCall := true } }

/-- The frame returns what it waits for, and the cells of the frames up to it are those of slots up
to its own. -/
structure Fits (x : Spare) (closures : Array Closure) (cells : Array Cell) : Prop where
  returns : ∃ f i, closures[x.closure.index]? = some f ∧ f.proto.code[x.address]? = some i ∧
    i.op = .ret ∧ i.a ≠ 0
  known : ∀ g ∈ x.frame :: x.rest, ∀ y ∈ g.cells, y.index < cells.size
  below : ∀ g ∈ x.rest, ∀ y ∈ g.cells, ∀ k,
    cells[y.index]? = some (.opened x.thread k) → k < x.cut.low
  own : ∀ y ∈ x.frame.cells, ∀ k, cells[y.index]? = some (.opened x.thread k) → k < x.cut.high

/-- Closures come, and cells come or are closed. -/
theorem Fits.mono {x : Spare} {closures closures' : Array Closure} {cells cells' : Array Cell}
    (h : x.Fits closures cells) (more : ∃ made, closures' = closures ++ made)
    (size : cells.size ≤ cells'.size)
    (opened : ∀ i < cells.size, ∀ o k, cells'[i]? = some (.opened o k) →
      cells[i]? = some (.opened o k)) : x.Fits closures' cells' := by
  obtain ⟨made, rfl⟩ := more
  refine ⟨?_, fun g hg y hy => Nat.lt_of_lt_of_le (h.known g hg y hy) size, fun g hg y hy k hk => ?_,
    fun y hy k hk => ?_⟩
  · obtain ⟨f, i, hf, code⟩ := h.returns
    refine ⟨f, i, ?_, code⟩
    rw [Array.getElem?_append_left (Array.getElem?_eq_some_iff.1 hf).1]
    exact hf
  · exact h.below g hg y hy k (opened _ (h.known g (List.mem_cons_of_mem _ hg) y hy) _ _ hk)
  · exact h.own y hy k (opened _ (h.known _ (List.mem_cons_self ..) y hy) _ _ hk)

/-- The frame that can be spared on a thread. -/
def on (x : Option Spare) (c : ThreadId) : Option Spare := x.filter (·.thread = c)

/-- The slots that can be spared on a thread. -/
def part (x : Option Spare) (c : ThreadId) : Cut := (on x c).elim {} cut

end Spare

/-- The frames of a thread, the innermost first, without the one that can be spared. -/
inductive FramesTrim : Option Spare → List Frame → List Frame → Prop
  | same {fs : List Frame} : FramesTrim none fs fs
  | called {x : Spare} {f : Frame} : x.Calls f →
      FramesTrim (some x) (f :: x.frame :: x.rest) (x.taken f :: x.rest)
  | above {x : Spare} {f : Frame} {fs fs' : List Frame} : FramesTrim (some x) fs fs' →
      x.cut.high ≤ f.activation.floor → FramesTrim (some x) (f :: fs) (f.lowered x.slots :: fs')

/-- How a suspended thread goes on, apart from the slots of a frame that is popped. -/
inductive PendingTrim : Option (Resumption × Mark) → Option (Resumption × Mark) → Prop
  | none : PendingTrim none none
  | deliver {f : Frame} (base : Nat) :
      PendingTrim (some (.deliver f, {})) (some (.deliver { f with base }, {}))

structure Processor.Trims (x : Option Spare) (p p' : Processor) : Prop where
  stack : (x.elim {} Spare.cut).Trims p.stack p'.stack
  frames : FramesTrim x p.frames.toList.reverse p'.frames.toList.reverse
  nestedCalls : p'.nestedCalls = p.nestedCalls
  asyncMode : p'.asyncMode = p.asyncMode
  autoYield : p.autoYield = 0 ∧ p'.autoYield = 0
  pending : PendingTrim p.pending p'.pending

/-- A cell, with what it holds when its slot is taken out. -/
inductive Cell.Trims (x : Option Spare) (stackOf : ThreadId → ValueStack) : Cell → Cell → Prop
  | closed (v : Value) : Trims x stackOf (.closed v) (.closed v)
  | opened {o : ThreadId} {i : Nat} : (Spare.part x o).Keeps i →
      Trims x stackOf (.opened o i) (.opened o ((Spare.part x o).shift i))
  | hidden {o : ThreadId} {i : Nat} : ¬ (Spare.part x o).Keeps i →
      Trims x stackOf (.opened o i) (.closed ((stackOf o).get i))

/-- A state in which frames are taken over whenever that is possible, without one that can be
spared. -/
structure State.Trims (x : Option Spare) (s t : State ν) : Prop where
  world : t.world = s.world
  limit : s.options.instructionLimit = none
  options : t.options = { s.options with tailCallThreshold := 0 }
  closures : t.closures = s.closures
  coroutines : t.coroutines = s.coroutines
  active : t.active = s.active
  current : t.current = s.current
  entries : t.entries = s.entries
  size : t.processors.size = s.processors.size
  processors : ∀ c, (s.processorOf c).Trims (Spare.on x c) (t.processorOf c)
  cellCount : t.cells.size = s.cells.size
  cells : ∀ y, Cell.Trims x s.stackOf (s.cell y) (t.cell y)
  fits : ∀ y ∈ x, y.Fits s.closures s.cells

namespace State.Trims

variable {x : Option Spare} {s t : State ν} {c : ThreadId}

theorem stackOf (h : s.Trims x t) (c : ThreadId) : (Spare.part x c).Trims (s.stackOf c) (t.stackOf c) :=
  (h.processors c).stack

theorem callsOf (h : s.Trims x t) (c : ThreadId) :
    FramesTrim (Spare.on x c) (s.callsOf c) (t.callsOf c) :=
  (h.processors c).frames

theorem readCell (h : s.Trims x t) (y : CellId) : t.readCell y = s.readCell y := by
  unfold State.readCell
  have cell := h.cells y
  generalize s.cell y = a at cell
  generalize t.cell y = b at cell
  cases cell with
  | closed v => rfl
  | opened kept => exact (h.stackOf _).get kept
  | hidden _ => rfl

/-- The world, and what is known of closures and coroutines. -/
theorem scene (h : s.Trims x t) : t.scene = s.scene := by
  simp only [State.scene, State.heap, State.names, h.world]
  congr 1
  · simp only [State.closure, State.native, h.closures, h.world]
  · funext c
    simp only [State.coroutineState, State.coroutine, h.coroutines]

theorem closure (h : s.Trims x t) (f : ClosureId) : t.closure f = s.closure f := by
  simp only [State.closure, h.closures]

theorem heap (h : s.Trims x t) : t.heap = s.heap := congrArg World.heap h.world

/-! ### Changes -/

theorem arrange (h : s.Trims x t) (world : World ν) :
    State.Trims x { s with world } { t with world } :=
  { h with world := rfl }

theorem cells_congr {stackOf stackOf' : ThreadId → ValueStack} {a b : Cell}
    (same : ∀ o i, ¬ (Spare.part x o).Keeps i → (stackOf' o).get i = (stackOf o).get i)
    (h : Cell.Trims x stackOf a b) : Cell.Trims x stackOf' a b := by
  cases h with
  | closed v => exact .closed v
  | opened kept => exact .opened kept
  | hidden out => exact same _ _ out ▸ .hidden out

/-- One processor changes, but not in the slots that are taken out. -/
theorem modifyProcessorOf (h : s.Trims x t) {f f' : Processor → Processor}
    (changed : (f (s.processorOf c)).Trims (Spare.on x c) (f' (t.processorOf c)))
    (hidden : ∀ i, ¬ (Spare.part x c).Keeps i →
      (f (s.processorOf c)).stack.get i = (s.stackOf c).get i) :
    (s.modifyProcessorOf c f).Trims x (t.modifyProcessorOf c f') := by
  have range : c.index < t.processors.size ↔ c.index < s.processors.size := by rw [h.size]
  refine { h with size := ?_, processors := fun d => ?_, cells := fun y => ?_ }
  · simp only [State.modifyProcessorOf, Array.size_modify, h.size]
  · by_cases hd : d = c
    · subst hd
      by_cases hr : d.index < s.processors.size
      · rw [processorOf_modifyProcessorOf s f hr, processorOf_modifyProcessorOf t f' (range.2 hr)]
        exact changed
      · have out : ∀ (s : State ν) f, ¬ d.index < s.processors.size →
            (s.modifyProcessorOf d f).processorOf d = s.processorOf d := fun s f hr => by
          simp [processorOf, State.modifyProcessorOf, hr]
        rw [out s f hr, out t f' (mt range.1 hr)]
        exact h.processors d
    · rw [processorOf_modifyProcessorOf_ne s f hd, processorOf_modifyProcessorOf_ne t f' hd]
      exact h.processors d
  · refine cells_congr (fun o i out => ?_) (h.cells y)
    by_cases ho : o = c
    · subst ho
      by_cases hr : o.index < s.processors.size
      · rw [State.stackOf, processorOf_modifyProcessorOf s f hr]
        exact hidden i out
      · simp [State.stackOf, processorOf, State.modifyProcessorOf, hr]
    · rw [State.stackOf, processorOf_modifyProcessorOf_ne s f ho]
      rfl

/-- Slots above the part that is taken out change. -/
theorem modifyStack (h : s.Trims x t) {f f' : ValueStack → ValueStack}
    (changed : (Spare.part x s.current).Trims (f s.processor.stack) (f' t.processor.stack))
    (hidden : ∀ i, ¬ (Spare.part x s.current).Keeps i →
      (f s.processor.stack).get i = s.processor.stack.get i) :
    (s.modifyStack f).Trims x (t.modifyStack f') := by
  unfold State.modifyStack State.modifyProcessor
  unfold State.processor at changed hidden
  rw [h.current] at changed ⊢
  have processor := h.processors s.current
  exact h.modifyProcessorOf { processor with stack := changed } hidden

theorem modifyFrames (h : s.Trims x t) {f f' : Array Frame → Array Frame}
    (changed : FramesTrim (Spare.on x s.current) (f s.processor.frames).toList.reverse
      (f' t.processor.frames).toList.reverse) :
    (s.modifyFrames f).Trims x (t.modifyFrames f') := by
  unfold State.modifyFrames State.modifyProcessor
  unfold State.processor at changed
  rw [h.current] at changed ⊢
  have processor := h.processors s.current
  exact h.modifyProcessorOf { processor with frames := changed } fun _ _ => rfl

theorem fits_push (h : s.Trims x t) (a : Cell) : ∀ y ∈ x, y.Fits s.closures (s.cells.push a) := by
  refine fun y hy => (h.fits y hy).mono ⟨#[], Array.append_empty.symm⟩ (by simp) fun i hi o k hk => ?_
  rwa [Array.getElem?_push, if_neg (Nat.ne_of_lt hi)] at hk

theorem newClosed (h : s.Trims x t) (v : Value) :
    (s.newCell (.closed v)).2.Trims x (t.newCell (.closed v)).2 := by
  refine { h with
    cellCount := by simp only [newCell, Array.size_push, h.cellCount]
    cells := fun y => ?_
    fits := h.fits_push _ }
  rw [cell_newCell, cell_newCell, h.cellCount]
  split
  · exact .closed v
  · exact h.cells y

theorem newOpened (h : s.Trims x t) {o : ThreadId} {i : Nat} (kept : (Spare.part x o).Keeps i) :
    (s.newCell (.opened o i)).2.Trims x (t.newCell (.opened o ((Spare.part x o).shift i))).2 := by
  refine { h with
    cellCount := by simp only [newCell, Array.size_push, h.cellCount]
    cells := fun y => ?_
    fits := h.fits_push _ }
  rw [cell_newCell, cell_newCell, h.cellCount]
  split
  · exact .opened kept
  · exact h.cells y

theorem newClosure (h : s.Trims x t) (f : Closure) :
    (t.newClosure f).1 = (s.newClosure f).1 ∧ (s.newClosure f).2.Trims x (t.newClosure f).2 := by
  simp only [State.newClosure, h.closures]
  exact ⟨trivial, { h with
    closures := rfl
    fits := fun y hy => (h.fits y hy).mono ⟨#[f], Array.push_eq_append⟩ (Nat.le_refl _)
      fun _ _ _ _ => id }⟩

end State.Trims

/-! ## The frame on top -/

/-- The second frame is the first with its slots further down, on top of other frames. -/
structure Frame.Lowers (f g : Frame) (q : Cut) : Prop where
  high : q.high ≤ f.activation.floor
  same : g = { f with
    base := f.base - q.gap, returnAddress := g.returnAddress, flags := g.flags }
  methodCall : g.flags.methodCall = f.flags.methodCall

namespace FramesTrim

variable {x : Option Spare} {f : Frame} {fs gs : List Frame}

theorem push (h : FramesTrim x fs gs) (high : (x.elim {} Spare.cut).high ≤ f.activation.floor) :
    FramesTrim x (f :: fs) (f.lowered (x.elim {} Spare.cut).gap :: gs) := by
  cases h with
  | same => exact .same
  | called calls => exact .above (.called calls) high
  | above below low => exact .above (.above below low) high

/-- The frames on top belong to each other, and may list other cells. -/
theorem top (h : FramesTrim x (f :: fs) gs) : ∃ g gs', gs = g :: gs' ∧
    f.Lowers g (x.elim {} Spare.cut) ∧
    ∀ cells, FramesTrim x ({ f with cells } :: fs) ({ g with cells } :: gs') := by
  cases h with
  | same => exact ⟨f, fs, rfl, ⟨Nat.zero_le _, rfl, rfl⟩, fun _ => .same⟩
  | @called y _ calls =>
    refine ⟨_, _, rfl, ⟨Nat.le_of_eq calls.floor.symm, rfl, ?_⟩, fun cells => .called ?_⟩
    · rw [calls.plain]
      simp [Spare.taken, FrameFlags.union, FrameFlags.inherited, FrameFlags.inter,
        FrameFlags.inheritable]
    · exact ⟨calls.script, calls.bare, calls.flags, calls.plain, calls.returnAddress, calls.floor⟩
  | above below high => exact ⟨_, _, rfl, ⟨high, rfl, rfl⟩, fun cells => .above below high⟩

theorem nil_iff (h : FramesTrim x fs gs) : fs = [] ↔ gs = [] := by
  cases h with
  | same => exact Iff.rfl
  | called | above => exact ⟨nofun, nofun⟩

theorem mem {y : Spare} (h : FramesTrim (some y) fs gs) (hf : f ∈ fs) :
    y.cut.high ≤ f.activation.floor ∨ f = y.frame ∨ f ∈ y.rest := by
  generalize hx : some y = x at h
  induction h with
  | same => cases hx
  | called calls =>
    cases hx
    obtain rfl | hf := List.mem_cons.1 hf
    · exact .inl (Nat.le_of_eq calls.floor.symm)
    · exact .inr (List.mem_cons.1 hf)
  | above below high ih =>
    cases hx
    obtain rfl | hf := List.mem_cons.1 hf
    · exact .inl high
    · exact ih hf rfl

end FramesTrim

namespace State.Trims

variable {x : Option Spare} {s t : State ν} {c : ThreadId}

theorem cells_eq_some {y : CellId} {o : ThreadId} {k : Nat} (h : s.cell y = .opened o k) :
    s.cells[y.index]? = some (.opened o k) := by
  unfold cell at h
  cases found : s.cells[y.index]? with
  | none => simp [found] at h
  | some a => simpa [found] using h

/-- Slots that are taken out are those of the frame that can be spared. -/
theorem hidden_mem (h : s.Trims x t) (kept : s.Kept) {y : CellId} {o : ThreadId} {k : Nat}
    (opened : s.cell y = .opened o k) (hidden : ¬ (Spare.part x o).Keeps k) :
    ∃ z, x = some z ∧ y ∈ z.frame.cells ∧ ∃ i, s.frameAt o i = some z.frame := by
  obtain ⟨i, f, hf, member⟩ := kept.listed y o k opened
  obtain ⟨-, k', same, base⟩ := kept.own o i f hf y member
  obtain ⟨-, rfl⟩ := Cell.opened.inj (opened.symm.trans same)
  have trim := h.callsOf o
  have cut : (Spare.part x o) = (Spare.on x o).elim {} Spare.cut := rfl
  cases hx : Spare.on x o with
  | none =>
    rw [cut, hx] at hidden
    exact absurd (.inr (Nat.zero_le k)) hidden
  | some z =>
    obtain ⟨rfl, own⟩ := Option.filter_eq_some_iff.1 hx
    obtain rfl : z.thread = o := of_decide_eq_true own
    rw [cut, hx] at hidden
    rw [hx] at trim
    have inside : f ∈ s.callsOf z.thread := by
      refine List.mem_reverse.2 (Array.mem_toList_iff.2 ?_)
      exact Array.mem_of_getElem? hf
    obtain high | rfl | below := trim.mem inside
    · exact absurd (.inr (Nat.le_trans high (Nat.le_trans (Activation.floor_le_base _) base))) hidden
    · exact ⟨z, rfl, member, i, hf⟩
    · exact absurd (.inl ((h.fits z rfl).below f below y member k (cells_eq_some opened))) hidden

/-- No two variables have the same slot, where slots are taken out. -/
theorem hidden_inj (h : s.Trims x t) (kept : s.Kept) {y z : CellId} {o : ThreadId} {k : Nat}
    (hy : s.cell y = .opened o k) (hz : s.cell z = .opened o k)
    (hidden : ¬ (Spare.part x o).Keeps k) : y = z := by
  obtain ⟨w, rfl, my, i, hi⟩ := h.hidden_mem kept hy hidden
  obtain ⟨w', hw, mz, -⟩ := h.hidden_mem kept hz hidden
  obtain rfl := Option.some.inj hw
  by_contra apart
  have symm : Std.Symm fun y z => s.cell y ≠ s.cell z := ⟨fun _ _ => Ne.symm⟩
  exact (kept.apart o i w.frame hi).forall my mz apart (hy.trans hz.symm)

theorem cell_setClosed (s : State ν) (y z : CellId) (v : Value) :
    State.cell { s with cells := s.cells.setIfInBounds y.index (.closed v) } z =
      if y = z ∧ y.index < s.cells.size then .closed v else s.cell z := by
  obtain ⟨i⟩ := y
  obtain ⟨j⟩ := z
  simp only [State.cell, Array.getElem?_setIfInBounds, CellId.mk.injEq]
  by_cases same : i = j
  · subst same
    by_cases inside : i < s.cells.size <;> simp [inside]
  · simp [same]

/-- A cell gets a value of its own. -/
theorem setClosed (h : s.Trims x t) (y : CellId) (v : Value) :
    State.Trims x { s with cells := s.cells.setIfInBounds y.index (.closed v) }
      { t with cells := t.cells.setIfInBounds y.index (.closed v) } := by
  refine { h with
    cellCount := by simp only [Array.size_setIfInBounds, h.cellCount]
    cells := fun z => ?_
    fits := fun z hz => (h.fits z hz).mono ⟨#[], Array.append_empty.symm⟩ (by simp) ?_ }
  · rw [cell_setClosed, cell_setClosed, h.cellCount]
    split
    · exact .closed v
    · exact h.cells z
  · intro i hi o k opened
    rw [Array.getElem?_setIfInBounds] at opened
    split at opened
    · split at opened <;> cases opened
    · exact opened

/-- A variable gets a value. -/
theorem writeCell (h : s.Trims x t) (kept : s.Kept) (y : CellId) (v : Value) :
    (s.writeCell y v).Trims x (t.writeCell y v) := by
  have cell := h.cells y
  unfold State.writeCell
  generalize hy : s.cell y = a at cell
  generalize t.cell y = b at cell
  cases cell with
  | closed _ => exact h.setClosed y v
  | @opened o k keeps =>
    have processor := h.processors o
    refine h.modifyProcessorOf { processor with stack := processor.stack.set keeps v } ?_
    intro i hidden
    have other : i ≠ k := fun same => hidden (same ▸ keeps)
    simp only [ValueStack.get, ValueStack.get_set _ v other]
    rfl
  | @hidden o k hidden =>
    have processor := h.processors o
    have stack := processor.stack.hide hidden v
    have room := processor.stack.room
    have here : o.index < s.processors.size := by
      by_contra out
      have empty : s.processorOf o = {} := by
        simp [processorOf, Array.getElem?_eq_none (Nat.le_of_not_lt out)]
      rw [empty] at room
      have none : (Spare.part x o).high = 0 := Nat.le_zero.1 room
      exact hidden (.inr (none ▸ Nat.zero_le k))
    have size := h.cellCount
    refine { h with
      size := by simp only [State.modifyProcessorOf, Array.size_modify, h.size]
      processors := fun c => ?_
      cellCount := by simp only [State.modifyProcessorOf, Array.size_setIfInBounds, size]
      cells := fun z => ?_ }
    · by_cases hc : c = o
      · subst hc
        rw [processorOf_modifyProcessorOf s _ here]
        exact { processor with stack := stack }
      · rw [processorOf_modifyProcessorOf_ne s _ hc]
        exact h.processors c
    · have known := index_lt_of_opened hy
      let s' := s.modifyProcessorOf o fun p => { p with stack := p.stack.set k v }
      have moved : ∀ c i, (c = o → i ≠ k) → (s'.stackOf c).get i = (s.stackOf c).get i := by
        intro c i other
        by_cases hc : c = o
        · subst hc
          rw [State.stackOf, processorOf_modifyProcessorOf s _ here]
          simp only [ValueStack.get, ValueStack.get_set _ v (other rfl)]
          rfl
        · rw [State.stackOf, processorOf_modifyProcessorOf_ne s _ hc]
          rfl
      have value : (s'.stackOf o).get k = v := by
        have inside : k < (s.processorOf o).stack.values.size :=
          Nat.lt_of_not_le fun out => hidden (.inr (Nat.le_trans room out))
        rw [State.stackOf, processorOf_modifyProcessorOf s _ here]
        simp [ValueStack.get, ValueStack.set, inside]
      rw [cell_setClosed t y z v, size]
      change Cell.Trims x s'.stackOf (s.cell z) _
      by_cases same : y = z
      · subst same
        have cell : Cell.Trims x s'.stackOf (.opened o k) _ := .hidden hidden
        rw [value] at cell
        rw [if_pos ⟨rfl, known⟩, hy]
        exact cell
      · rw [if_neg fun both => same both.1]
        have cell := h.cells z
        generalize hz : s.cell z = a at cell
        generalize t.cell z = b at cell
        cases cell with
        | closed _ => exact .closed _
        | opened keeps => exact .opened keeps
        | @hidden c i out =>
          have cell : Cell.Trims x s'.stackOf (.opened c i) _ := .hidden out
          rwa [moved c i fun hc hi => same ?_] at cell
          subst hc hi
          exact h.hidden_inj kept hy hz hidden

/-- A cell is detached. -/
theorem closeCell (h : s.Trims x t) (y : CellId) : (s.closeCell y).Trims x (t.closeCell y) := by
  have value := h.readCell y
  have closed := h.setClosed y (s.readCell y)
  unfold State.closeCell
  change State.Trims x _ { t with cells := t.cells.setIfInBounds y.index (.closed (t.readCell y)) }
  rw [value]
  exact closed

/-- Cells are detached whose slots are not taken out. -/
theorem closeCells (h : s.Trims x t) {p p' : Nat → Bool} {ys : List CellId}
    (agree : ∀ y ∈ ys, ∀ o k, s.cell y = .opened o k →
      (Spare.part x o).Keeps k ∧ p' ((Spare.part x o).shift k) = p k) :
    (t.closeCells p' ys).1 = (s.closeCells p ys).1 ∧
      (s.closeCells p ys).2.Trims x (t.closeCells p' ys).2 := by
  induction ys generalizing s t with
  | nil => exact ⟨rfl, h⟩
  | cons y rest ih =>
    have cell := h.cells y
    unfold State.closeCells
    generalize hy : s.cell y = a at cell
    generalize t.cell y = b at cell
    have agree' := fun z hz => agree z (List.mem_cons_of_mem _ hz)
    cases cell with
    | closed v => exact ih h agree'
    | @opened o k keeps =>
      have same := (agree y (List.mem_cons_self ..) o k hy).2
      simp only [Cell.slot?]
      rw [same]
      split
      · refine ih (h.closeCell y) fun z hz o k hk => ?_
        rw [cell_closeCell] at hk
        split at hk
        · cases hk
        · exact agree' z hz o k hk
      · obtain ⟨same, h⟩ := ih h agree'
        exact ⟨congrArg (y :: ·) same, h⟩
    | hidden out => exact absurd (agree y (List.mem_cons_self ..) _ _ hy).1 out

end State.Trims

end ScriptMachine
