import ScriptMachine.Proofs.Machine.Outline

/-!
# Disguises

A processor may look different in what no variable, no operand and no function depends on: how its
frames were entered, and what it counts.

* `Disguise`: such a change of a processor, and `State.disguised` for one thread of a state.
* `Exec.Unaffected`: work that does the same in a disguise, as `Exec.unaffected_checkpoint`.
* `disguised_mirror`: so do instructions that keep their frame.
-/

namespace ScriptMachine

variable {ν α β : Type}

/-- The same function runs on the same slots, under the same handlers. -/
structure Frame.Alike (f g : Frame) : Prop where
  base : g.base = f.base
  callee : g.callee = f.callee
  cells : g.cells = f.cells
  handlers : g.handlers = f.handlers
  methodCall : g.flags.methodCall = f.flags.methodCall

theorem Frame.Alike.refl (f : Frame) : f.Alike f := ⟨rfl, rfl, rfl, rfl, rfl⟩

def Processor.withTop (p : Processor) (f : Frame) : Processor :=
  { p with frames := p.frames.setIfInBounds (p.frames.size - 1) f }

/-- The innermost script frame of a processor. -/
def Processor.scope? (p : Processor) : Option Scope :=
  p.frames.toList.reverse.findSome? fun f => f.closure?.map fun closure => ⟨closure, f.base⟩

/-- A change of how a processor looks, but for its stack and the functions that its frames run. -/
structure Disguise where
  apply : Processor → Processor
  /-- How many instructions the whole machine shows. -/
  total : Nat → Nat := id
  stack : ∀ p, (apply p).stack = p.stack
  setStack : ∀ p stack, apply { p with stack } = { apply p with stack }
  size : ∀ p, (apply p).frames.size = p.frames.size
  top : ∀ p f, p.frames.back? = some f → ∃ g, (apply p).frames.back? = some g ∧ f.Alike g ∧
    ∀ cells, apply (p.withTop { f with cells }) = (apply p).withTop { g with cells }
  scope : ∀ p, (apply p).scope? = p.scope?

namespace State

variable (s : State ν) (c d : ThreadId) (D : Disguise)

/-- The state in which the processor of a thread is in disguise. -/
def disguised : State ν :=
  { s.modifyProcessorOf c D.apply with instructionCount := D.total s.instructionCount }

/-- A change of a processor that has nothing to do with the disguise. -/
theorem modifyProcessorOf_disguised (f : Processor → Processor)
    (h : d = c → ∀ p, f (D.apply p) = D.apply (f p)) :
    (s.disguised c D).modifyProcessorOf d f = (s.modifyProcessorOf d f).disguised c D := by
  have swapped := s.modifyProcessorOf_comm c d D.apply f fun e p => (h e.symm p).symm
  simp only [disguised]
  rw [← swapped]
  rfl

theorem modifyStackOf_disguised (f : ValueStack → ValueStack) :
    (s.disguised c D).modifyProcessorOf d (fun p => { p with stack := f p.stack }) =
      (s.modifyProcessorOf d fun p => { p with stack := f p.stack }).disguised c D :=
  s.modifyProcessorOf_disguised c d D _ fun _ p => by
    rw [D.stack]
    exact (D.setStack p _).symm

theorem modifyStack_disguised (f : ValueStack → ValueStack) :
    (s.disguised c D).modifyStack f = (s.modifyStack f).disguised c D :=
  s.modifyStackOf_disguised c s.current D f

@[simp] theorem world_disguised : (s.disguised c D).world = s.world := rfl

@[simp] theorem options_disguised : (s.disguised c D).options = s.options := rfl

@[simp] theorem stackOf_disguised : (s.disguised c D).stackOf d = s.stackOf d :=
  view_modifyProcessorOf s _ c d Processor.stack D.stack

@[simp] theorem stack_disguised : (s.disguised c D).processor.stack = s.processor.stack :=
  s.stackOf_disguised c s.current D

theorem callDepth_disguised : (s.disguised c D).callDepth = s.callDepth :=
  view_modifyProcessorOf s _ c s.current (fun p => p.frames.size) D.size

theorem mark_disguised : Machine.mark (s.disguised c D) = Machine.mark s := by
  have depth := s.callDepth_disguised c D
  unfold callDepth at depth
  simp only [Machine.mark, depth, stack_disguised]

theorem scope?_disguised : (s.disguised c D).scope? = s.scope? :=
  view_modifyProcessorOf s D.apply c s.current Processor.scope? D.scope

theorem readCell_disguised (cell : CellId) :
    (s.disguised c D).readCell cell = s.readCell cell := by
  have views : (s.disguised c D).stackOf = s.stackOf := funext fun d => s.stackOf_disguised c d D
  unfold readCell
  rw [views]
  rfl

theorem readSymbol_disguised (scope : Scope) (sym : Symbol) :
    (s.disguised c D).readSymbol scope sym = s.readSymbol scope sym := by
  induction sym with
  | slot index name => simp only [readSymbol, stack_disguised]
  | upvalue index name =>
    simp only [readSymbol, readCell_disguised]
    rfl
  | defaultEnv => rfl
  | global name env ih =>
    simp only [readSymbol, ih]
    rfl

theorem writeCell_disguised (cell : CellId) (v : Value) :
    (s.disguised c D).writeCell cell v = (s.writeCell cell v).disguised c D := by
  have same : (s.disguised c D).cell cell = s.cell cell := rfl
  unfold writeCell
  rw [same]
  cases s.cell cell with
  | closed _ => rfl
  | opened owner slot => exact s.modifyStackOf_disguised c owner D (·.set slot v)

theorem writeSymbol_disguised (scope : Scope) (v : Value) (sym : Symbol) :
    (s.disguised c D).writeSymbol scope v sym =
      (s.writeSymbol scope v sym).map (·.disguised c D) := by
  cases sym with
  | slot index name => exact congrArg Except.ok (s.modifyStack_disguised c D _)
  | upvalue index name =>
    have same : (s.disguised c D).upvalueCell scope.closure index =
      s.upvalueCell scope.closure index := rfl
    simp only [writeSymbol, same, writeCell_disguised]
    cases s.upvalueCell scope.closure index <;> rfl
  | defaultEnv => rfl
  | global name env =>
    simp only [writeSymbol, readSymbol_disguised]
    cases s.readSymbol scope env with
    | error e => rfl
    | ok object => cases object <;> rfl

theorem findSymbol_disguised (name : String) :
    (s.disguised c D).findSymbol name = s.findSymbol name := by
  unfold findSymbol
  rw [scope?_disguised]
  rfl

theorem watch_disguised (name : String) : (s.disguised c D).watch name = s.watch name := by
  have value : ∀ sym, (s.disguised c D).symbolValue sym = s.symbolValue sym := fun sym => by
    unfold symbolValue
    rw [scope?_disguised]
    cases s.scope? with
    | none => rfl
    | some scope => exact s.readSymbol_disguised c D scope sym
  unfold watch evaluate
  rw [findSymbol_disguised, value]
  rfl

theorem assignSymbol_disguised (sym : Symbol) (v : Value) :
    (s.disguised c D).assignSymbol sym v = (s.assignSymbol sym v).map (·.disguised c D) := by
  unfold assignSymbol
  rw [scope?_disguised]
  cases s.scope? with
  | none =>
    dsimp only
    split <;> rfl
  | some scope => exact s.writeSymbol_disguised c D scope v sym

theorem closeCell_disguised (cell : CellId) :
    (s.disguised c D).closeCell cell = (s.closeCell cell).disguised c D := by
  have views : (s.disguised c D).stackOf = s.stackOf := funext fun d => s.stackOf_disguised c d D
  unfold closeCell
  rw [views]
  rfl

theorem closeCells_disguised (p : Nat → Bool) (cells : List CellId) :
    (s.disguised c D).closeCells p cells =
      ((s.closeCells p cells).1, (s.closeCells p cells).2.disguised c D) := by
  induction cells generalizing s with
  | nil => rfl
  | cons cell rest ih =>
    have same : (s.disguised c D).cell cell = s.cell cell := rfl
    unfold closeCells
    rw [same]
    split
    · split
      · rw [closeCell_disguised, ih]
      · rw [ih]
    · exact ih s

/-- The frame on top looks alike, and gets its cells alike. -/
inductive Tops : Option Frame → Option Frame → Prop
  | none : Tops none none
  | some {f g : Frame} : f.Alike g → (∀ t : State ν, t.processors = s.processors →
      t.current = s.current → ∀ cells,
        (t.disguised c D).modifyProcessor (·.withTop { g with cells }) =
          (t.modifyProcessor (·.withTop { f with cells })).disguised c D) → Tops (some f) (some g)

theorem tops_disguised :
    s.Tops c D s.processor.frames.back? (s.disguised c D).processor.frames.back? := by
  cases top : s.processor.frames.back? with
  | none =>
    have depth := s.callDepth_disguised c D
    rw [Array.back?_eq_none_iff] at top
    rw [callDepth, callDepth, top] at depth
    rw [Array.eq_empty_of_size_eq_zero depth]
    exact .none
  | some f =>
    by_cases own : s.current = c
    · subst own
      have inRange : s.HasCurrent := by
        refine Nat.lt_of_not_le fun out => ?_
        simp [processor, processorOf, Array.getElem?_eq_none out] at top
      obtain ⟨g, top', alike, commutes⟩ := D.top s.processor f top
      have looks : (s.disguised s.current D).processor = D.apply s.processor :=
        s.processorOf_modifyProcessorOf D.apply inRange
      rw [looks, top']
      refine .some alike fun t processors current cells => ?_
      have here : t.processorOf s.current = s.processor := by
        rw [processor, processorOf, processors, processorOf]
      have after : (t.modifyProcessorOf s.current D.apply).modifyProcessorOf s.current
            (·.withTop { g with cells }) =
          (t.modifyProcessorOf s.current (·.withTop { f with cells })).modifyProcessorOf s.current
            D.apply := by
        rw [modifyProcessorOf_twice, modifyProcessorOf_twice]
        refine t.modifyProcessorOf_congr ?_
        rw [here]
        exact (commutes cells).symm
      have same := congrArg (fun t' : State ν =>
        { t' with instructionCount := D.total t.instructionCount }) after
      rw [← current] at same
      rw [← current]
      exact same
    · have looks : (s.disguised c D).processor = s.processor :=
        s.processorOf_modifyProcessorOf_ne D.apply own
      rw [looks, top]
      refine .some (.refl f) fun t _ current cells => ?_
      exact t.modifyProcessorOf_disguised c t.current D _ fun e => absurd (current ▸ e) own

/-- The same instruction is at an address. -/
theorem instructionAt_disguised (ip : Nat) :
    (s.disguised c D).instructionAt ip = s.instructionAt ip := by
  have tops := s.tops_disguised c D
  unfold instructionAt
  generalize s.processor.frames.back? = x at tops
  generalize (s.disguised c D).processor.frames.back? = y at tops
  cases tops with
  | none => rfl
  | some alike _ =>
    dsimp only
    rw [alike.callee, alike.base]
    rfl

theorem newCoroutine_disguised (function : Value) (inRange : c.index < s.processors.size) :
    (s.disguised c D).newCoroutine function =
      ((s.newCoroutine function).1, (s.newCoroutine function).2.disguised c D) := by
  simp only [newCoroutine, disguised, modifyProcessorOf, Array.size_modify, Prod.mk.injEq,
    State.mk.injEq, true_and, and_true]
  apply Array.ext_getElem?
  intro i
  simp only [Array.getElem?_push, Array.getElem?_modify, Array.size_modify]
  by_cases hi : i = s.processors.size
  · simp [hi, Nat.ne_of_lt inRange]
  · simp [hi]

end State

/-- The second state is the first in disguise. -/
def Disguised (c : ThreadId) (D : Disguise) (_ : Nat) (s t : State ν) : Prop := t = s.disguised c D

namespace Exec

variable {c : ThreadId} {D : Disguise} {s : State ν}

def Unaffected (c : ThreadId) (D : Disguise) (s : State ν) (work : Exec ν α) : Prop :=
  Mirrors (Disguised c D) s (s.disguised c D) work work fun _ => Disguised c D 0

theorem unaffected_bind {work : Exec ν α} {f : α → Exec ν β} (hx : Unaffected c D s work)
    (hf : ∀ a s', Unaffected c D s' (f a)) : Unaffected c D s (work >>= f) := by
  apply mirrors_bind hx
  rintro a s _ rfl
  exact hf a s

theorem unaffected_pure (a : α) : Unaffected c D s (pure a) := mirrors_pure rfl

theorem unaffected_throw (e : Fault) : Unaffected c D s (throw e : Exec ν α) := .error rfl

theorem unaffected_get {f : State ν → Exec ν α}
    (h : Mirrors (Disguised c D) s (s.disguised c D) (f s) (f (s.disguised c D))
      fun _ => Disguised c D 0) : Unaffected c D s (get >>= f) := h

theorem unaffected_modify {f : State ν → State ν}
    (h : f (s.disguised c D) = (f s).disguised c D) : Unaffected c D s (modify f) :=
  mirrors_modify h

theorem unaffected_modifyStack (f : ValueStack → ValueStack) :
    Unaffected c D s (modify fun s => s.modifyStack f) :=
  unaffected_modify (s.modifyStack_disguised c D f)

/-- The state is replaced, and work goes on from the new one. -/
theorem unaffected_set {t : State ν} {work : Exec ν α} (h : Unaffected c D t work) :
    Mirrors (Disguised c D) s (s.disguised c D) (do set t; work)
      (do set (t.disguised c D); work) fun _ => Disguised c D 0 := h

theorem unaffected_ofExcept (x : Except Fault α) : Unaffected c D s (ofExcept x) := by
  cases x with
  | ok a => exact unaffected_pure a
  | error e => exact unaffected_throw e

theorem unaffected_present (x : Option α) : Unaffected c D s (present x) := by
  cases x with
  | some a => exact unaffected_pure a
  | none => exact unaffected_throw _

theorem unaffected_splitOff (start : Nat) : Unaffected c D s (splitOff start) := by
  apply unaffected_get
  change Mirrors _ s (s.disguised c D)
    (present (s.processor.stack.above? start) >>= fun vs => truncate start >>= fun _ => pure vs)
    (present ((s.disguised c D).processor.stack.above? start) >>= fun vs =>
      truncate start >>= fun _ => pure vs) _
  rw [State.stack_disguised]
  exact unaffected_bind (unaffected_present _) fun _ _ =>
    unaffected_bind (unaffected_modifyStack _) fun _ _ => unaffected_pure _

/-- Work on the frame on top does the same where it looks alike, and gets its cells alike. -/
theorem unaffected_topFrame {f : Option Frame → Exec ν α}
    (bare : Unaffected c D s (f none))
    (top : ∀ {g g' : Frame}, g.Alike g' → (∀ t : State ν, t.processors = s.processors →
      t.current = s.current → ∀ cells,
        (t.disguised c D).modifyProcessor (·.withTop { g' with cells }) =
          (t.modifyProcessor (·.withTop { g with cells })).disguised c D) →
      Mirrors (Disguised c D) s (s.disguised c D) (f (some g)) (f (some g'))
        fun _ => Disguised c D 0) : Unaffected c D s (topFrame? >>= f) := by
  have tops := s.tops_disguised c D
  change Mirrors _ s (s.disguised c D) (f s.processor.frames.back?)
    (f (s.disguised c D).processor.frames.back?) _
  generalize s.processor.frames.back? = x at tops
  generalize (s.disguised c D).processor.frames.back? = y at tops
  cases tops with
  | none => exact bare
  | some alike commutes => exact top alike commutes

theorem unaffected_writeSymbol (scope : Scope) (sym : Symbol) (v : Value) :
    Unaffected c D s (writeSymbol scope sym v) := by
  apply unaffected_get
  rw [State.writeSymbol_disguised]
  cases s.writeSymbol scope v sym with
  | ok s' => exact .ok rfl
  | error e => exact unaffected_throw e

theorem unaffected_captureSlot (slot : Nat) : Unaffected c D s (captureSlot slot) := by
  refine unaffected_topFrame (unaffected_throw _) fun {g g'} alike commutes => ?_
  apply mirrors_get
  have same : (s.disguised c D).findOpenCell g' slot = s.findOpenCell g slot := by
    unfold State.findOpenCell
    rw [alike.cells]
    rfl
  rw [same]
  cases s.findOpenCell g slot with
  | some cell => exact unaffected_pure cell
  | none =>
    let made := s.newCell (.opened s.current slot)
    change Agree _ _
      (.ok made.1 (made.2.modifyProcessor (·.withTop { g with cells := g.cells ++ [made.1] })))
      (.ok made.1 ((made.2.disguised c D).modifyProcessor
        (·.withTop { g' with cells := g'.cells ++ [made.1] })))
    rw [alike.cells]
    exact .ok (commutes made.2 rfl rfl _)

theorem unaffected_captureSymbol (scope : Scope) (sym : Symbol) :
    Unaffected c D s (captureSymbol scope sym) := by
  cases sym with
  | slot index name => exact unaffected_captureSlot _
  | upvalue index name =>
    exact unaffected_get (unaffected_ofExcept (s.upvalueCell scope.closure index))
  | defaultEnv => exact .ok rfl
  | global name env => exact unaffected_throw _

theorem unaffected_closeLocals (scope : Scope) (first last : Nat) :
    Unaffected c D s (closeLocals scope first last) := by
  refine unaffected_topFrame (unaffected_throw _) fun {g g'} alike commutes => ?_
  apply mirrors_get
  dsimp only
  rw [alike.cells, State.closeCells_disguised]
  let low := scope.base + first
  let high := scope.base + last
  let kept := s.closeCells (fun slot => low ≤ slot && slot ≤ high) g.cells
  have processors : kept.2.processors = s.processors := processors_closeCells ..
  have current : kept.2.current = s.current := view_closeCells State.current (fun _ _ => rfl) ..
  change Agree _ _
    (.ok PUnit.unit ((kept.2.modifyProcessor (·.withTop { g with cells := kept.1 })).modifyStack
      (·.clearSlots low high)))
    (.ok PUnit.unit (((kept.2.disguised c D).modifyProcessor
      (·.withTop { g' with cells := kept.1 })).modifyStack (·.clearSlots low high)))
  rw [commutes kept.2 processors current]
  exact .ok (State.modifyStack_disguised ..)

theorem unaffected_beginFunction (p : Proto) (scope : Scope) (i : Instruction) :
    Unaffected c D s (beginFunction p scope i) := by
  refine unaffected_topFrame ?_ fun {g g'} alike _ => ?_
  · exact unaffected_bind (unaffected_splitOff _) fun _ _ => unaffected_modifyStack _
  · dsimp only
    rw [alike.methodCall]
    exact unaffected_bind (unaffected_splitOff _) fun _ _ => unaffected_modifyStack _

end Exec

/-- Instructions that keep their frame do the same in disguise. -/
theorem disguised_mirror (c : ThreadId) (D : Disguise) (scope : Scope) :
    Mirror (ν := ν) (Disguised c D) scope scope where
  weaken h _ := h
  world h := by
    rw [h]
    rfl
  arrange world h := by
    rw [h]
    rfl
  code h := by
    rw [h]
    rfl
  pushAll vs h := by
    rw [h]
    exact State.modifyStack_disguised ..
  peek h _ := by rw [h, State.stack_disguised]
  taken h := by rw [h, State.stack_disguised]
  drop h := by
    rw [h, State.stack_disguised]
    exact State.modifyStack_disguised ..
  poke v h _ := by
    rw [h]
    exact State.modifyStack_disguised ..
  read sym h := by rw [h, State.readSymbol_disguised]
  write sym v h := by
    obtain rfl := h
    exact Exec.unaffected_writeSymbol scope sym v
  capture sym h := by
    obtain rfl := h
    exact Exec.unaffected_captureSymbol scope sym
  newClosure f h := by
    rw [h]
    exact ⟨rfl, rfl⟩
  close first last h := by
    obtain rfl := h
    exact Exec.unaffected_closeLocals scope first last
  begin p i h := by
    obtain rfl := h
    exact Exec.unaffected_beginFunction p scope i

namespace Exec

variable {c : ThreadId} {D : Disguise} {s : State ν}

theorem unaffected_height : Unaffected c D s height := by
  apply unaffected_get
  rw [State.stack_disguised]
  exact unaffected_pure _

theorem unaffected_peek (i : Nat) : Unaffected c D s (peek i) :=
  mirrors_peek (disguised_mirror c D default).toOperandMirror (n := i + 1) rfl (Nat.lt_succ_self i)

theorem unaffected_pop : Unaffected c D s pop :=
  mirrors_pop (disguised_mirror c D default).toOperandMirror (n := 0) rfl

theorem unaffected_mayReuseFrame (argc : Nat) : Unaffected c D s (mayReuseFrame argc) := by
  apply unaffected_get
  have depth : (s.disguised c D).processor.frames.size = s.processor.frames.size :=
    s.callDepth_disguised c D
  have tops := s.tops_disguised c D
  simp only [State.stack_disguised, depth, State.options_disguised]
  generalize s.processor.frames.back? = x at tops
  generalize (s.disguised c D).processor.frames.back? = y at tops
  cases tops with
  | none => exact unaffected_pure _
  | some alike _ =>
    dsimp only
    rw [alike.handlers]
    split
    · refine unaffected_bind (unaffected_peek argc) fun v s => ?_
      cases v <;> exact unaffected_pure _
    · exact unaffected_pure _

/-- An instruction that keeps its frame does the same in disguise. -/
theorem unaffected_execute (p : Proto) (scope : Scope) (ip : Nat) (i : Instruction)
    (hr : i.op ≠ .ret) (ht : i.op ≠ .tailCall) : Unaffected c D s (execute p scope ip i) :=
  execute_mirrors (disguised_mirror c D scope) p i rfl hr ht

theorem unaffected_finishNested (after : After) (v : Value) :
    Unaffected c D s (finishNested after v) := by
  cases after <;> exact unaffected_modifyStack _

/-- A value that is no function is called by its metamethod. -/
theorem unaffected_callHandler {name : Option String} {budget argc : Nat} (v : Value)
    (further : ∀ s : State ν, Unaffected c D s (Machine.findCallee name budget (argc + 1))) :
    Unaffected c D s (do
      match (← get).unaryMetamethod v "__call" with
      | none => raise (.callOf v.typeName name)
      | some handler =>
        let operands ← splitOff ((← height) - argc - 1)
        push handler
        pushAll operands
        Machine.findCallee name budget (argc + 1)) := by
  apply unaffected_get
  rw [State.unaryMetamethod_congr (s.world_disguised c D)]
  cases s.unaryMetamethod v "__call" with
  | none => exact unaffected_throw _
  | some handler =>
    apply unaffected_bind unaffected_height
    intro height s
    apply unaffected_bind (unaffected_splitOff _)
    intro operands s
    apply unaffected_bind (unaffected_modifyStack _)
    intro _ s
    exact unaffected_bind (unaffected_modifyStack _) fun _ s => further s

theorem unaffected_findCallee (name : Option String) (budget argc : Nat) :
    Unaffected c D s (Machine.findCallee name budget argc) := by
  induction budget generalizing s argc with
  | zero =>
    unfold Machine.findCallee
    apply unaffected_bind (unaffected_peek argc)
    intro v s
    cases v <;> first | exact unaffected_pure _ | exact unaffected_throw _
  | succ budget ih =>
    unfold Machine.findCallee
    apply unaffected_bind (unaffected_peek argc)
    intro v s
    have handled := unaffected_callHandler (c := c) (D := D) (s := s) v fun s =>
      ih (s := s) (argc + 1)
    cases v <;> first | exact unaffected_pure _ | exact handled

theorem unaffected_assignAll (assignments : List (String × Value)) :
    Unaffected c D s (assignAll assignments) := by
  induction assignments generalizing s with
  | nil => exact unaffected_pure _
  | cons assignment rest ih =>
    obtain ⟨name, v⟩ := assignment
    apply unaffected_get
    rw [State.findSymbol_disguised, State.assignSymbol_disguised]
    cases s.assignSymbol (s.findSymbol name) v with
    | ok s' => exact unaffected_set ih
    | error e => exact unaffected_throw e

theorem unaffected_observe (observer : Observer) (stop : Stop) :
    Unaffected c D s (observe observer stop) := by
  apply unaffected_bind (unaffected_modify rfl)
  intro _ s
  apply unaffected_get
  rw [show (s.disguised c D).watch = s.watch from funext (s.watch_disguised c D)]
  apply unaffected_bind (unaffected_modify rfl)
  intro _ s
  apply unaffected_bind (unaffected_assignAll _)
  intro _ s
  have detached : Unaffected c D s (modify fun s => s.setDebugger none) := unaffected_modify rfl
  by_cases detaches : observer.detachAt = some (observer.hits + 1) <;>
    by_cases fails : observer.failAt = some (observer.hits + 1) <;>
    simp only [detaches, fails, ↓reduceIte]
  · exact unaffected_bind detached fun _ _ => unaffected_throw _
  · exact unaffected_bind detached fun _ _ => unaffected_pure _
  · exact unaffected_throw _
  · exact unaffected_pure _

theorem unaffected_checkpoint (p : Proto) (ip : Nat) : Unaffected c D s (checkpoint p ip) := by
  apply unaffected_get
  simp only [State.callDepth_disguised, State.world_disguised]
  split
  · split
    · exact unaffected_observe _ _
    · exact unaffected_pure _
  · exact unaffected_pure _

theorem unaffected_load (p : Proto) : Unaffected c D s (load p) := by
  unfold load
  split
  · exact unaffected_throw _
  · refine unaffected_bind (mirrors_captureAll (disguised_mirror c D default) (n := 0) _ rfl)
      fun cells s => ?_
    exact .ok rfl

theorem unaffected_undump (bytes : List UInt8) : Unaffected c D s (undump bytes) := by
  apply unaffected_get
  change Mirrors _ _ _ (ofExcept (Chunk.undump s.heap bytes) >>= _)
    (ofExcept (Chunk.undump s.heap bytes) >>= _) _
  cases Chunk.undump s.heap bytes with
  | error e => exact unaffected_throw e
  | ok result => exact unaffected_set (t := s.setHeap result.2) (unaffected_load result.1)

end Exec

end ScriptMachine
