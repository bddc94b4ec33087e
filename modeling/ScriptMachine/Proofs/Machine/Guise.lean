import ScriptMachine.Proofs.Machine.Within

/-!
# Guises

A processor counts its nested calls and its instructions, and knows whether it may be suspended.
Few moves look at this, and no instruction does.

* `State.guised`: a state in which one processor shows something else of this.
* `guised_mirror`: instructions do the same in any guise.
* `Exec.Blind`: so does other work, as `Exec.blind_enterCall` or `Exec.blind_checkpoint`.
-/

namespace ScriptMachine

variable {ν α : Type}

/-- What else the counts and the mode of a processor may show. -/
structure Guise where
  nestedCalls : Nat → Nat := id
  asyncMode : Bool → Bool := id
  autoYield : Nat → Nat := id
  sinceResume : Nat → Nat := id
  /-- Instructions of the whole machine. -/
  total : Nat → Nat := id

def Processor.guised (p : Processor) (g : Guise) : Processor :=
  { p with
    nestedCalls := g.nestedCalls p.nestedCalls
    asyncMode := g.asyncMode p.asyncMode
    autoYield := g.autoYield p.autoYield
    sinceResume := g.sinceResume p.sinceResume }

/-- A change depends on the processor that it is made to. -/
theorem State.modifyProcessorOf_congr (s : State ν) {c : ThreadId} {f g : Processor → Processor}
    (h : f (s.processorOf c) = g (s.processorOf c)) :
    s.modifyProcessorOf c f = s.modifyProcessorOf c g := by
  simp only [modifyProcessorOf, State.mk.injEq, true_and, and_true]
  apply Array.ext_getElem?
  intro i
  simp only [Array.getElem?_modify]
  split
  · rename_i same
    subst same
    cases found : s.processors[c.index]? with
    | none => rfl
    | some p => simpa [processorOf, found] using h
  · rfl

namespace State

variable (s : State ν) (c d : ThreadId) (g : Guise)

def guised : State ν :=
  { s.modifyProcessorOf c (·.guised g) with instructionCount := g.total s.instructionCount }

theorem modifyProcessorOf_comm (f f' : Processor → Processor)
    (h : c = d → ∀ p, f (f' p) = f' (f p)) :
    (s.modifyProcessorOf c f).modifyProcessorOf d f' =
      (s.modifyProcessorOf d f').modifyProcessorOf c f := by
  simp only [modifyProcessorOf, State.mk.injEq, true_and, and_true]
  apply Array.ext_getElem?
  intro i
  simp only [Array.getElem?_modify]
  by_cases hc : c.index = i <;> by_cases hd : d.index = i
  · have same : c = d := by
      cases c
      cases d
      simp_all
    simp only [hc, hd, ↓reduceIte, Option.map_map]
    congr 1
    exact funext fun p => (h same p).symm
  all_goals simp [hc, hd]

/-- A change of a processor that has nothing to do with the guise. -/
theorem modifyProcessorOf_guised (f : Processor → Processor)
    (h : d = c → ∀ p, f (p.guised g) = (f p).guised g) :
    (s.guised c g).modifyProcessorOf d f = (s.modifyProcessorOf d f).guised c g := by
  have swapped := s.modifyProcessorOf_comm c d (·.guised g) f fun e p => (h e.symm p).symm
  simp only [guised]
  rw [← swapped]
  rfl

theorem modifyStack_guised (f : ValueStack → ValueStack) :
    (s.guised c g).modifyStack f = (s.modifyStack f).guised c g :=
  s.modifyProcessorOf_guised c s.current g _ fun _ _ => rfl

theorem modifyFrames_guised (f : Array Frame → Array Frame) :
    (s.guised c g).modifyFrames f = (s.modifyFrames f).guised c g :=
  s.modifyProcessorOf_guised c s.current g _ fun _ _ => rfl

@[simp] theorem world_guised : (s.guised c g).world = s.world := rfl

@[simp] theorem options_guised : (s.guised c g).options = s.options := rfl

@[simp] theorem current_guised : (s.guised c g).current = s.current := rfl

@[simp] theorem stackOf_guised : (s.guised c g).stackOf d = s.stackOf d :=
  view_modifyProcessorOf s _ c d Processor.stack fun _ => rfl

@[simp] theorem frames_guised : (s.guised c g).processor.frames = s.processor.frames :=
  view_modifyProcessorOf s _ c s.current Processor.frames fun _ => rfl

@[simp] theorem stack_guised : (s.guised c g).processor.stack = s.processor.stack :=
  s.stackOf_guised c s.current g

@[simp] theorem pending_guised : (s.guised c g).processor.pending = s.processor.pending :=
  view_modifyProcessorOf s _ c s.current Processor.pending fun _ => rfl

theorem callDepth_guised : (s.guised c g).callDepth = s.callDepth := by
  rw [callDepth, frames_guised]
  rfl

theorem mark_guised : Machine.mark (s.guised c g) = Machine.mark s := by
  simp only [Machine.mark, frames_guised, stack_guised]

theorem decorate_guised (e : ScriptError) (ip : Nat) :
    (s.guised c g).decorate e ip = s.decorate e ip := by
  simp only [decorate, frameTrail, frames_guised]
  rfl

theorem framesAbove_guised (mark : Mark) :
    (s.guised c g).framesAbove mark = s.framesAbove mark := by
  simp only [framesAbove, frames_guised]

theorem readCell_guised (cell : CellId) : (s.guised c g).readCell cell = s.readCell cell := by
  have views : (s.guised c g).stackOf = s.stackOf := funext fun d => s.stackOf_guised c d g
  unfold readCell
  rw [views]
  rfl

theorem readSymbol_guised (scope : Scope) (sym : Symbol) :
    (s.guised c g).readSymbol scope sym = s.readSymbol scope sym := by
  induction sym with
  | slot index name => simp only [readSymbol, stack_guised]
  | upvalue index name =>
    simp only [readSymbol, readCell_guised]
    rfl
  | defaultEnv => rfl
  | global name env ih =>
    simp only [readSymbol, ih]
    rfl

theorem writeCell_guised (cell : CellId) (v : Value) :
    (s.guised c g).writeCell cell v = (s.writeCell cell v).guised c g := by
  have same : (s.guised c g).cell cell = s.cell cell := rfl
  unfold writeCell
  rw [same]
  cases s.cell cell with
  | closed _ => rfl
  | opened owner slot => exact s.modifyProcessorOf_guised c owner g _ fun _ _ => rfl

theorem writeSymbol_guised (scope : Scope) (v : Value) (sym : Symbol) :
    (s.guised c g).writeSymbol scope v sym = (s.writeSymbol scope v sym).map (·.guised c g) := by
  cases sym with
  | slot index name => exact congrArg Except.ok (s.modifyStack_guised c g _)
  | upvalue index name =>
    have same : (s.guised c g).upvalueCell scope.closure index =
      s.upvalueCell scope.closure index := rfl
    simp only [writeSymbol, same, writeCell_guised]
    cases s.upvalueCell scope.closure index <;> rfl
  | defaultEnv => rfl
  | global name env =>
    simp only [writeSymbol, readSymbol_guised]
    cases s.readSymbol scope env with
    | error e => rfl
    | ok object => cases object <;> rfl

theorem scope?_guised : (s.guised c g).scope? = s.scope? := by
  unfold scope?
  rw [frames_guised]

theorem findSymbol_guised (name : String) : (s.guised c g).findSymbol name = s.findSymbol name := by
  unfold findSymbol
  rw [scope?_guised]
  rfl

theorem watch_guised (name : String) : (s.guised c g).watch name = s.watch name := by
  have value : ∀ sym, (s.guised c g).symbolValue sym = s.symbolValue sym := fun sym => by
    unfold symbolValue
    rw [scope?_guised]
    cases s.scope? with
    | none => rfl
    | some scope => exact s.readSymbol_guised c g scope sym
  unfold watch evaluate
  rw [findSymbol_guised, value]
  rfl

theorem assignSymbol_guised (sym : Symbol) (v : Value) :
    (s.guised c g).assignSymbol sym v = (s.assignSymbol sym v).map (·.guised c g) := by
  unfold assignSymbol
  rw [scope?_guised]
  cases s.scope? with
  | none =>
    dsimp only
    split <;> rfl
  | some scope => exact s.writeSymbol_guised c g scope v sym

theorem closeCell_guised (cell : CellId) :
    (s.guised c g).closeCell cell = (s.closeCell cell).guised c g := by
  have views : (s.guised c g).stackOf = s.stackOf := funext fun d => s.stackOf_guised c d g
  unfold closeCell
  rw [views]
  rfl

theorem closeCells_guised (p : Nat → Bool) (cells : List CellId) :
    (s.guised c g).closeCells p cells =
      ((s.closeCells p cells).1, (s.closeCells p cells).2.guised c g) := by
  induction cells generalizing s with
  | nil => rfl
  | cons cell rest ih =>
    have same : (s.guised c g).cell cell = s.cell cell := rfl
    unfold closeCells
    rw [same]
    split
    · split
      · rw [closeCell_guised, ih]
      · rw [ih]
    · exact ih s

end State

/-! ## Quiet work -/

def Processor.bare (p : Processor) : Processor := { p with stack := {}, frames := #[] }

/-- Nothing changes but stacks, frames, cells, closures and the world, as far as the thread `c` can
tell. -/
structure Quiet (c : ThreadId) (s s' : State ν) : Prop where
  options : s'.options = s.options
  coroutines : s'.coroutines = s.coroutines
  active : s'.active = s.active
  current : s'.current = s.current
  entries : s'.entries = s.entries
  size : s'.processors.size = s.processors.size
  bare : (s'.processorOf c).bare = (s.processorOf c).bare

section Quiet

variable {c : ThreadId}

theorem Quiet.refl (s : State ν) : Quiet c s s := ⟨rfl, rfl, rfl, rfl, rfl, rfl, rfl⟩

theorem Quiet.trans {s s' s'' : State ν} (h : Quiet c s s') (h' : Quiet c s' s'') :
    Quiet c s s'' :=
  ⟨h'.options.trans h.options, h'.coroutines.trans h.coroutines, h'.active.trans h.active,
   h'.current.trans h.current, h'.entries.trans h.entries, h'.size.trans h.size,
   h'.bare.trans h.bare⟩

/-- Only the world, cells, closures and counts change. -/
theorem quiet_of_eq {s s' : State ν}
    (h : { s' with
      world := s.world, cells := s.cells, closures := s.closures,
      instructionCount := s.instructionCount } = s) : Quiet c s s' := by
  rw [← h]
  exact ⟨rfl, rfl, rfl, rfl, rfl, rfl, rfl⟩

theorem quiet_modifyProcessorOf (s : State ν) (d : ThreadId) {f : Processor → Processor}
    (h : ∀ p, (f p).bare = p.bare) : Quiet c s (s.modifyProcessorOf d f) :=
  ⟨rfl, rfl, rfl, rfl, rfl, by simp [State.modifyProcessorOf],
   State.view_modifyProcessorOf s f d c Processor.bare h⟩

theorem quiet_modifyStack (s : State ν) (f : ValueStack → ValueStack) :
    Quiet c s (s.modifyStack f) :=
  quiet_modifyProcessorOf s s.current fun _ => rfl

theorem quiet_modifyFrames (s : State ν) (f : Array Frame → Array Frame) :
    Quiet c s (s.modifyFrames f) :=
  quiet_modifyProcessorOf s s.current fun _ => rfl

theorem quiet_tolerant : Tolerant (Quiet (ν := ν) c) where
  refl := .refl
  trans := .trans
  arrange _ _ := quiet_of_eq rfl
  modifyStack := quiet_modifyStack
  newClosure _ _ := quiet_of_eq rfl
  newCell _ _ := quiet_of_eq rfl
  writeCell s x v := by
    unfold State.writeCell
    split
    · exact quiet_modifyProcessorOf s _ fun _ => rfl
    · exact quiet_of_eq rfl

theorem quiet_closeCells (s : State ν) (p : Nat → Bool) (cells : List CellId) :
    Quiet c s (s.closeCells p cells).2 := by
  induction cells generalizing s with
  | nil => exact .refl s
  | cons cell rest ih =>
    unfold State.closeCells
    split
    · split
      · have closed : Quiet c s (s.closeCell cell) := quiet_of_eq rfl
        exact closed.trans (ih _)
      · exact ih s
    · exact ih s

end Quiet

/-! ## Instructions -/

/-- The second state is the first in a guise, and quiet work has led from `s₀` there. -/
def Guised (c : ThreadId) (g : Guise) (s₀ : State ν) (_ : Nat) (s t : State ν) : Prop :=
  t = s.guised c g ∧ Quiet c s₀ s

namespace Exec

variable {c : ThreadId} {g : Guise} {s s₀ t : State ν} {n : Nat}

/-- Quiet work that a guise does not affect. -/
def Blind (c : ThreadId) (g : Guise) (s : State ν) (work : Exec ν α) : Prop :=
  ∀ s₀, Quiet c s₀ s →
    Mirrors (Guised c g s₀) s (s.guised c g) work work fun _ => Guised c g s₀ 0

theorem blind_bind {β : Type} {work : Exec ν α} {f : α → Exec ν β} (hx : Blind c g s work)
    (hf : ∀ a s', Blind c g s' (f a)) : Blind c g s (work >>= f) := by
  intro s₀ quiet
  apply mirrors_bind (hx s₀ quiet)
  rintro a s _ ⟨rfl, quiet⟩
  exact hf a s s₀ quiet

theorem blind_modify {f : State ν → State ν} (hf : f (s.guised c g) = (f s).guised c g)
    (quiet : Quiet c s (f s)) : Blind c g s (modify f) :=
  fun _ before => mirrors_modify ⟨hf, before.trans quiet⟩

theorem blind_modifyStack (f : ValueStack → ValueStack) :
    Blind c g s (modify fun s => s.modifyStack f) :=
  blind_modify (s.modifyStack_guised ..) (quiet_modifyStack ..)

theorem blind_modifyFrames (f : Array Frame → Array Frame) :
    Blind c g s (modify fun s => s.modifyFrames f) :=
  blind_modify (s.modifyFrames_guised ..) (quiet_modifyFrames ..)

theorem blind_pure (a : α) : Blind c g s (pure a) := fun _ quiet => mirrors_pure ⟨rfl, quiet⟩

theorem blind_throw (e : Fault) : Blind c g s (throw e : Exec ν α) :=
  fun _ quiet => .error ⟨rfl, quiet⟩

theorem blind_get {f : State ν → Exec ν α}
    (h : ∀ s₀, Quiet c s₀ s → Mirrors (Guised c g s₀) s (s.guised c g) (f s) (f (s.guised c g))
      fun _ => Guised c g s₀ 0) : Blind c g s (get >>= f) := h

theorem Blind.quiet_ok {work : Exec ν α} {a : α} {s' : State ν} (h : Blind c g s work)
    (run : work s = .ok a s') : Quiet c s s' := by
  have agree := h s (.refl s)
  unfold Mirrors at agree
  rw [run] at agree
  obtain ⟨_, -, -, quiet⟩ := agree.of_ok
  exact quiet

theorem Blind.quiet_error {work : Exec ν α} {e : Fault} {s' : State ν} (h : Blind c g s work)
    (run : work s = .error e s') : Quiet c s s' := by
  have agree := h s (.refl s)
  unfold Mirrors at agree
  rw [run] at agree
  obtain ⟨_, -, -, quiet⟩ := agree.of_error
  exact quiet

/-- The state is replaced, and work goes on from the new one. -/
theorem blind_set (s' : State ν) {work : Exec ν α} (quiet : Quiet c s s') (h : Blind c g s' work)
    (before : Quiet c s₀ s) :
    Mirrors (Guised c g s₀) s (s.guised c g) (do set s'; work) (do set (s'.guised c g); work)
      fun _ => Guised c g s₀ 0 :=
  h s₀ (before.trans quiet)

theorem blind_ofExcept (x : Except Fault α) : Blind c g s (ofExcept x) := by
  cases x with
  | ok a => exact blind_pure a
  | error e => exact blind_throw e

theorem blind_writeSymbol (scope : Scope) (sym : Symbol) (v : Value) :
    Blind c g s (writeSymbol scope sym v) := by
  refine blind_get fun s₀ quiet => ?_
  rw [State.writeSymbol_guised]
  cases written : s.writeSymbol scope v sym with
  | ok s' => exact .ok ⟨rfl, quiet.trans (quiet_tolerant.writeSymbol written)⟩
  | error e => exact blind_throw e s₀ quiet

/-- The top frame has an open cell for the slot, or gets one. -/
theorem mirrors_openCell {s₀ : State ν} (quiet : Quiet c s₀ s) (frame : Frame) (slot : Nat) :
    let made := s.newCell (.opened s.current slot)
    Mirrors (Guised c g s₀) s (s.guised c g) (match s.findOpenCell frame slot with
      | some cell => pure cell
      | none => do
        set made.2
        setTopFrame { frame with cells := frame.cells ++ [made.1] }
        return made.1)
      (match s.findOpenCell frame slot with
      | some cell => pure cell
      | none => do
        set (made.2.guised c g)
        setTopFrame { frame with cells := frame.cells ++ [made.1] }
        return made.1) fun _ => Guised c g s₀ 0 := by
  intro made
  cases s.findOpenCell frame slot with
  | some cell => exact blind_pure cell s₀ quiet
  | none =>
    exact blind_set made.2 (quiet_of_eq rfl)
      (blind_bind (blind_modifyFrames _) fun _ _ => blind_pure _) quiet

theorem blind_captureSlot (slot : Nat) : Blind c g s (captureSlot slot) := by
  refine blind_get fun s₀ quiet => ?_
  rw [State.frames_guised]
  cases s.processor.frames.back? with
  | none => exact blind_throw _ s₀ quiet
  | some frame => exact mirrors_openCell quiet frame slot

theorem blind_captureSymbol (scope : Scope) (sym : Symbol) :
    Blind c g s (captureSymbol scope sym) := by
  cases sym with
  | slot index name => exact blind_captureSlot _
  | upvalue index name => exact blind_get (blind_ofExcept (s.upvalueCell scope.closure index))
  | defaultEnv => exact fun _ quiet => .ok ⟨rfl, quiet.trans (quiet_of_eq rfl)⟩
  | global name env => exact blind_throw _

theorem blind_closeLocals (scope : Scope) (first last : Nat) :
    Blind c g s (closeLocals scope first last) := by
  refine blind_get fun s₀ quiet => ?_
  rw [State.frames_guised]
  cases s.processor.frames.back? with
  | none => exact blind_throw _ s₀ quiet
  | some frame =>
    refine blind_get (fun s₀ quiet => ?_) s₀ quiet
    rw [State.closeCells_guised]
    exact blind_set _ (quiet_closeCells ..)
      (blind_bind (blind_modifyFrames _) fun _ _ => blind_modifyStack _) quiet

theorem blind_present (x : Option α) : Blind c g s (present x) := by
  cases x with
  | some a => exact blind_pure a
  | none => exact blind_throw _

theorem blind_splitOff (start : Nat) : Blind c g s (splitOff start) := by
  refine blind_get fun s₀ quiet => ?_
  change Mirrors _ s (s.guised c g)
    (present (s.processor.stack.above? start) >>= fun vs => truncate start >>= fun _ => pure vs)
    (present ((s.guised c g).processor.stack.above? start) >>= fun vs =>
      truncate start >>= fun _ => pure vs) _
  rw [State.stack_guised]
  exact blind_bind (blind_present _)
    (fun _ _ => blind_bind (blind_modifyStack _) fun _ _ => blind_pure _) s₀ quiet

theorem blind_beginFunction (p : Proto) (scope : Scope) (i : Instruction) :
    Blind c g s (beginFunction p scope i) := by
  refine blind_get fun s₀ quiet => ?_
  rw [State.frames_guised]
  exact blind_bind (blind_splitOff _) (fun _ _ => blind_modifyStack _) s₀ quiet

end Exec

theorem guised_mirror (c : ThreadId) (g : Guise) (s₀ : State ν) (scope : Scope) :
    Mirror (Guised c g s₀) scope scope where
  weaken h _ := h
  world h := by
    rw [h.1]
    rfl
  arrange world h := by
    obtain ⟨rfl, quiet⟩ := h
    exact ⟨rfl, quiet.trans (quiet_of_eq rfl)⟩
  code h := by
    rw [h.1]
    rfl
  pushAll vs h := by
    obtain ⟨rfl, quiet⟩ := h
    exact ⟨State.modifyStack_guised .., quiet.trans (quiet_modifyStack ..)⟩
  peek h _ := by rw [h.1, State.stack_guised]
  taken h := by rw [h.1, State.stack_guised]
  drop h := by
    obtain ⟨rfl, quiet⟩ := h
    rw [State.stack_guised]
    exact ⟨State.modifyStack_guised .., quiet.trans (quiet_modifyStack ..)⟩
  poke v h _ := by
    obtain ⟨rfl, quiet⟩ := h
    exact ⟨State.modifyStack_guised .., quiet.trans (quiet_modifyStack ..)⟩
  read sym h := by rw [h.1, State.readSymbol_guised]
  write sym v h := by
    obtain ⟨rfl, quiet⟩ := h
    exact Exec.blind_writeSymbol scope sym v s₀ quiet
  capture sym h := by
    obtain ⟨rfl, quiet⟩ := h
    exact Exec.blind_captureSymbol scope sym s₀ quiet
  newClosure f h := by
    obtain ⟨rfl, quiet⟩ := h
    exact ⟨rfl, rfl, quiet.trans (quiet_of_eq rfl)⟩
  close first last h := by
    obtain ⟨rfl, quiet⟩ := h
    exact Exec.blind_closeLocals scope first last s₀ quiet
  begin p i h := by
    obtain ⟨rfl, quiet⟩ := h
    exact Exec.blind_beginFunction p scope i s₀ quiet

namespace Exec

variable {c : ThreadId} {g : Guise} {s t : State ν}

theorem blind_height : Blind c g s height := by
  refine blind_get fun s₀ quiet => ?_
  rw [State.stack_guised]
  exact blind_pure _ s₀ quiet

theorem blind_peek (i : Nat) : Blind c g s (peek i) := fun s₀ quiet =>
  mirrors_peek (guised_mirror c g s₀ default).toOperandMirror (n := i + 1) ⟨rfl, quiet⟩
    (Nat.lt_succ_self i)

theorem blind_pop : Blind c g s pop := fun s₀ quiet =>
  mirrors_pop (guised_mirror c g s₀ default).toOperandMirror (n := 0) ⟨rfl, quiet⟩

theorem blind_popFrame : Blind c g s popFrame := by
  refine blind_get fun s₀ quiet => ?_
  rw [State.frames_guised]
  cases s.processor.frames.back? with
  | none => exact blind_throw _ s₀ quiet
  | some frame =>
    refine blind_bind (blind_modifyFrames _) (fun _ s => ?_) s₀ quiet
    split
    · exact blind_bind (blind_modifyStack _) fun _ _ => blind_pure _
    · refine blind_get fun s₀ quiet => ?_
      rw [State.closeCells_guised]
      exact blind_set _ (quiet_closeCells ..)
        (blind_bind (blind_modifyStack _) fun _ _ => blind_pure _) quiet

theorem blind_mayReuseFrame (argc : Nat) : Blind c g s (mayReuseFrame argc) := by
  refine blind_get fun s₀ quiet => ?_
  simp only [State.frames_guised, State.stack_guised, State.options_guised]
  cases s.processor.frames.back? with
  | none => exact blind_pure _ s₀ quiet
  | some frame =>
    dsimp only
    split
    · refine blind_bind (blind_peek argc) (fun v s => ?_) s₀ quiet
      cases v <;> exact blind_pure _
    · exact blind_pure _ s₀ quiet

theorem blind_tailCall (argc : Nat) (name : Option String) (ip : Nat) :
    Blind c g s (tailCall argc name ip) := by
  apply blind_bind (blind_mayReuseFrame argc)
  intro reuses s
  split
  · apply blind_bind blind_height
    intro height s
    apply blind_bind (blind_splitOff _)
    intro operands s
    apply blind_bind blind_popFrame
    intro frame s
    exact blind_bind (blind_modifyStack _) fun _ _ => blind_pure _
  · exact blind_pure _

/-- **An instruction does the same in any guise.** -/
theorem blind_execute (p : Proto) (scope : Scope) (ip : Nat) (i : Instruction) :
    Blind c g s (execute p scope ip i) := by
  by_cases hr : i.op = .ret
  · simp only [execute, hr]
    split
    · exact blind_bind (blind_pure _) fun _ _ => blind_bind blind_popFrame fun _ _ => blind_pure _
    · exact blind_bind blind_pop fun _ _ => blind_bind blind_popFrame fun _ _ => blind_pure _
  · by_cases ht : i.op = .tailCall
    · simp only [execute, ht]
      exact blind_tailCall _ _ _
    · intro s₀ quiet
      exact execute_mirrors (guised_mirror c g s₀ scope) p i ⟨rfl, quiet⟩ hr ht

theorem blind_finishNested (after : After) (v : Value) : Blind c g s (finishNested after v) := by
  cases after <;> exact blind_modifyStack _

/-! ## Calls -/

/-- A value that is no function is called by its metamethod. -/
theorem blind_callHandler {name : Option String} {budget argc : Nat} (v : Value)
    (further : ∀ s : State ν, Blind c g s (Machine.findCallee name budget (argc + 1))) :
    Blind c g s (do
      match (← get).unaryMetamethod v "__call" with
      | none => raise (.callOf v.typeName name)
      | some handler =>
        let operands ← splitOff ((← height) - argc - 1)
        push handler
        pushAll operands
        Machine.findCallee name budget (argc + 1)) := by
  refine blind_get fun s₀ quiet => ?_
  rw [State.unaryMetamethod_congr (s.world_guised c g)]
  cases s.unaryMetamethod v "__call" with
  | none => exact blind_throw _ s₀ quiet
  | some handler =>
    refine blind_bind blind_height (fun height s => ?_) s₀ quiet
    apply blind_bind (blind_splitOff _)
    intro operands s
    apply blind_bind (blind_modifyStack _)
    intro _ s
    exact blind_bind (blind_modifyStack _) fun _ s => further s

theorem blind_findCallee (name : Option String) (budget argc : Nat) :
    Blind c g s (Machine.findCallee name budget argc) := by
  induction budget generalizing s argc with
  | zero =>
    unfold Machine.findCallee
    apply blind_bind (blind_peek argc)
    intro v s
    cases v <;> first | exact blind_pure _ | exact blind_throw _
  | succ budget ih =>
    unfold Machine.findCallee
    apply blind_bind (blind_peek argc)
    intro v s
    have handled := blind_callHandler (s := s) v fun s => ih (s := s) (argc + 1)
    cases v <;> first | exact blind_pure _ | exact handled

theorem blind_enterCall (spec : CallSpec) : Blind c g s (Machine.enterCall spec) := by
  refine blind_get (blind_bind (blind_findCallee _ _ _) ?_)
  rintro ⟨callee, argc⟩ s
  cases callee with
  | script f =>
    refine blind_get fun s₀ quiet => ?_
    simp only [State.callDepth, State.frames_guised, State.options_guised]
    by_cases deep : s.options.maxCallDepth ≤ s.processor.frames.size
    · simp only [deep, ↓reduceIte]
      exact blind_throw _ s₀ quiet
    · simp only [deep, ↓reduceIte]
      refine blind_bind blind_height (fun height s => ?_) s₀ quiet
      exact blind_bind (blind_modifyFrames _) fun _ _ => blind_pure _
  | native f =>
    apply blind_bind blind_height
    intro height s
    apply blind_bind (blind_splitOff _)
    intro operands s
    apply blind_bind blind_pop
    intro _ s
    apply blind_bind blind_height
    intro height s
    exact blind_bind (blind_modifyFrames _) fun _ _ => blind_pure _

/-! ## Stops -/

theorem blind_assignAll (assignments : List (String × Value)) :
    Blind c g s (assignAll assignments) := by
  induction assignments generalizing s with
  | nil => exact blind_pure _
  | cons assignment rest ih =>
    obtain ⟨name, v⟩ := assignment
    refine blind_get fun s₀ quiet => ?_
    rw [State.findSymbol_guised, State.assignSymbol_guised]
    cases assigned : s.assignSymbol (s.findSymbol name) v with
    | ok s' => exact blind_set _ (quiet_tolerant.assignSymbol assigned) ih quiet
    | error e => exact blind_throw e s₀ quiet

theorem blind_observe (observer : Observer) (stop : Stop) :
    Blind c g s (observe observer stop) := by
  apply blind_bind (blind_modify rfl (quiet_of_eq rfl))
  intro _ s
  refine blind_get fun s₀ quiet => ?_
  rw [show (s.guised c g).watch = s.watch from funext (s.watch_guised c g)]
  refine blind_bind (blind_modify rfl (quiet_of_eq rfl)) (fun _ s => ?_) s₀ quiet
  apply blind_bind (blind_assignAll _)
  intro _ s
  have detached : Blind c g s (modify fun s => s.setDebugger none) :=
    blind_modify rfl (quiet_of_eq rfl)
  by_cases detaches : observer.detachAt = some (observer.hits + 1) <;>
    by_cases fails : observer.failAt = some (observer.hits + 1) <;>
    simp only [detaches, fails, ↓reduceIte]
  · exact blind_bind detached fun _ _ => blind_throw _
  · exact blind_bind detached fun _ _ => blind_pure _
  · exact blind_throw _
  · exact blind_pure _

theorem blind_checkpoint (p : Proto) (ip : Nat) : Blind c g s (checkpoint p ip) := by
  refine blind_get fun s₀ quiet => ?_
  simp only [State.callDepth, State.frames_guised, State.world_guised]
  split
  · split
    · exact blind_observe _ _ s₀ quiet
    · exact blind_pure _ s₀ quiet
  · exact blind_pure _ s₀ quiet

/-! ## Making functions and coroutines -/

theorem blind_load (p : Proto) : Blind c g s (load p) := by
  unfold load
  split
  · exact blind_throw _
  · refine blind_bind (fun s₀ quiet => mirrors_captureAll (guised_mirror c g s₀ default) (n := 0)
      _ ⟨rfl, quiet⟩) fun cells s s₀ quiet => ?_
    exact .ok ⟨rfl, quiet.trans (quiet_of_eq rfl)⟩

theorem blind_undump (bytes : List UInt8) : Blind c g s (undump bytes) := by
  refine blind_get fun s₀ quiet => ?_
  change Mirrors _ _ _ (ofExcept (Chunk.undump s.heap bytes) >>= _)
    (ofExcept (Chunk.undump s.heap bytes) >>= _) _
  cases Chunk.undump s.heap bytes with
  | error e => exact blind_throw e s₀ quiet
  | ok result =>
    exact blind_set (s.setHeap result.2) (quiet_of_eq rfl) (blind_load result.1) quiet

theorem newCoroutine_guised (function : Value) (inRange : c.index < s.processors.size) :
    (s.guised c g).newCoroutine function =
      ((s.newCoroutine function).1, (s.newCoroutine function).2.guised c g) := by
  simp only [State.newCoroutine, State.guised, State.modifyProcessorOf, Array.size_modify,
    Prod.mk.injEq, State.mk.injEq, true_and, and_true]
  apply Array.ext_getElem?
  intro i
  simp only [Array.getElem?_push, Array.getElem?_modify, Array.size_modify]
  by_cases hi : i = s.processors.size
  · simp [hi, Nat.ne_of_lt inRange]
  · simp [hi]

end Exec

/-- The instruction at an address of the top frame, with its function. -/
def State.instructionAt (s : State ν) (ip : Nat) :
    Except Fault ((Proto × Scope) × Instruction) :=
  match s.processor.frames.back? with
  | none => .error (.defect .emptyExecutionStack)
  | some frame =>
    match frame.callee with
    | .native n => .error (.defect (.nativeFrameOnTop (s.native n).name))
    | .script f =>
      match (s.closure f).proto.code[ip]? with
      | some i => .ok (((s.closure f).proto, ⟨f, frame.base⟩), i)
      | none => .error (.defect (.instructionOutOfRange ip (s.closure f).proto.name))

theorem State.instructionAt_guised (s : State ν) (c : ThreadId) (g : Guise) (ip : Nat) :
    (s.guised c g).instructionAt ip = s.instructionAt ip := by
  unfold instructionAt
  rw [frames_guised]
  rfl

def State.counted (s : State ν) : State ν := { s with instructionCount := s.instructionCount + 1 }

namespace Exec

variable {c : ThreadId} {g : Guise} {s t : State ν} {ip : Nat} {x : (Proto × Scope) × Instruction}

def takeTurn (ip : Nat) (x : (Proto × Scope) × Instruction) : Exec ν (Option Effect) := do
  checkpoint x.1.1 ip
  return some (← execute x.1.1 x.1.2 ip x.2)

theorem blind_takeTurn (ip : Nat) (x : (Proto × Scope) × Instruction) :
    Blind c g s (takeTurn ip x) :=
  blind_bind (blind_checkpoint _ _) fun _ _ =>
    blind_bind (blind_execute _ _ _ _) fun _ _ => blind_pure _

theorem takeTurn_ne_none (ip : Nat) (x : (Proto × Scope) × Instruction) (s s' : State ν) :
    takeTurn ip x s ≠ .ok none s' := by
  simp only [takeTurn, bind, EStateM.bind]
  split
  · split
    · simp [pure, EStateM.pure]
    · simp
  · simp

/-- A turn, unless it is put off. -/
def turn (ip : Nat) (x : (Proto × Scope) × Instruction) : Exec ν (Option Effect) := do
  if ← shareUsedUp ip then return none else takeTurn ip x

theorem executeAt_eq (ip : Nat) (s : State ν) :
    executeAt ip s = (do
      let x ← ofExcept (s.instructionAt ip)
      countInstruction
      turn ip x : Exec ν (Option Effect)) s := by
  change ((match s.processor.frames.back? with
    | none => defect .emptyExecutionStack
    | some frame => do
      let s ← get
      match frame.callee with
      | .native n => defect (.nativeFrameOnTop (s.native n).name)
      | .script c => return ((s.closure c).proto, ⟨c, frame.base⟩) : Exec ν (Proto × Scope)) >>=
    fun found => do
      let i ← fetch found.1 ip
      countInstruction
      turn ip (found, i) : Exec ν (Option Effect)) s = _
  unfold State.instructionAt
  cases s.processor.frames.back? with
  | none => rfl
  | some frame =>
    obtain ⟨base, argc, address, callee, name, cells, handlers, flags⟩ := frame
    cases callee with
    | native f => rfl
    | script f =>
      change (fetch (s.closure f).proto ip >>= _ : Exec ν (Option Effect)) s = _
      unfold fetch
      dsimp only
      cases (s.closure f).proto.code[ip]? <;> rfl

theorem executeAt_fault {e : Fault} (missing : s.instructionAt ip = .error e) :
    executeAt ip s = .error e s := by
  rw [executeAt_eq, missing]
  rfl

/-- Another thread, or one whose forced yields are of no concern, is not counted against a share. -/
theorem blind_shareUsedUp (ip : Nat)
    (other : s.current = c → s.isYieldable = false ∧ (s.guised c g).isYieldable = false) :
    Blind c g s (shareUsedUp ip) := by
  refine blind_get fun s₀ quiet => ?_
  by_cases runs : s.current = c
  · rw [(other runs).1, (other runs).2]
    simp only [Bool.and_false]
    exact blind_pure _ s₀ quiet
  · have same : (s.guised c g).processor = s.processor :=
      State.processorOf_modifyProcessorOf_ne s _ runs
    have changed : ∀ f : Processor → Processor,
        Blind c g s (modify fun s => s.modifyProcessor f) := fun f =>
      blind_modify (s.modifyProcessorOf_guised c s.current g f fun e => absurd e runs)
        ⟨rfl, rfl, rfl, rfl, rfl, by simp [State.modifyProcessor, State.modifyProcessorOf],
         congrArg _ (State.processorOf_modifyProcessorOf_ne s f (Ne.symm runs))⟩
    have yieldable : (s.guised c g).isYieldable = s.isYieldable := by
      simp only [State.isYieldable, same]
      rfl
    rw [yieldable, same]
    dsimp only
    split
    · split
      · exact blind_bind (changed _) (fun _ _ => blind_pure _) s₀ quiet
      · exact blind_bind (changed _) (fun _ _ => blind_pure _) s₀ quiet
    · exact blind_pure _ s₀ quiet

theorem blind_turn
    (other : s.current = c → s.isYieldable = false ∧ (s.guised c g).isYieldable = false) :
    Blind c g s (turn ip x) := by
  refine blind_bind (blind_shareUsedUp ip other) fun used s => ?_
  split
  · exact blind_pure _
  · exact blind_takeTurn ip x

theorem blind_limit (count : Nat) : Blind c g s (match s.options.instructionLimit with
    | some limit => if limit < count then throw .instructionLimit else pure ()
    | none => pure () : Exec ν Unit) := by
  split
  · split
    · exact blind_throw _
    · exact blind_pure _
  · exact blind_pure _

theorem blind_countInstruction (counts : ∀ n, g.total n = n) : Blind c g s countInstruction := by
  refine blind_get fun s₀ quiet => ?_
  have same : { s.guised c g with instructionCount := (s.guised c g).instructionCount + 1 } =
      s.counted.guised c g := by
    simp only [State.guised, State.counted, counts]
    rfl
  have shown : (s.guised c g).instructionCount = s.instructionCount := counts _
  dsimp only
  rw [same, shown]
  exact blind_set s.counted (quiet_of_eq rfl) (blind_limit (s.instructionCount + 1)) quiet

/-- **The root takes a turn in any guise** that leaves the count of instructions alone. -/
theorem blind_executeAt (counts : ∀ n, g.total n = n) (root : c.index = 0) (ip : Nat) :
    Blind c g s (executeAt ip) := by
  have never : ∀ s : State ν, s.current = c → s.isYieldable = false := by
    intro s here
    simp [State.isYieldable, State.inCoroutine, here, root]
  have blind : Blind c g s (do
      let x ← ofExcept (s.instructionAt ip)
      countInstruction
      turn ip x : Exec ν (Option Effect)) :=
    blind_bind (blind_ofExcept _) fun x s => blind_bind (blind_countInstruction counts) fun _ s =>
      blind_turn fun here => ⟨never s here, never _ here⟩
  intro s₀ quiet
  unfold Mirrors
  rw [executeAt_eq, executeAt_eq, State.instructionAt_guised]
  exact blind s₀ quiet

end Exec

end ScriptMachine
