import ScriptMachine.Machine.Entry
import ScriptMachine.Proofs.Machine.Meter

/-!
# The outline of a machine

Everything about the threads but the values they work on: which frames stand with which handlers,
who waits to be resumed and how, and which thread runs.

* `Rigid`: the outline is as it was.
* `Exec.Keeps`: work that leaves the outline alone, with one rule for each combinator.
* `Exec.executed`: an instruction leaves it alone, or drops the running frame by a return or by a
  call that takes the frame over.
-/

namespace ScriptMachine

variable {ν α β : Type}

/-- A frame without its cells. -/
def Frame.outline (f : Frame) : Frame := { f with cells := [] }

@[simp] theorem Frame.outline_outline (f : Frame) : f.outline.outline = f.outline := rfl

@[simp] theorem Frame.outline_handlers (f : Frame) : f.outline.handlers = f.handlers := rfl

@[simp] theorem Frame.outline_flags (f : Frame) : f.outline.flags = f.flags := rfl

@[simp] theorem Frame.outline_returnAddress (f : Frame) :
    f.outline.returnAddress = f.returnAddress := rfl

@[simp] theorem Frame.outline_isNative (f : Frame) : f.outline.isNative = f.isNative := rfl

/-- A processor without values, cells and counts. -/
structure Outline where
  /-- The frames, the innermost first. -/
  frames : List Frame
  nestedCalls : Nat
  asyncMode : Bool
  pending : Option (Resumption × Mark)

def Processor.outline (p : Processor) : Outline :=
  ⟨p.frames.toList.reverse.map Frame.outline, p.nestedCalls, p.asyncMode, p.pending⟩

namespace State

def outlineOf (s : State ν) (c : ThreadId) : Outline := (s.processorOf c).outline

/-- The frames of a thread, the innermost first. -/
def framesOf (s : State ν) (c : ThreadId) : List Frame := (s.outlineOf c).frames

theorem callDepth_eq_length (s : State ν) : s.callDepth = (s.framesOf s.current).length := by
  simp [callDepth, framesOf, outlineOf, Processor.outline, processor]

theorem framesOf_back? {s : State ν} {f : Frame} (h : s.processor.frames.back? = some f) :
    ∃ rest, s.framesOf s.current = f.outline :: rest := by
  obtain ⟨fs, hfs⟩ := Array.back?_eq_some_iff.1 h
  refine ⟨fs.toList.reverse.map Frame.outline, ?_⟩
  simp only [processor] at hfs
  simp [framesOf, outlineOf, Processor.outline, hfs]

end State

/-- Nothing changes but values, cells, closures, counts and the world. -/
structure Rigid (s s' : State ν) : Prop where
  options : s'.options = s.options
  coroutines : s'.coroutines = s.coroutines
  active : s'.active = s.active
  current : s'.current = s.current
  entries : s'.entries = s.entries
  size : s'.processors.size = s.processors.size
  outline : ∀ c, s'.outlineOf c = s.outlineOf c

namespace Rigid

variable {s s' s'' : State ν}

theorem refl (s : State ν) : Rigid s s := ⟨rfl, rfl, rfl, rfl, rfl, rfl, fun _ => rfl⟩

theorem trans (h : Rigid s s') (h' : Rigid s' s'') : Rigid s s'' :=
  ⟨h'.options.trans h.options, h'.coroutines.trans h.coroutines, h'.active.trans h.active,
   h'.current.trans h.current, h'.entries.trans h.entries, h'.size.trans h.size,
   fun c => (h'.outline c).trans (h.outline c)⟩

theorem frames (h : Rigid s s') (c : ThreadId) : s'.framesOf c = s.framesOf c :=
  congrArg Outline.frames (h.outline c)

theorem hasCurrent (h : Rigid s s') (here : s.HasCurrent) : s'.HasCurrent := by
  unfold State.HasCurrent
  rw [h.current, h.size]
  exact here

end Rigid

/-- Only the world, cells, closures and counts change. -/
theorem rigid_of_eq {s s' : State ν}
    (h : { s' with
      world := s.world, cells := s.cells, closures := s.closures,
      instructionCount := s.instructionCount } = s) : Rigid s s' := by
  rw [← h]
  exact ⟨rfl, rfl, rfl, rfl, rfl, rfl, fun _ => rfl⟩

theorem rigid_modifyProcessorOf (s : State ν) (c : ThreadId) {f : Processor → Processor}
    (h : ∀ p, (f p).outline = p.outline) : Rigid s (s.modifyProcessorOf c f) :=
  ⟨rfl, rfl, rfl, rfl, rfl, by simp [State.modifyProcessorOf],
   fun d => State.view_modifyProcessorOf s f c d Processor.outline h⟩

theorem rigid_modifyStack (s : State ν) (f : ValueStack → ValueStack) : Rigid s (s.modifyStack f) :=
  rigid_modifyProcessorOf s s.current fun _ => rfl

/-- The running frame gets other cells. -/
theorem rigid_setTopFrame {s : State ν} {f g : Frame} (h : s.processor.frames.back? = some f)
    (same : g.outline = f.outline) :
    Rigid s (s.modifyFrames fun frames => frames.setIfInBounds (frames.size - 1) g) := by
  refine ⟨rfl, rfl, rfl, rfl, rfl, by
    simp [State.modifyFrames, State.modifyProcessor, State.modifyProcessorOf], fun c => ?_⟩
  by_cases hc : c = s.current
  · subst hc
    by_cases here : s.HasCurrent
    · obtain ⟨fs, hfs⟩ := Array.back?_eq_some_iff.1 h
      simp only [State.processor] at hfs
      simp only [State.outlineOf, State.modifyFrames, State.processor_modifyProcessor here,
        Processor.outline, hfs]
      simp [same]
    · simp [State.outlineOf, State.modifyFrames, State.modifyProcessor, State.modifyProcessorOf,
        State.processorOf, Nat.not_lt.1 here]
  · exact congrArg Processor.outline (State.processorOf_modifyProcessorOf_ne s _ hc)

theorem rigid_tolerant : Tolerant (Rigid (ν := ν)) where
  refl := .refl
  trans := .trans
  arrange _ _ := rigid_of_eq rfl
  modifyStack := rigid_modifyStack
  newClosure _ _ := rigid_of_eq rfl
  newCell _ _ := rigid_of_eq rfl
  writeCell s x v := by
    unfold State.writeCell
    split
    · exact rigid_modifyProcessorOf s _ fun _ => rfl
    · exact rigid_of_eq rfl

theorem rigid_closeCells (s : State ν) (p : Nat → Bool) (cells : List CellId) :
    Rigid s (s.closeCells p cells).2 := by
  induction cells generalizing s with
  | nil => exact .refl s
  | cons cell rest ih =>
    unfold State.closeCells
    split
    · split
      · have closed : Rigid s (s.closeCell cell) := rigid_of_eq rfl
        exact closed.trans (ih _)
      · exact ih s
    · exact ih s

/-- What closing one cell does not change. -/
theorem view_closeCells {α : Type} (view : State ν → α)
    (same : ∀ s cell, view (s.closeCell cell) = view s) (s : State ν) (p : Nat → Bool)
    (cells : List CellId) : view (s.closeCells p cells).2 = view s := by
  induction cells generalizing s with
  | nil => rfl
  | cons cell rest ih =>
    unfold State.closeCells
    split
    · split
      · exact (ih (s.closeCell cell)).trans (same s cell)
      · exact ih s
    · exact ih s

theorem processors_closeCells (s : State ν) (p : Nat → Bool) (cells : List CellId) :
    (s.closeCells p cells).2.processors = s.processors :=
  view_closeCells State.processors (fun _ _ => rfl) s p cells

theorem world_closeCells (s : State ν) (p : Nat → Bool) (cells : List CellId) :
    (s.closeCells p cells).2.world = s.world :=
  view_closeCells State.world (fun _ _ => rfl) s p cells

namespace Exec

variable {s : State ν} {work : Exec ν α}

/-- The work leaves the outline alone, whether it fails or not. -/
def Keeps (s : State ν) (work : Exec ν α) : Prop :=
  match work s with
  | .ok _ s' | .error _ s' => Rigid s s'

theorem Keeps.ok {a : α} {s' : State ν} (h : Keeps s work) (run : work s = .ok a s') :
    Rigid s s' := Within.ok h run

theorem Keeps.error {e : Fault} {s' : State ν} (h : Keeps s work) (run : work s = .error e s') :
    Rigid s s' := Within.error h run

theorem keeps_pure (a : α) : Keeps s (pure a) := within_pure rigid_tolerant a

theorem keeps_throw (e : Fault) : Keeps s (throw e : Exec ν α) :=
  within_throw (α := α) rigid_tolerant e

theorem keeps_bind {f : α → Exec ν β} (hx : Keeps s work) (hf : ∀ a s', Keeps s' (f a)) :
    Keeps s (work >>= f) := within_bind rigid_tolerant hx hf

theorem keeps_get {f : State ν → Exec ν β} (h : Keeps s (f s)) : Keeps s (get >>= f) := h

theorem keeps_modify {f : State ν → State ν} (h : Rigid s (f s)) : Keeps s (modify f) := h

/-- The state is replaced, and work goes on from the new one. -/
theorem keeps_set {s' : State ν} (h : Rigid s s') (hw : Keeps s' work) :
    Keeps s (do set s'; work) := within_set rigid_tolerant h hw

theorem keeps_height : Keeps s height := within_height rigid_tolerant

theorem keeps_pop : Keeps s pop := within_pop rigid_tolerant

theorem keeps_splitOff (start : Nat) : Keeps s (splitOff start) :=
  within_splitOff rigid_tolerant start

theorem keeps_captureSlot (slot : Nat) : Keeps s (captureSlot slot) := by
  apply keeps_get
  dsimp only [pure_bind]
  cases top : s.processor.frames.back? with
  | none => exact keeps_throw _
  | some frame =>
    apply keeps_get
    cases s.findOpenCell frame slot with
    | some cell => exact keeps_pure cell
    | none =>
      refine keeps_set (rigid_of_eq rfl) ?_
      refine keeps_bind (keeps_modify (rigid_setTopFrame (f := frame) ?_ rfl)) fun _ _ =>
        keeps_pure _
      exact top

theorem keeps_closeLocals (scope : Scope) (first last : Nat) :
    Keeps s (closeLocals scope first last) := by
  apply keeps_get
  dsimp only [pure_bind]
  cases top : s.processor.frames.back? with
  | none => exact keeps_throw _
  | some frame =>
    apply keeps_get
    refine keeps_set (rigid_closeCells ..) ?_
    refine keeps_bind (keeps_modify (rigid_setTopFrame (f := frame) ?_ rfl)) fun _ _ =>
      keeps_modify (rigid_modifyStack ..)
    simp only [State.processor, State.processorOf, processors_closeCells]
    rw [(rigid_closeCells s _ frame.cells).current]
    exact top

theorem rigid_indulgent (scope : Scope) : Indulgent (Rigid (ν := ν)) scope where
  toTolerant := rigid_tolerant
  capture _ _ := keeps_captureSlot _
  close _ _ _ := keeps_closeLocals ..

theorem keeps_execute (p : Proto) (scope : Scope) (ip : Nat) (i : Instruction) (hr : i.op ≠ .ret)
    (ht : i.op ≠ .tailCall) : Keeps s (execute p scope ip i) :=
  within_execute (rigid_indulgent scope) p ip i hr ht

theorem keeps_finishNested (after : After) (v : Value) : Keeps s (finishNested after v) :=
  within_finishNested rigid_tolerant after v

theorem keeps_load (p : Proto) : Keeps s (load p) := within_load rigid_tolerant p

theorem keeps_undump (bytes : List UInt8) : Keeps s (undump bytes) :=
  within_undump rigid_tolerant bytes

theorem keeps_assignAll (assignments : List (String × Value)) :
    Keeps s (assignAll assignments) := within_assignAll rigid_tolerant assignments

theorem keeps_checkpoint (p : Proto) (ip : Nat) : Keeps s (checkpoint p ip) :=
  within_checkpoint rigid_tolerant p ip

end Exec

/-- What an instruction asks for while its frame goes on: calls have no handlers, and come back to
the next instruction. -/
def Effect.Bare (ip : Nat) : Effect → Prop
  | .call spec =>
    spec.flags.entryPoint = false ∧ spec.returnAddress = ip + 1 ∧ spec.handlers = {}
  | .leave _ _ => False
  | _ => True

namespace Exec

/-- Each result of the work satisfies `P`. -/
structure Yields (P : α → Prop) (work : Exec ν α) : Prop where
  result : ∀ s a s', work s = .ok a s' → P a

variable {P : β → Prop} {ip : Nat}

theorem yields_pure {b : β} (h : P b) : Yields P (pure b : Exec ν β) := by
  constructor
  rintro s _ _ ⟨⟩
  exact h

theorem yields_throw (e : Fault) : Yields P (throw e : Exec ν β) := by
  constructor
  rintro s _ _ ⟨⟩

theorem yields_raise (c : Cause) : Yields P (raise c : Exec ν β) := yields_throw _

theorem yields_defect (d : Defect) : Yields P (defect d : Exec ν β) := yields_throw _

theorem yields_bind (work : Exec ν α) {f : α → Exec ν β} (h : ∀ a, Yields P (f a)) :
    Yields P (work >>= f) := by
  constructor
  intro s b s' run
  simp only [bind, EStateM.bind] at run
  split at run
  · exact (h _).result _ _ _ run
  · cases run

theorem next_bare : Yields (Effect.Bare ip) (pure .next : Exec ν Effect) := yields_pure trivial

theorem nested_bare (function : Value) (arguments : List Value) (after : After) :
    Yields (Effect.Bare ip) (pure (.nested function arguments after) : Exec ν Effect) :=
  yields_pure trivial

theorem plainCall_bare {argc : Nat} {methodCall : Bool} {name : Option String} :
    Yields (Effect.Bare ip) (pure (.call
      { argc, returnAddress := ip + 1, flags := { methodCall }, name }) : Exec ν Effect) :=
  yields_pure ⟨rfl, rfl, rfl⟩

theorem result_bare (v : Value) : Yields (Effect.Bare ip) (result (ν := ν) v) :=
  yields_bind _ fun _ => yields_pure trivial

theorem jumpTo_bare (a : Int32) : Yields (Effect.Bare ip) (jumpTo (ν := ν) a) := by
  unfold jumpTo
  split
  · exact yields_throw _
  · exact yields_pure trivial

theorem callMetamethod_bare (handler : Value) (operands : List Value) {flags : FrameFlags}
    (name : String) (h : flags.entryPoint = false) :
    Yields (Effect.Bare ip) (callMetamethod (ν := ν) handler operands (ip + 1) flags name) :=
  yields_bind _ fun _ => yields_bind _ fun _ => yields_pure ⟨h, rfl, rfl⟩

theorem callScalar_bare (handler : Value) (operands : List Value) (name : String) :
    Yields (Effect.Bare ip) (callScalar (ν := ν) handler operands (ip + 1) name) :=
  callMetamethod_bare handler operands name rfl

theorem index_bare (object key : Value) :
    Yields (Effect.Bare ip) (index (ν := ν) object key (ip + 1)) := by
  refine yields_bind _ fun _ => yields_bind _ fun found => ?_
  cases found with
  | value v => exact result_bare v
  | call handler receiver => exact callMetamethod_bare _ _ _ rfl

theorem storeIndex_bare (object key value : Value) :
    Yields (Effect.Bare ip) (storeIndex (ν := ν) object key value (ip + 1)) := by
  refine yields_bind _ fun found => ?_
  cases found with
  | none => exact yields_pure trivial
  | some target => exact callMetamethod_bare _ _ _ rfl

theorem loadSymbol_bare (scope : Scope) (sym : Symbol) :
    Yields (Effect.Bare ip) (loadSymbol (ν := ν) scope sym (ip + 1)) := by
  cases sym with
  | global name env => exact yields_bind _ fun _ => index_bare _ _
  | slot | upvalue | defaultEnv => exact yields_bind _ fun _ => result_bare _

theorem storeSymbol_bare (scope : Scope) (sym : Symbol) (v : Value) :
    Yields (Effect.Bare ip) (storeSymbol (ν := ν) scope sym v (ip + 1)) := by
  cases sym with
  | global name env => exact yields_bind _ fun _ => storeIndex_bare _ _ _
  | slot | upvalue | defaultEnv => exact yields_bind _ fun _ => yields_pure trivial

theorem iterPrepare_bare : Yields (Effect.Bare ip) (iterPrepare (ν := ν)) := by
  refine yields_bind _ fun v => yields_bind _ fun s => ?_
  cases v with
  | table t =>
    dsimp only
    split
    · exact yields_bind _ fun _ => yields_pure trivial
    · split
      · exact yields_pure trivial
      · exact yields_bind _ fun _ => yields_pure trivial
  | _ => exact yields_bind _ fun _ => yields_pure trivial

/-- An instruction asks for calls without handlers, which come back to the next one. -/
theorem execute_bare (p : Proto) (scope : Scope) (i : Instruction) (hr : i.op ≠ .ret)
    (ht : i.op ≠ .tailCall) : Yields (Effect.Bare ip) (execute (ν := ν) p scope ip i) := by
  obtain ⟨op, a, b⟩ := i
  cases op <;> simp only [execute, negate, concat, length, equal, less, lessEqual, arithmetic,
    ne_eq, not_true_eq_false] at *
  all_goals
    with_reducible repeat' first
      | exact result_bare _
      | exact jumpTo_bare _
      | exact index_bare _ _
      | exact storeIndex_bare _ _ _
      | exact loadSymbol_bare _ _
      | exact storeSymbol_bare _ _ _
      | exact callScalar_bare _ _ _
      | exact iterPrepare_bare
      | exact yields_raise _
      | exact yields_defect _
      | exact next_bare
      | exact nested_bare _ _ _
      | exact plainCall_bare
      | refine yields_bind _ fun _ => ?_
      | split

end Exec

/-- The outline is as it was, but that of the thread that runs is now `o`. -/
structure Shifted (o : Outline) (s s' : State ν) : Prop where
  options : s'.options = s.options
  coroutines : s'.coroutines = s.coroutines
  active : s'.active = s.active
  current : s'.current = s.current
  entries : s'.entries = s.entries
  size : s'.processors.size = s.processors.size
  own : s'.outlineOf s.current = o
  others : ∀ c, c ≠ s.current → s'.outlineOf c = s.outlineOf c

theorem Rigid.shifted {s s' : State ν} (h : Rigid s s') : Shifted (s.outlineOf s.current) s s' :=
  ⟨h.options, h.coroutines, h.active, h.current, h.entries, h.size, h.outline _,
   fun c _ => h.outline c⟩

namespace Shifted

variable {o o' : Outline} {s s' s'' : State ν}

theorem trans (h : Shifted o s s') (h' : Shifted o' s' s'') : Shifted o' s s'' :=
  ⟨h'.options.trans h.options, h'.coroutines.trans h.coroutines, h'.active.trans h.active,
   h'.current.trans h.current, h'.entries.trans h.entries, h'.size.trans h.size,
   h.current ▸ h'.own, fun c hc => (h'.others c (h.current ▸ hc)).trans (h.others c hc)⟩

theorem trans_rigid (h : Shifted o s s') (h' : Rigid s' s'') : Shifted o s s'' := by
  have own : s'.outlineOf s'.current = o := h.current ▸ h.own
  exact own ▸ h.trans h'.shifted

theorem of_rigid (h : Rigid s s') (h' : Shifted o s' s'') : Shifted o s s'' := h.shifted.trans h'

theorem outline (h : Shifted o s s') : s'.outlineOf s'.current = o := h.current ▸ h.own

theorem frames (h : Shifted o s s') : s'.framesOf s'.current = o.frames :=
  congrArg Outline.frames h.outline

theorem frames_ne (h : Shifted o s s') {c : ThreadId} (hc : c ≠ s.current) :
    s'.framesOf c = s.framesOf c := congrArg Outline.frames (h.others c hc)

theorem hasCurrent (h : Shifted o s s') (here : s.HasCurrent) : s'.HasCurrent := by
  unfold State.HasCurrent
  rw [h.current, h.size]
  exact here

end Shifted

/-- A change of the processor that runs. -/
theorem shifted_modifyProcessor {s : State ν} (here : s.HasCurrent) (f : Processor → Processor) :
    Shifted (f s.processor).outline s (s.modifyProcessor f) :=
  ⟨rfl, rfl, rfl, rfl, rfl, by simp [State.modifyProcessor, State.modifyProcessorOf],
   congrArg Processor.outline (State.processor_modifyProcessor here f),
   fun _ hc => congrArg Processor.outline (State.processorOf_modifyProcessorOf_ne s f hc)⟩

namespace Outline

def push (o : Outline) (f : Frame) : Outline := { o with frames := f.outline :: o.frames }

def cut (o : Outline) (rest : List Frame) : Outline := { o with frames := rest }

def pause (o : Outline) (r : Resumption) : Outline := { o with pending := some (r, {}) }

@[simp] theorem push_frames (o : Outline) (f : Frame) :
    (o.push f).frames = f.outline :: o.frames := rfl

@[simp] theorem cut_frames (o : Outline) (rest : List Frame) : (o.cut rest).frames = rest := rfl

@[simp] theorem pause_frames (o : Outline) (r : Resumption) : (o.pause r).frames = o.frames := rfl

end Outline

theorem shifted_push {s : State ν} (here : s.HasCurrent) (f : Frame) :
    Shifted ((s.outlineOf s.current).push f) s (s.modifyFrames (·.push f)) := by
  have shifted := shifted_modifyProcessor here fun p => { p with frames := p.frames.push f }
  have own : ({ s.processor with frames := s.processor.frames.push f } : Processor).outline =
      (s.outlineOf s.current).push f := by
    simp [Processor.outline, Outline.push, State.outlineOf, State.processor]
  exact own ▸ shifted

/-- A thread with frames has a processor. -/
theorem hasCurrent_of_back? {s : State ν} {f : Frame} (h : s.processor.frames.back? = some f) :
    s.HasCurrent := by
  refine Nat.lt_of_not_le fun out => ?_
  simp [State.processor, State.processorOf, Array.getElem?_eq_none out] at h

theorem shifted_pop {s : State ν} {f : Frame} (h : s.processor.frames.back? = some f) :
    ∃ rest, s.framesOf s.current = f.outline :: rest ∧
      Shifted ((s.outlineOf s.current).cut rest) s (s.modifyFrames Array.pop) := by
  obtain ⟨fs, hfs⟩ := Array.back?_eq_some_iff.1 h
  have shifted := shifted_modifyProcessor (hasCurrent_of_back? h) fun p =>
    { p with frames := p.frames.pop }
  have own : ({ s.processor with frames := s.processor.frames.pop } : Processor).outline =
      (s.outlineOf s.current).cut (fs.toList.reverse.map Frame.outline) := by
    rw [hfs]
    simp [Processor.outline, Outline.cut, State.outlineOf, State.processor]
  refine ⟨fs.toList.reverse.map Frame.outline, ?_, own ▸ shifted⟩
  simp only [State.processor] at hfs
  simp [State.framesOf, State.outlineOf, Processor.outline, hfs]

namespace Exec

variable {s : State ν}

/-- The frame on top is popped, or there is none. -/
theorem popFrame_cases (s : State ν) :
    (s.framesOf s.current = [] ∧ popFrame s = .error (.defect .executionUnderflow) s) ∨
    ∃ f s' rest, popFrame s = .ok f s' ∧ s.framesOf s.current = f.outline :: rest ∧
      Shifted ((s.outlineOf s.current).cut rest) s s' ∧ s'.world = s.world := by
  cases top : s.processor.frames.back? with
  | none =>
    refine .inl ⟨?_, ?_⟩
    · have empty : (s.processorOf s.current).frames = #[] := by simpa [State.processor] using top
      simp [State.framesOf, State.outlineOf, Processor.outline, empty]
    · simp only [popFrame, topFrame?, bind, EStateM.bind, get, getThe, MonadStateOf.get,
        EStateM.get, pure, EStateM.pure, top]
      rfl
  | some f =>
    obtain ⟨rest, frames, popped⟩ := shifted_pop top
    refine .inr ?_
    let s' := s.modifyFrames Array.pop
    by_cases native : f.isNative
    · refine ⟨f, s'.modifyStack (·.truncate f.base), rest, ?_, frames,
        popped.trans_rigid (rigid_modifyStack ..), rfl⟩
      simp only [popFrame, topFrame?, bind, EStateM.bind, get, getThe, MonadStateOf.get,
        EStateM.get, pure, EStateM.pure, top, native, ↓reduceIte]
      rfl
    · let closed := s'.closeCells (fun slot => f.base ≤ slot) f.cells
      refine ⟨{ f with cells := closed.1 }, closed.2.modifyStack (·.truncate (f.base - 1)), rest,
        ?_, frames, popped.trans_rigid ((rigid_closeCells ..).trans (rigid_modifyStack ..)),
        world_closeCells s' _ f.cells⟩
      simp only [popFrame, topFrame?, bind, EStateM.bind, get, getThe, MonadStateOf.get,
        EStateM.get, pure, EStateM.pure, top, native]
      rfl

theorem keeps_mayReuseFrame (argc : Nat) : Keeps s (mayReuseFrame argc) :=
  within_mayReuseFrame rigid_tolerant argc

/-- A frame is taken over only if it has no handlers. -/
theorem mayReuseFrame_true {argc : Nat} {s' : State ν} (h : mayReuseFrame argc s = .ok true s') :
    ∃ f rest, s.framesOf s.current = f :: rest ∧ f.handlers.isEmpty = true := by
  unfold mayReuseFrame at h
  simp only [bind, EStateM.bind, get, getThe, MonadStateOf.get, EStateM.get] at h
  cases top : s.processor.frames.back? with
  | none =>
    rw [top] at h
    cases h
  | some f =>
    rw [top] at h
    obtain ⟨rest, frames⟩ := State.framesOf_back? top
    refine ⟨_, rest, frames, ?_⟩
    dsimp only at h
    split at h
    · rename_i deep
      exact (Bool.and_eq_true_iff.1 deep).2
    · cases h

/-- What an instruction of the running frame can do to the outline. -/
inductive Executed (s : State ν) (ip : Nat) :
    EStateM.Result Fault (State ν) (Option Effect) → Prop
  | failed {e : Fault} {s' : State ν} : Rigid s s' → Executed s ip (.error e s')
  /-- A yield is forced before the instruction. -/
  | forced {s' : State ν} : (s.outlineOf s.current).nestedCalls = 0 →
      Shifted ((s.outlineOf s.current).pause (.instruction ip)) s s' →
      Executed s ip (.ok none s')
  | asked {e : Effect} {s' : State ν} : Rigid s s' → e.Bare ip → Executed s ip (.ok (some e) s')
  | left {f : Frame} {v : Value} {rest : List Frame} {s' : State ν} :
      s.framesOf s.current = f.outline :: rest →
      Shifted ((s.outlineOf s.current).cut rest) s s' →
      Executed s ip (.ok (some (.leave f v)) s')
  /-- The frame is gone, and a call gives its result in its stead. -/
  | reused {f : Frame} {spec : CallSpec} {rest : List Frame} {s' : State ν} :
      s.framesOf s.current = f.outline :: rest → f.handlers.isEmpty = true →
      Shifted ((s.outlineOf s.current).cut rest) s s' → spec.handlers = {} →
      spec.returnAddress = f.returnAddress →
      spec.flags = f.flags.inherited.union { tailCall := true } →
      Executed s ip (.ok (some (.call spec)) s')

/-- Work that leaves the outline alone comes first. -/
theorem executed_bind {ip : Nat} {t : State ν} {work : Exec ν α} {f : α → Exec ν (Option Effect)}
    (before : Rigid s t) (hx : Keeps t work)
    (hf : ∀ a t', work t = .ok a t' → Rigid s t' → Executed s ip (f a t')) :
    Executed s ip ((work >>= f) t) := by
  simp only [bind, EStateM.bind]
  cases run : work t with
  | error e t' => exact .failed (before.trans (hx.error run))
  | ok a t' => exact hf a t' run (before.trans (hx.ok run))

theorem execute_executed (p : Proto) (scope : Scope) {ip : Nat} (i : Instruction) {t : State ν}
    (before : Rigid s t) : Executed s ip ((do return some (← execute p scope ip i)) t) := by
  obtain ⟨op, a, b⟩ := i
  -- the frame on top is popped after the value it returns, or the operands it passes on
  have popped : ∀ {t t' : State ν} {f : Frame} {rest}, Rigid s t →
      t.framesOf t.current = f.outline :: rest →
      Shifted ((t.outlineOf t.current).cut rest) t t' →
      s.framesOf s.current = f.outline :: rest ∧
        Shifted ((s.outlineOf s.current).cut rest) s t' := by
    intro t t' f rest before frames shifted
    rw [before.current, before.frames] at frames
    rw [before.current, before.outline] at shifted
    exact ⟨frames, .of_rigid before shifted⟩
  by_cases hr : op = .ret
  · subst hr
    have leaves : ∀ v t, Rigid s t → Executed s ip
        ((popFrame >>= fun frame => pure (some (Effect.leave frame v))) t) := by
      intro v t before
      obtain ⟨-, run⟩ | ⟨f, t', rest, run, frames, shifted, -⟩ := popFrame_cases t
      · simp only [bind, EStateM.bind, run]
        exact .failed before
      · simp only [bind, EStateM.bind, run]
        obtain ⟨frames, shifted⟩ := popped before frames shifted
        exact .left frames shifted
    simp only [execute]
    split
    · simp only [bind_assoc, pure_bind]
      exact leaves _ t before
    · simp only [bind_assoc, pure_bind]
      exact executed_bind before keeps_pop fun v t' _ before => leaves v t' before
  by_cases ht : op = .tailCall
  · subst ht
    simp only [execute, tailCall, bind_assoc]
    refine executed_bind before (keeps_mayReuseFrame _) fun reuse t' reuses before' => ?_
    cases reuse with
    | false => exact .asked before' ⟨rfl, rfl, rfl⟩
    | true =>
      obtain ⟨g, under, top, empty⟩ := mayReuseFrame_true reuses
      simp only [↓reduceIte, bind_assoc, pure_bind]
      refine executed_bind before' keeps_height fun height t' _ before' => ?_
      refine executed_bind before' (keeps_splitOff _) fun operands t' _ before' => ?_
      obtain ⟨-, run⟩ | ⟨f, t'', rest, run, frames, shifted, -⟩ := popFrame_cases t'
      · simp only [bind, EStateM.bind, run]
        exact .failed before'
      · simp only [bind, EStateM.bind, run]
        obtain ⟨frames, shifted⟩ := popped before' frames shifted
        rw [before.current, before.frames, frames] at top
        obtain ⟨rfl, rfl⟩ := List.cons.inj top
        exact .reused frames empty (shifted.trans_rigid (rigid_modifyStack ..)) rfl rfl rfl
  · refine executed_bind before (keeps_execute p scope ip _ hr ht) fun e t' run before' => ?_
    exact .asked before' ((execute_bare p scope ⟨op, a, b⟩ hr ht).result _ _ _ run)

theorem keeps_countInstruction : Keeps s countInstruction := by
  apply keeps_get
  refine keeps_set (rigid_of_eq rfl) ?_
  split
  · split
    · exact keeps_throw _
    · exact keeps_pure _
  · exact keeps_pure _

/-- The share of a coroutine is used up, or the instruction is counted. -/
theorem shareUsedUp_outline (ip : Nat) (here : s.HasCurrent) :
    (∃ s', shareUsedUp ip s = .ok true s' ∧ (s.outlineOf s.current).nestedCalls = 0 ∧
      Shifted ((s.outlineOf s.current).pause (.instruction ip)) s s') ∨
    ∃ s', shareUsedUp ip s = .ok false s' ∧ Rigid s s' := by
  by_cases shared : (decide (0 < s.processor.autoYield) && s.isYieldable) = true
  · by_cases used : s.processor.autoYield < s.processor.sinceResume + 1
    · have alone : s.processor.nestedCalls = 0 := by
        simp only [State.isYieldable, Bool.and_eq_true, beq_iff_eq] at shared
        exact shared.2.2
      refine .inl ⟨_, ?_, alone, shifted_modifyProcessor here fun p =>
        { p with sinceResume := 0, pending := some (.instruction ip, {}) }⟩
      simp only [shareUsedUp, bind, EStateM.bind, get, getThe, MonadStateOf.get, EStateM.get,
        shared, used, ↓reduceIte]
      rfl
    · refine .inr ⟨_, ?_, rigid_modifyProcessorOf s s.current
        (f := fun p => { p with sinceResume := p.sinceResume + 1 }) fun _ => rfl⟩
      simp only [shareUsedUp, bind, EStateM.bind, get, getThe, MonadStateOf.get, EStateM.get,
        shared, used, ↓reduceIte]
      rfl
  · refine .inr ⟨s, ?_, .refl s⟩
    simp only [shareUsedUp, bind, EStateM.bind, get, getThe, MonadStateOf.get, EStateM.get, shared]
    rfl

/-- **What an instruction can do**: it fails, is put off, asks for something, or drops its frame. -/
theorem executed (ip : Nat) (here : s.HasCurrent) : Executed s ip (executeAt ip s) := by
  rw [executeAt_eq]
  refine executed_bind (.refl s) (within_ofExcept rigid_tolerant _) fun x s₁ _ before => ?_
  refine executed_bind before keeps_countInstruction fun _ s₂ _ before => ?_
  obtain ⟨s₃, used, alone, paused⟩ | ⟨s₃, used, rigid⟩ :=
    shareUsedUp_outline ip (before.hasCurrent here)
  · simp only [turn, bind, EStateM.bind, used]
    rw [before.current, before.outline] at alone paused
    exact .forced alone (.of_rigid before paused)
  · rw [turn_of_share used]
    refine executed_bind (before.trans rigid) (keeps_checkpoint _ _) fun _ s₄ _ before => ?_
    exact execute_executed _ _ _ before

end Exec

end ScriptMachine
