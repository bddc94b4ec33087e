import Mathlib.Logic.Relation
import ScriptMachine.Proofs.Machine.Capturing
import ScriptMachine.Proofs.Machine.Runs

/-!
# Change by change

Whatever a machine does to its frames, its cells and its count of instructions, it does in a few
kinds of changes, one after the other. An invariant of all runs that is about nothing else has to be
checked for these alone.

* `State.Change`: one change, and `State.Becomes` for any number of them.
* `Exec.becomes_executeAt`: an instruction, whether it fails or not.
* `Machine.Gradual`: a move that consists of changes. `gradual_advance`: what a machine does.
* `next_becomes`: whatever comes next.
-/

namespace ScriptMachine

variable {ν α β : Type}

/-- Frames, cells, options and the count of instructions stay as they are. -/
structure Passive (s s' : State ν) : Prop where
  options : s'.options = s.options
  cells : s'.cells = s.cells
  instructionCount : s'.instructionCount = s.instructionCount
  frames : ∀ c, (s'.processorOf c).frames = (s.processorOf c).frames

namespace State

def setTop (s : State ν) (f : Frame) : State ν :=
  s.modifyFrames fun frames => frames.setIfInBounds (frames.size - 1) f

def openSlot (s : State ν) (f : Frame) (slot : Nat) : State ν :=
  (s.newCell (.opened s.current slot)).2.setTop { f with cells := f.cells ++ [⟨s.cells.size⟩] }

/-- The running frame closes its cells whose slots satisfy `p`, and lists the others. -/
def closeSlots (s : State ν) (f : Frame) (p : Nat → Bool) : State ν :=
  (s.closeCells p f.cells).2.setTop { f with cells := (s.closeCells p f.cells).1 }

/-- The running frame is popped, and its cells from the base on are closed. -/
def dropTop (s : State ν) (f : Frame) : State ν :=
  ((s.modifyFrames Array.pop).closeCells (fun slot => f.base ≤ slot) f.cells).2

/-- One change of frames, cells or the count of instructions. -/
inductive Change (s : State ν) : State ν → Prop
  | passive {s' : State ν} : Passive s s' → Change s s'
  | counted : Change s s.counted
  | newClosed (v : Value) : Change s (s.newCell (.closed v)).2
  | assigned {x : CellId} {old : Value} (v : Value) : s.cell x = .closed old →
      Change s { s with cells := s.cells.setIfInBounds x.index (.closed v) }
  | opened {f : Frame} {slot : Nat} : s.processor.frames.back? = some f → f.isNative = false →
      f.base ≤ slot → s.findOpenCell f slot = none → Change s (s.openSlot f slot)
  | closed {f : Frame} (p : Nat → Bool) : s.processor.frames.back? = some f →
      Change s (s.closeSlots f p)
  | popped {f : Frame} : s.processor.frames.back? = some f → f.isNative = false →
      Change s (s.dropTop f)
  | poppedNative {f : Frame} : s.processor.frames.back? = some f → f.isNative = true →
      Change s (s.modifyFrames Array.pop)
  | pushed {f : Frame} : f.cells = [] → Change s (s.modifyFrames (·.push f))

/-- Changes lead from one state to the other. -/
def Becomes : State ν → State ν → Prop := Relation.ReflTransGen Change

variable {s s' s'' : State ν}

theorem Becomes.refl (s : State ν) : s.Becomes s := Relation.ReflTransGen.refl

theorem Becomes.trans (h : s.Becomes s') (h' : s'.Becomes s'') : s.Becomes s'' :=
  Relation.ReflTransGen.trans h h'

theorem Change.becomes (h : s.Change s') : s.Becomes s' := Relation.ReflTransGen.single h

end State

section Passive

variable {s s' : State ν}

theorem Passive.becomes (h : Passive s s') : s.Becomes s' := (State.Change.passive h).becomes

theorem becomes_of_processors (s : State ν) (h : { s' with
      world := s.world, closures := s.closures, coroutines := s.coroutines, active := s.active,
      current := s.current, entries := s.entries } = s) : s.Becomes s' := by
  rw [← h]
  exact Passive.becomes ⟨rfl, rfl, rfl, fun _ => rfl⟩

theorem becomes_modifyProcessorOf (s : State ν) (c : ThreadId) {f : Processor → Processor}
    (h : ∀ p, (f p).frames = p.frames) : s.Becomes (s.modifyProcessorOf c f) :=
  Passive.becomes ⟨rfl, rfl, rfl, fun d => State.view_modifyProcessorOf s f c d Processor.frames h⟩

theorem becomes_modifyStack (s : State ν) (f : ValueStack → ValueStack) :
    s.Becomes (s.modifyStack f) := becomes_modifyProcessorOf s s.current fun _ => rfl

theorem becomes_newCoroutine (s : State ν) (function : Value) :
    s.Becomes (s.newCoroutine function).2 :=
  Passive.becomes ⟨rfl, rfl, rfl, (Level.of_newCoroutine function).frames⟩

theorem becomes_tolerant : Tolerant (State.Becomes (ν := ν)) where
  refl := .refl
  trans := .trans
  arrange s _ := becomes_of_processors s rfl
  modifyStack := becomes_modifyStack
  newClosure s _ := becomes_of_processors s rfl
  newCell _ v := (State.Change.newClosed v).becomes
  writeCell s x v := by
    unfold State.writeCell
    split
    · exact becomes_modifyProcessorOf s _ fun _ => rfl
    · exact (State.Change.assigned v ‹_›).becomes

end Passive

/-! ## Work of the running function -/

/-- A script frame whose locals start at the base of the scope is on top. -/
def State.Runs (s : State ν) (scope : Scope) : Prop :=
  ∃ f, s.processor.frames.back? = some f ∧ f.isNative = false ∧ f.base = scope.base

def Amid (scope : Scope) (s s' : State ν) : Prop :=
  s.Runs scope → s.Becomes s' ∧ s'.Runs scope

section Amid

variable {s s' : State ν} {scope : Scope}

theorem State.Runs.same (runs : s.Runs scope) (current : s'.current = s.current)
    (frames : ∀ c, (s'.processorOf c).frames = (s.processorOf c).frames) : s'.Runs scope := by
  obtain ⟨f, top, hf⟩ := runs
  refine ⟨f, ?_, hf⟩
  simpa only [State.processor, current, frames] using top

theorem State.Runs.setTop (runs : s.Runs scope) {f : Frame} (native : f.isNative = false)
    (base : f.base = scope.base) : (s.setTop f).Runs scope := by
  obtain ⟨g, top, -⟩ := runs
  have here := hasCurrent_of_back? top
  obtain ⟨fs, hfs⟩ := Array.back?_eq_some_iff.1 top
  refine ⟨f, ?_, native, base⟩
  simp only [State.processor] at hfs
  simp only [State.setTop, State.modifyFrames, State.processor]
  change ((s.modifyProcessor _).processorOf s.current).frames.back? = some f
  rw [State.processor_modifyProcessor here]
  simp [hfs, Array.back?_eq_getElem?]

theorem amid_of_becomes (becomes : s.Becomes s') (current : s'.current = s.current)
    (frames : ∀ c, (s'.processorOf c).frames = (s.processorOf c).frames) : Amid scope s s' :=
  fun runs => ⟨becomes, runs.same current frames⟩

theorem amid_tolerant (scope : Scope) : Tolerant (Amid (ν := ν) scope) where
  refl s runs := ⟨.refl s, runs⟩
  trans h h' runs := ⟨(h runs).1.trans (h' (h runs).2).1, (h' (h runs).2).2⟩
  arrange s world := amid_of_becomes (becomes_tolerant.arrange ..) rfl fun _ => rfl
  modifyStack s f := amid_of_becomes (becomes_modifyStack s f) rfl fun c =>
    State.view_modifyProcessorOf s _ s.current c Processor.frames fun _ => rfl
  newClosure s f := amid_of_becomes (becomes_tolerant.newClosure ..) rfl fun _ => rfl
  newCell s v := amid_of_becomes (becomes_tolerant.newCell ..) rfl fun _ => rfl
  writeCell s x v := by
    refine amid_of_becomes (becomes_tolerant.writeCell ..) ?_ fun c => ?_ <;> unfold State.writeCell
    · split <;> rfl
    · split
      · exact State.view_modifyProcessorOf s _ _ c Processor.frames fun _ => rfl
      · rfl

end Amid

namespace Exec

variable {s s' : State ν} {scope : Scope} {work : Exec ν α}

/-- A slot that has no open cell in the running frame gets one. -/
theorem amid_captureSlot (index : Nat) :
    Within (Amid scope) s (captureSlot (scope.base + index)) := by
  apply within_get
  dsimp only [pure_bind]
  cases top : s.processor.frames.back? with
  | none => exact within_throw (amid_tolerant scope) _
  | some frame =>
    apply within_get
    cases found : s.findOpenCell frame (scope.base + index) with
    | some cell => exact within_pure (amid_tolerant scope) cell
    | none =>
      change Amid scope s (s.openSlot frame (scope.base + index))
      intro runs
      obtain ⟨f, top', native, base⟩ := runs
      obtain rfl := Option.some.inj (top.symm.trans top')
      have low : frame.base ≤ scope.base + index := base ▸ Nat.le_add_right ..
      refine ⟨(State.Change.opened top native low found).becomes, ?_⟩
      exact State.Runs.setTop (f := { frame with cells := _ }) ⟨frame, top, native, base⟩ native base

theorem amid_closeLocals (first last : Nat) :
    Within (Amid scope) s (closeLocals scope first last) := by
  apply within_get
  dsimp only [pure_bind]
  cases top : s.processor.frames.back? with
  | none => exact within_throw (amid_tolerant scope) _
  | some frame =>
    let p : Nat → Bool := fun slot => scope.base + first ≤ slot && slot ≤ scope.base + last
    have closed : Amid scope s (s.closeSlots frame p) := by
      rintro ⟨f, top', native, base⟩
      obtain rfl := Option.some.inj (top.symm.trans top')
      refine ⟨(State.Change.closed p top).becomes, ?_⟩
      refine State.Runs.setTop (f := { frame with cells := _ }) ⟨frame, ?_, native, base⟩ native base
      have current : (s.closeCells p frame.cells).2.current = s.current :=
        (rigid_closeCells s p frame.cells).current
      simp only [State.processor, State.processorOf, processors_closeCells, current]
      exact top
    have cleared : Amid scope (s.closeSlots frame p) ((s.closeSlots frame p).modifyStack
        fun stack => stack.clearSlots (scope.base + first) (scope.base + last)) :=
      (amid_tolerant scope).modifyStack _ _
    exact (amid_tolerant scope).trans closed cleared

theorem amid_indulgent (scope : Scope) : Indulgent (Amid (ν := ν) scope) scope where
  toTolerant := amid_tolerant scope
  capture _ _ := amid_captureSlot _
  close _ _ _ := amid_closeLocals ..

theorem becomes_of_amid (h : Within (Amid scope) s work) (runs : s.Runs scope) :
    Within State.Becomes s work := by
  unfold Within at *
  split at h
  · exact (h runs).1
  · exact (h runs).1

/-- Work that leaves the running frame on top comes first. -/
theorem becomes_bind {f : α → Exec ν β} (runs : s.Runs scope) (hx : Within (Amid scope) s work)
    (hf : ∀ a s', s'.Runs scope → Within State.Becomes s' (f a)) :
    Within State.Becomes s (work >>= f) := by
  unfold Within
  simp only [bind, EStateM.bind]
  cases run : work s with
  | error e s' => exact (hx.error run runs).1
  | ok a s' =>
    obtain ⟨before, runs⟩ := hx.ok run runs
    have rest := hf a s' runs
    dsimp only
    cases next : f a s' with
    | error e s'' => exact before.trans (rest.error next)
    | ok b s'' => exact before.trans (rest.ok next)

theorem becomes_popFrame : Within State.Becomes s popFrame := by
  apply within_get
  dsimp only [pure_bind]
  cases top : s.processor.frames.back? with
  | none => exact within_throw becomes_tolerant _
  | some frame =>
    by_cases native : frame.isNative
    · have popped := (State.Change.poppedNative top native).becomes
      simp only [native, ↓reduceIte]
      exact popped.trans (becomes_modifyStack _ (·.truncate frame.base))
    · have popped := (State.Change.popped top (Bool.eq_false_iff.2 native)).becomes
      simp only [native]
      exact popped.trans (becomes_modifyStack (s.dropTop frame) (·.truncate (frame.base - 1)))

theorem becomes_tailCall (argc : Nat) (name : Option String) (ip : Nat) :
    Within State.Becomes s (tailCall argc name ip) := by
  refine within_bind becomes_tolerant (within_mayReuseFrame becomes_tolerant argc) fun reuse s => ?_
  cases reuse with
  | false => exact within_pure becomes_tolerant _
  | true =>
    refine within_bind becomes_tolerant (within_height becomes_tolerant) fun height s => ?_
    refine within_bind becomes_tolerant (within_splitOff becomes_tolerant _) fun operands s => ?_
    refine within_bind becomes_tolerant becomes_popFrame fun frame s => ?_
    exact within_bind becomes_tolerant (within_modifyStack becomes_tolerant _) fun _ s =>
      within_pure becomes_tolerant _

theorem becomes_execute (p : Proto) (ip : Nat) (i : Instruction) (runs : s.Runs scope) :
    Within State.Becomes s (execute p scope ip i) := by
  obtain ⟨op, a, b⟩ := i
  by_cases hr : op = .ret
  · subst hr
    have leaves : ∀ v (s : State ν), Within State.Becomes s
        (popFrame >>= fun frame => pure (Effect.leave frame v)) := fun v s =>
      within_bind becomes_tolerant becomes_popFrame fun _ _ => within_pure becomes_tolerant _
    simp only [execute]
    split
    · exact leaves _ s
    · exact within_bind becomes_tolerant (within_pop becomes_tolerant) leaves
  by_cases ht : op = .tailCall
  · subst ht
    exact becomes_tailCall ..
  · exact becomes_of_amid (within_execute (amid_indulgent scope) p ip _ hr ht) runs

/-! ## An instruction and its count -/

end Exec

def State.spent (s : State ν) : Bool :=
  match s.options.instructionLimit with
  | some limit => limit ≤ s.instructionCount
  | none => false

theorem State.runs_of_instructionAt {s : State ν} {ip : Nat} {x : (Proto × Scope) × Instruction}
    (found : s.instructionAt ip = .ok x) : s.Runs x.1.2 := by
  unfold State.instructionAt at found
  cases top : s.processor.frames.back? with
  | none => simp [top] at found
  | some frame =>
    rw [top] at found
    cases callee : frame.callee with
    | native n => simp [callee] at found
    | script f =>
      cases code : (s.closure f).proto.code[ip]? with
      | none => simp [callee, code] at found
      | some i =>
        simp only [callee, code, Except.ok.injEq] at found
        subst found
        exact ⟨frame, top, by simp [Frame.isNative, callee], rfl⟩

namespace Exec

variable {s s' : State ν} {scope : Scope}

theorem countInstruction_eq (s : State ν) : countInstruction s =
    if s.spent then .error .instructionLimit s.counted else .ok () s.counted := by
  unfold State.spent
  cases limited : s.options.instructionLimit with
  | none =>
    simp only [countInstruction, bind, EStateM.bind, get, getThe, MonadStateOf.get, EStateM.get,
      set, MonadStateOf.set, EStateM.set, limited]
    rfl
  | some limit =>
    simp only [countInstruction, bind, EStateM.bind, get, getThe, MonadStateOf.get, EStateM.get,
      set, MonadStateOf.set, EStateM.set, limited]
    by_cases beyond : limit ≤ s.instructionCount
    · simp only [Nat.lt_succ_of_le beyond, beyond, decide_true, ↓reduceIte]
      rfl
    · have within : ¬ limit < s.instructionCount + 1 := fun h => beyond (Nat.le_of_lt_succ h)
      simp only [within, beyond, decide_false, ↓reduceIte, Bool.false_eq_true]
      rfl

theorem amid_shareUsedUp (ip : Nat) : Within (Amid scope) s (shareUsedUp ip) := by
  have modified : ∀ f : Processor → Processor, (∀ p, (f p).frames = p.frames) →
      Within (Amid scope) s (modify fun s => s.modifyProcessor f) := fun f h =>
    within_modify (amid_of_becomes (becomes_modifyProcessorOf s s.current h) rfl fun c =>
      State.view_modifyProcessorOf s f s.current c Processor.frames h)
  apply within_get
  dsimp only
  split
  · split
    · exact within_bind (amid_tolerant scope) (modified _ fun _ => rfl) fun _ _ =>
        within_pure (amid_tolerant scope) _
    · exact within_bind (amid_tolerant scope) (modified _ fun _ => rfl) fun _ _ =>
        within_pure (amid_tolerant scope) _
  · exact within_pure (amid_tolerant scope) _

theorem becomes_turn (ip : Nat) {x : (Proto × Scope) × Instruction} (runs : s.Runs x.1.2) :
    Within State.Becomes s (turn ip x) := by
  refine becomes_bind runs (amid_shareUsedUp ip) fun used s runs => ?_
  split
  · exact within_pure becomes_tolerant _
  · refine becomes_bind runs (within_checkpoint (amid_tolerant x.1.2) ..) fun _ s runs => ?_
    exact within_bind becomes_tolerant (becomes_execute _ ip _ runs) fun _ _ =>
      within_pure becomes_tolerant _

/-- An instruction that is found is counted first. -/
theorem executeAt_counted {ip : Nat} {x : (Proto × Scope) × Instruction}
    (found : s.instructionAt ip = .ok x) : executeAt ip s =
      if s.spent then .error .instructionLimit s.counted else turn ip x s.counted := by
  have started : executeAt ip s = (countInstruction >>= fun _ => turn ip x : Exec ν _) s := by
    rw [executeAt_eq, found]
    rfl
  rw [started]
  simp only [bind, EStateM.bind, countInstruction_eq]
  cases s.spent <;> rfl

/-- A turn of an instruction that is found and counted. -/
theorem becomes_counted_turn {ip : Nat} {x : (Proto × Scope) × Instruction}
    (found : s.instructionAt ip = .ok x) : Within State.Becomes s.counted (turn ip x) :=
  becomes_turn ip ((State.runs_of_instructionAt found).same rfl fun _ => rfl)

theorem becomes_executeAt (ip : Nat) : Within State.Becomes s (executeAt ip) := by
  unfold Within
  cases found : s.instructionAt ip with
  | error e =>
    rw [executeAt_fault found]
    exact .refl s
  | ok x =>
    have counted : s.Becomes s.counted := State.Change.counted.becomes
    have turned := becomes_counted_turn found
    rw [executeAt_counted found]
    by_cases spent : s.spent
    · simpa only [spent, ↓reduceIte] using counted
    · simp only [spent, Bool.false_eq_true, ↓reduceIte]
      cases run : turn ip x s.counted with
      | error e s' => exact counted.trans (turned.error run)
      | ok e s' => exact counted.trans (turned.ok run)

theorem becomes_enterCall (spec : CallSpec) : Within State.Becomes s (Machine.enterCall spec) := by
  have pushed : ∀ (s : State ν) (f : Frame) (e : Machine.Entered), f.cells = [] →
      Within State.Becomes s (do modify fun s => s.modifyFrames (·.push f); return e) :=
    fun s f e empty => (State.Change.pushed empty).becomes
  apply within_get
  refine within_bind becomes_tolerant (within_findCallee becomes_tolerant ..) fun found s => ?_
  obtain ⟨callee, argc⟩ := found
  cases callee with
  | script c =>
    apply within_get
    dsimp only
    split
    · exact within_throw becomes_tolerant _
    · exact within_bind becomes_tolerant (within_height becomes_tolerant) fun _ s => pushed s _ _ rfl
  | native n =>
    refine within_bind becomes_tolerant (within_height becomes_tolerant) fun _ s => ?_
    refine within_bind becomes_tolerant (within_splitOff becomes_tolerant _) fun _ s => ?_
    refine within_bind becomes_tolerant (within_pop becomes_tolerant) fun _ s => ?_
    exact within_bind becomes_tolerant (within_height becomes_tolerant) fun _ s => pushed s _ _ rfl

theorem becomes_spawn (function : Value) : Within State.Becomes s (spawn function) := by
  unfold spawn
  split
  · exact becomes_newCoroutine s function
  · exact within_throw becomes_tolerant _

end Exec

end ScriptMachine
