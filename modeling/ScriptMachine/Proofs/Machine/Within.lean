import ScriptMachine.Machine.Run
import ScriptMachine.Proofs.Machine.Mirror

/-!
# What work makes of a state

Most work of a machine is put together from a few changes: of the world, of values on stacks, of
captured variables, and of the cells that the running frame lists. A relation of states that these
respect holds between the ends of all such work, whether it fails or not.

* `Exec.Within`: the rule for one piece of work, with `within_bind` to put two together.
* `Tolerant`: what a relation has to respect, and `Indulgent` for the work of a running function.
* `Exec.within_execute`: one instruction, other than a return or a tail call.
-/

namespace ScriptMachine

variable {ν α β : Type}

/-- A relation of states that composes and lets values change: the world, stacks, new closures, new
cells that are closed, and captured variables. -/
structure Tolerant (T : State ν → State ν → Prop) : Prop where
  refl : ∀ s, T s s
  trans : ∀ {s s' s''}, T s s' → T s' s'' → T s s''
  arrange : ∀ s world, T s { s with world }
  modifyStack : ∀ (s : State ν) f, T s (s.modifyStack f)
  newClosure : ∀ (s : State ν) f, T s (s.newClosure f).2
  newCell : ∀ (s : State ν) v, T s (s.newCell (.closed v)).2
  writeCell : ∀ (s : State ν) x v, T s (s.writeCell x v)

namespace Tolerant

variable {T : State ν → State ν → Prop} {s s' : State ν}

theorem writeSymbol (tolerant : Tolerant T) {scope : Scope} {v : Value} {sym : Symbol}
    (h : s.writeSymbol scope v sym = .ok s') : T s s' := by
  cases sym with
  | slot index name =>
    cases h
    exact tolerant.modifyStack ..
  | upvalue index name =>
    simp only [State.writeSymbol] at h
    cases found : s.upvalueCell scope.closure index with
    | error e => simp [found, bind, Except.bind] at h
    | ok cell =>
      simp only [found, bind, Except.bind, pure, Except.pure, Except.ok.injEq] at h
      exact h ▸ tolerant.writeCell ..
  | defaultEnv => cases h
  | global name env =>
    simp only [State.writeSymbol] at h
    cases found : s.readSymbol scope env with
    | error e => simp [found, bind, Except.bind] at h
    | ok object =>
      rw [found] at h
      cases object <;> cases h
      exact tolerant.arrange ..

theorem assignSymbol (tolerant : Tolerant T) {v : Value} {sym : Symbol}
    (h : s.assignSymbol sym v = .ok s') : T s s' := by
  unfold State.assignSymbol at h
  split at h
  · exact tolerant.writeSymbol h
  · split at h
    · cases h
      exact tolerant.arrange ..
    · cases h

end Tolerant

namespace Exec

/-- The work leads to a state that the relation allows, whether it fails or not. -/
def Within (T : State ν → State ν → Prop) (s : State ν) (work : Exec ν α) : Prop :=
  match work s with
  | .ok _ s' | .error _ s' => T s s'

variable {T : State ν → State ν → Prop} {s s₀ : State ν} {work : Exec ν α}

theorem Within.ok {a : α} {s' : State ν} (h : Within T s work) (run : work s = .ok a s') :
    T s s' := by
  unfold Within at h
  rw [run] at h
  exact h

theorem Within.error {e : Fault} {s' : State ν} (h : Within T s work)
    (run : work s = .error e s') : T s s' := by
  unfold Within at h
  rw [run] at h
  exact h

theorem within_get {f : State ν → Exec ν β} (h : Within T s (f s)) : Within T s (get >>= f) := h

theorem within_modify {f : State ν → State ν} (h : T s (f s)) : Within T s (modify f) := h

section Tolerant

variable (tolerant : Tolerant T)

include tolerant

theorem within_pure (a : α) : Within T s (pure a) := tolerant.refl s

theorem within_throw (e : Fault) : Within T s (throw e : Exec ν α) := tolerant.refl s

theorem within_bind {f : α → Exec ν β} (hx : Within T s work) (hf : ∀ a s', Within T s' (f a)) :
    Within T s (work >>= f) := by
  unfold Within
  simp only [bind, EStateM.bind]
  cases run : work s with
  | error e s' => exact hx.error run
  | ok a s' =>
    have rest := hf a s'
    dsimp only
    cases next : f a s' with
    | error e s'' => exact tolerant.trans (hx.ok run) (rest.error next)
    | ok b s'' => exact tolerant.trans (hx.ok run) (rest.ok next)

/-- The state is replaced, and work goes on from the new one. -/
theorem within_set {s' : State ν} (h : T s s') (hw : Within T s' work) :
    Within T s (do set s'; work) := by
  unfold Within
  change (match work s' with
    | .ok _ t | .error _ t => T s t)
  cases run : work s' with
  | error e t => exact tolerant.trans h (hw.error run)
  | ok a t => exact tolerant.trans h (hw.ok run)

theorem within_ofExcept (x : Except Fault α) : Within T s (ofExcept x) := by
  cases x with
  | ok a => exact within_pure tolerant a
  | error e => exact within_throw tolerant e

theorem within_present (x : Option α) : Within T s (present x) := by
  cases x with
  | some a => exact within_pure tolerant a
  | none => exact within_throw tolerant _

theorem within_modifyStack (f : ValueStack → ValueStack) :
    Within T s (modify fun s => s.modifyStack f) := within_modify (tolerant.modifyStack s f)

theorem within_height : Within T s height := tolerant.refl s

theorem within_peek (i : Nat) : Within T s (peek i) := within_present tolerant _

theorem within_pop : Within T s pop :=
  within_bind tolerant (within_peek tolerant 0) fun _ _ =>
    within_bind tolerant (within_modifyStack tolerant _) fun _ _ => within_pure tolerant _

theorem within_splitOff (start : Nat) : Within T s (splitOff start) :=
  within_get (within_bind tolerant (within_present tolerant _) fun _ _ =>
    within_bind tolerant (within_modifyStack tolerant _) fun _ _ => within_pure tolerant _)

theorem within_beginFunction (p : Proto) (scope : Scope) (i : Instruction) :
    Within T s (beginFunction p scope i) :=
  within_get (within_bind tolerant (within_splitOff tolerant _) fun _ _ =>
    within_modifyStack tolerant _)

theorem within_finishNested (after : After) (v : Value) : Within T s (finishNested after v) := by
  cases after <;> exact within_modifyStack tolerant _

theorem within_mayReuseFrame (argc : Nat) : Within T s (mayReuseFrame argc) := by
  apply within_get
  dsimp only
  split
  · exact within_pure tolerant _
  · split
    · refine within_bind tolerant (within_peek tolerant argc) fun v s => ?_
      split <;> exact within_pure tolerant _
    · exact within_pure tolerant _

theorem within_findCallee (name : Option String) (budget argc : Nat) :
    Within T s (Machine.findCallee name budget argc) := by
  induction budget generalizing s argc with
  | zero =>
    unfold Machine.findCallee
    refine within_bind tolerant (within_peek tolerant argc) fun v s => ?_
    split <;> first | exact within_pure tolerant _ | exact within_throw tolerant _
  | succ budget ih =>
    unfold Machine.findCallee
    refine within_bind tolerant (within_peek tolerant argc) fun v s => ?_
    split
    · exact within_pure tolerant _
    · exact within_pure tolerant _
    · apply within_get
      split
      · exact within_throw tolerant _
      · refine within_bind tolerant (within_height tolerant) fun height s => ?_
        refine within_bind tolerant (within_splitOff tolerant _) fun operands s => ?_
        refine within_bind tolerant (within_modifyStack tolerant _) fun _ s => ?_
        exact within_bind tolerant (within_modifyStack tolerant _) fun _ s => ih _

theorem within_writeSymbol (scope : Scope) (sym : Symbol) (v : Value) :
    Within T s (writeSymbol scope sym v) := by
  apply within_get
  change Within T s (ofExcept (s.writeSymbol scope v sym) >>= set)
  cases written : s.writeSymbol scope v sym with
  | error e => exact within_throw tolerant e
  | ok s' => exact tolerant.writeSymbol written

theorem within_assignAll (assignments : List (String × Value)) :
    Within T s (assignAll assignments) := by
  induction assignments generalizing s with
  | nil => exact within_pure tolerant _
  | cons assignment rest ih =>
    apply within_get
    cases assigned : s.assignSymbol (s.findSymbol assignment.1) assignment.2 with
    | error e => exact within_throw tolerant e
    | ok s' => exact within_set tolerant (tolerant.assignSymbol assigned) ih

theorem within_observe (observer : Observer) (stop : Stop) :
    Within T s (observe observer stop) := by
  apply within_bind tolerant (within_modify (tolerant.arrange ..))
  intro _ s
  apply within_get
  apply within_bind tolerant (within_modify (tolerant.arrange ..))
  intro _ s
  apply within_bind tolerant (within_assignAll tolerant _)
  intro _ s
  have detached : Within T s (modify fun s => s.setDebugger none) :=
    within_modify (tolerant.arrange ..)
  by_cases detaches : observer.detachAt = some (observer.hits + 1) <;>
    by_cases fails : observer.failAt = some (observer.hits + 1) <;>
    simp only [detaches, fails, ↓reduceIte]
  · exact within_bind tolerant detached fun _ _ => within_throw tolerant _
  · exact within_bind tolerant detached fun _ _ => within_pure tolerant _
  · exact within_throw tolerant _
  · exact within_pure tolerant _

theorem within_checkpoint (p : Proto) (ip : Nat) : Within T s (checkpoint p ip) := by
  apply within_get
  split
  · split
    · exact within_observe tolerant ..
    · exact within_pure tolerant _
  · exact within_pure tolerant _

/-- An environment is captured in a cell that is closed from the start. -/
theorem within_captureEnvironments (scope : Scope) (count : Nat) :
    Within T s (captureAll scope (List.replicate count .defaultEnv)) := by
  induction count generalizing s with
  | zero => exact within_pure tolerant _
  | succ count ih =>
    refine within_bind tolerant ?_ fun _ _ =>
      within_bind tolerant ih fun _ _ => within_pure tolerant _
    exact tolerant.newCell s (.table s.world.globals)

theorem within_load (p : Proto) : Within T s (load p) := by
  unfold load
  split
  · exact within_throw tolerant _
  · rw [List.map_const']
    exact within_bind tolerant (within_captureEnvironments tolerant ..) fun cells s =>
      tolerant.newClosure s ⟨p, cells.toArray⟩

theorem within_undump (bytes : List UInt8) : Within T s (undump bytes) := by
  apply within_get
  cases Chunk.undump s.heap bytes with
  | error e => exact within_throw tolerant e
  | ok result => exact within_set tolerant (tolerant.arrange ..) (within_load tolerant result.1)

end Tolerant

end Exec

/-- A relation that also respects what a running function does to the cells of its frame. -/
structure Indulgent (T : State ν → State ν → Prop) (scope : Scope) : Prop extends Tolerant T where
  capture : ∀ s index, Exec.Within T s (Exec.captureSlot (scope.base + index))
  close : ∀ s first last, Exec.Within T s (Exec.closeLocals scope first last)

namespace Exec

variable {T : State ν → State ν → Prop} {s s₀ : State ν} {work : Exec ν α} {scope : Scope}

/-- One state in the place of two, reached from `s₀` in keeping with the relation. -/
def Fixed (T : State ν → State ν → Prop) (s₀ : State ν) (_ : Nat) (s t : State ν) : Prop :=
  t = s ∧ T s₀ s

theorem within_captureSymbol (indulgent : Indulgent T scope) (sym : Symbol) :
    Within T s (captureSymbol scope sym) := by
  cases sym with
  | slot index name => exact indulgent.capture ..
  | upvalue index name =>
    exact within_get (within_ofExcept indulgent.toTolerant (s.upvalueCell scope.closure index))
  | defaultEnv => exact indulgent.newCell ..
  | global name env => exact within_throw indulgent.toTolerant _

theorem Within.mirrors {n : Nat} (tolerant : Tolerant T) (h : Within T s work) (before : T s₀ s) :
    Mirrors (Fixed T s₀) s s work work fun _ => Fixed T s₀ n := by
  unfold Mirrors
  cases run : work s with
  | ok a s' => exact .ok ⟨rfl, tolerant.trans before (h.ok run)⟩
  | error e s' => exact .error ⟨rfl, tolerant.trans before (h.error run)⟩

theorem fixed_mirror (indulgent : Indulgent T scope) (s₀ : State ν) :
    Mirror (Fixed T s₀) scope scope where
  weaken h _ := h
  world h := by rw [h.1]
  arrange world h := by
    obtain ⟨rfl, before⟩ := h
    exact ⟨rfl, indulgent.trans before (indulgent.arrange ..)⟩
  code h := by rw [h.1]
  pushAll vs h := by
    obtain ⟨rfl, before⟩ := h
    exact ⟨rfl, indulgent.trans before (indulgent.modifyStack ..)⟩
  peek h _ := by rw [h.1]
  taken h := by rw [h.1]
  drop h := by
    obtain ⟨rfl, before⟩ := h
    exact ⟨rfl, indulgent.trans before (indulgent.modifyStack ..)⟩
  poke v h _ := by
    obtain ⟨rfl, before⟩ := h
    exact ⟨rfl, indulgent.trans before (indulgent.modifyStack ..)⟩
  read sym h := by rw [h.1]
  write sym v h := by
    obtain ⟨rfl, before⟩ := h
    exact (within_writeSymbol indulgent.toTolerant scope sym v).mirrors indulgent.toTolerant before
  capture sym h := by
    obtain ⟨rfl, before⟩ := h
    exact (within_captureSymbol indulgent sym).mirrors indulgent.toTolerant before
  newClosure f h := by
    obtain ⟨rfl, before⟩ := h
    exact ⟨rfl, rfl, indulgent.trans before (indulgent.newClosure ..)⟩
  close first last h := by
    obtain ⟨rfl, before⟩ := h
    exact (indulgent.close _ first last).mirrors indulgent.toTolerant before
  begin p i h := by
    obtain ⟨rfl, before⟩ := h
    exact (within_beginFunction indulgent.toTolerant p scope i).mirrors indulgent.toTolerant before

/-- **An instruction** that is no return and no tail call does nothing but what the relation
respects. -/
theorem within_execute (indulgent : Indulgent T scope) (p : Proto) (ip : Nat) (i : Instruction)
    (hr : i.op ≠ .ret) (ht : i.op ≠ .tailCall) : Within T s (execute p scope ip i) := by
  have mirrors : Mirrors (Fixed T s) s s (execute p scope ip i) (execute p scope ip i)
      (Asked (Fixed T s)) :=
    execute_mirrors (fixed_mirror indulgent s) p i ⟨rfl, indulgent.refl s⟩ hr ht
  unfold Mirrors at mirrors
  unfold Within
  cases run : execute p scope ip i s with
  | ok e s' =>
    rw [run] at mirrors
    obtain ⟨_, -, -, within⟩ := mirrors.of_ok
    exact within
  | error e s' =>
    rw [run] at mirrors
    obtain ⟨_, -, -, within⟩ := mirrors.of_error
    exact within

end Exec

end ScriptMachine
