import ScriptMachine.Proofs.Machine.Reach

/-!
# Work on two states at once

The same instruction, executed in two states that are related, has the same outcome and leaves
related states.

* `Exec.Mirrors`: the rule for one piece of work, with `mirrors_bind` to put two together.
* `OperandMirror`, `Mirror`: what a relation of states has to respect. `R n` says that there are `n`
  operands.
* `Instruction.span`: how many of the topmost slots an instruction looks at.
* `Exec.execute_mirrors`: one instruction, other than a return or a tail call.
-/

namespace ScriptMachine

variable {ν α β : Type}

namespace Exec

/-- Two outcomes agree: both succeed with the same result, or both fail with the same fault. -/
inductive Agree (ok : α → State ν → State ν → Prop) (error : State ν → State ν → Prop) :
    EStateM.Result Fault (State ν) α → EStateM.Result Fault (State ν) α → Prop
  | ok {a : α} {s t : State ν} : ok a s t → Agree ok error (.ok a s) (.ok a t)
  | error {e : Fault} {s t : State ν} : error s t → Agree ok error (.error e s) (.error e t)

theorem Agree.of_ok {ok : α → State ν → State ν → Prop} {error : State ν → State ν → Prop} {a : α}
    {s : State ν} {y : EStateM.Result Fault (State ν) α} (h : Agree ok error (.ok a s) y) :
    ∃ t, y = .ok a t ∧ ok a s t := by
  cases h with
  | ok h => exact ⟨_, rfl, h⟩

theorem Agree.of_error {ok : α → State ν → State ν → Prop} {error : State ν → State ν → Prop}
    {e : Fault} {s : State ν} {y : EStateM.Result Fault (State ν) α}
    (h : Agree ok error (.error e s) y) : ∃ t, y = .error e t ∧ error s t := by
  cases h with
  | error h => exact ⟨_, rfl, h⟩

/-- The outcomes of two pieces of work in two states agree. -/
def Mirrors (R : Nat → State ν → State ν → Prop) (s t : State ν) (work work' : Exec ν α)
    (post : α → State ν → State ν → Prop) : Prop :=
  Agree post (R 0) (work s) (work' t)

end Exec

/-- What a relation of states has to respect, for work on the operands and the world by a function
whose scope is `scope` in the one state and `scope'` in the other. -/
structure OperandMirror (R : Nat → State ν → State ν → Prop) (scope scope' : Scope) : Prop where
  weaken {n m : Nat} {s t : State ν} : R n s t → m ≤ n → R m s t
  world {n : Nat} {s t : State ν} : R n s t → t.world = s.world
  arrange {n : Nat} {s t : State ν} (world : World ν) : R n s t →
    R n { s with world } { t with world }
  pushAll {n : Nat} {s t : State ν} (vs : List Value) : R n s t →
    R (n + vs.length) (s.modifyStack (·.pushAll vs)) (t.modifyStack (·.pushAll vs))
  peek {n i : Nat} {s t : State ν} : R n s t → i < n →
    t.processor.stack.peek? i = s.processor.stack.peek? i
  taken {n m : Nat} {s t : State ν} : R (n + m) s t →
    t.processor.stack.above? (t.processor.stack.size - m) =
      s.processor.stack.above? (s.processor.stack.size - m)
  drop {n m : Nat} {s t : State ν} : R (n + m) s t →
    R n (s.modifyStack (·.truncate (s.processor.stack.size - m)))
      (t.modifyStack (·.truncate (t.processor.stack.size - m)))
  poke {n i : Nat} {s t : State ν} (v : Value) : R n s t → i < n →
    R n (s.modifyStack (·.poke i v)) (t.modifyStack (·.poke i v))
  read {n : Nat} {s t : State ν} (sym : Symbol) : R n s t →
    t.readSymbol scope' sym = s.readSymbol scope sym

/-- What a relation of states has to respect, for all instructions of the function. -/
structure Mirror (R : Nat → State ν → State ν → Prop) (scope scope' : Scope) : Prop
    extends OperandMirror R scope scope' where
  code {n : Nat} {s t : State ν} : R n s t →
    (t.closure scope'.closure).proto = (s.closure scope.closure).proto
  write {n : Nat} {s t : State ν} (sym : Symbol) (v : Value) : R n s t →
    Exec.Mirrors R s t (Exec.writeSymbol scope sym v) (Exec.writeSymbol scope' sym v) fun _ => R n
  capture {n : Nat} {s t : State ν} (sym : Symbol) : R n s t →
    Exec.Mirrors R s t (Exec.captureSymbol scope sym) (Exec.captureSymbol scope' sym) fun _ => R n
  newClosure {n : Nat} {s t : State ν} (f : Closure) : R n s t →
    (t.newClosure f).1 = (s.newClosure f).1 ∧ R n (s.newClosure f).2 (t.newClosure f).2
  close {n : Nat} {s t : State ν} (first last : Nat) : R n s t →
    Exec.Mirrors R s t (Exec.closeLocals scope first last) (Exec.closeLocals scope' first last)
      fun _ => R n
  begin {n : Nat} {s t : State ν} (p : Proto) (i : Instruction) : R n s t →
    Exec.Mirrors R s t (Exec.beginFunction p scope i) (Exec.beginFunction p scope' i) fun _ => R 0

theorem OperandMirror.heap {R : Nat → State ν → State ν → Prop} {scope scope' : Scope} {n : Nat}
    {s t : State ν} (M : OperandMirror R scope scope') (h : R n s t) : t.heap = s.heap :=
  congrArg World.heap (M.world h)

theorem OperandMirror.setHeap {R : Nat → State ν → State ν → Prop} {scope scope' : Scope}
    {n : Nat} {s t : State ν} (M : OperandMirror R scope scope') (heap : Heap) (h : R n s t) :
    R n (s.setHeap heap) (t.setHeap heap) := by
  simp only [State.setHeap, M.world h]
  exact M.arrange _ h

/-! ## What the world decides -/

namespace State

variable {s t : State ν}

theorem modifyProcessorOf_twice (s : State ν) (c : ThreadId) (f g : Processor → Processor) :
    (s.modifyProcessorOf c f).modifyProcessorOf c g = s.modifyProcessorOf c fun p => g (f p) := by
  simp only [modifyProcessorOf, State.mk.injEq, true_and, and_true]
  apply Array.ext_getElem?
  intro i
  simp only [Array.getElem?_modify]
  split <;> simp [Function.comp_def]

theorem modifyStack_self (s : State ν) (f : ValueStack → ValueStack → ValueStack) :
    s.modifyStack (fun v => f v v) = s.modifyStack (f s.processor.stack) := by
  simp only [modifyStack, modifyProcessor, modifyProcessorOf, State.mk.injEq, true_and, and_true]
  apply Array.ext_getElem?
  intro i
  by_cases hi : s.current.index = i
  · subst hi
    simp only [Array.getElem?_modify, processor, processorOf]
    cases s.processors[s.current.index]? <;> simp
  · simp [Array.getElem?_modify, hi]

/-- What only the world decides is the same in every state with this world. -/
theorem eq_of_world {γ : Type} (f : State ν → γ)
    (hf : ∀ s : State ν, f s = f { world := s.world, options := default })
    (h : t.world = s.world) : f t = f s := by
  rw [hf t, hf s, h]

theorem metamethod_congr (h : t.world = s.world) (v : Value) (name : String) :
    t.metamethod v name = s.metamethod v name :=
  eq_of_world (·.metamethod v name) (fun _ => rfl) h

theorem unaryMetamethod_congr (h : t.world = s.world) (v : Value) (name : String) :
    t.unaryMetamethod v name = s.unaryMetamethod v name :=
  eq_of_world (·.unaryMetamethod v name) (fun _ => rfl) h

theorem binaryMetamethod_congr (h : t.world = s.world) (v u : Value) (name : String) :
    t.binaryMetamethod v u name = s.binaryMetamethod v u name :=
  eq_of_world (·.binaryMetamethod v u name) (fun _ => rfl) h

theorem resolveIndex_congr (h : t.world = s.world) (key : Value) (budget : Nat) (object : Value) :
    t.resolveIndex key budget object = s.resolveIndex key budget object := by
  induction budget generalizing object with
  | zero => rfl
  | succ budget ih =>
    have looked : t.lookup object key = s.lookup object key :=
      eq_of_world (·.lookup object key) (fun _ => rfl) h
    simp only [resolveIndex, looked, ih]

end State

namespace Exec

variable {R : Nat → State ν → State ν → Prop} {scope scope' : Scope} {n m ip : Nat}
  {s t : State ν} {work work' : Exec ν α} {post : α → State ν → State ν → Prop}

/-! ## Putting work together -/

theorem mirrors_pure {a : α} (h : post a s t) : Mirrors R s t (pure a) (pure a) post := .ok h

theorem mirrors_bind {f f' : α → Exec ν β} {post' : β → State ν → State ν → Prop}
    (hx : Mirrors R s t work work' post)
    (hf : ∀ a s' t', post a s' t' → Mirrors R s' t' (f a) (f' a) post') :
    Mirrors R s t (work >>= f) (work' >>= f') post' := by
  unfold Mirrors at hx
  generalize hs : work s = x at hx
  generalize ht : work' t = y at hx
  cases hx with
  | ok hp =>
    have result := hf _ _ _ hp
    unfold Mirrors at result ⊢
    simpa only [bind, EStateM.bind, hs, ht] using result
  | error he =>
    unfold Mirrors
    simp only [bind, EStateM.bind, hs, ht]
    exact .error he

theorem Mirrors.imp {post' : α → State ν → State ν → Prop} (h : Mirrors R s t work work' post)
    (imp : ∀ a s' t', post a s' t' → post' a s' t') : Mirrors R s t work work' post' := by
  unfold Mirrors at h ⊢
  generalize work s = x at h
  generalize work' t = y at h
  cases h with
  | ok hp => exact .ok (imp _ _ _ hp)
  | error he => exact .error he

theorem mirrors_map {f : α → β} {post' : β → State ν → State ν → Prop}
    (h : Mirrors R s t work work' fun a => post' (f a)) :
    Mirrors R s t (f <$> work) (f <$> work') post' := by
  unfold Mirrors at h ⊢
  simp only [Functor.map, EStateM.map]
  generalize work s = x at h
  generalize work' t = y at h
  cases h with
  | ok hp => exact .ok hp
  | error he => exact .error he

theorem mirrors_get {f f' : State ν → Exec ν β} {post' : β → State ν → State ν → Prop}
    (h : Mirrors R s t (f s) (f' t) post') : Mirrors R s t (get >>= f) (get >>= f') post' := h

theorem mirrors_modify {f f' : State ν → State ν} {post' : PUnit → State ν → State ν → Prop}
    (h : post' ⟨⟩ (f s) (f' t)) : Mirrors R s t (modify f) (modify f') post' := .ok h

section

variable (M : OperandMirror R scope scope')

include M

theorem mirrors_throw {e : Fault} (h : R n s t) :
    Mirrors R s t (throw e : Exec ν α) (throw e) post := .error (M.weaken h (Nat.zero_le n))

theorem mirrors_raise {c : Cause} (h : R n s t) :
    Mirrors R s t (raise c : Exec ν α) (raise c) post := mirrors_throw M h

theorem mirrors_ofExcept (x : Except Fault α) (h : R n s t) :
    Mirrors R s t (ofExcept x) (ofExcept x) fun _ => R n := by
  cases x with
  | ok a => exact mirrors_pure h
  | error e => exact mirrors_throw M h

theorem mirrors_ofCause (x : Except Cause α) (h : R n s t) :
    Mirrors R s t (ofCause x) (ofCause x) fun _ => R n := by
  cases x with
  | ok a => exact mirrors_pure h
  | error c => exact mirrors_raise M h

theorem mirrors_present (x : Option α) (h : R n s t) :
    Mirrors R s t (present x) (present x) fun _ => R n := by
  cases x with
  | some a => exact mirrors_pure h
  | none => exact mirrors_throw M h

theorem mirrors_modifyHeap (f : Heap → Heap) (h : R n s t) :
    Mirrors R s t (modify fun s => s.modifyHeap f) (modify fun s => s.modifyHeap f)
      fun _ => R n := by
  refine mirrors_modify ?_
  simp only [State.modifyHeap, M.world h]
  exact M.arrange _ h

theorem mirrors_setHeap (heap : Heap) (h : R n s t) :
    Mirrors R s t (modify fun s => s.setHeap heap) (modify fun s => s.setHeap heap)
      fun _ => R n := mirrors_modify (M.setHeap heap h)

/-! ## The value stack -/

theorem mirrors_pushAll (vs : List Value) (h : R n s t) :
    Mirrors R s t (pushAll vs) (pushAll vs) fun _ => R (n + vs.length) :=
  mirrors_modify (M.pushAll vs h)

theorem mirrors_push (v : Value) (h : R n s t) :
    Mirrors R s t (push v) (push v) fun _ => R (n + 1) := mirrors_pushAll M [v] h

theorem mirrors_peek {i : Nat} (h : R n s t) (hi : i < n) :
    Mirrors R s t (peek i) (peek i) fun _ => R n := by
  change Mirrors R s t (present (s.processor.stack.peek? i)) (present (t.processor.stack.peek? i)) _
  rw [M.peek h hi]
  exact mirrors_present M _ h

theorem mirrors_pop (h : R (n + 1) s t) : Mirrors R s t pop pop fun _ => R n := by
  apply mirrors_bind (mirrors_peek M h (Nat.succ_pos n))
  intro v s t h
  have dropped : R n (s.modifyStack fun v => v.truncate (v.size - 1))
      (t.modifyStack fun v => v.truncate (v.size - 1)) := by
    rw [State.modifyStack_self s fun v u => u.truncate (v.size - 1),
      State.modifyStack_self t fun v u => u.truncate (v.size - 1)]
    exact M.drop h
  exact mirrors_pure dropped

theorem mirrors_popScalar (h : R (n + 1) s t) :
    Mirrors R s t popScalar popScalar fun _ => R n :=
  mirrors_bind (mirrors_pop M h) fun _ _ _ h => mirrors_pure h

theorem mirrors_poke {i : Nat} (v : Value) (h : R n s t) (hi : i < n) :
    Mirrors R s t (poke i v) (poke i v) fun _ => R n :=
  mirrors_bind (mirrors_peek M h hi) fun _ _ _ h => mirrors_modify (M.poke v h hi)

theorem mirrors_swap {i j : Nat} (h : R n s t) (hi : i < n) (hj : j < n) :
    Mirrors R s t (swap i j) (swap i j) fun _ => R n := by
  apply mirrors_bind (mirrors_peek M h hi)
  intro x s t h
  apply mirrors_bind (mirrors_peek M h hj)
  intro y s t h
  refine mirrors_modify ?_
  have poked := M.poke x (M.poke y h hi) hj
  have twice : ∀ s : State ν, (s.modifyStack (·.poke i y)).modifyStack (·.poke j x) =
      s.modifyStack fun stack => (stack.poke i y).poke j x := fun s =>
    s.modifyProcessorOf_twice s.current _ _
  rwa [twice, twice] at poked

/-- The topmost values are taken off. -/
theorem mirrors_takeTop {f f' : List Value → Exec ν β} {post' : β → State ν → State ν → Prop}
    (h : R (n + m) s t)
    (hf : ∀ vs s' t', R n s' t' → Mirrors R s' t' (f vs) (f' vs) post') :
    Mirrors R s t (height >>= fun h => splitOff (h - m) >>= f)
      (height >>= fun h => splitOff (h - m) >>= f') post' := by
  have taken : Mirrors R s t (splitOff (s.processor.stack.size - m))
      (splitOff (t.processor.stack.size - m)) fun _ => R n := by
    change Mirrors R s t
      (present (s.processor.stack.above? (s.processor.stack.size - m)) >>= fun vs =>
        truncate (s.processor.stack.size - m) >>= fun _ => pure vs)
      (present (t.processor.stack.above? (t.processor.stack.size - m)) >>= fun vs =>
        truncate (t.processor.stack.size - m) >>= fun _ => pure vs) _
    rw [M.taken h, show s.processor.stack.above? (s.processor.stack.size - m) = some _ from
      if_pos (Nat.sub_le ..)]
    exact .ok (M.drop h)
  have bound : Mirrors R s t (splitOff (s.processor.stack.size - m) >>= f)
      (splitOff (t.processor.stack.size - m) >>= f') post' := mirrors_bind taken hf
  exact bound

/-! ## What instructions ask for -/

def Asked (R : Nat → State ν → State ν → Prop) (e : Effect) : State ν → State ν → Prop :=
  R e.operands

omit M in
theorem mirrors_call {spec : CallSpec} (h : R (spec.argc + 1) s t) :
    Mirrors R s t (pure (.call spec)) (pure (.call spec)) (Asked R) := mirrors_pure h

theorem mirrors_next (h : R n s t) : Mirrors R s t (pure .next) (pure .next) (Asked R) :=
  mirrors_pure (M.weaken h (Nat.zero_le n))

theorem mirrors_nested {f : Value} {vs : List Value} {after : After} (h : R n s t) :
    Mirrors R s t (pure (.nested f vs after)) (pure (.nested f vs after)) (Asked R) :=
  mirrors_pure (M.weaken h (Nat.zero_le n))

theorem mirrors_result (v : Value) (h : R n s t) :
    Mirrors R s t (result v) (result v) (Asked R) :=
  mirrors_bind (mirrors_push M v h) fun _ _ _ h => mirrors_next M h

theorem mirrors_callMetamethod (handler : Value) (operands : List Value) (returnAddress : Nat)
    (flags : FrameFlags) (name : String) (h : R n s t) :
    Mirrors R s t (callMetamethod handler operands returnAddress flags name)
      (callMetamethod handler operands returnAddress flags name) (Asked R) := by
  apply mirrors_bind (mirrors_push M handler h)
  intro _ s t h
  apply mirrors_bind (mirrors_pushAll M operands h)
  intro _ s t h
  exact mirrors_call (M.weaken h (by dsimp only; omega))

theorem mirrors_callScalar (handler : Value) (operands : List Value) (returnAddress : Nat)
    (name : String) (h : R n s t) :
    Mirrors R s t (callScalar handler operands returnAddress name)
      (callScalar handler operands returnAddress name) (Asked R) :=
  mirrors_callMetamethod M handler operands returnAddress _ name h

/-! ## Operators -/

theorem mirrors_popTwo {f g : Value → Value → Exec ν Effect} (h : R (n + 2) s t)
    (mirrors : ∀ x y s t, R n s t → Mirrors R s t (f x y) (g x y) (Asked R)) :
    Mirrors R s t (popScalar >>= fun y => popScalar >>= fun x => f x y)
      (popScalar >>= fun y => popScalar >>= fun x => g x y) (Asked R) :=
  mirrors_bind (mirrors_popScalar M h) fun y _ _ h =>
    mirrors_bind (mirrors_popScalar M h) fun x _ _ h => mirrors x y _ _ h

theorem mirrors_arithmetic (name : String) (apply : Number → Number → Number)
    (h : R (n + 2) s t) :
    Mirrors R s t (arithmetic name apply ip) (arithmetic name apply ip) (Asked R) := by
  refine mirrors_popTwo M h fun x y s t h => ?_
  split
  · exact mirrors_result M _ h
  · apply mirrors_get
    rw [State.binaryMetamethod_congr (M.world h)]
    split
    · exact mirrors_callScalar M _ _ _ _ h
    · exact mirrors_raise M h

theorem mirrors_negate (h : R (n + 1) s t) :
    Mirrors R s t (negate ip) (negate ip) (Asked R) := by
  apply mirrors_bind (mirrors_popScalar M h)
  intro x s t h
  split
  · exact mirrors_result M _ h
  · apply mirrors_get
    rw [State.unaryMetamethod_congr (M.world h)]
    split
    · exact mirrors_callScalar M _ _ _ _ h
    · exact mirrors_raise M h

theorem mirrors_concat (h : R (n + 2) s t) :
    Mirrors R s t (concat ip) (concat ip) (Asked R) := by
  refine mirrors_popTwo M h fun x y s t h => ?_
  split
  · exact mirrors_result M _ h
  · apply mirrors_get
    rw [State.binaryMetamethod_congr (M.world h)]
    split
    · exact mirrors_callScalar M _ _ _ _ h
    · exact mirrors_raise M h

theorem mirrors_length (h : R (n + 1) s t) :
    Mirrors R s t (length ip) (length ip) (Asked R) := by
  apply mirrors_bind (mirrors_popScalar M h)
  intro x s t h
  split
  · exact mirrors_result M _ h
  · apply mirrors_get
    rw [State.unaryMetamethod_congr (M.world h)]
    split
    · exact mirrors_callScalar M _ _ _ _ h
    · split
      · apply mirrors_get
        rw [M.heap h]
        apply mirrors_bind (mirrors_modifyHeap M _ h)
        intro _ s t h
        exact mirrors_result M _ h
      · exact mirrors_raise M h

theorem mirrors_equal (h : R (n + 2) s t) : Mirrors R s t equal equal (Asked R) := by
  refine mirrors_popTwo M h fun x y s t h => ?_
  apply mirrors_get
  simp only [State.binaryMetamethod_congr (M.world h), M.heap h]
  split
  · exact mirrors_result M _ h
  · split
    · exact mirrors_nested M h
    · exact mirrors_result M _ h

theorem mirrors_less (h : R (n + 2) s t) : Mirrors R s t less less (Asked R) := by
  refine mirrors_popTwo M h fun x y s t h => ?_
  split
  · exact mirrors_result M _ h
  · exact mirrors_result M _ h
  · apply mirrors_get
    rw [State.binaryMetamethod_congr (M.world h)]
    split
    · exact mirrors_nested M h
    · exact mirrors_raise M h

theorem mirrors_lessEqual (h : R (n + 2) s t) :
    Mirrors R s t lessEqual lessEqual (Asked R) := by
  refine mirrors_popTwo M h fun x y s t h => ?_
  split
  · exact mirrors_result M _ h
  · exact mirrors_result M _ h
  · apply mirrors_get
    simp only [State.binaryMetamethod_congr (M.world h)]
    split
    · exact mirrors_nested M h
    · split
      · exact mirrors_nested M h
      · exact mirrors_raise M h

/-! ## Indexing -/

theorem mirrors_index (object key : Value) (h : R n s t) :
    Mirrors R s t (index object key ip) (index object key ip) (Asked R) := by
  apply mirrors_get
  rw [State.resolveIndex_congr (M.world h)]
  apply mirrors_bind (mirrors_ofExcept M _ h)
  intro found s t h
  cases found with
  | value v => exact mirrors_result M v h
  | call handler receiver => exact mirrors_callScalar M _ _ _ _ h

theorem mirrors_storeInto (object key value : Value) (h : R n s t) :
    Mirrors R s t (storeInto object key value) (storeInto object key value) fun _ => R n := by
  unfold storeInto
  apply mirrors_get
  simp only [State.metamethod_congr (M.world h), State.unaryMetamethod_congr (M.world h),
    M.heap h]
  split
  · split
    · exact mirrors_pure h
    · apply mirrors_bind (mirrors_ofCause M _ h)
      intro heap s t h
      apply mirrors_bind (mirrors_setHeap M heap h)
      intro _ s t h
      exact mirrors_pure h
  · apply mirrors_bind (mirrors_ofExcept M _ h)
    rintro ⟨written, heap⟩ s' t' h'
    dsimp only
    split
    · apply mirrors_bind (mirrors_setHeap M heap h')
      intro _ s t h
      exact mirrors_pure h
    · split
      · exact mirrors_pure h'
      · exact mirrors_raise M h'
  · split
    · exact mirrors_pure h
    · exact mirrors_raise M h

theorem mirrors_resolveStore (key value : Value) (budget : Nat) (object : Value) (h : R n s t) :
    Mirrors R s t (resolveStore key value budget object) (resolveStore key value budget object)
      fun _ => R n := by
  induction budget generalizing object s t with
  | zero => exact mirrors_raise M h
  | succ budget ih =>
    unfold resolveStore
    apply mirrors_bind (mirrors_storeInto M object key value h)
    intro stored s t h
    cases stored with
    | done => exact mirrors_pure h
    | handler handler =>
      dsimp only
      split
      · exact mirrors_pure h
      · exact ih handler h

theorem mirrors_storeIndex (object key value : Value) (h : R n s t) :
    Mirrors R s t (storeIndex object key value ip) (storeIndex object key value ip) (Asked R) := by
  apply mirrors_bind (mirrors_resolveStore M key value State.maxChain object h)
  intro found s t h
  split
  · exact mirrors_next M h
  · exact mirrors_callMetamethod M _ _ _ _ _ h

theorem mirrors_initializerTarget (h : R (n + 1) s t) :
    Mirrors R s t initializerTarget initializerTarget fun _ => R (n + 1) := by
  apply mirrors_bind (mirrors_peek M h (Nat.succ_pos n))
  intro v s t h
  split
  · exact mirrors_pure h
  · exact mirrors_throw M h

/-! ## Variables -/

theorem mirrors_readSymbol (sym : Symbol) (h : R n s t) :
    Mirrors R s t (readSymbol scope sym) (readSymbol scope' sym) fun _ => R n := by
  apply mirrors_get
  rw [M.read sym h]
  exact mirrors_ofExcept M _ h

theorem mirrors_loadSymbol (sym : Symbol) (h : R n s t) :
    Mirrors R s t (loadSymbol scope sym ip) (loadSymbol scope' sym ip) (Asked R) := by
  cases sym with
  | global name env =>
    apply mirrors_bind (mirrors_readSymbol M env h)
    intro object s t h
    exact mirrors_index M object _ h
  | slot | upvalue | defaultEnv =>
    apply mirrors_bind (mirrors_readSymbol M _ h)
    intro v s t h
    exact mirrors_result M v h

/-! ## Operands -/

theorem mirrors_jumpTo (a : Int32) (h : R n s t) :
    Mirrors R s t (jumpTo a) (jumpTo a) (Asked R) := by
  unfold jumpTo
  split
  · exact mirrors_throw M h
  · exact mirrors_pure (M.weaken h (Nat.zero_le n))

theorem mirrors_stringOperand (p : Proto) (a : Int32) (h : R n s t) :
    Mirrors R s t (stringOperand p a) (stringOperand p a) fun _ => R n := by
  unfold stringOperand
  split
  · exact mirrors_pure h
  · exact mirrors_throw M h

theorem mirrors_numberOperand (p : Proto) (a : Int32) (h : R n s t) :
    Mirrors R s t (numberOperand p a) (numberOperand p a) fun _ => R n := by
  unfold numberOperand
  split
  · exact mirrors_pure h
  · exact mirrors_throw M h

theorem mirrors_symbolOperand (p : Proto) (a : Int32) (h : R n s t) :
    Mirrors R s t (symbolOperand p a) (symbolOperand p a) fun _ => R n := by
  unfold symbolOperand
  split
  · exact mirrors_pure h
  · exact mirrors_throw M h

theorem mirrors_keyOperand (p : Proto) (a : Int32) (h : R (n + keySlots a) s t) :
    Mirrors R s t (keyOperand p a) (keyOperand p a) fun _ => R n := by
  unfold keyOperand keySlots at *
  split
  · rw [if_pos ‹_›] at h
    exact mirrors_popScalar M h
  · rw [if_neg ‹_›] at h
    apply mirrors_bind (mirrors_stringOperand M p a h)
    intro key s t h
    exact mirrors_pure h

theorem mirrors_loopNumber {i : Nat} (h : R n s t) (hi : i < n) :
    Mirrors R s t (loopNumber i) (loopNumber i) fun _ => R n := by
  apply mirrors_bind (mirrors_peek M h hi)
  intro v s t h
  split
  · exact mirrors_pure h
  · exact mirrors_raise M h

theorem mirrors_rangeBound (v : Value) (h : R n s t) :
    Mirrors R s t (rangeBound v) (rangeBound v) fun _ => R n := by
  unfold rangeBound
  split
  · exact mirrors_pure h
  · exact mirrors_raise M h

theorem mirrors_iterPrepare (h : R (n + 1) s t) :
    Mirrors R s t iterPrepare iterPrepare (Asked R) := by
  have prepared : ∀ vs {s t : State ν}, R n s t →
      Mirrors R s t (do pushAll vs; return .next) (do pushAll vs; return .next) (Asked R) :=
    fun vs _ _ h => mirrors_bind (mirrors_pushAll M vs h) fun _ _ _ h => mirrors_next M h
  apply mirrors_bind (mirrors_pop M h)
  intro v s t h
  apply mirrors_get
  simp only [State.unaryMetamethod_congr (M.world h)]
  split
  · exact prepared _ h
  · split
    · exact prepared _ h
    · split
      · exact mirrors_nested M h
      · exact prepared _ h
  · exact prepared _ h
  · exact prepared _ h

end

/-! ## Variables and closures -/

theorem mirrors_storeSymbol (M : Mirror R scope scope') (sym : Symbol) (v : Value) (h : R n s t) :
    Mirrors R s t (storeSymbol scope sym v ip) (storeSymbol scope' sym v ip) (Asked R) := by
  cases sym with
  | global name env =>
    apply mirrors_bind (mirrors_readSymbol M.toOperandMirror env h)
    intro object s t h
    exact mirrors_storeIndex M.toOperandMirror object _ v h
  | slot | upvalue | defaultEnv =>
    apply mirrors_bind (M.write _ v h)
    intro _ s t h
    exact mirrors_next M.toOperandMirror h

theorem mirrors_captureAll (M : Mirror R scope scope') (syms : List Symbol) (h : R n s t) :
    Mirrors R s t (captureAll scope syms) (captureAll scope' syms) fun _ => R n := by
  induction syms generalizing s t with
  | nil => exact mirrors_pure h
  | cons sym rest ih =>
    apply mirrors_bind (M.capture sym h)
    intro c s t h
    apply mirrors_bind (ih h)
    intro cs s t h
    exact mirrors_pure h

theorem mirrors_makeClosure (M : Mirror R scope scope') (index : Nat) (h : R n s t) :
    Mirrors R s t (makeClosure scope index) (makeClosure scope' index) fun _ => R n := by
  apply mirrors_get
  rw [M.code h]
  split
  · exact mirrors_throw M.toOperandMirror h
  · rename_i child _
    apply mirrors_bind (mirrors_captureAll M child.upvalues h)
    intro cells s t h
    apply mirrors_get
    obtain ⟨same, h⟩ := M.newClosure ⟨child, cells.toArray⟩ h
    change Mirrors R s t
      (do
        set (s.newClosure ⟨child, cells.toArray⟩).2
        push (s.newClosure ⟨child, cells.toArray⟩).1)
      (do
        set (t.newClosure ⟨child, cells.toArray⟩).2
        push (t.newClosure ⟨child, cells.toArray⟩).1) _
    rw [same]
    have pushed := mirrors_push M.toOperandMirror (s.newClosure ⟨child, cells.toArray⟩).1 h
    exact pushed.imp fun _ _ _ h => M.weaken h (Nat.le_succ n)

end Exec

/-! ## The instructions -/

/-- How many of the topmost slots an instruction looks at, pops, replaces or passes to a call. -/
def Instruction.span (i : Instruction) : Nat :=
  match i.op with
  | .copy => Exec.operand i.a + 1
  | .tableField => 3
  | .tableItem => 2
  | .store | .jumpIfNil | .jumpIfTrueOrPop | .jumpIfFalseOrPop => 1
  | .jumpFor => 3
  | .increment => 2
  | _ => i.reach .nil

namespace Exec

variable {R : Nat → State ν → State ν → Prop} {scope scope' : Scope} {ip : Nat} {s t : State ν}

/-- A progression is made of bounds on the stack, with a step or by ones. -/
theorem mirrors_rangeOf (M : OperandMirror R scope scope') (step : Option Value) (h : R 2 s t) :
    Mirrors R s t
      (do
        let last ← pop
        let first ← pop
        let step ← match step with
          | some v => rangeBound v
          | none => pure (.ofNat 1)
        let first ← rangeBound first
        let last ← rangeBound last
        result (.range ⟨first, last, step⟩))
      (do
        let last ← pop
        let first ← pop
        let step ← match step with
          | some v => rangeBound v
          | none => pure (.ofNat 1)
        let first ← rangeBound first
        let last ← rangeBound last
        result (.range ⟨first, last, step⟩)) (Asked R) := by
  apply mirrors_bind (mirrors_pop M h)
  intro last s t h
  apply mirrors_bind (mirrors_pop M h)
  intro first s t h
  have rest : ∀ (step : Number) {s t : State ν}, R 0 s t → Mirrors R s t
      (do
        let first ← rangeBound first
        let last ← rangeBound last
        result (.range ⟨first, last, step⟩))
      (do
        let first ← rangeBound first
        let last ← rangeBound last
        result (.range ⟨first, last, step⟩)) (Asked R) := by
    intro step s t h
    apply mirrors_bind (mirrors_rangeBound M first h)
    intro first s t h
    apply mirrors_bind (mirrors_rangeBound M last h)
    intro last s t h
    exact mirrors_result M _ h
  cases step with
  | some v => exact mirrors_bind (mirrors_rangeBound M v h) fun step _ _ h => rest step h
  | none => exact rest _ h

/-- An instruction that works on operands does the same in related states. -/
theorem execute_mirrors_plain (M : OperandMirror R scope scope') (p : Proto) (i : Instruction)
    (h : R i.span s t) (plain : i.op.isPlain = true) :
    Mirrors R s t (execute p scope ip i) (execute p scope' ip i) (Asked R) := by
  obtain ⟨op, a, c⟩ := i
  cases op <;> simp only [execute, Instruction.span, Instruction.reach, Opcode.isPlain,
    Bool.false_eq_true] at *
  case nop | debug => exact mirrors_next M h
  case invalid => exact mirrors_throw M h
  case pop =>
    have dropped := M.drop (n := 0) (by rwa [Nat.zero_add])
    exact mirrors_pure dropped
  case copy =>
    apply mirrors_bind (mirrors_peek M h (Nat.lt_succ_self _))
    intro v s t h
    exact mirrors_result M v h
  case swap =>
    have hi : operand a < max (operand a) (operand c) + 1 := by omega
    have hj : operand c < max (operand a) (operand c) + 1 := by omega
    apply mirrors_bind (mirrors_swap M h hi hj)
    intro _ s t h
    exact mirrors_next M h
  case pushNil | pushBool => exact mirrors_result M _ h
  case pushNumber =>
    apply mirrors_bind (mirrors_numberOperand M p a h)
    intro v s t h
    exact mirrors_result M _ h
  case pushString =>
    apply mirrors_bind (mirrors_stringOperand M p a h)
    intro v s t h
    exact mirrors_result M _ h
  case newTable =>
    apply mirrors_get
    simp only [M.heap h]
    have stored := M.setHeap (s.heap.newTable (.withOrigin (operand a))).2 h
    have pushed := mirrors_result M (.table (s.heap.newTable (.withOrigin (operand a))).1) stored
    exact pushed
  case tableField =>
    apply mirrors_bind (mirrors_popScalar M h)
    intro value s t h
    apply mirrors_bind (mirrors_popScalar M h)
    intro key s t h
    apply mirrors_bind (mirrors_initializerTarget M h)
    intro table s t h
    apply mirrors_get
    rw [M.heap h]
    apply mirrors_bind (mirrors_ofCause M _ h)
    intro heap s t h
    apply mirrors_bind (mirrors_setHeap M heap h)
    intro _ s t h
    exact mirrors_next M h
  case tableItem =>
    apply mirrors_bind (mirrors_pop M h)
    intro value s t h
    apply mirrors_bind (mirrors_initializerTarget M h)
    intro table s t h
    apply mirrors_get
    rw [M.heap h]
    apply mirrors_bind (mirrors_ofCause M _ h)
    intro content s t h
    apply mirrors_bind (mirrors_modifyHeap M _ h)
    intro _ s t h
    exact mirrors_next M h
  case load =>
    apply mirrors_bind (mirrors_symbolOperand M p a h)
    intro sym s t h
    exact mirrors_loadSymbol M sym h
  case index =>
    apply mirrors_bind (mirrors_keyOperand M p a (n := 1) (by rwa [Nat.add_comm]))
    intro key s t h
    apply mirrors_bind (mirrors_popScalar M h)
    intro object s t h
    exact mirrors_index M object key h
  case indexSet =>
    apply mirrors_bind (mirrors_keyOperand M p a (n := 2) (by rwa [Nat.add_comm]))
    intro key s t h
    apply mirrors_bind (mirrors_popScalar M h)
    intro object s t h
    apply mirrors_bind (mirrors_popScalar M h)
    intro value s t h
    exact mirrors_storeIndex M object key value h
  case indexMulti =>
    refine mirrors_takeTop M (n := 1) (by rwa [Nat.add_comm]) fun keys s t h => ?_
    apply mirrors_bind (mirrors_popScalar M h)
    intro object s t h
    split
    · apply mirrors_get
      rw [M.heap h]
      apply mirrors_bind (mirrors_ofCause M _ h)
      intro v s t h
      exact mirrors_result M v h
    · exact mirrors_raise M h
  case selfIndex =>
    apply mirrors_bind (mirrors_popScalar M h)
    intro object s t h
    apply mirrors_bind (mirrors_stringOperand M p a h)
    intro key s t h
    apply mirrors_get
    rw [State.resolveIndex_congr (M.world h)]
    apply mirrors_bind (mirrors_ofExcept M _ h)
    intro found s t h
    cases found with
    | value v =>
      apply mirrors_bind (mirrors_pushAll M [v, object] h)
      intro _ s t h
      exact mirrors_next M h
    | call handler receiver => exact mirrors_nested M h
  case call | thisCall => exact mirrors_call h
  case jump => exact mirrors_jumpTo M a h
  case jumpIfFalse =>
    apply mirrors_bind (mirrors_pop M h)
    intro v s t h
    split
    · exact mirrors_next M h
    · exact mirrors_jumpTo M a h
  case jumpIfNil =>
    apply mirrors_bind (mirrors_peek M h Nat.one_pos)
    intro v s t h
    split
    · apply mirrors_bind (mirrors_pop M h)
      intro _ s t h
      exact mirrors_jumpTo M a h
    · exact mirrors_next M h
  case jumpIfTrueOrPop =>
    apply mirrors_bind (mirrors_peek M h Nat.one_pos)
    intro v s t h
    split
    · exact mirrors_jumpTo M a h
    · apply mirrors_bind (mirrors_pop M h)
      intro _ s t h
      exact mirrors_next M h
  case jumpIfFalseOrPop =>
    apply mirrors_bind (mirrors_peek M h Nat.one_pos)
    intro v s t h
    split
    · apply mirrors_bind (mirrors_pop M h)
      intro _ s t h
      exact mirrors_next M h
    · exact mirrors_jumpTo M a h
  case toNumber =>
    apply mirrors_bind (mirrors_peek M h (Nat.lt_succ_self _))
    intro v s t h
    split
    · apply mirrors_bind (mirrors_poke M _ h (Nat.lt_succ_self _))
      intro _ s t h
      exact mirrors_next M h
    · exact mirrors_raise M h
  case jumpFor =>
    apply mirrors_bind (mirrors_loopNumber M h (by decide))
    intro var s t h
    apply mirrors_bind (mirrors_loopNumber M h (by decide))
    intro step s t h
    apply mirrors_bind (mirrors_loopNumber M h (by decide))
    intro limit s t h
    by_cases done : (if Number.zero.lt step then limit.lt var else var.lt limit) = true
    · rw [if_pos done]
      exact mirrors_jumpTo M a h
    · rw [if_neg done]
      exact mirrors_next M h
  case increment =>
    apply mirrors_bind (mirrors_loopNumber M h (by decide))
    intro var s t h
    apply mirrors_bind (mirrors_loopNumber M h (by decide))
    intro step s t h
    apply mirrors_bind (mirrors_poke M _ h (by decide))
    intro _ s t h
    exact mirrors_next M h
  case iterPrepare => exact mirrors_iterPrepare M h
  case iterUpdate =>
    apply mirrors_bind (mirrors_pop M h)
    intro r s t h
    apply mirrors_bind (mirrors_poke M _ h Nat.one_pos)
    intro _ s t h
    exact mirrors_result M _ h
  case negate => exact mirrors_negate M h
  case concat => exact mirrors_concat M h
  case length => exact mirrors_length M h
  case equal => exact mirrors_equal M h
  case less => exact mirrors_less M h
  case lessEqual => exact mirrors_lessEqual M h
  case not | conditionalNot | toBool =>
    apply mirrors_bind (mirrors_pop M h)
    intro v s t h
    exact mirrors_result M _ h
  case scalar =>
    apply mirrors_bind (mirrors_popScalar M h)
    intro v s t h
    exact mirrors_result M _ h
  case makeTuple =>
    refine mirrors_takeTop M (n := 0) (by rwa [Nat.zero_add]) fun vs s t h => ?_
    exact mirrors_result M _ h
  case expandTuple =>
    apply mirrors_bind (mirrors_pop M h)
    intro v s t h
    apply mirrors_bind (mirrors_pushAll M _ h)
    intro _ s t h
    exact mirrors_next M h
  case makeRange =>
    split
    · rw [if_pos ‹_›] at h
      have popped : Mirrors R s t (some <$> pop) (some <$> pop) fun _ => R 2 :=
        mirrors_map (mirrors_pop M h)
      exact mirrors_bind popped fun step _ _ h => mirrors_rangeOf M step h
    · rw [if_neg ‹_›] at h
      exact mirrors_rangeOf M none h
  case add | sub | mul | div | mod | power => exact mirrors_arithmetic M _ _ h

/-- **An instruction does the same in related states.** -/
theorem execute_mirrors (M : Mirror R scope scope') (p : Proto) (i : Instruction)
    (h : R i.span s t) (hr : i.op ≠ .ret) (ht : i.op ≠ .tailCall) :
    Mirrors R s t (execute p scope ip i) (execute p scope' ip i) (Asked R) := by
  by_cases plain : i.op.isPlain = true
  · exact execute_mirrors_plain M.toOperandMirror p i h plain
  obtain ⟨op, a, c⟩ := i
  cases op <;> simp only [execute, Instruction.span, Instruction.reach, Opcode.isPlain, ne_eq,
    not_true_eq_false] at *
  case closure =>
    apply mirrors_bind (mirrors_makeClosure M _ h)
    intro _ s t h
    exact mirrors_next M.toOperandMirror h
  case store =>
    apply mirrors_bind (mirrors_symbolOperand M.toOperandMirror p a h)
    intro sym s t h
    split
    · apply mirrors_bind (mirrors_peek M.toOperandMirror h Nat.one_pos)
      intro v s t h
      exact mirrors_storeSymbol M sym _ h
    · apply mirrors_bind (mirrors_popScalar M.toOperandMirror h)
      intro v s t h
      exact mirrors_storeSymbol M sym v h
  case beginFn =>
    apply mirrors_bind (M.begin p _ h)
    intro _ s t h
    exact mirrors_next M.toOperandMirror h
  case closeUpvalues =>
    apply mirrors_bind (M.close _ _ h)
    intro _ s t h
    exact mirrors_next M.toOperandMirror h

end Exec

end ScriptMachine
