import ScriptMachine.Machine.Execute
import ScriptMachine.Proofs.Machine.Stays

/-!
# The reach of instructions

An instruction works on the operands above the base of its frame. If there are as many as it
reaches for, it stays above the base.

* `Instruction.reach`: how many of the topmost slots an instruction pops, replaces or passes on.
* `Exec.execute_stays`: one instruction, other than a return or a tail call.
-/

namespace ScriptMachine

def Effect.operands : Effect → Nat
  | .call spec => spec.argc + 1
  | _ => 0

/-- What an instruction at an address asks for while its frame goes on. -/
def Effect.Plain (ip : Nat) : Effect → Prop
  | .call spec => spec.flags.entryPoint = false ∧ spec.returnAddress = ip + 1
  | .leave _ _ => False
  | _ => True

namespace Exec

variable {ν : Type} {σ : Prop} {b n ip : Nat} {w : ThreadId → Nat → Prop} {s s' : State ν}

/-- The frame goes on, with the operands of what it asks for above its base. -/
def Asks (σ : Prop) (b ip : Nat) (e : Effect) (s : State ν) : Prop :=
  e.Plain ip ∧ s.Room σ b e.operands

theorem stays_next (h : s.Room σ b n) : Stays σ b w s (pure .next) (Asks σ b ip) :=
  stays_pure ⟨trivial, h.weaken (Nat.zero_le n)⟩

theorem stays_nested {f : Value} {vs : List Value} {after : After} (h : s.Room σ b n) :
    Stays σ b w s (pure (.nested f vs after)) (Asks σ b ip) :=
  stays_pure ⟨trivial, h.weaken (Nat.zero_le n)⟩

theorem stays_result (v : Value) (h : s.Room σ b n) :
    Stays σ b w s (result v) (Asks σ b ip) :=
  stays_bind (stays_push v h) fun _ _ _ room => stays_next room

theorem stays_callMetamethod (handler : Value) (operands : List Value) {flags : FrameFlags}
    (name : String) (h : s.Room σ b n) (hf : flags.entryPoint = false) :
    Stays σ b w s (callMetamethod handler operands (ip + 1) flags name) (Asks σ b ip) := by
  apply stays_bind (stays_push handler h)
  intro _ _ _ room
  apply stays_bind (stays_pushAll operands room)
  intro _ _ _ room
  exact stays_pure ⟨⟨hf, rfl⟩, room.weaken (by simp only [Effect.operands]; omega)⟩

theorem stays_callScalar (handler : Value) (operands : List Value) (name : String)
    (h : s.Room σ b n) :
    Stays σ b w s (callScalar handler operands (ip + 1) name) (Asks σ b ip) :=
  stays_callMetamethod handler operands name h rfl

theorem stays_popTwo {work : Value → Value → Exec ν Effect} (h : s.Room σ b (n + 2))
    (stays : ∀ x y s', s'.Room σ b n → Stays σ b w s' (work x y) (Asks σ b ip)) :
    Stays σ b w s (popScalar >>= fun y => popScalar >>= fun x => work x y) (Asks σ b ip) :=
  stays_bind (stays_popScalar h) fun y _ _ room =>
    stays_bind (stays_popScalar room) fun x _ _ room => stays x y _ room

theorem stays_arithmetic (name : String) (apply : Number → Number → Number)
    (h : s.Room σ b (n + 2)) :
    Stays σ b w s (arithmetic name apply (ip + 1)) (Asks σ b ip) := by
  refine stays_popTwo h fun x y _ room => ?_
  split
  · exact stays_result _ room
  · apply stays_get
    split
    · exact stays_callScalar _ _ _ room
    · exact stays_raise room

theorem stays_negate (h : s.Room σ b (n + 1)) :
    Stays σ b w s (negate (ip + 1)) (Asks σ b ip) := by
  apply stays_bind (stays_popScalar h)
  intro x _ _ room
  split
  · exact stays_result _ room
  · apply stays_get
    split
    · exact stays_callScalar _ _ _ room
    · exact stays_raise room

theorem stays_concat (h : s.Room σ b (n + 2)) :
    Stays σ b w s (concat (ip + 1)) (Asks σ b ip) := by
  refine stays_popTwo h fun x y _ room => ?_
  split
  · exact stays_result _ room
  · apply stays_get
    split
    · exact stays_callScalar _ _ _ room
    · exact stays_raise room

theorem stays_length (h : s.Room σ b (n + 1)) :
    Stays σ b w s (length (ip + 1)) (Asks σ b ip) := by
  apply stays_bind (stays_popScalar h)
  intro x _ _ room
  split
  · exact stays_result _ room
  · apply stays_get
    split
    · exact stays_callScalar _ _ _ room
    · split
      · apply stays_get
        refine stays_bind (stays_world room ⟨rfl, rfl, rfl, rfl, rfl⟩) fun _ _ _ room => ?_
        exact stays_result _ room
      · exact stays_raise room

theorem stays_equal (h : s.Room σ b (n + 2)) : Stays σ b w s equal (Asks σ b ip) := by
  refine stays_popTwo h fun x y _ room => ?_
  apply stays_get
  split
  · exact stays_result _ room
  · dsimp only
    split
    · exact stays_nested room
    · exact stays_result _ room

theorem stays_less (h : s.Room σ b (n + 2)) : Stays σ b w s less (Asks σ b ip) := by
  refine stays_popTwo h fun x y _ room => ?_
  split
  · exact stays_result _ room
  · exact stays_result _ room
  · apply stays_get
    split
    · exact stays_nested room
    · exact stays_raise room

theorem stays_lessEqual (h : s.Room σ b (n + 2)) : Stays σ b w s lessEqual (Asks σ b ip) := by
  refine stays_popTwo h fun x y _ room => ?_
  split
  · exact stays_result _ room
  · exact stays_result _ room
  · apply stays_get
    split
    · exact stays_nested room
    · split
      · exact stays_nested room
      · exact stays_raise room

theorem lookup_error {object key : Value} {e : Fault} (h : s.lookup object key = .error e) :
    e.isStray = false := by
  unfold State.lookup at h
  split at h
  · dsimp only at h
    split at h
    · contradiction
    · split at h <;> contradiction
  · simp only [bind, Except.bind] at h
    split at h
    · rename_i hm
      unfold Heap.member at hm
      cases h
      split at hm
      · cases hm
        rfl
      · contradiction
    · split at h
      · contradiction
      · split at h
        · contradiction
        · cases h
          rfl
  · split at h
    · contradiction
    · cases h
      rfl

theorem resolveIndex_error {key object : Value} {budget : Nat} {e : Fault}
    (h : s.resolveIndex key budget object = .error e) : e.isStray = false := by
  induction budget generalizing object with
  | zero =>
    cases h
    rfl
  | succ budget ih =>
    simp only [State.resolveIndex, bind, Except.bind] at h
    split at h
    · cases h
      exact lookup_error ‹_›
    · split at h
      · contradiction
      · split at h
        · contradiction
        · exact ih h

theorem stays_index (object key : Value) (h : s.Room σ b n) :
    Stays σ b w s (index object key (ip + 1)) (Asks σ b ip) := by
  unfold index
  apply stays_get
  apply stays_bind (stays_ofExcept h fun _ => resolveIndex_error)
  rintro r _ _ ⟨rfl, -⟩
  cases r with
  | value v => exact stays_result v h
  | call handler receiver => exact stays_callScalar _ _ _ h

theorem stays_storeInto (object key value : Value) (h : s.Room σ b n) :
    Stays σ b w s (storeInto object key value) fun _ s' => s'.Room σ b n := by
  unfold storeInto
  apply stays_get
  split
  · dsimp only
    split
    · exact stays_pure h
    · apply stays_bind (stays_ofCause h)
      rintro heap _ _ rfl
      refine stays_bind (stays_world h ⟨rfl, rfl, rfl, rfl, rfl⟩) fun _ _ _ room => ?_
      exact stays_pure room
  · apply stays_bind (stays_ofExcept h fun e he => ?_)
    · rintro ⟨written, heap⟩ _ _ ⟨rfl, -⟩
      dsimp only
      split
      · refine stays_bind (stays_world h ⟨rfl, rfl, rfl, rfl, rfl⟩) fun _ _ _ room => ?_
        exact stays_pure room
      · split
        · exact stays_pure h
        · exact stays_raise h
    · unfold Heap.setMember at he
      split at he
      · cases he
        rfl
      · dsimp only at he
        split at he
        · contradiction
        · split at he
          · contradiction
          · cases he
            rfl
  · split
    · exact stays_pure h
    · exact stays_raise h

theorem stays_resolveStore (key value : Value) (budget : Nat) (object : Value)
    (h : s.Room σ b n) :
    Stays σ b w s (resolveStore key value budget object) fun _ s' => s'.Room σ b n := by
  induction budget generalizing object s with
  | zero => exact stays_raise h
  | succ budget ih =>
    unfold resolveStore
    apply stays_bind (stays_storeInto object key value h)
    intro r _ _ room
    cases r with
    | done => exact stays_pure room
    | handler handler =>
      dsimp only
      split
      · exact stays_pure room
      · exact ih handler room

theorem stays_storeIndex (object key value : Value) (h : s.Room σ b n) :
    Stays σ b w s (storeIndex object key value (ip + 1)) (Asks σ b ip) := by
  apply stays_bind (stays_resolveStore key value State.maxChain object h)
  rintro (_ | ⟨handler, receiver⟩) _ _ room
  · exact stays_next room
  · exact stays_callMetamethod _ _ _ room rfl

theorem stays_loadSymbol (scope : Scope) (sym : Symbol) (h : s.Room σ b n) :
    Stays σ b w s (loadSymbol scope sym (ip + 1)) (Asks σ b ip) := by
  unfold loadSymbol
  split
  · apply stays_bind (stays_readSymbol scope _ h)
    rintro object _ _ rfl
    exact stays_index object _ h
  · apply stays_bind (stays_readSymbol scope sym h)
    rintro v _ _ rfl
    exact stays_result v h

theorem stays_storeSymbol {scope : Scope} {sym : Symbol} (v : Value) (h : s.Room σ b n)
    (base : b ≤ scope.base)
    (written : σ → ∀ index name c owner slot, sym = .upvalue index name →
      s.upvalueCell scope.closure index = .ok c → s.cell c = .opened owner slot → w owner slot) :
    Stays σ b w s (storeSymbol scope sym v (ip + 1)) (Asks σ b ip) := by
  unfold storeSymbol
  split
  · apply stays_bind (stays_readSymbol scope _ h)
    rintro object _ _ rfl
    exact stays_storeIndex object _ v h
  · exact stays_bind (stays_writeSymbol v h base written) fun _ _ _ room => stays_next room

theorem stays_jumpTo (a : Int32) (h : s.Room σ b n) : Stays σ b w s (jumpTo a) (Asks σ b ip) := by
  unfold jumpTo
  split
  · exact stays_throw h rfl
  · exact stays_pure ⟨trivial, h.weaken (Nat.zero_le n)⟩

theorem stays_stringOperand (p : Proto) (a : Int32) (h : s.Room σ b n) :
    Stays σ b w s (stringOperand p a) fun _ s' => s = s' := by
  unfold stringOperand
  split
  · exact stays_pure rfl
  · exact stays_throw h rfl

theorem stays_numberOperand (p : Proto) (a : Int32) (h : s.Room σ b n) :
    Stays σ b w s (numberOperand p a) fun _ s' => s = s' := by
  unfold numberOperand
  split
  · exact stays_pure rfl
  · exact stays_throw h rfl

theorem stays_symbolOperand (p : Proto) (a : Int32) (h : s.Room σ b n) :
    Stays σ b w s (symbolOperand p a) fun sym s' => s = s' ∧ p.symbols[operand a]? = some sym := by
  unfold symbolOperand
  split
  · exact stays_pure ⟨rfl, ‹_›⟩
  · exact stays_throw h rfl

def keySlots (a : Int32) : Nat := if a < 0 then 1 else 0

theorem stays_keyOperand (p : Proto) (a : Int32) (h : s.Room σ b (n + keySlots a)) :
    Stays σ b w s (keyOperand p a) fun _ s' => s'.Room σ b n := by
  unfold keyOperand keySlots at *
  split
  · rw [if_pos ‹_›] at h
    exact stays_popScalar h
  · rw [if_neg ‹_›] at h
    apply stays_bind (stays_stringOperand p a h)
    rintro _ _ _ rfl
    exact stays_pure h

theorem stays_loopNumber (offset : Nat) (h : s.Room σ b n) :
    Stays σ b w s (loopNumber offset) fun _ s' => s = s' := by
  apply stays_bind (stays_peek offset h)
  rintro v _ _ rfl
  split
  · exact stays_pure rfl
  · exact stays_raise h

theorem stays_rangeBound (v : Value) (h : s.Room σ b n) :
    Stays σ b w s (rangeBound v) fun _ s' => s = s' := by
  unfold rangeBound
  split
  · exact stays_pure rfl
  · exact stays_raise h

theorem stays_range (step : Option Value) (h : s.Room σ b 2) : Stays σ b w s (do
    let last ← pop
    let first ← pop
    let step ← match step with
      | some v => rangeBound v
      | none => pure (.ofNat 1)
    let first ← rangeBound first
    let last ← rangeBound last
    result (.range ⟨first, last, step⟩)) (Asks σ b ip) := by
  have made : ∀ (first last : Value) (step : Number) {s' : State ν}, s'.Room σ b 0 →
      Stays σ b w s' (do
        let first ← rangeBound first
        let last ← rangeBound last
        result (.range ⟨first, last, step⟩)) (Asks σ b ip) := by
    intro first last step s' room
    apply stays_bind (stays_rangeBound first room)
    rintro first _ _ rfl
    apply stays_bind (stays_rangeBound last room)
    rintro last _ _ rfl
    exact stays_result _ room
  apply stays_bind (stays_pop h)
  intro last _ _ room
  apply stays_bind (stays_pop room)
  intro first s' _ room
  cases step with
  | none => exact made first last _ room
  | some v =>
    apply stays_bind (stays_rangeBound v room)
    rintro step _ _ rfl
    exact made first last step room

theorem stays_initializerTarget (h : s.Room σ b n) :
    Stays σ b w s initializerTarget fun _ s' => s = s' := by
  apply stays_bind (stays_peek 0 h)
  rintro v _ _ rfl
  split
  · exact stays_pure rfl
  · exact stays_throw h rfl

theorem stays_iterPrepare (h : s.Room σ b (n + 1)) :
    Stays σ b w s iterPrepare (Asks σ b ip) := by
  have prepared : ∀ vs {s' : State ν}, s'.Room σ b n →
      Stays σ b w s' (do pushAll vs; return .next) (Asks σ b ip) := fun vs _ room =>
    stays_bind (stays_pushAll vs room) fun _ _ _ room => stays_next room
  apply stays_bind (stays_pop h)
  intro v s' _ room
  apply stays_get
  split
  · exact prepared _ room
  · split
    · exact prepared _ room
    · split
      · exact stays_nested room
      · exact prepared _ room
  · exact prepared _ room
  · exact prepared _ room

theorem stays_beginFunction (p : Proto) {scope : Scope} (i : Instruction) (h : s.Room σ b n)
    (base : scope.base = b) :
    Stays σ b w s (beginFunction p scope i) fun _ s' => s'.Room σ b 0 := by
  unfold beginFunction
  apply stays_bind stays_topFrame
  rintro frame _ _ ⟨rfl, -⟩
  refine stays_bind (stays_splitOff (m := 0) h (fun _ => by omega) fun hσ => ?_)
    fun operands _ _ room => ?_
  · have := h.height hσ
    omega
  exact (stays_pushAll _ room).imp fun _ _ room => room.weaken (Nat.zero_le _)

end Exec

/-- How many of the topmost slots an instruction pops, replaces or passes to a call, given the
value on top. -/
def Instruction.reach (i : Instruction) (top : Value) : Nat :=
  match i.op with
  | .pop => Exec.operand i.a
  | .swap => max (Exec.operand i.a) (Exec.operand i.b) + 1
  | .tableField => 2
  | .tableItem => 1
  | .store => if 0 < i.b then 0 else 1
  | .index => Exec.keySlots i.a + 1
  | .indexSet => Exec.keySlots i.a + 2
  | .indexMulti => Exec.operand i.a + 1
  | .selfIndex => 1
  | .call | .thisCall | .tailCall => Exec.operand i.a + 1
  | .ret => if i.a = 0 then 0 else 1
  | .jumpIfFalse => 1
  | .jumpIfNil => if top.scalar.isNil then 1 else 0
  | .jumpIfTrueOrPop => if top.truthy then 0 else 1
  | .jumpIfFalseOrPop => if top.truthy then 1 else 0
  | .toNumber => Exec.operand i.a + 1
  | .increment => 1
  | .iterPrepare => 1
  | .iterUpdate => 2
  | .negate | .length | .not | .conditionalNot | .toBool | .scalar | .expandTuple => 1
  | .concat | .equal | .less | .lessEqual => 2
  | .add | .sub | .mul | .div | .mod | .power => 2
  | .makeTuple => Exec.operand i.a
  | .makeRange => if i.a = 3 then 3 else 2
  | _ => 0

/-- The instruction works on operands and the world only: it captures, writes and detaches no
variable, and its frame goes on. -/
def Opcode.isPlain : Opcode → Bool
  | .closure | .store | .beginFn | .closeUpvalues | .ret | .tailCall => false
  | _ => true

namespace Exec

variable {ν : Type} {σ : Prop} {b n ip : Nat} {w : ThreadId → Nat → Prop} {s s' : State ν}

def top (s : State ν) : Value := (s.processor.stack.peek? 0).getD .nil

/-- A peek shows the value on top. -/
theorem stays_peekTop (h : s.Room σ b n) :
    Stays σ b w s (peek 0) fun v s' => s = s' ∧ v = top s := by
  have shown : Stays σ b w s (present (s.processor.stack.peek? 0))
      fun v s' => s = s' ∧ v = top s := by
    unfold top
    cases s.processor.stack.peek? 0 with
    | some v => exact stays_pure ⟨rfl, rfl⟩
    | none => exact stays_throw h rfl
  exact shown.congr rfl

/-- The value on top decides whether it is popped. -/
theorem stays_popIf (pops : Bool) (a : Int32) (h : s.Room σ b (if pops then 1 else 0)) :
    Stays σ b w s (if pops then pop >>= fun _ => jumpTo a else pure .next) (Asks σ b ip) ∧
    Stays σ b w s (if pops then pop >>= fun _ => pure .next else jumpTo a) (Asks σ b ip) := by
  cases pops with
  | false => exact ⟨stays_next h, stays_jumpTo a h⟩
  | true =>
    exact ⟨stays_bind (stays_pop h) fun _ _ _ room => stays_jumpTo a room,
      stays_bind (stays_pop h) fun _ _ _ room => stays_next room⟩

/-- An instruction that works on operands stays above a height as long as it reaches for none
below. -/
theorem execute_stays_plain (p : Proto) (scope : Scope) (i : Instruction)
    (room : s.Room σ b (i.reach (top s))) (plain : i.op.isPlain = true) :
    Stays σ b w s (execute p scope ip i) (Asks σ b ip) := by
  obtain ⟨op, a, c⟩ := i
  cases op <;> simp only [execute, Instruction.reach, Opcode.isPlain, Bool.false_eq_true] at *
  case nop | debug => exact stays_next room
  case invalid => exact stays_throw room rfl
  case pop =>
    apply stays_bind stays_height
    rintro _ _ _ ⟨rfl, rfl⟩
    refine stays_bind (stays_truncate (m := 0) room (fun hσ => ?_) (Nat.zero_le _))
      fun _ _ _ room => stays_next room
    have := room.height hσ
    omega
  case copy =>
    apply stays_bind (stays_peek _ room)
    rintro v _ _ rfl
    exact stays_result v room
  case swap =>
    have hi : operand a < max (operand a) (operand c) + 1 := by omega
    have hj : operand c < max (operand a) (operand c) + 1 := by omega
    exact stays_bind (stays_swap room hi hj) fun _ _ _ room => stays_next room
  case pushNil | pushBool => exact stays_result _ room
  case pushNumber =>
    apply stays_bind (stays_numberOperand p a room)
    rintro v _ _ rfl
    exact stays_result _ room
  case pushString =>
    apply stays_bind (stays_stringOperand p a room)
    rintro v _ _ rfl
    exact stays_result _ room
  case newTable =>
    apply stays_get
    have steady : Steady σ b w s (s.setHeap (s.heap.newTable (.withOrigin (operand a))).2) :=
      Aside.steady ⟨rfl, rfl, rfl, rfl, rfl⟩
    exact stays_set_bind steady (stays_result _ (room.steady steady rfl))
  case tableField =>
    apply stays_bind (stays_popScalar room)
    intro value _ _ room
    apply stays_bind (stays_popScalar room)
    intro key _ _ room
    apply stays_bind (stays_initializerTarget room)
    rintro t _ _ rfl
    apply stays_get
    apply stays_bind (stays_ofCause room)
    rintro heap _ _ rfl
    refine stays_bind (stays_world room ⟨rfl, rfl, rfl, rfl, rfl⟩) fun _ _ _ room => ?_
    exact stays_next room
  case tableItem =>
    apply stays_bind (stays_pop room)
    intro value _ _ room
    apply stays_bind (stays_initializerTarget room)
    rintro t _ _ rfl
    apply stays_get
    apply stays_bind (stays_ofCause room)
    rintro table _ _ rfl
    refine stays_bind (stays_world room ⟨rfl, rfl, rfl, rfl, rfl⟩) fun _ _ _ room => ?_
    exact stays_next room
  case load =>
    apply stays_bind (stays_symbolOperand p a room)
    rintro sym _ _ ⟨rfl, -⟩
    exact stays_loadSymbol scope sym room
  case index =>
    apply stays_bind (stays_keyOperand p a (n := 1) (by rwa [Nat.add_comm]))
    intro key _ _ room
    apply stays_bind (stays_popScalar room)
    intro object _ _ room
    exact stays_index object key room
  case indexSet =>
    apply stays_bind (stays_keyOperand p a (n := 2) (by rwa [Nat.add_comm]))
    intro key _ _ room
    apply stays_bind (stays_popScalar room)
    intro object _ _ room
    apply stays_bind (stays_popScalar room)
    intro value _ _ room
    exact stays_storeIndex object key value room
  case indexMulti =>
    apply stays_bind stays_height
    rintro _ _ _ ⟨rfl, rfl⟩
    refine stays_bind (stays_splitOff (m := 1) room (fun hσ => ?_) fun _ => Nat.sub_le ..)
      fun keys _ _ room => ?_
    · have := room.height hσ
      omega
    apply stays_bind (stays_popScalar room)
    intro object _ _ room
    split
    · apply stays_get
      apply stays_bind (stays_ofCause room)
      rintro v _ _ rfl
      exact stays_result v room
    · exact stays_raise room
  case selfIndex =>
    apply stays_bind (stays_popScalar room)
    intro object _ _ room
    apply stays_bind (stays_stringOperand p a room)
    rintro key _ _ rfl
    apply stays_get
    apply stays_bind (stays_ofExcept room fun _ => resolveIndex_error)
    rintro r _ _ ⟨rfl, -⟩
    cases r with
    | value v => exact stays_bind (stays_pushAll _ room) fun _ _ _ room => stays_next room
    | call handler receiver => exact stays_nested room
  case call | thisCall => exact stays_pure ⟨⟨rfl, rfl⟩, room⟩
  case jump => exact stays_jumpTo a room
  case jumpIfFalse =>
    apply stays_bind (stays_pop room)
    intro v _ _ room
    split
    · exact stays_next room
    · exact stays_jumpTo a room
  case jumpIfNil =>
    apply stays_bind (stays_peekTop room)
    rintro _ _ _ ⟨rfl, rfl⟩
    exact (stays_popIf _ a room).1
  case jumpIfTrueOrPop =>
    apply stays_bind (stays_peekTop room)
    rintro _ _ _ ⟨rfl, rfl⟩
    split
    · exact stays_jumpTo a room
    · rw [if_neg ‹_›] at room
      exact stays_bind (stays_pop room) fun _ _ _ room => stays_next room
  case jumpIfFalseOrPop =>
    apply stays_bind (stays_peekTop room)
    rintro _ _ _ ⟨rfl, rfl⟩
    exact (stays_popIf _ a room).2
  case toNumber =>
    apply stays_bind (stays_peek _ room)
    rintro v _ _ rfl
    split
    · exact stays_bind (stays_poke _ room (Nat.lt_succ_self _)) fun _ _ _ room => stays_next room
    · exact stays_raise room
  case jumpFor =>
    apply stays_bind (stays_loopNumber 0 room)
    rintro var _ _ rfl
    apply stays_bind (stays_loopNumber 1 room)
    rintro step _ _ rfl
    apply stays_bind (stays_loopNumber 2 room)
    rintro limit _ _ rfl
    have jump : ∀ done : Bool,
        Stays σ b w s (if done then jumpTo a else pure .next) (Asks σ b ip) := by
      intro done
      cases done with
      | true => exact stays_jumpTo a room
      | false => exact stays_next room
    split <;> exact jump _
  case increment =>
    apply stays_bind (stays_loopNumber 0 room)
    rintro var _ _ rfl
    apply stays_bind (stays_loopNumber 1 room)
    rintro step _ _ rfl
    exact stays_bind (stays_poke _ room Nat.one_pos) fun _ _ _ room => stays_next room
  case iterPrepare => exact stays_iterPrepare room
  case iterUpdate =>
    apply stays_bind (stays_pop room)
    intro r _ _ room
    apply stays_bind (stays_poke _ room Nat.one_pos)
    intro _ _ _ room
    exact stays_result _ room
  case negate => exact stays_negate room
  case concat => exact stays_concat room
  case length => exact stays_length room
  case equal => exact stays_equal room
  case less => exact stays_less room
  case lessEqual => exact stays_lessEqual room
  case not | conditionalNot | toBool =>
    apply stays_bind (stays_pop room)
    intro v _ _ room
    exact stays_result _ room
  case scalar =>
    apply stays_bind (stays_popScalar room)
    intro v _ _ room
    exact stays_result _ room
  case makeTuple =>
    apply stays_bind stays_height
    rintro _ _ _ ⟨rfl, rfl⟩
    refine stays_bind (stays_splitOff (m := 0) room (fun hσ => ?_) fun _ => Nat.sub_le ..)
      fun vs _ _ room => stays_result _ room
    have := room.height hσ
    omega
  case expandTuple =>
    apply stays_bind (stays_pop room)
    intro v _ _ room
    exact stays_bind (stays_pushAll _ room) fun _ _ _ room => stays_next room
  case makeRange =>
    split
    · rw [if_pos ‹_›] at room
      apply stays_bind (stays_map some (stays_pop room))
      intro step _ _ room
      exact stays_range step room
    · rw [if_neg ‹_›] at room
      exact stays_range none room
  case add | sub | mul | div | mod | power => exact stays_arithmetic _ _ room

/-- **An instruction that does not reach below the base of its frame stays above it.** A return and
a tail call may leave the frame. -/
theorem execute_stays (p : Proto) {scope : Scope} (i : Instruction) (base : scope.base = b)
    (room : s.Room σ b (i.reach (top s))) (hr : i.op ≠ .ret) (ht : i.op ≠ .tailCall)
    (written : σ → i.op = .store → ∀ index name c owner slot,
      p.symbols[operand i.a]? = some (.upvalue index name) →
      s.upvalueCell scope.closure index = .ok c → s.cell c = .opened owner slot → w owner slot) :
    Stays σ b w s (execute p scope ip i) (Asks σ b ip) := by
  by_cases plain : i.op.isPlain = true
  · exact execute_stays_plain p scope i room plain
  obtain ⟨op, a, c⟩ := i
  cases op <;> simp only [execute, Instruction.reach, Opcode.isPlain, ne_eq,
    not_true_eq_false] at *
  case closure =>
    exact stays_bind (stays_makeClosure scope _ room) fun _ _ _ room => stays_next room
  case store =>
    apply stays_bind (stays_symbolOperand p a room)
    rintro sym _ _ ⟨rfl, hsym⟩
    have store : ∀ v {s' : State ν} {n : Nat}, s'.Room σ b n → s'.cells = s.cells →
        s'.closures = s.closures →
        Stays σ b w s' (storeSymbol scope sym v (ip + 1)) (Asks σ b ip) := by
      intro v s' n room hc hf
      refine stays_storeSymbol v room (Nat.le_of_eq base.symm) ?_
      rintro hσ index name cell owner slot rfl hcell hopen
      refine written hσ trivial index name cell owner slot hsym ?_ ?_
      · simpa only [State.upvalueCell, State.closure, hf] using hcell
      · simpa only [State.cell, hc] using hopen
    split
    · rw [if_pos ‹_›] at room
      apply stays_bind (stays_peek 0 room)
      rintro v _ _ rfl
      exact store _ room rfl rfl
    · rw [if_neg ‹_›] at room
      apply stays_bind ((stays_popScalar room).and fun _ _ => popScalar_same)
      rintro v _ _ ⟨room, hc, hf⟩
      exact store v room hc hf
  case beginFn =>
    exact stays_bind (stays_beginFunction p _ room base) fun _ _ _ room => stays_next room
  case closeUpvalues =>
    have base := Nat.le_of_eq base.symm
    exact stays_bind (stays_closeLocals scope _ _ room base) fun _ _ _ room => stays_next room

end Exec

end ScriptMachine
