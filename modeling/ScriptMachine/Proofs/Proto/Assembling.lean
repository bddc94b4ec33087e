import Mathlib.Algebra.Group.Nat.Defs
import ScriptMachine.Machine.Execute
import ScriptMachine.Proto.Assembler

/-!
# What assembled instructions refer to

An operand is an index into a pool as the pool was when its instruction was added. Pools only grow
at their end, so the index stays good, whatever is added later.

* `Directive` is one call of the assembler, and `Assembler.assemble` carries out a list of them.
* `Grows`: what no directive but a patch of one address undoes. `grows_carryOut`: one of them;
  `grows_assemble`: all of them.
* `filed_carryOut`: a directive files what its instruction refers to.
* `resolves_assemble`, `jumps_assemble`: what an instruction refers to and where it jumps, at last.
* `assembled`: what a finished function says about every directive it was made by.
-/

namespace ScriptMachine

/-- What can be asked of an assembler. -/
inductive Directive
  | addFlags (flags : ProtoFlags)
  | annotate (name : String) (value : Value)
  | addLocal (name : String)
  | capture (sym : Symbol)
  | source (span : Option SourceSpan)
  | intern (s : String)
  | internNumber (n : Number)
  | emit (op : Opcode) (x y : Int32)
  | beginFn (params : Nat) (varargs : Bool)
  | pushBool (v : Bool)
  | pushNumber (n : Number)
  | pushString (s : String)
  | load (sym : Symbol)
  | store (sym : Symbol)
  | storeItem (sym : Symbol) (item : Nat)
  | keyed (op : Opcode) (key : Option String)
  | selfIndex (method : String)
  | newTable (origin : Nat)
  | closure (child : Proto)
  | call (op : Opcode) (argc : Nat) (name : Option String)
  | tailCall (argc : Nat) (name : Option String)
  | ret (values : Nat)
  | jump (op : Opcode)
  | jumpTo (op : Opcode) (target : Nat)
  | patch (address : Nat)

inductive Referent
  | number (n : Number)
  | string (s : String)
  | symbol (sym : Symbol)
  /-- A key, or else the value on the stack that is one. -/
  | key (key : Option String)
  | child (p : Proto)
  /-- The caller's name of the callee, if it has one. -/
  | callee (name : Option String)

/-- The instruction that a directive adds, with what it is to refer to. -/
def Directive.reference? : Directive → Option (Opcode × Referent)
  | pushNumber n => some (.pushNumber, .number n)
  | pushString s => some (.pushString, .string s)
  | load sym => some (.load, .symbol sym)
  | store sym | storeItem sym _ => some (.store, .symbol sym)
  | keyed op key => some (op, .key key)
  | selfIndex method => some (.selfIndex, .string method)
  | closure child => some (.closure, .child child)
  | call op _ name => some (op, .callee name)
  | tailCall _ name => some (.tailCall, .callee name)
  | _ => none

/-- The machine finds the referent where the operands of the instruction say. -/
def Proto.Resolves (p : Proto) (i : Instruction) : Referent → Prop
  | .number n => ∀ ν : Type, (Exec.numberOperand p i.a : Exec ν Number) = pure n
  | .string s => ∀ ν : Type, (Exec.stringOperand p i.a : Exec ν String) = pure s
  | .symbol sym => ∀ ν : Type, (Exec.symbolOperand p i.a : Exec ν Symbol) = pure sym
  | .key (some s) => ∀ ν : Type, (Exec.keyOperand p i.a : Exec ν Value) = pure (.string s)
  | .key none => ∀ ν : Type, (Exec.keyOperand p i.a : Exec ν Value) = Exec.popScalar
  | .child q => p.protos[Exec.operand i.a]? = some q
  | .callee name => Exec.calleeName p i.b = name

/-- No pool has more elements than operands can tell apart; jumps refer to the instructions. -/
structure Proto.Addressable (p : Proto) : Prop where
  strings : p.strings.length < 2 ^ 31
  numbers : p.numbers.length < 2 ^ 31
  symbols : p.symbols.length < 2 ^ 31
  protos : p.protos.length < 2 ^ 31
  code : p.code.size < 2 ^ 31

namespace Assembler

/-- The answer of an assembler: the address of the first instruction added, if any is. -/
def placed (r : Nat × Assembler) : Option Nat × Assembler := (some r.1, r.2)

/-- Carries out one directive. -/
def carryOut (b : Assembler) : Directive → Option Nat × Assembler
  | .addFlags flags => (none, b.addFlags flags)
  | .annotate name value => (none, b.annotate name value)
  | .addLocal name => (none, (b.addLocal name).2)
  | .capture sym => (none, (b.capture sym).2)
  | .source span => (none, b.source span)
  | .intern s => (none, (b.stringIndex s).2)
  | .internNumber n => (none, (b.numberIndex n).2)
  | .emit op x y => placed (b.emit op x y)
  | .beginFn params varargs => placed (b.beginFn params varargs)
  | .pushBool v => placed (b.pushBool v)
  | .pushNumber n => placed (b.pushNumber n)
  | .pushString s => placed (b.pushString s)
  | .load sym => placed (b.load sym)
  | .store sym => placed (b.store sym)
  | .storeItem sym item => placed (b.storeItem sym item)
  | .keyed op key => placed (b.keyed op key)
  | .selfIndex method => placed (b.selfIndex method)
  | .newTable origin => placed (b.newTable origin)
  | .closure child => placed (b.closure child)
  | .call op argc name => placed (b.callWith op argc name)
  | .tailCall argc name => placed (b.tailCall argc name)
  | .ret values => placed (b.ret values)
  | .jump op => placed (b.jump op)
  | .jumpTo op target => placed (b.jumpTo op target)
  | .patch address => (none, b.patch address)

/-- Carries out directives one after the other. -/
def assemble : Assembler → List Directive → Assembler
  | b, [] => b
  | b, d :: rest => assemble (b.carryOut d).2 rest

/-- The addresses that were answered on the way. -/
def answered : Assembler → List Directive → List Nat
  | _, [] => []
  | b, d :: rest => (b.carryOut d).1.toList ++ answered (b.carryOut d).2 rest

theorem assemble_append (b : Assembler) (ds ds' : List Directive) :
    b.assemble (ds ++ ds') = (b.assemble ds).assemble ds' := by
  induction ds generalizing b with
  | nil => rfl
  | cons d rest ih => exact ih _

section Pools

variable {α : Type} [BEq α] (pool : List α) (x : α)

theorem intern_prefix : pool <+: (intern pool x).2 := by
  rw [intern]
  split
  · exact List.prefix_rfl
  · exact List.prefix_append _ _

variable [LawfulBEq α]

theorem intern_nodup (distinct : pool.Nodup) : (intern pool x).2.Nodup := by
  rw [intern]
  split
  · exact distinct
  · rename_i absent
    rw [List.findIdx?_eq_none_iff] at absent
    have new : x ∉ pool := fun mem => by simpa using absent x mem
    exact List.nodup_append.2 ⟨distinct, by simp, fun a mem b last => by
      rw [List.mem_singleton.1 last]
      exact fun same => new (same ▸ mem)⟩

/-- What is interned stands at the index answered. -/
theorem getElem?_intern : (intern pool x).2[(intern pool x).1]? = some x := by
  rw [intern]
  split
  · rename_i i found
    obtain ⟨inside, same, -⟩ := List.findIdx?_eq_some_iff_getElem.1 found
    rw [List.getElem?_eq_getElem inside, eq_of_beq same]
  · simp

end Pools

/-- Instructions that all have a span or none, and pools without repeats. -/
structure Sound (b : Assembler) : Prop where
  spans : ∀ spans, b.proto.spans = some spans → spans.size = b.proto.code.size
  strings : b.proto.strings.Nodup
  numbers : b.proto.numbers.Nodup
  symbols : b.proto.symbols.Nodup

/-- Pools grow at their end, an instruction stays, and so does soundness. -/
structure Grows (address : Nat) (b b' : Assembler) : Prop where
  strings : b.proto.strings <+: b'.proto.strings
  numbers : b.proto.numbers <+: b'.proto.numbers
  symbols : b.proto.symbols <+: b'.proto.symbols
  protos : b.proto.protos <+: b'.proto.protos
  here : b.here ≤ b'.here
  instruction : ∀ i, b.proto.code[address]? = some i → b'.proto.code[address]? = some i
  sound : b.Sound → b'.Sound

variable {address : Nat}

theorem Grows.trans {b b' b'' : Assembler} (h : Grows address b b') (h' : Grows address b' b'') :
    Grows address b b'' where
  strings := h.strings.trans h'.strings
  numbers := h.numbers.trans h'.numbers
  symbols := h.symbols.trans h'.symbols
  protos := h.protos.trans h'.protos
  here := Nat.le_trans h.here h'.here
  instruction i here := h'.instruction i (h.instruction i here)
  sound before := h'.sound (h.sound before)

/-- Fields that instructions do not refer to may change. -/
theorem grows_of_same {b b' : Assembler} (strings : b'.proto.strings = b.proto.strings)
    (numbers : b'.proto.numbers = b.proto.numbers) (symbols : b'.proto.symbols = b.proto.symbols)
    (protos : b.proto.protos <+: b'.proto.protos) (code : b'.proto.code = b.proto.code)
    (spans : b'.proto.spans = b.proto.spans) : Grows address b b' where
  strings := strings ▸ List.prefix_rfl
  numbers := numbers ▸ List.prefix_rfl
  symbols := symbols ▸ List.prefix_rfl
  protos := protos
  here := by simp [Assembler.here, code]
  instruction i h := code ▸ h
  sound before := by
    constructor
    · rw [spans, code]
      exact before.spans
    · exact strings ▸ before.strings
    · exact numbers ▸ before.numbers
    · exact symbols ▸ before.symbols

theorem Grows.refl (b : Assembler) : Grows address b b :=
  grows_of_same rfl rfl rfl List.prefix_rfl rfl rfl

theorem grows_emit (b : Assembler) (op : Opcode) (x y : Int32) :
    Grows address b (b.emit op x y).2 where
  strings := List.prefix_rfl
  numbers := List.prefix_rfl
  symbols := List.prefix_rfl
  protos := List.prefix_rfl
  here := by simp [emit, here]
  instruction i h := by
    have inside : address < b.proto.code.size := (Array.getElem?_eq_some_iff.1 h).1
    simp only [emit, Array.getElem?_push, Nat.ne_of_lt inside, if_false]
    exact h
  sound before := by
    refine ⟨?_, before.strings, before.numbers, before.symbols⟩
    intro spans known
    simp only [emit, Option.map_eq_some_iff] at known
    obtain ⟨earlier, known, rfl⟩ := known
    simp [emit, before.spans earlier known]

theorem grows_stringIndex (b : Assembler) (s : String) : Grows address b (b.stringIndex s).2 where
  strings := intern_prefix _ s
  numbers := List.prefix_rfl
  symbols := List.prefix_rfl
  protos := List.prefix_rfl
  here := Nat.le_refl _
  instruction _ h := h
  sound before := ⟨before.spans, intern_nodup _ s before.strings, before.numbers, before.symbols⟩

theorem grows_numberIndex (b : Assembler) (n : Number) :
    Grows address b (b.numberIndex n).2 where
  strings := List.prefix_rfl
  numbers := intern_prefix _ n
  symbols := List.prefix_rfl
  protos := List.prefix_rfl
  here := Nat.le_refl _
  instruction _ h := h
  sound before := ⟨before.spans, before.strings, intern_nodup _ n before.numbers, before.symbols⟩

theorem grows_symbolIndex (b : Assembler) (sym : Symbol) :
    Grows address b (b.symbolIndex sym).2 where
  strings := List.prefix_rfl
  numbers := List.prefix_rfl
  symbols := intern_prefix _ sym
  protos := List.prefix_rfl
  here := Nat.le_refl _
  instruction _ h := h
  sound before := ⟨before.spans, before.strings, before.numbers, intern_nodup _ sym before.symbols⟩

/-- Spans that are asked for late are filled up for the instructions so far. -/
theorem grows_source (b : Assembler) (span : Option SourceSpan) :
    Grows address b (b.source span) where
  strings := List.prefix_rfl
  numbers := List.prefix_rfl
  symbols := List.prefix_rfl
  protos := List.prefix_rfl
  here := Nat.le_refl _
  instruction _ h := h
  sound before := by
    refine ⟨?_, before.strings, before.numbers, before.symbols⟩
    intro spans known
    obtain rfl := Option.some.inj known
    cases earlier : b.proto.spans with
    | none => simp [source]
    | some spans => exact before.spans spans earlier

theorem grows_patch (b : Assembler) {other : Nat} (apart : other ≠ address) :
    Grows address b (b.patch other) where
  strings := List.prefix_rfl
  numbers := List.prefix_rfl
  symbols := List.prefix_rfl
  protos := List.prefix_rfl
  here := by simp [patch, here]
  instruction i h := by
    simp only [patch, Array.getElem?_modify, apart, if_false]
    exact h
  sound before := by
    refine ⟨?_, before.strings, before.numbers, before.symbols⟩
    intro spans known
    simpa [patch] using before.spans spans known

theorem grows_callWith (b : Assembler) (op : Opcode) (argc : Nat) (name : Option String) :
    Grows address b (b.callWith op argc name).2 := by
  cases name with
  | none => exact grows_emit ..
  | some name => exact (grows_stringIndex b name).trans (grows_emit ..)

theorem grows_addChild (b : Assembler) (child : Proto) : Grows address b
    { b with proto := { b.proto with protos := b.proto.protos ++ [child] } } :=
  grows_of_same rfl rfl rfl (List.prefix_append _ _) rfl rfl

/-- Nothing but its patch changes an instruction. -/
theorem grows_carryOut (b : Assembler) {d : Directive} (other : d ≠ .patch address) :
    Grows address b (b.carryOut d).2 := by
  have pooled {op : Opcode} {y : Int32} {r : Nat × Assembler} (h : Grows address b r.2) :
      Grows address b (emitPooled op y r).2 := h.trans (grows_emit ..)
  cases d with
  | addFlags | annotate | addLocal | capture =>
    exact grows_of_same rfl rfl rfl List.prefix_rfl rfl rfl
  | source span => exact grows_source b span
  | intern s => exact grows_stringIndex b s
  | internNumber n => exact grows_numberIndex b n
  | emit | beginFn | pushBool | newTable | ret | jump | jumpTo => exact grows_emit ..
  | pushNumber n => exact pooled (grows_numberIndex b n)
  | pushString s | selfIndex s => exact pooled (grows_stringIndex b s)
  | load sym | store sym | storeItem sym => exact pooled (grows_symbolIndex b sym)
  | keyed op key =>
    cases key with
    | none => exact grows_emit ..
    | some key => exact pooled (grows_stringIndex b key)
  | closure child => exact (grows_addChild b child).trans (grows_emit ..)
  | call op argc name => exact grows_callWith b op argc name
  | tailCall argc name => exact (grows_callWith b .tailCall argc name).trans (grows_emit ..)
  | patch other' => exact grows_patch b fun same => other (same ▸ rfl)

theorem grows_assemble (b : Assembler) {ds : List Directive} (others : .patch address ∉ ds) :
    Grows address b (b.assemble ds) := by
  induction ds generalizing b with
  | nil => exact .refl b
  | cons d rest ih =>
    rw [List.mem_cons, not_or] at others
    exact (grows_carryOut b (Ne.symm others.1)).trans (ih _ others.2)

/-- No directive is a patch of every address. -/
theorem exists_grows_carryOut (b : Assembler) (d : Directive) :
    ∃ address, Grows address b (b.carryOut d).2 := by
  by_cases first : d = .patch 0
  · exact ⟨1, grows_carryOut b (by simp [first])⟩
  · exact ⟨0, grows_carryOut b first⟩

theorem here_le_carryOut (b : Assembler) (d : Directive) : b.here ≤ (b.carryOut d).2.here :=
  (exists_grows_carryOut b d).elim fun _ grows => grows.here

theorem here_le_assemble (b : Assembler) (ds : List Directive) :
    b.here ≤ (b.assemble ds).here := by
  induction ds generalizing b with
  | nil => exact Nat.le_refl _
  | cons d rest ih => exact Nat.le_trans (here_le_carryOut b d) (ih _)

theorem getElem?_emit (b : Assembler) (op : Opcode) (x y : Int32) :
    (b.emit op x y).2.proto.code[b.here]? = some ⟨op, x, y⟩ := by
  simp [emit, here]

theorem here_emit (b : Assembler) (op : Opcode) (x y : Int32) :
    (b.emit op x y).2.here = b.here + 1 := by
  simp [emit, here]

/-- The referent is in its pool, where the instruction says. -/
def Filed (b : Assembler) (i : Instruction) : Referent → Prop
  | .number n => ∃ k, i.a = .ofNat k ∧ b.proto.numbers[k]? = some n
  | .string s | .key (some s) => ∃ k, i.a = .ofNat k ∧ b.proto.strings[k]? = some s
  | .symbol sym => ∃ k, i.a = .ofNat k ∧ b.proto.symbols[k]? = some sym
  | .key none => i.a = -1
  | .child q => ∃ k, i.a = .ofNat k ∧ b.proto.protos[k]? = some q
  | .callee (some s) => ∃ k, i.b = .ofNat (k + 1) ∧ b.proto.strings[k]? = some s
  | .callee none => i.b = 0

theorem getElem?_of_prefix {α : Type} {xs ys : List α} (h : xs <+: ys) {k : Nat} {x : α}
    (found : xs[k]? = some x) : ys[k]? = some x := by
  obtain ⟨inside, same⟩ := List.getElem?_eq_some_iff.1 found
  rw [List.prefix_iff_getElem?.1 h k inside, same]

theorem Filed.grows {b b' : Assembler} {i : Instruction} {r : Referent} (filed : b.Filed i r)
    (grows : Grows address b b') : b'.Filed i r := by
  match r, filed with
  | .number n, ⟨k, a, found⟩ => exact ⟨k, a, getElem?_of_prefix grows.numbers found⟩
  | .string s, ⟨k, a, found⟩ | .key (some s), ⟨k, a, found⟩ | .callee (some s), ⟨k, a, found⟩ =>
    exact ⟨k, a, getElem?_of_prefix grows.strings found⟩
  | .symbol sym, ⟨k, a, found⟩ => exact ⟨k, a, getElem?_of_prefix grows.symbols found⟩
  | .child q, ⟨k, a, found⟩ => exact ⟨k, a, getElem?_of_prefix grows.protos found⟩
  | .key none, absent | .callee none, absent => exact absent

theorem operand_ofNat {k : Nat} (small : k < 2 ^ 31) : Exec.operand (.ofNat k) = k := by
  rw [Exec.operand, Int32.toInt_ofNat_of_lt small, Int.toNat_natCast]

theorem not_ofNat_neg {k : Nat} (small : k < 2 ^ 31) : ¬ Int32.ofNat k < 0 := by
  have zero : (0 : Int32) = .ofNat 0 := rfl
  rw [zero, Int32.ofNat_lt_iff_lt small (by decide)]
  exact Nat.not_lt_zero k

/-- Where operands can tell all elements apart, the machine finds what is filed. -/
theorem Filed.resolves {b : Assembler} {i : Instruction} {r : Referent} (filed : b.Filed i r)
    (small : b.proto.Addressable) : b.proto.Resolves i r := by
  have index {α : Type} {xs : List α} {k : Nat} {x : α} (found : xs[k]? = some x) :
      k < xs.length := (List.getElem?_eq_some_iff.1 found).1
  match r, filed with
  | .number n, ⟨k, a, found⟩ =>
    intro ν
    rw [Exec.numberOperand, a, operand_ofNat (Nat.lt_trans (index found) small.numbers), found]
  | .string s, ⟨k, a, found⟩ =>
    intro ν
    rw [Exec.stringOperand, a, operand_ofNat (Nat.lt_trans (index found) small.strings), found]
  | .symbol sym, ⟨k, a, found⟩ =>
    intro ν
    rw [Exec.symbolOperand, a, operand_ofNat (Nat.lt_trans (index found) small.symbols), found]
  | .key (some s), ⟨k, a, found⟩ =>
    intro ν
    have bound := Nat.lt_trans (index found) small.strings
    rw [Exec.keyOperand, a, if_neg (not_ofNat_neg bound), Exec.stringOperand, operand_ofNat bound,
      found]
    rfl
  | .key none, a =>
    intro ν
    rw [Exec.keyOperand, a, if_pos (by decide)]
  | .child q, ⟨k, a, found⟩ =>
    rw [Proto.Resolves, a, operand_ofNat (Nat.lt_trans (index found) small.protos), found]
  | .callee (some s), ⟨k, a, found⟩ =>
    have bound : k + 1 < 2 ^ 31 := Nat.lt_of_le_of_lt (index found) small.strings
    have positive : (0 : Int32) < .ofNat (k + 1) :=
      (Int32.ofNat_lt_iff_lt (by decide) bound).2 (Nat.succ_pos k)
    rw [Proto.Resolves, Exec.calleeName, a, if_pos positive, Int32.toInt_ofNat_of_lt bound]
    simpa using found
  | .callee none, a =>
    rw [Proto.Resolves, Exec.calleeName, a, if_neg (by decide)]

/-- A directive adds its instruction at the next address, and files what it refers to. -/
theorem filed_carryOut (b : Assembler) {d : Directive} {op : Opcode} {r : Referent}
    (refers : d.reference? = some (op, r)) : (b.carryOut d).1 = some b.here ∧
      ∃ i, (b.carryOut d).2.proto.code[b.here]? = some i ∧ i.op = op ∧
        (b.carryOut d).2.Filed i r := by
  have call (op : Opcode) (argc : Nat) (name : Option String) :
      ∃ i, (b.callWith op argc name).2.proto.code[b.here]? = some i ∧ i.op = op ∧
        (b.callWith op argc name).2.Filed i (.callee name) := by
    cases name with
    | none => exact ⟨_, getElem?_emit b .., rfl, rfl⟩
    | some name =>
      exact ⟨_, getElem?_emit (b.stringIndex name).2 .., rfl, _, rfl, getElem?_intern _ name⟩
  cases d with
  | addFlags | annotate | addLocal | capture | source | intern | internNumber | emit | beginFn
  | pushBool | newTable | ret | jump | jumpTo | patch => cases refers
  | pushNumber n =>
    cases refers
    exact ⟨rfl, _, getElem?_emit (b.numberIndex n).2 .., rfl, _, rfl, getElem?_intern _ n⟩
  | pushString s | selfIndex s =>
    cases refers
    exact ⟨rfl, _, getElem?_emit (b.stringIndex s).2 .., rfl, _, rfl, getElem?_intern _ s⟩
  | load sym | store sym | storeItem sym =>
    cases refers
    exact ⟨rfl, _, getElem?_emit (b.symbolIndex sym).2 .., rfl, _, rfl, getElem?_intern _ sym⟩
  | keyed op key =>
    cases refers
    cases key with
    | none => exact ⟨rfl, _, getElem?_emit b .., rfl, rfl⟩
    | some key =>
      exact ⟨rfl, _, getElem?_emit (b.stringIndex key).2 .., rfl, _, rfl, getElem?_intern _ key⟩
  | closure child =>
    cases refers
    refine ⟨rfl, _, getElem?_emit { b with
      proto := { b.proto with protos := b.proto.protos ++ [child] } } .., rfl, _, rfl, ?_⟩
    simp [carryOut, placed, closure, emit]
  | call op argc name =>
    cases refers
    obtain ⟨i, added, same, filed⟩ := call op argc name
    refine ⟨?_, i, added, same, filed⟩
    cases name <;> rfl
  | tailCall argc name =>
    cases refers
    obtain ⟨i, added, same, filed⟩ := call .tailCall argc name
    -- the return that follows changes nothing of it
    have grows := @grows_emit b.here (b.callWith .tailCall argc name).2 .ret
      (.ofNat (min 1 1)) 0
    refine ⟨?_, i, grows.instruction i added, same, filed.grows grows⟩
    cases name <;> rfl

/-- An address that is answered is that of an instruction. -/
theorem lt_here_carryOut {b : Assembler} {d : Directive}
    (placed : (b.carryOut d).1 = some address) : address < (b.carryOut d).2.here := by
  have emits (b : Assembler) (op : Opcode) (x y : Int32) :
      (b.emit op x y).1 < (b.emit op x y).2.here := by
    rw [here_emit]
    exact Nat.lt_succ_self b.here
  have call (op : Opcode) (argc : Nat) (name : Option String) :
      (b.callWith op argc name).1 < (b.callWith op argc name).2.here := by
    cases name <;> exact emits ..
  cases d with
  | addFlags | annotate | addLocal | capture | source | intern | internNumber | patch =>
    cases placed
  | keyed op key =>
    cases placed
    cases key <;> exact emits ..
  | call op argc name =>
    cases placed
    exact call op argc name
  | tailCall argc name =>
    cases placed
    exact Nat.lt_of_lt_of_le (call .tailCall argc name) (@grows_emit 0 _ _ _ _).here
  | _ =>
    cases placed
    exact emits ..

theorem lt_here_of_answered {b : Assembler} {ds : List Directive}
    (mem : address ∈ b.answered ds) : address < (b.assemble ds).here := by
  induction ds generalizing b with
  | nil => cases mem
  | cons d rest ih =>
    rcases List.mem_append.1 mem with now | later
    · have placed := lt_here_carryOut (Option.mem_toList.1 now)
      exact Nat.lt_of_lt_of_le placed (here_le_assemble _ rest)
    · exact ih later

theorem chunk_sound (name : String) : (chunk name).Sound :=
  ⟨nofun, List.nodup_nil, List.nodup_nil, List.nodup_nil⟩

theorem function_sound (name : String) : (function name).Sound :=
  ⟨nofun, List.nodup_nil, List.nodup_nil, List.nodup_nil⟩

theorem Sound.assemble {b : Assembler} (sound : b.Sound) (ds : List Directive) :
    (b.assemble ds).Sound := by
  induction ds generalizing b with
  | nil => exact sound
  | cons d rest ih =>
    obtain ⟨_, grows⟩ := exists_grows_carryOut b d
    exact ih (grows.sound sound)

section Finished

variable {start : Assembler} {before after : List Directive}

/-- What an instruction was to refer to is found unless it is patched. -/
theorem resolves_assemble {d : Directive} {op : Opcode} {r : Referent}
    (small : (start.assemble (before ++ d :: after)).proto.Addressable)
    (refers : d.reference? = some (op, r)) :
    ∃ address, ((start.assemble before).carryOut d).1 = some address ∧ (.patch address ∉ after →
      ∃ i, (start.assemble (before ++ d :: after)).proto.code[address]? = some i ∧ i.op = op ∧
        (start.assemble (before ++ d :: after)).proto.Resolves i r) := by
  obtain ⟨answer, i, added, op, filed⟩ := filed_carryOut (start.assemble before) refers
  refine ⟨_, answer, fun others => ?_⟩
  rw [assemble_append] at small ⊢
  have grows := grows_assemble ((start.assemble before).carryOut d).2 others
  exact ⟨i, grows.instruction i added, op, (filed.grows grows).resolves small⟩

theorem getElem?_patch (b : Assembler) (address : Nat) : (b.patch address).proto.code[address]? =
    b.proto.code[address]?.map fun i => { i with a := .ofNat b.here } := by
  simp only [patch, Array.getElem?_modify, if_pos]

/-- The last patch says where an instruction jumps, and nothing else of it changes. -/
theorem jumps_assemble {address : Nat}
    (small : (start.assemble (before ++ .patch address :: after)).proto.code.size < 2 ^ 31)
    (known : address ∈ start.answered before) (others : .patch address ∉ after) :
    ∃ i j, (start.assemble before).proto.code[address]? = some i ∧
      (start.assemble (before ++ .patch address :: after)).proto.code[address]? = some j ∧
      j.op = i.op ∧ j.b = i.b ∧ ∀ ν : Type,
        (Exec.jumpTo j.a : Exec ν Effect) = pure (.jump (start.assemble before).here) := by
  rw [assemble_append] at small ⊢
  have there := Array.getElem?_eq_getElem (lt_here_of_answered known)
  have patched := getElem?_patch (start.assemble before) address
  rw [there] at patched
  have bound : (start.assemble before).here < 2 ^ 31 :=
    Nat.lt_of_le_of_lt (here_le_assemble _ (.patch address :: after)) small
  refine ⟨_, _, there, (grows_assemble _ others).instruction _ patched, rfl, rfl, fun ν => ?_⟩
  rw [Exec.jumpTo, if_neg (not_ofNat_neg bound), Int32.toInt_ofNat_of_lt bound, Int.toNat_natCast]

end Finished

/-- **Assembled functions.** Whatever directives made a function, all of its instructions have spans
or none has, and its pools hold no element twice. What an instruction was to refer to is what the
machine finds through it in the finished function, unless a later patch changed it. And an
instruction that was patched, where an address was answered before, jumps to what was the next
address when it was patched last; the patch changes nothing else of it. -/
theorem assembled {start : Assembler} (begins : ∃ name, start = chunk name ∨ start = function name)
    (ds : List Directive) (small : (start.assemble ds).proto.Addressable) :
    let p := (start.assemble ds).proto
    (p.spans = none ∨ ∃ spans, p.spans = some spans ∧ spans.size = p.code.size) ∧
    p.strings.Nodup ∧ p.numbers.Nodup ∧ p.symbols.Nodup ∧
    (∀ before d after op r, ds = before ++ d :: after → d.reference? = some (op, r) →
      ∃ address, ((start.assemble before).carryOut d).1 = some address ∧ (.patch address ∉ after →
        ∃ i, p.code[address]? = some i ∧ i.op = op ∧ p.Resolves i r)) ∧
    ∀ before address after, ds = before ++ .patch address :: after →
      address ∈ start.answered before → .patch address ∉ after →
      ∃ i j, (start.assemble before).proto.code[address]? = some i ∧ p.code[address]? = some j ∧
        j.op = i.op ∧ j.b = i.b ∧ ∀ ν : Type,
          (Exec.jumpTo j.a : Exec ν Effect) = pure (.jump (start.assemble before).here) := by
  intro p
  have sound : (start.assemble ds).Sound := by
    obtain ⟨name, rfl | rfl⟩ := begins
    · exact (chunk_sound name).assemble ds
    · exact (function_sound name).assemble ds
  have spans : p.spans = none ∨ ∃ spans, p.spans = some spans ∧ spans.size = p.code.size := by
    cases known : p.spans with
    | none => exact .inl rfl
    | some spans => exact .inr ⟨spans, rfl, sound.spans spans known⟩
  refine ⟨spans, sound.strings, sound.numbers, sound.symbols, ?_, ?_⟩
  · rintro before d after op r rfl refers
    exact resolves_assemble small refers
  · rintro before address after rfl known others
    exact jumps_assemble small.code known others

def condition : List Directive :=
  [.beginFn 1 false, .pushString "f", .jump .jumpIfFalse, .source none, .pushString "f"]

/-- A conditional call; the spans begin in the middle. -/
def conditional : List Directive :=
  condition ++ [.call .call 0 (some "f"), .patch 2, .ret 1]

theorem assembled_conditional :
    let p := ((chunk "main").assemble conditional).proto
    p.Addressable ∧ p.strings.Nodup ∧
    (∃ spans, p.spans = some spans ∧ spans.size = p.code.size) ∧
    (∃ i, p.code[4]? = some i ∧ i.op = .call ∧ p.Resolves i (.callee (some "f"))) ∧
    ∃ j, p.code[2]? = some j ∧ ∀ ν : Type, (Exec.jumpTo j.a : Exec ν Effect) = pure (.jump 5) := by
  intro p
  have small : p.Addressable :=
    ⟨by decide, by decide, by decide, by decide, by decide⟩
  obtain ⟨spans, strings, -, -, refers, jumps⟩ := assembled ⟨"main", .inl rfl⟩ conditional small
  obtain ⟨address, answer, found⟩ :=
    refers condition (.call .call 0 (some "f")) [.patch 2, .ret 1] _ _ rfl rfl
  obtain rfl : 4 = address := Option.some.inj answer
  obtain ⟨_, j, -, there, -, -, target⟩ :=
    jumps (condition ++ [.call .call 0 (some "f")]) 2 [.ret 1] rfl (by decide) (by simp)
  exact ⟨small, strings, spans.resolve_left (by decide), found (by simp), j, there, target⟩

end Assembler

end ScriptMachine
