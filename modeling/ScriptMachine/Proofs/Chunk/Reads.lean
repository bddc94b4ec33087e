import Mathlib.Algebra.Group.Nat.Defs
import ScriptMachine.Chunk.Reader
import ScriptMachine.Chunk.Writer

/-!
# Reading back what was written

`Takes` says that a reader takes exactly some bytes, whatever comes behind them, and from which heap
to which it gets on that way. `Reads` says it of readers that leave the heap alone. `Copies` says it
of what a writer makes of a value, and that this is at least one byte: the length in front of a list
is then never more than the bytes that are left.

* `Copies.list`: a list with its length in front, if its elements are read back.
* `copies_string`, `copies_value`, `copies_instruction`, `reads_spanTable`: the fields of a function.
-/

namespace ScriptMachine.Chunk

/-- A reader takes exactly these bytes, and makes one heap of another. -/
def Takes {α : Type} (r : Reader α) (bytes : List UInt8) (heap : Heap) (x : α) (heap' : Heap) : Prop :=
  ∀ rest, r ⟨bytes ++ rest, heap⟩ = .ok (x, ⟨rest, heap'⟩)

theorem Takes.bind_eq {α β : Type} {r : Reader α} {b : List UInt8} {heap heap' : Heap} {x : α}
    (h : Takes r b heap x heap') (f : α → Reader β) (rest : List UInt8) :
    (r >>= f) ⟨b ++ rest, heap⟩ = f x ⟨rest, heap'⟩ := by
  have steps : (r >>= f) ⟨b ++ rest, heap⟩ =
      (r ⟨b ++ rest, heap⟩ >>= fun (x, input) => f x input) := rfl
  rw [steps, h rest]
  rfl

/-- The reader that follows starts where this one stops. -/
theorem Takes.bind {α β : Type} {r : Reader α} {f : α → Reader β} {b b' : List UInt8}
    {heap heap' heap'' : Heap} {x : α} {y : β} (first : Takes r b heap x heap')
    (second : Takes (f x) b' heap' y heap'') : Takes (r >>= f) (b ++ b') heap y heap'' := by
  intro rest
  rw [List.append_assoc, first.bind_eq]
  exact second rest

/-- The last field of a record. -/
theorem Takes.last {α β : Type} {r : Reader α} {b : List UInt8} {heap heap' : Heap} {x : α} (f : α → β)
    (h : Takes r b heap x heap') : Takes (r >>= fun a => Pure.pure (f a)) b heap (f x) heap' :=
  fun rest => h.bind_eq _ rest

/-- A reader behind which nothing more is read. -/
theorem Takes.finish {α β : Type} {r : Reader α} {f : α → Reader β} {b : List UInt8}
    {heap heap' heap'' : Heap} {x : α} {y : β} (first : Takes r b heap x heap')
    (second : Takes (f x) [] heap' y heap'') : Takes (r >>= f) b heap y heap'' := by
  have both := first.bind second
  rwa [List.append_nil] at both

/-- A reader takes exactly these bytes and leaves the heap alone. -/
def Reads {α : Type} (r : Reader α) (bytes : List UInt8) (x : α) : Prop :=
  ∀ rest heap, r ⟨bytes ++ rest, heap⟩ = .ok (x, ⟨rest, heap⟩)

theorem Reads.takes {α : Type} {r : Reader α} {b : List UInt8} {x : α} (h : Reads r b x) (heap : Heap) :
    Takes r b heap x heap := fun rest => h rest heap

theorem Reads.pure {α : Type} (x : α) : Reads (pure x) [] x := fun _ _ => rfl

theorem Reads.bind_eq {α β : Type} {r : Reader α} {b : List UInt8} {x : α} (h : Reads r b x)
    (f : α → Reader β) (rest : List UInt8) (heap : Heap) :
    (r >>= f) ⟨b ++ rest, heap⟩ = f x ⟨rest, heap⟩ := (h.takes heap).bind_eq f rest

theorem Reads.bind {α β : Type} {r : Reader α} {f : α → Reader β} {b b' : List UInt8} {x : α} {y : β}
    (first : Reads r b x) (second : Reads (f x) b' y) : Reads (r >>= f) (b ++ b') y :=
  fun rest heap => (first.takes heap).bind (second.takes heap) rest

theorem Reads.finish {α β : Type} {r : Reader α} {f : α → Reader β} {b : List UInt8} {x : α} {y : β}
    (first : Reads r b x) (second : Reads (f x) [] y) : Reads (r >>= f) b y :=
  fun rest heap => (first.takes heap).finish (second.takes heap) rest

theorem Reads.last {α β : Type} {r : Reader α} {b : List UInt8} {x : α} (f : α → β)
    (h : Reads r b x) : Reads (r >>= fun a => Pure.pure (f a)) b (f x) :=
  h.finish (Reads.pure (f x))

def allocate (t : Table) : Reader Value := do
  let input ← get
  let (id, heap) := input.heap.newTable t
  set { input with heap }
  return .table id

theorem takes_allocate (t : Table) (heap : Heap) :
    Takes (allocate t) [] heap (.table (heap.newTable t).1) (heap.newTable t).2 := fun _ => rfl

theorem bind_eq_ok {ε α β : Type} {x : Except ε α} {f : α → Except ε β} {y : β} :
    (x >>= f) = .ok y ↔ ∃ a, x = .ok a ∧ f a = .ok y := by
  cases x with
  | error e => simp [Bind.bind, Except.bind]
  | ok a => simp [Bind.bind, Except.bind]

theorem exists_of_isOk {ε α : Type} {x : Except ε α} (h : x.isOk = true) : ∃ a, x = .ok a := by
  cases x with
  | error e => cases h
  | ok a => exact ⟨a, rfl⟩

theorem readRaw_eq (count : Nat) (input : Input) :
    readRaw count input = if input.rest.length < count then .error (.format .endOfData)
      else .ok (input.rest.take count, ⟨input.rest.drop count, input.heap⟩) := by
  by_cases short : input.rest.length < count
  · rw [if_pos short]
    simp only [readRaw, bind, StateT.bind, get, getThe, MonadStateOf.get, StateT.get, pure,
      Except.pure, Except.bind, short, if_true]
    rfl
  · rw [if_neg short]
    simp only [readRaw, bind, StateT.bind, get, getThe, MonadStateOf.get, StateT.get, pure,
      Except.pure, Except.bind, short, if_false]
    rfl

theorem reads_raw (bytes : List UInt8) : Reads (readRaw bytes.length) bytes bytes := by
  intro rest heap
  rw [readRaw_eq, if_neg (by simp)]
  simp

theorem reads_byte (b : UInt8) : Reads readByte [b] b := by
  have byte := (reads_raw [b]).last fun bytes : List UInt8 => bytes.headD 0
  exact byte

/-- A byte decides how to go on. -/
theorem Reads.byte {α : Type} {f : UInt8 → Reader α} {t : UInt8} {b : List UInt8} {x : α}
    (h : Reads (f t) b x) : Reads (readByte >>= f) (t :: b) x := (reads_byte t).bind h

theorem reads_word (n : UInt32) : Reads readWord (writeWord n) n := by
  have word := (reads_raw (writeWord n)).last fun bytes => (ofLittleEndian bytes).toUInt32
  have value : ofLittleEndian (writeWord n) = n.toNat :=
    ofLittleEndian_littleEndian 4 _ n.toNat_lt
  have length : (writeWord n).length = 4 := length_littleEndian 4 _
  have same : n.toNat.toUInt32 = n := UInt32.ofNat_toNat
  rw [length, value, same] at word
  exact word

theorem reads_operand (n : Int32) : Reads readOperand (writeWord n.toUInt32) n := by
  have operand := (reads_word n.toUInt32).last UInt32.toInt32
  exact operand

theorem reads_number (n : Number) : Reads readNumber (writeNumber n) n := by
  have number := (reads_raw (writeNumber n)).last fun bytes =>
    (⟨(ofLittleEndian bytes).toUInt64⟩ : Number)
  have value : ofLittleEndian (writeNumber n) = n.bits.toNat :=
    ofLittleEndian_littleEndian 8 _ n.bits.toNat_lt
  have length : (writeNumber n).length = 8 := length_littleEndian 8 _
  have same : n.bits.toNat.toUInt64 = n.bits := UInt64.ofNat_toNat
  rw [length, value, same] at number
  exact number

theorem writeLength_eq_ok {n : Nat} {b : List UInt8} (h : writeLength n = .ok b) :
    n < 2 ^ 32 ∧ b = writeWord n.toUInt32 := by
  simp only [writeLength] at h
  split at h
  · rename_i small
    refine ⟨small, ?_⟩
    obtain rfl := Except.ok.inj h
    rw [writeWord]
    congr 1
    exact (Nat.mod_eq_of_lt small).symm
  · cases h

theorem toNat_toUInt32 {n : Nat} (small : n < 2 ^ 32) : n.toUInt32.toNat = n :=
  Nat.mod_eq_of_lt small

/-- A length is read if as many bytes follow. -/
theorem readLength_eq {n : Nat} {b : List UInt8} (h : writeLength n = .ok b) (rest : List UInt8)
    (enough : n ≤ rest.length) (heap : Heap) :
    readLength ⟨b ++ rest, heap⟩ = .ok (n, ⟨rest, heap⟩) := by
  obtain ⟨small, rfl⟩ := writeLength_eq_ok h
  have word := reads_word n.toUInt32 rest heap
  have fits : n.toUInt32.toNat = n := toNat_toUInt32 small
  have steps : readLength ⟨writeWord n.toUInt32 ++ rest, heap⟩ =
      (readWord ⟨writeWord n.toUInt32 ++ rest, heap⟩ >>= fun (word, input) =>
        (if input.rest.length < word.toNat then malformed (.lengthTooLarge word.toNat)
          else pure word.toNat : Reader Nat) input) := rfl
  rw [steps, word]
  simp only [bind, Except.bind, fits]
  rw [if_neg (by omega)]
  rfl

/-- What a writer makes of a value is read back, and is not nothing. -/
def Copies {α : Type} (write : α → Written) (read : Reader α) (x : α) : Prop :=
  ∀ b, write x = .ok b → Reads read b x ∧ 0 < b.length

theorem reads_each {α : Type} {write : α → Written} {read : Reader α} {xs : List α}
    (copies : ∀ x ∈ xs, Copies write read x) {b : List UInt8} (h : writeEach write xs = .ok b) :
    Reads (readEach read xs.length) b xs ∧ xs.length ≤ b.length := by
  induction xs generalizing b with
  | nil =>
    obtain rfl := Except.ok.inj h
    exact ⟨Reads.pure [], Nat.le_refl 0⟩
  | cons x rest ih =>
    obtain ⟨first, hx, h⟩ := bind_eq_ok.1 h
    obtain ⟨others, hrest, h⟩ := bind_eq_ok.1 h
    obtain rfl := Except.ok.inj h
    obtain ⟨reads, nonempty⟩ := copies x List.mem_cons_self first hx
    obtain ⟨readsRest, long⟩ := ih (fun y mem => copies y (List.mem_cons_of_mem x mem)) hrest
    refine ⟨reads.bind (readsRest.last (x :: ·)), ?_⟩
    rw [List.length_append, List.length_cons]
    omega

/-- Behind a length stands at least a byte for each element. -/
theorem takes_counted {α : Type} {r : Nat → Reader α} {n : Nat} {length body : List UInt8}
    {heap heap' : Heap} {x : α} (h : writeLength n = .ok length) (takes : Takes (r n) body heap x heap')
    (long : n ≤ body.length) : Takes (readLength >>= r) (length ++ body) heap x heap' := by
  intro rest
  have count := readLength_eq h (body ++ rest) (by rw [List.length_append]; omega) heap
  have steps : (readLength >>= r) ⟨length ++ body ++ rest, heap⟩ =
      (readLength ⟨length ++ body ++ rest, heap⟩ >>= fun (n, input) => r n input) := rfl
  rw [steps, List.append_assoc, count]
  exact takes rest

theorem reads_counted {α : Type} {r : Nat → Reader α} {n : Nat} {length body : List UInt8} {x : α}
    (h : writeLength n = .ok length) (reads : Reads (r n) body x) (long : n ≤ body.length) :
    Reads (readLength >>= r) (length ++ body) x :=
  fun rest heap => takes_counted h (reads.takes heap) long rest

theorem length_of_writeLength {n : Nat} {b : List UInt8} (h : writeLength n = .ok b) :
    b.length = 4 := by
  rw [(writeLength_eq_ok h).2]
  exact length_littleEndian 4 _

/-- A list is read back if its elements are. -/
theorem Copies.list {α : Type} {write : α → Written} {read : Reader α} {xs : List α}
    (copies : ∀ x ∈ xs, Copies write read x) : Copies (writeList write) (readList read) xs := by
  intro b h
  obtain ⟨length, hlength, h⟩ := bind_eq_ok.1 h
  obtain ⟨body, hbody, h⟩ := bind_eq_ok.1 h
  obtain rfl := Except.ok.inj h
  obtain ⟨reads, long⟩ := reads_each copies hbody
  refine ⟨reads_counted (r := readEach read) hlength reads long, ?_⟩
  rw [List.length_append, length_of_writeLength hlength]
  omega

theorem fromUTF8?_toUTF8 (s : String) :
    String.fromUTF8? ⟨s.toUTF8.data.toList.toArray⟩ = some s := by
  have whole : (⟨s.toUTF8.data.toList.toArray⟩ : ByteArray) = s.toUTF8 := rfl
  rw [whole, String.fromUTF8?, String.toUTF8_eq_toByteArray, dif_pos s.isValidUTF8]
  rfl

theorem copies_string (s : String) : Copies writeString readString s := by
  intro b h
  obtain ⟨length, hlength, h⟩ := bind_eq_ok.1 h
  obtain rfl := Except.ok.inj h
  refine ⟨reads_counted hlength ((reads_raw s.toUTF8.data.toList).finish ?_) (Nat.le_refl _), ?_⟩
  · rw [fromUTF8?_toUTF8]
    exact Reads.pure s
  · rw [List.length_append, length_of_writeLength hlength]
    omega

theorem copies_number (n : Number) : Copies (fun n => .ok (writeNumber n)) readNumber n := by
  intro b h
  obtain rfl := Except.ok.inj h
  refine ⟨reads_number n, ?_⟩
  rw [writeNumber, length_littleEndian]
  omega

/-- A value that is no table. -/
theorem copies_value (h : Heap) (fuel : Nat) {v : Value} (scalar : v.kind ≠ .table) :
    Copies (writeValue h (fuel + 1)) (readValue (fuel + 1)) v := by
  intro b written
  cases v with
  | nil =>
    obtain rfl := Except.ok.inj written
    exact ⟨Reads.byte (t := Kind.nil.tag) (Reads.pure Value.nil), by simp⟩
  | boolean x =>
    obtain rfl := Except.ok.inj written
    refine ⟨Reads.byte (t := Kind.boolean.tag) ?_, by simp⟩
    have read := (reads_byte (if x then 1 else 0)).last fun byte => Value.boolean (byte != 0)
    cases x <;> exact read
  | number n =>
    obtain rfl := Except.ok.inj written
    have read := (reads_number n).last Value.number
    exact ⟨Reads.byte (t := Kind.number.tag) read, by simp⟩
  | string s =>
    obtain ⟨text, htext, written⟩ := bind_eq_ok.1 written
    obtain rfl := Except.ok.inj written
    have read := (copies_string s text htext).1.last Value.string
    exact ⟨Reads.byte (t := Kind.string.tag) read, by simp⟩
  | table t => exact absurd rfl scalar
  | _ => cases written

theorem copies_namedValue (h : Heap) {a : NamedValue} (scalar : a.value.kind ≠ .table) :
    Copies (writeNamedValue h) readNamedValue a := by
  intro b written
  obtain ⟨name, hname, written⟩ := bind_eq_ok.1 written
  obtain ⟨value, hvalue, written⟩ := bind_eq_ok.1 written
  obtain rfl := Except.ok.inj written
  obtain ⟨readsName, nonempty⟩ := copies_string a.name name hname
  obtain ⟨readsValue, _⟩ := copies_value h maxNesting scalar value hvalue
  refine ⟨readsName.bind (readsValue.last fun v => NamedValue.mk a.name v), ?_⟩
  rw [List.length_append]
  omega

theorem copies_instruction (i : Instruction) :
    Copies (fun i => .ok (writeInstruction i)) readInstruction i := by
  intro b written
  obtain rfl := Except.ok.inj written
  refine ⟨?_, by simp [writeInstruction]⟩
  have operands := (reads_operand i.a).bind
    (f := fun a => readOperand >>= fun b => pure (Instruction.mk i.op a b))
    ((reads_operand i.b).last fun b => Instruction.mk i.op i.a b)
  apply Reads.byte
  rw [Opcode.ofCode?_code]
  exact operands

theorem reads_flags (f : ProtoFlags) : Reads readFlags [f.bits] f := by
  apply Reads.byte
  rw [ProtoFlags.ofBits?_bits]
  exact Reads.pure f

theorem reads_span (s : SourceSpan) : Reads readSpan (writeSpan s) s := by
  have stop : Reads (readByte >>= fun byte => pure (SourceSpan.mk s.source s.fromLine s.toLine
      s.fromChar s.toChar (byte != 0))) [if s.isStop then 1 else 0] s := by
    have read := (reads_byte (if s.isStop then 1 else 0)).last fun byte =>
      SourceSpan.mk s.source s.fromLine s.toLine s.fromChar s.toChar (byte != 0)
    have same : ((if s.isStop then 1 else 0 : UInt8) != 0) = s.isStop := by cases s.isStop <;> rfl
    rwa [same] at read
  simp only [writeSpan, List.append_assoc]
  refine (reads_word s.source).bind ?_
  refine (reads_word s.fromLine).bind ?_
  refine (reads_word s.toLine).bind ?_
  refine (reads_word s.fromChar).bind ?_
  exact (reads_word s.toChar).bind stop

theorem reads_spans (previous : Option SourceSpan) (xs : List (Option SourceSpan)) :
    Reads (readSpans previous xs.length) (writeSpans previous xs) xs := by
  induction xs generalizing previous with
  | nil => exact Reads.pure []
  | cons x rest ih =>
    cases x with
    | none =>
      have first : Reads (readTaggedSpan previous) [0] none := Reads.byte (Reads.pure none)
      exact first.bind ((ih none).last (none :: ·))
    | some s =>
      have others := (ih (some s)).last (some s :: ·)
      rw [writeSpans]
      split
      · rename_i again
        subst again
        have first : Reads (readTaggedSpan (some s)) [1] (some s) := Reads.byte (Reads.pure (some s))
        exact first.bind others
      · have first : Reads (readTaggedSpan previous) (2 :: writeSpan s) (some s) :=
          Reads.byte ((reads_span s).last some)
        exact first.bind others

theorem reads_spanTable {name : String} {instructions : Nat}
    {spans : Option (Array (Option SourceSpan))} {b : List UInt8}
    (h : writeSpanTable name instructions spans = .ok b) :
    Reads (readSpanTable instructions) b spans := by
  cases spans with
  | none =>
    obtain rfl := Except.ok.inj h
    exact Reads.byte (Reads.pure none)
  | some spans =>
    simp only [writeSpanTable] at h
    split at h
    · rename_i size
      obtain rfl := Except.ok.inj h
      have read := (reads_spans none spans.toList).last fun xs => some xs.toArray
      rw [Array.length_toList, size] at read
      exact Reads.byte read
    · cases h

/-- Whole bytes are read as a chunk is, and the heap is what reading leaves. -/
theorem undump_run (h : Heap) (bytes : List UInt8) :
    undump h bytes = readChunk ⟨bytes, h⟩ >>= fun read => .ok (read.1, read.2.heap) := rfl

end ScriptMachine.Chunk
