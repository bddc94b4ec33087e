import ScriptMachine.Proofs.Chunk.Reads

/-!
# Why chunks are refused

Whatever the bytes, a chunk is read or refused as malformed, but for one thing: a table refuses nil
and what is no number as keys, and its refusal is passed on as it is.

* `Outcome`: what reading may come to. `Orderly.bind`: so it does if its steps do.
* `Composed`: how the readers of the format are put together. What they share is an induction on it.
* `pairs_outcome`: the pair at which a table fails.
* `undump_outcome`: what becomes of any bytes. `undump_nilKeyed`: not all of it is a format error.
-/

namespace ScriptMachine

theorem Kind.tag_of_ofTag? {tag : UInt8} {k : Kind} (h : Kind.ofTag? tag = some k) :
    tag = k.tag := by
  obtain ⟨inside, found⟩ := List.getElem?_eq_some_iff.1 h
  have order : ∀ i (small : i < all.length), (all[i]).tag.toNat = i := by decide
  exact UInt8.toNat.inj ((order tag.toNat inside).symm.trans (congrArg (·.tag.toNat) found))

namespace Chunk

theorem littleEndian_ofLittleEndian (bytes : List UInt8) :
    littleEndian bytes.length (ofLittleEndian bytes) = bytes := by
  induction bytes with
  | nil => rfl
  | cons b rest ih =>
    have low : (b.toNat + 256 * ofLittleEndian rest).toUInt8 = b := by
      apply UInt8.toNat.inj
      have := b.toNat_lt
      simp [Nat.toUInt8]
    have high : (b.toNat + 256 * ofLittleEndian rest) / 256 = ofLittleEndian rest := by
      have := b.toNat_lt
      omega
    rw [List.length_cons, littleEndian, ofLittleEndian, low, high, ih]

theorem ofLittleEndian_lt (bytes : List UInt8) : ofLittleEndian bytes < 256 ^ bytes.length := by
  induction bytes with
  | nil => exact Nat.one_pos
  | cons b rest ih =>
    have := b.toNat_lt
    rw [List.length_cons, ofLittleEndian, Nat.pow_succ]
    omega

/-- A reader that succeeds has gone through its steps. -/
theorem bind_ok {α β : Type} {r : Reader α} {f : α → Reader β} {input left : Input} {y : β} :
    (r >>= f) input = .ok (y, left) ↔
      ∃ x mid, r input = .ok (x, mid) ∧ f x mid = .ok (y, left) := by
  have steps : (r >>= f) input = (r input >>= fun (x, mid) => f x mid) := rfl
  rw [steps, bind_eq_ok, Prod.exists]

theorem pure_ok {α : Type} {x y : α} {input left : Input} :
    (pure x : Reader α) input = .ok (y, left) ↔ x = y ∧ input = left := by
  have answer : (pure x : Reader α) input = .ok (x, input) := rfl
  rw [answer, Except.ok.injEq, Prod.mk.injEq]

theorem malformed_ne_ok {α : Type} {fault : FormatFault} {input : Input} {y : α × Input} :
    (malformed fault : Reader α) input ≠ .ok y := nofun

theorem readRaw_ok {count : Nat} {input left : Input} {bytes : List UInt8} :
    readRaw count input = .ok (bytes, left) ↔
      bytes.length = count ∧ input = ⟨bytes ++ left.rest, left.heap⟩ := by
  obtain ⟨all, heap⟩ := input
  obtain ⟨rest, heap'⟩ := left
  rw [readRaw_eq]
  constructor
  · intro h
    split at h
    · cases h
    · obtain ⟨rfl, rfl, rfl⟩ : all.take count = bytes ∧ all.drop count = rest ∧ heap = heap' := by
        simpa using h
      refine ⟨by simp at *; omega, by simp⟩
  · rintro ⟨rfl, h⟩
    obtain ⟨rfl, rfl⟩ : all = bytes ++ rest ∧ heap = heap' := by simpa using h
    rw [if_neg (by simp)]
    simp

theorem readByte_ok {input left : Input} {b : UInt8} (h : readByte input = .ok (b, left)) :
    input = ⟨b :: left.rest, left.heap⟩ := by
  obtain ⟨bytes, mid, raw, h⟩ := bind_ok.1 h
  obtain ⟨rfl, rfl⟩ := pure_ok.1 h
  obtain ⟨one, rfl⟩ := readRaw_ok.1 raw
  obtain ⟨b, rfl⟩ := List.length_eq_one_iff.1 one
  rfl

theorem readWord_ok {input left : Input} {w : UInt32} (h : readWord input = .ok (w, left)) :
    input = ⟨writeWord w ++ left.rest, left.heap⟩ := by
  obtain ⟨bytes, mid, raw, h⟩ := bind_ok.1 h
  obtain ⟨rfl, rfl⟩ := pure_ok.1 h
  obtain ⟨four, rfl⟩ := readRaw_ok.1 raw
  have bound := ofLittleEndian_lt bytes
  rw [four] at bound
  have same : littleEndian 4 (ofLittleEndian bytes) = bytes :=
    four ▸ littleEndian_ofLittleEndian bytes
  rw [writeWord, toNat_toUInt32 bound, same]

theorem readNumber_ok {input left : Input} {n : Number} (h : readNumber input = .ok (n, left)) :
    input = ⟨writeNumber n ++ left.rest, left.heap⟩ := by
  obtain ⟨bytes, mid, raw, h⟩ := bind_ok.1 h
  obtain ⟨rfl, rfl⟩ := pure_ok.1 h
  obtain ⟨eight, rfl⟩ := readRaw_ok.1 raw
  have bound := ofLittleEndian_lt bytes
  rw [eight] at bound
  have same : littleEndian 8 (ofLittleEndian bytes) = bytes :=
    eight ▸ littleEndian_ofLittleEndian bytes
  have bits : (ofLittleEndian bytes).toUInt64.toNat = ofLittleEndian bytes := Nat.mod_eq_of_lt bound
  rw [writeNumber, bits, same]

theorem readLength_ok {input left : Input} {n : Nat} (h : readLength input = .ok (n, left)) :
    ∃ w : UInt32, w.toNat = n ∧ input = ⟨writeWord w ++ left.rest, left.heap⟩ := by
  obtain ⟨w, mid, word, h⟩ := bind_ok.1 h
  obtain ⟨now, mid', peek, h⟩ := bind_ok.1 h
  obtain ⟨rfl, rfl⟩ := pure_ok (x := mid).1 peek
  split at h
  · cases malformed_ne_ok h
  · obtain ⟨rfl, rfl⟩ := pure_ok.1 h
    exact ⟨w, rfl, readWord_ok word⟩

inductive Keyless : List UInt8 → Cause → Prop
  | nil : Keyless [Kind.nil.tag] .nilKey
  | nan (n : Number) : n.isNaN = true → Keyless (Kind.number.tag :: writeNumber n) .nanKey

/-- Somewhere in the bytes a table begins, and the first of its pairs are read, but the next one has
no key. -/
inductive Refused (cause : Cause) : List UInt8 → Prop
  | pair (before : List UInt8) {count : UInt32} {fuel n : Nat} {pairs key value after : List UInt8}
      {h h' h'' : Heap} {t : Table} {v : Value} (more : n < count.toNat)
      (read : readPairs (readValue fuel) .empty n ⟨pairs ++ key ++ value ++ after, h⟩ =
        .ok (t, ⟨key ++ value ++ after, h'⟩))
      (keyless : Keyless key cause)
      (readOn : readValue fuel ⟨value ++ after, h'⟩ = .ok (v, ⟨after, h''⟩)) :
      Refused cause
        (before ++ Kind.table.tag :: writeWord count ++ (pairs ++ key ++ value ++ after))

theorem Refused.behind {cause : Cause} {bytes : List UInt8} (lead : List UInt8)
    (h : Refused cause bytes) : Refused cause (lead ++ bytes) := by
  cases h with
  | pair before more read keyless readOn =>
    have := Refused.pair (lead ++ before) more read keyless readOn
    simpa only [List.append_assoc] using this

/-- What reading may come to: something is read from the front, or the bytes are malformed, or a
table refuses a key in them. -/
inductive Outcome {α : Type} (bytes : List UInt8) : Except Fault (α × Input) → Prop
  | read (used : List UInt8) (x : α) (left : Input) (split : bytes = used ++ left.rest) :
      Outcome bytes (.ok (x, left))
  | malformed (fault : FormatFault) : Outcome bytes (.error (.format fault))
  | refused {cause : Cause} (h : Refused cause bytes) : Outcome bytes (.error (.raise cause))

/-- What is read behind other bytes is read behind them all. -/
theorem Outcome.behind {α : Type} {bytes : List UInt8} {result : Except Fault (α × Input)}
    (lead : List UInt8) (h : Outcome bytes result) : Outcome (lead ++ bytes) result := by
  cases h with
  | read used x left split => exact .read (lead ++ used) x left (by rw [split, List.append_assoc])
  | malformed fault => exact .malformed fault
  | refused h => exact .refused (h.behind lead)

/-- A reader comes to nothing else. -/
def Orderly {α : Type} (r : Reader α) : Prop := ∀ input, Outcome input.rest (r input)

theorem Outcome.bind {α β : Type} {bytes : List UInt8} {r : Reader α} {f : α → Reader β}
    {input : Input} (first : Outcome bytes (r input)) (second : ∀ x, Orderly (f x)) :
    Outcome bytes ((r >>= f) input) := by
  have steps : (r >>= f) input = (r input >>= fun (x, left) => f x left) := rfl
  rw [steps]
  generalize r input = result at first
  cases first with
  | read used x left split => exact split ▸ (second x left).behind used
  | malformed fault => exact .malformed fault
  | refused h => exact .refused h

theorem Orderly.bind {α β : Type} {r : Reader α} {f : α → Reader β} (first : Orderly r)
    (second : ∀ x, Orderly (f x)) : Orderly (r >>= f) := fun input => (first input).bind second

/-- What follows may look back at what was read, and at what stands before it. -/
theorem Orderly.andThen {α β : Type} {r : Reader α} {f : α → Reader β} (first : Orderly r)
    (lead : List UInt8) {input : Input}
    (second : ∀ used x left, r input = .ok (x, left) → input.rest = used ++ left.rest →
      Outcome (lead ++ input.rest) (f x left)) :
    Outcome (lead ++ input.rest) ((r >>= f) input) := by
  have steps : (r >>= f) input = (r input >>= fun (x, left) => f x left) := rfl
  have outcome := first input
  rw [steps]
  generalize r input = result at outcome second
  cases outcome with
  | read used x left split => exact second used x left rfl split
  | malformed fault => exact .malformed fault
  | refused h => exact .refused (h.behind lead)

theorem Orderly.pure {α : Type} (x : α) : Orderly (pure x) := fun input => .read [] x input rfl

theorem Orderly.malformed {α : Type} (fault : FormatFault) : Orderly (malformed fault : Reader α) :=
  fun _ => .malformed fault

theorem Orderly.get : Orderly (get : Reader Input) := fun input => .read [] input input rfl

/-- The last field of a record. -/
theorem Orderly.last {α β : Type} {r : Reader α} (f : α → β) (h : Orderly r) :
    Orderly (r >>= fun x => Pure.pure (f x)) := h.bind fun x => .pure (f x)

/-- The readers put together from raw bytes, lengths and readers of some sort. -/
inductive Composed (sort : (α : Type) → Reader α → Prop) : {α : Type} → Reader α → Prop
  | pure {α : Type} (x : α) : Composed sort (pure x : Reader α)
  | malformed {α : Type} (fault : FormatFault) : Composed sort (malformed fault : Reader α)
  | raw (count : Nat) : Composed sort (readRaw count)
  | length : Composed sort readLength
  | of {α : Type} {r : Reader α} (h : sort α r) : Composed sort r
  | bind {α β : Type} {r : Reader α} {f : α → Reader β} (first : Composed sort r)
      (second : ∀ x, Composed sort (f x)) : Composed sort (r >>= f)

section
variable {sort : (α : Type) → Reader α → Prop}

/-- The last field of a record. -/
theorem Composed.last {α β : Type} {r : Reader α} (f : α → β) (h : Composed sort r) :
    Composed sort (r >>= fun x => Pure.pure (f x)) := h.bind fun x => .pure (f x)

theorem composed_byte : Composed sort readByte := (Composed.raw 1).last _

theorem composed_word : Composed sort readWord := (Composed.raw 4).last _

theorem composed_operand : Composed sort readOperand := composed_word.last _

theorem composed_number : Composed sort readNumber := (Composed.raw 8).last _

theorem composed_string : Composed sort readString := by
  refine Composed.length.bind fun n => (Composed.raw n).bind fun bytes => ?_
  split
  · exact .pure _
  · exact .malformed _

theorem composed_each {α : Type} {read : Reader α} (h : Composed sort read) (count : Nat) :
    Composed sort (readEach read count) := by
  induction count with
  | zero => exact .pure []
  | succ count ih => exact h.bind fun first => ih.last _

theorem composed_list {α : Type} {read : Reader α} (h : Composed sort read) : Composed sort (readList read) :=
  Composed.length.bind (composed_each h)

theorem composed_symbol (pool : List Symbol) : Composed sort (readSymbol pool) := by
  refine composed_byte.bind fun tag => ?_
  split
  · exact .malformed _
  · refine composed_word.bind fun index => composed_string.bind fun name =>
      composed_word.bind fun link => ?_
    split
    · exact .pure _
    · exact .pure _
    · exact .pure _
    · dsimp only
      split
      · exact .pure _
      · exact .malformed _

theorem composed_symbolsInto (pool : List Symbol) (count : Nat) :
    Composed sort (readSymbolsInto pool count) := by
  induction count generalizing pool with
  | zero => exact .pure pool
  | succ count ih => exact (composed_symbol pool).bind fun s => ih (pool ++ [s])

theorem composed_symbolPool : Composed sort readSymbolPool := Composed.length.bind (composed_symbolsInto [])

theorem composed_symbolIndex (pool : List Symbol) : Composed sort (readSymbolIndex pool) := by
  refine composed_word.bind fun i => ?_
  dsimp only
  split
  · exact .pure _
  · exact .malformed _

theorem composed_instruction : Composed sort readInstruction := by
  refine composed_byte.bind fun byte => ?_
  split
  · exact .malformed _
  · exact composed_operand.bind fun a => composed_operand.last _

theorem composed_span : Composed sort readSpan :=
  composed_word.bind fun _ => composed_word.bind fun _ => composed_word.bind fun _ =>
    composed_word.bind fun _ => composed_word.bind fun _ => composed_byte.last _

theorem composed_taggedSpan (previous : Option SourceSpan) : Composed sort (readTaggedSpan previous) := by
  refine composed_byte.bind fun tag => ?_
  split
  · exact .pure none
  · split
    · exact .pure _
    · exact .malformed _
  · exact composed_span.last _
  · exact .malformed _

theorem composed_spans (previous : Option SourceSpan) (count : Nat) :
    Composed sort (readSpans previous count) := by
  induction count generalizing previous with
  | zero => exact .pure []
  | succ count ih => exact (composed_taggedSpan previous).bind fun span => (ih span).last _

theorem composed_spanTable (instructions : Nat) : Composed sort (readSpanTable instructions) := by
  refine composed_byte.bind fun marker => ?_
  split
  · exact .pure none
  · exact (composed_spans none instructions).last _
  · exact .malformed _

theorem composed_flags : Composed sort readFlags := by
  refine composed_byte.bind fun bits => ?_
  split
  · exact .pure _
  · exact .malformed _

/-- A function is composed, if the values of annotations are. -/
theorem composed_function (value : Composed sort (readValue (maxNesting + 1))) (fuel : Nat) :
    Composed sort (readFunction fuel) := by
  induction fuel with
  | zero => exact .malformed _
  | succ fuel ih =>
    have annotation : Composed sort readNamedValue := composed_string.bind fun _ => value.last _
    refine composed_string.bind fun name => composed_flags.bind fun flags =>
      (composed_list annotation).bind fun annotations => composed_symbolPool.bind fun pool => ?_
    have indexes : Composed sort (readList (readSymbolIndex pool)) :=
      composed_list (composed_symbolIndex pool)
    refine indexes.bind fun locals => indexes.bind fun upvalues => indexes.bind fun symbols => ?_
    refine (composed_list ih).bind fun protos => (composed_list composed_string).bind fun strings => ?_
    refine (composed_list composed_number).bind fun numbers => ?_
    exact (composed_list composed_instruction).bind fun code => (composed_spanTable code.length).last _

end

theorem orderly_raw (count : Nat) : Orderly (readRaw count) := by
  intro input
  rw [readRaw_eq]
  split
  · exact .malformed .endOfData
  · exact .read (input.rest.take count) _ _ (List.take_append_drop _ _).symm

theorem Composed.orderly {α : Type} {r : Reader α} (composed : Composed @Orderly r) : Orderly r := by
  induction composed with
  | pure x => exact .pure x
  | malformed fault => exact .malformed fault
  | raw count => exact orderly_raw count
  | length =>
    refine ((orderly_raw 4).last _).bind fun word => Orderly.get.bind fun now => ?_
    split
    · exact .malformed _
    · exact .pure _
  | of h => exact h
  | bind _ _ first second => exact first.bind second

def readPairInto (readValue : Reader Value) (t : Table) : Reader Table := do
  let key ← readValue
  let value ← readValue
  match t.set key value with
  | .ok t => return t
  | .error cause => throw (.raise cause)

theorem readPairs_succ (readValue : Reader Value) (t : Table) (n : Nat) :
    readPairs readValue t (n + 1) =
      readPairInto readValue t >>= fun t => readPairs readValue t n := by
  simp only [readPairs, readPairInto, bind_assoc]
  congr 1
  funext key
  congr 1
  funext value
  cases t.set key value <;> rfl

/-- The last pair comes behind the others. -/
theorem readPairs_last (readValue : Reader Value) (t : Table) (n : Nat) :
    readPairs readValue t (n + 1) =
      readPairs readValue t n >>= fun t => readPairInto readValue t := by
  induction n generalizing t with
  | zero =>
    rw [readPairs_succ]
    exact bind_pure _
  | succ n ih =>
    rw [readPairs_succ, readPairs_succ readValue t n, bind_assoc]
    congr 1
    funext t
    exact ih t

theorem set_eq_error {t : Table} {key value : Value} {cause : Cause}
    (h : t.set key value = .error cause) : Key.ofScalar key.scalar = .error cause := by
  cases filed : Key.ofScalar key.scalar with
  | error cause' => simpa [Table.set, Key.ofValue, filed, Bind.bind, Except.bind] using h
  | ok k => simp [Table.set, Key.ofValue, filed, Bind.bind, Except.bind, pure, Except.pure] at h

/-- What is read and is no key is nil or no number. -/
theorem keyless_of_readValue {fuel : Nat} {input left : Input} {key : Value} {cause : Cause}
    (read : readValue fuel input = .ok (key, left)) (h : Key.ofScalar key.scalar = .error cause) :
    ∃ bytes, Keyless bytes cause ∧ input = ⟨bytes ++ left.rest, left.heap⟩ := by
  cases fuel with
  | zero => cases malformed_ne_ok read
  | succ fuel =>
    obtain ⟨tag, mid, byte, run⟩ := bind_ok.1 read
    obtain rfl := readByte_ok byte
    cases kind : Kind.ofTag? tag with
    | none =>
      simp only [kind] at run
      cases malformed_ne_ok run
    | some k =>
      obtain rfl := Kind.tag_of_ofTag? kind
      cases k <;> simp only [kind] at run
      case nil =>
        obtain ⟨rfl, rfl⟩ := pure_ok.1 run
        obtain rfl := Except.error.inj h
        exact ⟨_, .nil, rfl⟩
      case number =>
        obtain ⟨n, mid', number, run⟩ := bind_ok.1 run
        obtain ⟨rfl, rfl⟩ := pure_ok.1 run
        obtain rfl := readNumber_ok number
        simp only [Value.scalar, Key.ofScalar] at h
        split at h
        · rename_i nan
          obtain rfl := Except.error.inj h
          exact ⟨_, .nan n nan, rfl⟩
        · cases h
      case boolean | string =>
        obtain ⟨_, _, _, run⟩ := bind_ok.1 run
        obtain ⟨rfl, _⟩ := pure_ok.1 run
        cases h
      case table =>
        obtain ⟨_, _, _, run⟩ := bind_ok.1 run
        obtain ⟨_, _, _, run⟩ := bind_ok.1 run
        obtain ⟨_, _, _, run⟩ := bind_ok.1 run
        obtain ⟨_, _, _, run⟩ := bind_ok.1 run
        obtain ⟨rfl, _⟩ := pure_ok.1 run
        cases h
      all_goals cases malformed_ne_ok run

/-- The pairs of a table, some of which were read, are read or malformed, or one is refused. -/
theorem pairs_outcome {fuel : Nat} (orderly : Orderly (readValue fuel)) {count : UInt32} {m n : Nat}
    (total : m + n = count.toNat) {pairs : List UInt8} {h : Heap} {t : Table} {input : Input}
    (read : readPairs (readValue fuel) .empty m ⟨pairs ++ input.rest, h⟩ = .ok (t, input)) :
    Outcome ((Kind.table.tag :: writeWord count ++ pairs) ++ input.rest)
      (readPairs (readValue fuel) t n input) := by
  induction n generalizing m pairs t input with
  | zero => exact .read _ t input rfl
  | succ n ih =>
    refine orderly.andThen _ fun keyBytes key mid readKey split => ?_
    have bytes : Kind.table.tag :: writeWord count ++ pairs ++ input.rest =
        Kind.table.tag :: writeWord count ++ pairs ++ keyBytes ++ mid.rest := by
      rw [split, List.append_assoc _ keyBytes]
    rw [bytes]
    refine orderly.andThen _ fun valueBytes value left readOn split' => ?_
    cases stored : t.set key value with
    | ok t' =>
      have more : readPairs (readValue fuel) .empty (m + 1)
          ⟨pairs ++ keyBytes ++ valueBytes ++ left.rest, h⟩ = .ok (t', left) := by
        rw [readPairs_last]
        refine bind_ok.2 ⟨t, input, ?_, bind_ok.2 ⟨key, mid, readKey,
          bind_ok.2 ⟨value, left, readOn, by rw [stored]; rfl⟩⟩⟩
        rw [← read, split, split', List.append_assoc, List.append_assoc]
      have := ih (m := m + 1) (by omega) more
      rw [split']
      simpa only [List.append_assoc] using this
    | error cause =>
      refine .refused ?_
      obtain ⟨behind, heap⟩ := mid
      obtain rfl : behind = valueBytes ++ left.rest := split'
      obtain ⟨own, keyless, rfl⟩ := keyless_of_readValue readKey (set_eq_error stored)
      obtain rfl := List.append_cancel_right split
      simp only [← List.append_assoc] at read
      have more : m < count.toNat := by omega
      have refused := Refused.pair [] more read keyless readOn
      simpa only [List.nil_append, List.append_assoc] using refused

theorem orderly_allocate (t : Table) : Orderly (allocate t) := fun input =>
  .read [] (Value.table (input.heap.newTable t).1) ⟨input.rest, (input.heap.newTable t).2⟩ rfl

/-- What stands behind the tag of a table is read, malformed or has a pair that is refused. -/
theorem table_outcome {fuel : Nat} (orderly : Orderly (readValue fuel)) (input : Input) :
    Outcome ([Kind.table.tag] ++ input.rest)
      ((readLength >>= fun count => readPairs (readValue fuel) .empty count >>= allocate) input) := by
  refine Composed.length.orderly.andThen _ fun used n left length split => ?_
  obtain ⟨count, rfl, rfl⟩ := readLength_ok length
  have start : readPairs (readValue fuel) .empty 0 ⟨[] ++ left.rest, left.heap⟩ = .ok (.empty, left) :=
    rfl
  have outcome := pairs_outcome orderly (Nat.zero_add count.toNat) start
  rw [List.append_nil] at outcome
  exact outcome.bind orderly_allocate

theorem orderly_value (fuel : Nat) : Orderly (readValue fuel) := by
  induction fuel with
  | zero => exact .malformed _
  | succ fuel ih =>
    intro input
    refine composed_byte.orderly.andThen [] fun used tag left byte _ => ?_
    obtain rfl := readByte_ok byte
    have single {r : Reader Value} (orderly : Orderly r) :
        Outcome ([] ++ tag :: left.rest) (r left) := (orderly left).behind [tag]
    cases kind : Kind.ofTag? tag with
    | none => exact single (.malformed _)
    | some k =>
      obtain rfl := Kind.tag_of_ofTag? kind
      cases k
      case nil => exact single (.pure _)
      case boolean => exact single (composed_byte.orderly.last _)
      case number => exact single (composed_number.orderly.last _)
      case string => exact single (composed_string.orderly.last _)
      case table => exact table_outcome ih left
      all_goals exact single (.malformed _)

theorem orderly_chunk : Orderly readChunk := by
  refine (orderly_raw magic.length).bind fun mark => ?_
  split
  · exact .malformed _
  · refine composed_byte.orderly.bind fun v => ?_
    split
    · exact .malformed _
    · refine (composed_function (.of (orderly_value _)) _).orderly.bind fun p => Orderly.get.bind fun now => ?_
      dsimp only
      split
      · exact .malformed _
      · exact .pure p

/-- **What becomes of bytes.** They are read as a function, or refused as malformed, or a table in
them has a pair whose key is nil or no number; then the error is the table's. -/
theorem undump_outcome (h : Heap) (bytes : List UInt8) :
    (∃ p heap, undump h bytes = .ok (p, heap)) ∨
    (∃ fault, undump h bytes = .error (.format fault)) ∨
    ∃ cause, undump h bytes = .error (.raise cause) ∧ Refused cause bytes := by
  have outcome := orderly_chunk ⟨bytes, h⟩
  rw [undump_run]
  generalize readChunk ⟨bytes, h⟩ = result at outcome
  cases outcome with
  | read used p left split => exact .inl ⟨p, left.heap, rfl⟩
  | malformed fault => exact .inr (.inl ⟨fault, rfl⟩)
  | refused refusal => exact .inr (.inr ⟨_, rfl, refusal⟩)

/-- A function with one annotation, a table with nil as a key. -/
def nilKeyed : List UInt8 :=
  magic ++ [version, 1, 0, 0, 0, 109, 0, 1, 0, 0, 0, 1, 0, 0, 0, 116, Kind.table.tag, 1, 0, 0, 0,
    Kind.nil.tag, Kind.nil.tag] ++ List.replicate 33 0

/-- Such a table is refused by a script error. -/
theorem undump_nilKeyed : undump {} nilKeyed = .error (.raise .nilKey) ∧
    ∀ fault, undump {} nilKeyed ≠ .error (.format fault) := by
  have refused : undump {} nilKeyed = .error (.raise .nilKey) := by rfl
  exact ⟨refused, fun fault h => by rw [refused] at h; cases h⟩

end Chunk

end ScriptMachine
