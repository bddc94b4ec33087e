import ScriptMachine.Number.Numeral

/-!
# The grammar of numerals

What numerals look like, said without reading them, and what reading makes of it.

* `Signed`, `Mantissa`, `Exponent`, `Body`: the parts of a numeral, with what they stand for.
* `IsNumeral`: a numeral has at most one sign.
* `decimal_eq_some_iff`, `hexadecimal_eq_some_iff`: what each reader accepts, and as which number.
* `read_isSome_iff`: reading accepts the numerals, and decimal ones behind two signs.
-/

namespace ScriptMachine.Numeral

/-- An optional sign in front of a text; `true` for a minus. -/
inductive Signed : Bool → List Char → List Char → Prop
  | bare {cs : List Char} : Signed false cs cs
  | plus {cs : List Char} : Signed false cs ('+' :: cs)
  | minus {cs : List Char} : Signed true cs ('-' :: cs)

/-- Digits with an optional point, and at least one of them. -/
inductive Mantissa (digit : Char → Bool) : List Char → List Char → List Char → Prop
  | whole {ds : List Char} : ds ≠ [] → (∀ c ∈ ds, digit c = true) → Mantissa digit ds [] ds
  | pointed {whole part : List Char} : whole ++ part ≠ [] → (∀ c ∈ whole, digit c = true) →
      (∀ c ∈ part, digit c = true) → Mantissa digit whole part (whole ++ '.' :: part)

/-- Nothing, or one of two marks, an optional sign and at least one decimal digit. -/
inductive Exponent (lower upper : Char) : Int → List Char → Prop
  | absent : Exponent lower upper 0 []
  | marked {mark : Char} {negative : Bool} {ds text : List Char} : mark = lower ∨ mark = upper →
      Signed negative ds text → ds ≠ [] → (∀ c ∈ ds, isDigit c = true) →
      Exponent lower upper (if negative then -(naturalOf ds : Int) else naturalOf ds)
        (mark :: text)

/-- A mantissa and an exponent. -/
inductive Body (digit : Char → Bool) (lower upper : Char) (whole part : List Char) (e : Int) :
    List Char → Prop
  | intro {mantissa exponent : List Char} : Mantissa digit whole part mantissa →
      Exponent lower upper e exponent → Body digit lower upper whole part e (mantissa ++ exponent)

abbrev DecimalBody := Body isDigit 'e' 'E'

abbrev HexBody := Body isHexDigit 'p' 'P'

/-- A hexadecimal numeral with its optional sign: its digits before and behind the point, and its
exponent. -/
inductive IsHexadecimal (negative : Bool) (whole part : List Char) (e : Int) : List Char → Prop
  | intro {mark : Char} {body cs : List Char} : mark = 'x' ∨ mark = 'X' →
      HexBody whole part e body → Signed negative ('0' :: mark :: body) cs →
      IsHexadecimal negative whole part e cs

/-- A numeral: an optional sign, and a decimal or a hexadecimal body. -/
inductive IsNumeral (cs : List Char) : Prop
  | decimal {negative : Bool} {whole part : List Char} {e : Int} {body : List Char} :
      DecimalBody whole part e body → Signed negative body cs → IsNumeral cs
  | hexadecimal {negative : Bool} {whole part : List Char} {e : Int} :
      IsHexadecimal negative whole part e cs → IsNumeral cs

/-- A decimal body behind two signs. -/
inductive IsSignedTwice : List Char → Prop
  | intro {a b : Char} {whole part : List Char} {e : Int} {body : List Char} :
      a = '+' ∨ a = '-' → b = '+' ∨ b = '-' → DecimalBody whole part e body →
      IsSignedTwice (a :: b :: body)

def Unsigned (cs : List Char) : Prop := ∀ c ∈ cs.head?, c ≠ '+' ∧ c ≠ '-'

theorem sign_of_unsigned {cs : List Char} (unsigned : Unsigned cs) : sign cs = (false, cs) := by
  unfold sign
  split
  · exact absurd rfl (unsigned '-' rfl).2
  · exact absurd rfl (unsigned '+' rfl).1
  · rfl

theorem Signed.sign_eq {negative : Bool} {body cs : List Char} (signed : Signed negative body cs)
    (unsigned : Unsigned body) : sign cs = (negative, body) := by
  cases signed with
  | bare => exact sign_of_unsigned unsigned
  | plus => rfl
  | minus => rfl

theorem signed_sign (cs : List Char) : Signed (sign cs).1 (sign cs).2 cs := by
  unfold sign
  split
  · exact .minus
  · exact .plus
  · exact .bare

theorem isDigit_plus : isDigit '+' = false := by decide

theorem isDigit_minus : isDigit '-' = false := by decide

theorem unsigned_of_digits {ds : List Char} (all : ∀ c ∈ ds, isDigit c = true) : Unsigned ds := by
  intro c hc
  have digit := all c (List.mem_of_mem_head? hc)
  constructor
  · rintro rfl
    exact absurd digit (by rw [isDigit_plus]; decide)
  · rintro rfl
    exact absurd digit (by rw [isDigit_minus]; decide)

/-- Reading an exponent accepts what looks like one. -/
theorem markedExponent_eq_some_iff {lower upper : Char} {cs : List Char} {e : Int} :
    markedExponent lower upper cs = some e ↔ Exponent lower upper e cs := by
  constructor
  · intro read
    cases cs with
    | nil =>
      obtain rfl := Option.some.inj read
      exact .absent
    | cons mark text =>
      simp only [markedExponent] at read
      split at read
      · rename_i marked
        simp only [exponent] at read
        split at read
        · contradiction
        · rename_i digits
          obtain rfl := Option.some.inj read
          simp only [Bool.or_eq_true, List.isEmpty_iff, Bool.not_eq_true', not_or,
            Bool.not_eq_false, List.all_eq_true] at digits
          exact .marked (by simpa using marked) (signed_sign text) digits.1 digits.2
      · contradiction
  · intro looks
    cases looks with
    | absent => rfl
    | @marked mark negative ds text marked signed nonempty all =>
      have split := signed.sign_eq (unsigned_of_digits all)
      have allDigits : ds.all isDigit = true := List.all_eq_true.2 all
      have present : ds.isEmpty = false := by simpa using nonempty
      simp [markedExponent, marked, exponent, split, allDigits, present]

section Bodies

variable {digit : Char → Bool} {lower upper : Char}

/-- Digits are followed by something that starts with no digit. -/
theorem span_digits {ds rest : List Char} (all : ∀ c ∈ ds, digit c = true)
    (stops : ∀ c ∈ rest.head?, digit c = false) :
    (ds ++ rest).takeWhile digit = ds ∧ (ds ++ rest).dropWhile digit = rest := by
  have stopped : rest.takeWhile digit = [] ∧ rest.dropWhile digit = rest := by
    cases rest with
    | nil => exact ⟨rfl, rfl⟩
    | cons c rest => simp [stops c rfl]
  rw [List.takeWhile_append_of_pos all, List.dropWhile_append_of_pos all, stopped.1, stopped.2,
    List.append_nil]
  exact ⟨rfl, rfl⟩

theorem all_of_mem_takeWhile {cs : List Char} : ∀ c ∈ cs.takeWhile digit, digit c = true :=
  List.all_eq_true.1 List.all_takeWhile

structure Marks (digit : Char → Bool) (lower upper : Char) : Prop where
  point : digit '.' = false
  marks : digit lower = false ∧ digit upper = false
  apart : lower ≠ '.' ∧ upper ≠ '.'

theorem Marks.stops (marks : Marks digit lower upper) {e : Int} {cs : List Char}
    (looks : Exponent lower upper e cs) :
    ∀ c ∈ cs.head?, digit c = false ∧ c ≠ '.' := by
  cases looks with
  | absent => simp
  | marked marked =>
    rintro c ⟨⟩
    obtain rfl | rfl := marked
    · exact ⟨marks.marks.1, marks.apart.1⟩
    · exact ⟨marks.marks.2, marks.apart.2⟩

/-- A body is divided into the parts it was put together from. -/
theorem Body.mantissa_eq (marks : Marks digit lower upper) {whole part : List Char} {e : Int}
    {cs : List Char} (body : Body digit lower upper whole part e cs) :
    ∃ rest, mantissa digit cs = (whole, part, rest) ∧ whole ++ part ≠ [] ∧
      markedExponent lower upper rest = some e := by
  obtain @⟨digits, rest, mantissa, exponent⟩ := body
  have stops := marks.stops exponent
  have read := markedExponent_eq_some_iff.2 exponent
  cases mantissa with
  | whole present all =>
    obtain ⟨taken, left⟩ := span_digits all fun c hc => (stops c hc).1
    refine ⟨rest, ?_, by simpa using present, read⟩
    unfold Numeral.mantissa
    rw [taken, left]
    cases rest with
    | nil => rfl
    | cons c rest =>
      have notPoint : c ≠ '.' := (stops c rfl).2
      split
      · rename_i same
        exact absurd (List.cons.inj same).1 notPoint
      · rfl
  | pointed present all all' =>
    have atPoint : ∀ c ∈ ('.' :: (part ++ rest)).head?, digit c = false := by
      rintro c ⟨⟩
      exact marks.point
    obtain ⟨taken, left⟩ := span_digits all atPoint
    obtain ⟨taken', left'⟩ := span_digits all' fun c hc => (stops c hc).1
    refine ⟨rest, ?_, present, read⟩
    have parts : whole ++ '.' :: part ++ rest = whole ++ '.' :: (part ++ rest) := by simp
    unfold Numeral.mantissa
    rw [parts, taken, left]
    simp only [taken', left']

/-- What is divided into a mantissa and an exponent is a body. -/
theorem body_of_mantissa {whole part rest cs : List Char} {e : Int}
    (divided : mantissa digit cs = (whole, part, rest)) (present : whole ++ part ≠ [])
    (read : markedExponent lower upper rest = some e) :
    Body digit lower upper whole part e cs := by
  have exponent := markedExponent_eq_some_iff.1 read
  have parts := List.takeWhile_append_dropWhile (p := digit) (l := cs)
  unfold mantissa at divided
  dsimp only at divided
  split at divided
  · rename_i behind left
    obtain ⟨rfl, rfl, rfl⟩ : _ ∧ _ ∧ _ := by simpa using divided
    rw [left, ← List.takeWhile_append_dropWhile (p := digit) (l := behind)] at parts
    have text : cs = cs.takeWhile digit ++ '.' :: behind.takeWhile digit ++
        behind.dropWhile digit := by simpa using parts.symm
    rw [text]
    refine .intro ?_ exponent
    have again := Mantissa.pointed present all_of_mem_takeWhile all_of_mem_takeWhile
    rwa [← text]
  · obtain ⟨rfl, rfl, rfl⟩ : _ ∧ _ ∧ _ := by simpa using divided
    have body := Body.intro (.whole (by simpa using present) all_of_mem_takeWhile) exponent
    rwa [parts] at body

theorem Body.unsigned {whole part : List Char} {e : Int} {cs : List Char}
    (plus : digit '+' = false) (minus : digit '-' = false)
    (body : Body digit lower upper whole part e cs) : Unsigned cs := by
  obtain ⟨mantissa, -⟩ := body
  intro c hc
  have first : digit c = true ∨ c = '.' := by
    cases mantissa with
    | whole present all =>
      obtain ⟨d, ds, rfl⟩ := List.exists_cons_of_ne_nil present
      obtain rfl : d = c := by simpa using hc
      exact .inl (all d (.head _))
    | pointed present all all' =>
      cases whole with
      | nil =>
        obtain rfl : '.' = c := by simpa using hc
        exact .inr rfl
      | cons d ds =>
        obtain rfl : d = c := by simpa using hc
        exact .inl (all d (.head _))
  constructor
  · rintro rfl
    simp [plus] at first
  · rintro rfl
    simp [minus] at first

end Bodies

theorem decimal_marks : Marks isDigit 'e' 'E' := ⟨by decide, by decide, by decide⟩

theorem hexadecimal_marks : Marks isHexDigit 'p' 'P' :=
  ⟨by decide, by decide, by decide⟩

/-- The decimal reader accepts a body with an optional sign of its own. -/
theorem decimal_eq_some_iff {cs : List Char} {x : Number} : decimal cs = some x ↔
    ∃ negative body whole part e, Signed negative body cs ∧ DecimalBody whole part e body ∧
      x = ofDecimal negative (naturalOf (whole ++ part)) (e - part.length) := by
  constructor
  · intro read
    obtain ⟨rest, divided⟩ : ∃ rest, mantissa isDigit (sign cs).2 =
        ((mantissa isDigit (sign cs).2).1, (mantissa isDigit (sign cs).2).2.1, rest) := ⟨_, rfl⟩
    simp only [decimal] at read
    split at read
    · contradiction
    · rename_i present
      obtain ⟨e, exponent, result⟩ := Option.bind_eq_some_iff.1 read
      obtain rfl := Option.some.inj result
      refine ⟨_, _, _, _, e, signed_sign cs, body_of_mantissa divided ?_ ?_, rfl⟩
      · simpa using present
      · rwa [divided] at exponent
  · rintro ⟨negative, body, whole, part, e, signed, looks, rfl⟩
    obtain ⟨rest, divided, present, exponent⟩ := looks.mantissa_eq decimal_marks
    have split := signed.sign_eq (looks.unsigned isDigit_plus isDigit_minus)
    have some_ : (whole.isEmpty && part.isEmpty) = false := by simpa using present
    simp only [decimal, split, divided, some_, exponent]
    rfl

/-- The hexadecimal reader accepts a body without a sign. -/
theorem hexadecimal_eq_some_iff {cs : List Char} {x : Number} : hexadecimal cs = some x ↔
    ∃ whole part e, HexBody whole part e cs ∧ x = (gather (whole ++ part)).mul
      (binaryPower (max (-4096) (min 4096 (clampExponent e - 4 * part.length)))) := by
  constructor
  · intro read
    obtain ⟨rest, divided⟩ : ∃ rest, mantissa isHexDigit cs =
        ((mantissa isHexDigit cs).1, (mantissa isHexDigit cs).2.1, rest) := ⟨_, rfl⟩
    simp only [hexadecimal] at read
    split at read
    · contradiction
    · rename_i present
      obtain ⟨e, exponent, result⟩ := Option.bind_eq_some_iff.1 read
      obtain rfl := Option.some.inj result
      refine ⟨_, _, e, body_of_mantissa divided ?_ ?_, rfl⟩
      · simpa using present
      · rwa [divided] at exponent
  · rintro ⟨whole, part, e, looks, rfl⟩
    obtain ⟨rest, divided, present, exponent⟩ := looks.mantissa_eq hexadecimal_marks
    have some_ : (whole.isEmpty && part.isEmpty) = false := by simpa using present
    simp only [hexadecimal, divided, some_, exponent]
    rfl

theorem HexBody.ne_nil {whole part body : List Char} {e : Int}
    (looks : HexBody whole part e body) : body ≠ [] := by
  rintro rfl
  obtain ⟨rest, divided, present, -⟩ := looks.mantissa_eq hexadecimal_marks
  obtain ⟨rfl, rfl, -⟩ : [] = whole ∧ [] = part ∧ [] = rest := by simpa [mantissa] using divided
  exact present rfl

/-- A text that starts like a hexadecimal numeral is no decimal one. -/
theorem decimal_of_marked {mark : Char} (marked : mark = 'x' ∨ mark = 'X') (cs : List Char) :
    decimal ('0' :: mark :: cs) = none := by
  obtain rfl | rfl := marked
  · have divided : mantissa isDigit ('0' :: 'x' :: cs) = (['0'], [], 'x' :: cs) := rfl
    simp [decimal, sign, divided, markedExponent]
  · have divided : mantissa isDigit ('0' :: 'X' :: cs) = (['0'], [], 'X' :: cs) := rfl
    simp [decimal, sign, divided, markedExponent]

/-- A text without its sign is read by the reader that its start asks for. -/
theorem unsigned_eq_some_iff {cs : List Char} {x : Number} : unsigned cs = some x ↔
    (∃ mark body, (mark = 'x' ∨ mark = 'X') ∧ cs = '0' :: mark :: body ∧
      hexadecimal body = some x) ∨ decimal cs = some x := by
  constructor
  · intro read
    unfold unsigned at read
    split at read
    · exact .inl ⟨'x', _, .inl rfl, rfl, read⟩
    · exact .inl ⟨'X', _, .inr rfl, rfl, read⟩
    · exact .inr read
  · rintro (⟨mark, body, marked, rfl, read⟩ | read)
    · obtain ⟨whole, part, e, looks, -⟩ := hexadecimal_eq_some_iff.1 read
      obtain ⟨c, rest, rfl⟩ := List.exists_cons_of_ne_nil looks.ne_nil
      obtain rfl | rfl := marked
      · exact read
      · exact read
    · unfold unsigned
      split
      · rw [decimal_of_marked (.inl rfl)] at read
        contradiction
      · rw [decimal_of_marked (.inr rfl)] at read
        contradiction
      · exact read

/-- Only what a hexadecimal body follows is read as one. -/
theorem unsigned_hexadecimal {mark : Char} (marked : mark = 'x' ∨ mark = 'X') (body : List Char)
    {x : Number} : unsigned ('0' :: mark :: body) = some x ↔ hexadecimal body = some x := by
  rw [unsigned_eq_some_iff, decimal_of_marked marked]
  constructor
  · rintro (⟨_, _, -, same, read⟩ | none)
    · obtain ⟨-, rfl⟩ : mark = _ ∧ body = _ := by simpa using same
      exact read
    · contradiction
  · exact fun read => .inl ⟨mark, body, marked, rfl, read⟩

/-- Signs are followed by what the reader of bodies gets. -/
theorem read_eq_some_iff {text : String} {x : Number} : read text = some x ↔
    ∃ y, unsigned (sign (Text.trim text.toList)).2 = some y ∧
      x = if (sign (Text.trim text.toList)).1 then y.neg else y := by
  simp only [read, Option.map_eq_some_iff]
  exact exists_congr fun y => and_congr_right fun _ => eq_comm

/-- What is left of a text with two signs, without the first of them, still has a sign. -/
theorem IsSignedTwice.not_unsigned {negative : Bool} {body cs : List Char}
    (twice : IsSignedTwice cs) (signed : Signed negative body cs) : ¬ Unsigned body := by
  obtain ⟨first, second, -⟩ := twice
  intro unsigned
  cases signed with
  | bare =>
    obtain rfl | rfl := first
    · exact (unsigned _ rfl).1 rfl
    · exact (unsigned _ rfl).2 rfl
  | plus =>
    obtain rfl | rfl := second
    · exact (unsigned _ rfl).1 rfl
    · exact (unsigned _ rfl).2 rfl
  | minus =>
    obtain rfl | rfl := second
    · exact (unsigned _ rfl).1 rfl
    · exact (unsigned _ rfl).2 rfl

theorem unsigned_zero (cs : List Char) : Unsigned ('0' :: cs) := by
  rintro c ⟨⟩
  decide

/-- A numeral without a second sign is read. -/
theorem IsNumeral.reads {cs : List Char} (numeral : IsNumeral cs) :
    ∃ y, unsigned (sign cs).2 = some y := by
  cases numeral with
  | decimal looks signed =>
    have split := signed.sign_eq (looks.unsigned isDigit_plus isDigit_minus)
    rw [split]
    exact ⟨_, unsigned_eq_some_iff.2 (.inr
      (decimal_eq_some_iff.2 ⟨_, _, _, _, _, .bare, looks, rfl⟩))⟩
  | hexadecimal looks =>
    obtain ⟨marked, looks, signed⟩ := looks
    rw [signed.sign_eq (unsigned_zero _)]
    exact ⟨_, unsigned_eq_some_iff.2 (.inl
      ⟨_, _, marked, rfl, hexadecimal_eq_some_iff.2 ⟨_, _, _, looks, rfl⟩⟩)⟩

/-- So is a decimal one behind two signs: the decimal reader takes the second. -/
theorem IsSignedTwice.reads {cs : List Char} (twice : IsSignedTwice cs) :
    ∃ y, unsigned (sign cs).2 = some y := by
  obtain @⟨a, b, whole, part, e, body, first, second, looks⟩ := twice
  have outer : (sign (a :: b :: body)).2 = b :: body := by
    obtain rfl | rfl := first <;> rfl
  have inner : ∃ negative, Signed negative body (b :: body) := by
    obtain rfl | rfl := second
    · exact ⟨false, .plus⟩
    · exact ⟨true, .minus⟩
  obtain ⟨negative, signed⟩ := inner
  rw [outer]
  exact ⟨_, unsigned_eq_some_iff.2 (.inr
    (decimal_eq_some_iff.2 ⟨_, _, _, _, _, signed, looks, rfl⟩))⟩

/-- Nothing else is read. -/
theorem looks_of_reads {cs : List Char} {y : Number} (reads : unsigned (sign cs).2 = some y) :
    IsNumeral cs ∨ IsSignedTwice cs := by
  have outer := signed_sign cs
  obtain ⟨mark, body, marked, same, read⟩ | read := unsigned_eq_some_iff.1 reads
  · obtain ⟨whole, part, e, looks, -⟩ := hexadecimal_eq_some_iff.1 read
    rw [same] at outer
    exact .inl (.hexadecimal (.intro marked looks outer))
  · obtain ⟨negative, body, whole, part, e, inner, looks, -⟩ := decimal_eq_some_iff.1 read
    generalize (sign cs).2 = behind at outer inner
    -- the second sign is there or not
    cases inner with
    | bare => exact .inl (.decimal looks outer)
    | plus =>
      generalize (sign cs).1 = outerNegative at outer
      cases outer with
      | bare => exact .inl (.decimal looks .plus)
      | plus => exact .inr (.intro (.inl rfl) (.inl rfl) looks)
      | minus => exact .inr (.intro (.inr rfl) (.inl rfl) looks)
    | minus =>
      generalize (sign cs).1 = outerNegative at outer
      cases outer with
      | bare => exact .inl (.decimal looks .minus)
      | plus => exact .inr (.intro (.inl rfl) (.inr rfl) looks)
      | minus => exact .inr (.intro (.inr rfl) (.inr rfl) looks)

/-- What carries two signs is no numeral. -/
theorem IsSignedTwice.not_numeral {cs : List Char} (twice : IsSignedTwice cs) :
    ¬ IsNumeral cs := by
  intro numeral
  cases numeral with
  | decimal looks signed =>
    exact twice.not_unsigned signed (looks.unsigned isDigit_plus isDigit_minus)
  | hexadecimal looks =>
    obtain ⟨-, -, signed⟩ := looks
    exact twice.not_unsigned signed (unsigned_zero _)

/-- **What is read as a number.** Reading accepts the numerals between blanks, and beyond them
exactly the decimal ones that carry two signs. -/
theorem read_isSome_iff (text : String) :
    let cs := Text.trim text.toList
    ((read text).isSome = true ↔ IsNumeral cs ∨ IsSignedTwice cs) ∧
      ¬ (IsNumeral cs ∧ IsSignedTwice cs) := by
  intro cs
  constructor
  · rw [Option.isSome_iff_exists]
    simp only [read_eq_some_iff]
    constructor
    · rintro ⟨_, y, reads, -⟩
      exact looks_of_reads reads
    · rintro (numeral | twice)
      · obtain ⟨y, reads⟩ := numeral.reads
        exact ⟨_, y, reads, rfl⟩
      · obtain ⟨y, reads⟩ := twice.reads
        exact ⟨_, y, reads, rfl⟩
  · exact fun ⟨numeral, twice⟩ => twice.not_numeral numeral

/-- A five behind two minus signs is no numeral, but is read. -/
theorem two_signs_accepted :
    (read "--5").isSome = true ∧ ¬ IsNumeral (Text.trim "--5".toList) := by
  have digit : ∀ c ∈ ['5'], isDigit c = true := List.all_eq_true.1 rfl
  have five : DecimalBody ['5'] [] 0 ['5'] := .intro (.whole (by decide) digit) .absent
  have twice : IsSignedTwice (Text.trim "--5".toList) := .intro (.inr rfl) (.inr rfl) five
  obtain ⟨y, reads⟩ := twice.reads
  exact ⟨Option.isSome_iff_exists.2 ⟨_, read_eq_some_iff.2 ⟨y, reads, rfl⟩⟩, twice.not_numeral⟩

end ScriptMachine.Numeral
