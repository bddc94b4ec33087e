import Mathlib.Data.List.Nodup
import ScriptMachine.Proofs.Number.Integral
import ScriptMachine.Table.Basic

/-!
# What a table holds under a key

`Table.find` is the content of a table by filed key, whether a slot or an entry holds it.

* `get_eq_find`: reading a value that is no tuple is `find` of its key.
* `keySlot_eq_some_iff`: a slot belongs to one key, that of its integer.
* `findEntry_eraseEntry`, `entryValue_writeEntry`, `entryValue_filter`: what each change of the
  entries does to one of them.
* `sameKey_iff`: values are equal, with identity for host objects, exactly when they are filed
  under one key.
-/

namespace ScriptMachine

/-- One value, or two ways to say that there is none. -/
def Value.Matches (a b : Value) : Prop := a = b ∨ a.isNil = true ∧ b.isNil = true

theorem Value.Matches.refl (a : Value) : a.Matches a := .inl rfl

theorem Value.Matches.of_eq {a b : Value} (h : a = b) : a.Matches b := .inl h

theorem Value.Matches.trans {a b c : Value} (h : a.Matches b) (h' : b.Matches c) :
    a.Matches c := by
  rcases h with rfl | ⟨ha, hb⟩
  · exact h'
  · rcases h' with rfl | ⟨_, hc⟩
    · exact .inr ⟨ha, hb⟩
    · exact .inr ⟨ha, hc⟩

theorem Value.Matches.symm {a b : Value} (h : a.Matches b) : b.Matches a := by
  rcases h with rfl | ⟨ha, hb⟩
  · exact .inl rfl
  · exact .inr ⟨hb, ha⟩

theorem Value.Matches.isNil_eq {a b : Value} (h : a.Matches b) : a.isNil = b.isNil := by
  rcases h with rfl | ⟨ha, hb⟩
  · rfl
  · rw [ha, hb]

namespace Value

theorem scalar_eq_self {v : Value} (h : v.kind ≠ .tuple) : v.scalar = v := by
  cases v <;> simp_all [scalar, kind]

theorem kind_scalar (v : Value) : v.scalar.kind ≠ .tuple := by
  fun_induction scalar v with
  | case1 => simp [kind]
  | case2 v rest ih => exact ih
  | case3 v empty nonempty =>
    cases v with
    | tuple items =>
      cases items with
      | nil => exact absurd rfl empty
      | cons v rest => exact absurd rfl (nonempty v rest)
    | _ => simp [kind]

@[simp] theorem scalar_scalar (v : Value) : v.scalar.scalar = v.scalar :=
  scalar_eq_self v.kind_scalar

end Value

namespace Key

/-- The keys that values have. -/
def Proper (k : Key) : Prop := ∃ v, ofScalar v = .ok k

theorem ofNat_eq (n : Nat) : Key.ofNat n = .number (numberBits (.ofNat n)) := rfl

theorem isNaN_ofRatio (negative : Bool) (n d : Nat) :
    (Number.ofRatio negative n d).isNaN = false := by
  have bound := Number.roundRatio_le n d
  have small : Number.infinite < Number.signWeight := by decide
  rw [Number.isNaN, Number.ofRatio, Number.magnitude_ofMagnitude, Nat.mod_eq_of_lt (by omega)]
  simpa using bound

theorem ofScalar_ofNat (n : Nat) : ofScalar (.number (.ofNat n)) = .ok (.ofNat n) := by
  have real : (Number.ofNat n).isNaN = false := isNaN_ofRatio _ _ _
  simp [ofScalar, real, ofNat_eq]

theorem proper_ofNat (n : Nat) : Proper (.ofNat n) := ⟨_, ofScalar_ofNat n⟩

theorem kind_of_ofScalar {v : Value} {k : Key} (h : ofScalar v = .ok k) : v.kind ≠ .tuple := by
  cases v <;> simp_all [ofScalar, Value.kind]

theorem ofValue_eq_ofScalar {v : Value} (h : v.kind ≠ .tuple) : ofValue v = ofScalar v := by
  rw [ofValue, Value.scalar_eq_self h]

/-- A key that is a number is the form of one. -/
theorem Proper.number {bits : UInt64} (h : Proper (.number bits)) :
    ∃ n : Number, n.isNaN = false ∧ bits = numberBits n := by
  obtain ⟨v, hv⟩ := h
  cases v with
  | number n =>
    simp only [ofScalar] at hv
    split at hv
    · cases hv
    · rename_i real
      exact ⟨n, by simpa using real, by simpa using hv.symm⟩
  | _ => simp [ofScalar] at hv

theorem numberBits_idem (n : Number) : numberBits ⟨numberBits n⟩ = numberBits n := by
  simp only [numberBits]
  by_cases zero : n.isZero = true
  · simp only [zero, if_true]
    decide
  · simp [zero]

end Key

namespace Table

/-- The slot of a key, whether the table has so many or not. -/
def keySlot (t : Table) : Key → Option Nat
  | .number bits => t.slotOf ⟨bits⟩
  | _ => none

/-- What the table holds under a key. -/
def find (t : Table) (k : Key) : Value :=
  match (t.keySlot k).filter (· < t.slots.size) with
  | some i => t.slots[i]?.getD .nil
  | none => t.entryValue k

theorem slotOf_numberBits (t : Table) (n : Number) :
    t.slotOf ⟨Key.numberBits n⟩ = t.slotOf n := by
  simp only [slotOf, Number.integer?_eq_of_numberBits (Key.numberBits_idem n)]

theorem slotOfKey_eq_keySlot (t : Table) {v : Value} {k : Key} (h : Key.ofScalar v = .ok k) :
    t.slotOfKey v = t.keySlot k := by
  cases v with
  | number n =>
    simp only [Key.ofScalar] at h
    split at h
    · cases h
    · obtain rfl := Except.ok.inj h
      exact (t.slotOf_numberBits n).symm
  | _ => simp [Key.ofScalar] at h <;> subst h <;> rfl

/-- Reading a value that is no tuple. -/
theorem get_eq_find (t : Table) {v : Value} {k : Key} (h : Key.ofScalar v = .ok k) :
    t.get v = t.find k := by
  have key : Key.ofValue v = .ok k := (Key.ofValue_eq_ofScalar (Key.kind_of_ofScalar h)).trans h
  have own : t.ownSlot v = (t.keySlot k).filter (· < t.slots.size) := by
    rw [ownSlot, t.slotOfKey_eq_keySlot h]
  cases slot : (t.keySlot k).filter (· < t.slots.size) <;> simp only [get, find, own, key, slot]

/-- A value whose scalar is no key has no slot. -/
theorem ownSlot_eq_none (t : Table) {v : Value} {c : Cause} (h : Key.ofScalar v.scalar = .error c) :
    t.ownSlot v = none := by
  cases v with
  | number n =>
    have nan : n.isNaN = true := by
      cases real : n.isNaN with
      | true => rfl
      | false => simp [Key.ofScalar, Value.scalar, real] at h
    have infinite : n.integer? = none := by
      have : n.isFinite = false := by
        simp only [Number.isNaN, Number.isFinite, decide_eq_true_eq, decide_eq_false_iff_not] at *
        omega
      simp [Number.integer?, Number.isIntegral, this]
    simp [ownSlot, slotOfKey, slotOf, infinite]
  | _ => rfl

/-- Values that are no keys read as nil. -/
theorem get_eq_nil (t : Table) {v : Value} {c : Cause} (h : Key.ofScalar v.scalar = .error c) :
    t.get v = .nil := by
  have key : Key.ofValue v = .error c := h
  rw [get, t.ownSlot_eq_none h, key]

theorem slotOf_eq_some_iff (t : Table) {n : Number} {i : Nat} :
    t.slotOf n = some i ↔ n.integer? = some ((i + t.origin : Nat) : Int) ∧
      i + t.origin < Number.signWeight := by
  simp only [slotOf]
  cases h : n.integer? with
  | none => simp
  | some j =>
    simp only [Bool.and_eq_true, decide_eq_true_eq, Option.some.injEq, Number.signWeight]
    split <;> simp only [Option.some.injEq, reduceCtorEq, false_iff] <;> omega

/-- Slots up to `2 ^ 53` belong to one key each. -/
theorem keySlot_eq_some_iff (t : Table) {k : Key} {i : Nat} (proper : k.Proper)
    (small : i + t.origin ≤ 2 ^ 53) : t.keySlot k = some i ↔ k = .ofNat (i + t.origin) := by
  have weight : 2 ^ 53 < Number.signWeight := by decide
  constructor
  · intro h
    cases k with
    | number bits =>
      obtain ⟨n, _, rfl⟩ := proper.number
      rw [keySlot, slotOf_numberBits, slotOf_eq_some_iff] at h
      rw [Key.ofNat_eq, Number.numberBits_eq_of_integer? h.1 (Number.integer?_ofNat small)]
    | _ => simp [keySlot] at h
  · rintro rfl
    rw [Key.ofNat_eq, keySlot, slotOf_numberBits, slotOf_eq_some_iff]
    exact ⟨Number.integer?_ofNat small, by omega⟩

theorem findEntry_eq_none_iff {entries : List Entry} {k : Key} :
    findEntry entries k = none ↔ ∀ e ∈ entries, e.key ≠ k := by
  simp [findEntry]

theorem findEntry_mem {entries : List Entry} {k : Key} {e : Entry}
    (h : findEntry entries k = some e) : e ∈ entries ∧ e.key = k :=
  ⟨List.mem_of_find?_eq_some h, by simpa using List.find?_some h⟩

/-- With distinct keys an entry that was erased is gone, and the others stay. -/
theorem findEntry_eraseEntry {entries : List Entry} (distinct : (entries.map Entry.key).Nodup)
    (k k' : Key) :
    findEntry (eraseEntry entries k) k' = if k' = k then none else findEntry entries k' := by
  induction entries with
  | nil => simp [findEntry, eraseEntry]
  | cons e rest ih =>
    have ih := ih (List.nodup_cons.1 distinct).2
    have fresh : ∀ e' ∈ rest, e'.key ≠ e.key := by
      intro e' mem same
      exact (List.nodup_cons.1 distinct).1 (List.mem_map.2 ⟨e', mem, same⟩)
    simp only [findEntry, eraseEntry, List.eraseP_cons] at ih ⊢
    by_cases here : e.key = k
    · subst here
      simp only [BEq.rfl, cond_true]
      split
      · rename_i same
        subst same
        exact findEntry_eq_none_iff.2 fresh
      · rename_i other
        have : (e.key == k') = false := by simpa using Ne.symm other
        rw [List.find?_cons_of_neg (by simpa using this)]
    · have : (e.key == k) = false := by simpa using here
      rw [this, cond_false]
      by_cases there : e.key = k'
      · subst there
        rw [List.find?_cons_of_pos (by simp), List.find?_cons_of_pos (by simp), if_neg here]
      · rw [List.find?_cons_of_neg (by simpa using there), ih,
          List.find?_cons_of_neg (by simpa using there)]

theorem findEntry_replaceValue (entries : List Entry) (k k' : Key) (v : Value) :
    findEntry (replaceValue entries k v) k' =
      (findEntry entries k').map fun e => if k' = k then { e with value := v } else e := by
  induction entries with
  | nil => rfl
  | cons e rest ih =>
    simp only [findEntry, replaceValue, List.map_cons] at ih ⊢
    by_cases here : e.key = k'
    · subst here
      by_cases same : e.key = k <;> simp [same]
    · by_cases same : e.key = k
      · subst same
        rw [List.find?_cons_of_neg (by simpa using here),
          List.find?_cons_of_neg (by simpa using here), ih]
      · rw [List.find?_cons_of_neg (by simpa [same] using here),
          List.find?_cons_of_neg (by simpa using here), ih]

theorem findEntry_append (entries : List Entry) (e : Entry) (k : Key) :
    findEntry (entries ++ [e]) k =
      (findEntry entries k).or (if e.key = k then some e else none) := by
  simp only [findEntry, List.find?_append]
  congr 1
  by_cases same : e.key = k <;> simp [same]

/-- What a store does to the value of one entry. -/
theorem entryValue_writeEntry (t : Table) (k k' : Key) (name v : Value) :
    (entryValue { t with entries := writeEntry t.entries k name v } k').Matches
      (if k' = k then v else t.entryValue k') := by
  simp only [entryValue, writeEntry]
  cases found : findEntry t.entries k with
  | some e =>
    simp only [findEntry_replaceValue]
    by_cases same : k' = k
    · subst same
      simp [found, Value.Matches.refl]
    · cases other : findEntry t.entries k' <;> simp [same, Value.Matches.refl]
  | none =>
    by_cases empty : v.isNil = true
    · simp only [empty, if_true]
      by_cases same : k' = k
      · subst same
        rw [found, if_pos rfl]
        exact .inr ⟨rfl, empty⟩
      · rw [if_neg same]
        exact .refl _
    · simp only [empty, if_false, Bool.false_eq_true, findEntry_append]
      by_cases same : k' = k
      · subst same
        simp [found, Value.Matches.refl]
      · cases other : findEntry t.entries k' <;>
          simp [same, Ne.symm same, Value.Matches.refl]

/-- Entries without a value can go. -/
theorem entryValue_filter {t : Table} (distinct : (t.entries.map Entry.key).Nodup) (k : Key) :
    (entryValue { t with entries := t.entries.filter fun e => !e.value.isNil } k).Matches
      (t.entryValue k) := by
  simp only [entryValue]
  cases found : findEntry t.entries k with
  | none =>
    have gone : findEntry (t.entries.filter fun e => !e.value.isNil) k = none := by
      apply findEntry_eq_none_iff.2
      intro e mem
      exact findEntry_eq_none_iff.1 found e (List.mem_filter.1 mem).1
    rw [gone]
    exact .refl _
  | some e =>
    obtain ⟨mem, rfl⟩ := findEntry_mem found
    cases other : findEntry (t.entries.filter fun e => !e.value.isNil) e.key with
    | some e' =>
      obtain ⟨mem', same⟩ := findEntry_mem other
      have : e' = e := List.inj_on_of_nodup_map distinct (List.mem_filter.1 mem').1 mem same
      rw [this]
      exact .refl _
    | none =>
      right
      refine ⟨rfl, ?_⟩
      cases empty : e.value.isNil with
      | true => rfl
      | false =>
        exact absurd rfl (findEntry_eq_none_iff.1 other e (List.mem_filter.2 ⟨mem, by simp [empty]⟩))

end Table

/-- Equality before metamethods, with identity for host objects. -/
def Value.sameKey (a b : Value) : Bool := Value.equalsWith (fun u u' => u == u') a b

/-- A progression between numbers. -/
def Range.isReal (r : Range) : Bool := !r.first.isNaN && !r.last.isNaN && !r.step.isNaN

/-- Values are equal exactly when they are filed under one key. A progression that is not between
numbers equals nothing, so the right value must be none. -/
theorem Value.sameKey_iff {a b : Value} {k k' : Key} (ha : Key.ofScalar a = .ok k)
    (hb : Key.ofScalar b = .ok k') (real : ∀ r, b = .range r → r.isReal = true) :
    a.sameKey b = true ↔ k = k' := by
  cases b with
  | number y =>
    have realY : y.isNaN = false := by
      cases h : y.isNaN with
      | false => rfl
      | true => simp [Key.ofScalar, h] at hb
    obtain rfl : Key.number (Key.numberBits y) = k' := by simpa [Key.ofScalar, realY] using hb
    cases a with
    | number x =>
      have realX : x.isNaN = false := by
        cases h : x.isNaN with
        | false => rfl
        | true => simp [Key.ofScalar, h] at ha
      obtain rfl : Key.number (Key.numberBits x) = k := by simpa [Key.ofScalar, realX] using ha
      rw [sameKey, equalsWith, Number.equals_iff_of_real realY, Key.number.injEq]
    | _ => simp [Key.ofScalar, sameKey, equalsWith] at ha ⊢ <;> subst ha <;> simp
  | range y =>
    have realY : y.isReal = true := real y rfl
    simp only [Range.isReal, Bool.and_eq_true, Bool.not_eq_true'] at realY
    obtain rfl := Except.ok.inj hb
    cases a with
    | range x =>
      obtain rfl := Except.ok.inj ha
      simp only [sameKey, equalsWith, Range.equals, Bool.and_eq_true,
        Number.equals_iff_of_real realY.1.1, Number.equals_iff_of_real realY.1.2,
        Number.equals_iff_of_real realY.2, Key.range.injEq, and_assoc]
    | number x =>
      simp only [Key.ofScalar] at ha
      split at ha
      · cases ha
      · obtain rfl := Except.ok.inj ha
        simp [sameKey, equalsWith]
    | _ => simp [Key.ofScalar, sameKey, equalsWith] at ha ⊢ <;> subst ha <;> simp
  | _ =>
    cases a <;> simp [Key.ofScalar, sameKey, equalsWith] at ha hb ⊢ <;> grind

end ScriptMachine
