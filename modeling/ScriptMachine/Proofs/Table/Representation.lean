import ScriptMachine.Proofs.Table.Lookup

/-!
# The representation of tables

`WellFormed` is what every operation keeps of a table's slots and entries. Under it a store
changes what the table holds under one key only:

* `find_pushSlot`, `find_grow`: slots that are added change nothing, although entries move into
  them;
* `find_store`: a store, wherever it goes;
* `find_erase`: what is left when a key is taken out.
-/

namespace ScriptMachine.Table

/-- What also holds while slots are being added. -/
structure Sound (t : Table) : Prop where
  origin_le : t.origin ≤ 1
  distinct : (t.entries.map Entry.key).Nodup
  named : ∀ e ∈ t.entries, Key.ofScalar e.name = .ok e.key
  /-- No entry has a key that a slot has. -/
  outside : ∀ e ∈ t.entries, ∀ i < t.slots.size, e.key ≠ .ofNat (i + t.origin)
  flagged : ∀ e ∈ t.entries, e.value.isNil = true → t.mayHoldTombstones = true

/-- A table as every operation leaves it. -/
structure WellFormed (t : Table) : Prop extends Sound t where
  /-- The key behind the last slot has no entry. -/
  settled : findEntry t.entries t.nextKey = none
  cached : ∀ n, t.knownLength = some n → t.measure = n

/-- Integers beyond this many slots are no longer told apart. -/
def maxSlots : Nat := 2 ^ 53

theorem withOrigin_wellFormed (origin : Nat) : (withOrigin origin).WellFormed where
  origin_le := Nat.min_le_right _ _
  distinct := List.nodup_nil
  named := by simp [withOrigin]
  outside := by simp [withOrigin]
  flagged := by simp [withOrigin]
  settled := rfl
  cached := by
    intro n h
    obtain rfl : 0 = n := Option.some.inj h
    rfl

/-- The number of values in the slots before the first that has none. -/
def slotRun (t : Table) : Nat := (t.slots.toList.takeWhile fun v => !v.isNil).length

theorem slotRun_le (t : Table) : t.slotRun ≤ t.slots.size := by
  have := (List.takeWhile_prefix (l := t.slots.toList) fun v => !v.isNil).length_le
  simpa [slotRun] using this

/-- The entries never prolong the run of the slots. -/
theorem measure_eq_slotRun {t : Table} (settled : findEntry t.entries t.nextKey = none) :
    t.measure = t.slotRun := by
  simp only [measure]
  split
  · rename_i full
    have start : t.slotRun + t.origin = t.slots.size + t.origin := by rw [slotRun, full]
    have none : findEntry t.entries (.ofNat (t.slotRun + t.origin)) = none := by
      rw [start]
      exact settled
    have stop : ∀ fuel, runLength t.entries (t.slotRun + t.origin) fuel = 0 := by
      intro fuel
      cases fuel with
      | zero => rfl
      | succ fuel => simp [runLength, none]
    exact (congrArg (t.slotRun + ·) (stop _)).trans (Nat.add_zero _)
  · rfl

theorem length_le {t : Table} (wf : t.WellFormed) : t.length ≤ t.slots.size := by
  have run : t.measure ≤ t.slots.size := measure_eq_slotRun wf.settled ▸ t.slotRun_le
  cases known : t.knownLength with
  | none => simpa [length, known] using run
  | some n =>
    have := wf.cached n known
    simp only [length, known, Option.getD_some]
    omega

/-- Which slot a key has depends on the origin only. -/
theorem keySlot_congr {t t' : Table} (same : t.origin = t'.origin) (k : Key) :
    t.keySlot k = t'.keySlot k := by
  cases k with
  | number bits => simp [keySlot, slotOf, same]
  | _ => rfl

@[simp] theorem size_setSlot (t : Table) (i : Nat) (v : Value) :
    (t.setSlot i v).slots.size = t.slots.size := by simp [setSlot]

@[simp] theorem keySlot_setSlot (t : Table) (i : Nat) (v : Value) (k : Key) :
    (t.setSlot i v).keySlot k = t.keySlot k := keySlot_congr rfl k

theorem Sound.setSlot {t : Table} (sound : t.Sound) (i : Nat) (v : Value) :
    (t.setSlot i v).Sound where
  origin_le := sound.origin_le
  distinct := sound.distinct
  named := sound.named
  outside := by simpa [Table.setSlot] using sound.outside
  flagged := sound.flagged

theorem nextKey_setSlot (t : Table) (i : Nat) (v : Value) : (t.setSlot i v).nextKey = t.nextKey := by
  simp [setSlot, nextKey]

theorem WellFormed.setSlot {t : Table} (wf : t.WellFormed) (i : Nat) (v : Value) :
    (t.setSlot i v).WellFormed where
  toSound := wf.toSound.setSlot i v
  settled := by
    rw [nextKey_setSlot]
    exact wf.settled
  cached := by simp [Table.setSlot]

/-- A key that has a slot finds it. -/
theorem find_eq_slot {t : Table} {k : Key} {i : Nat} (slot : t.keySlot k = some i)
    (inside : i < t.slots.size) : t.find k = t.slots[i]?.getD .nil := by
  simp [find, slot, Option.filter, inside]

/-- A key that has no slot finds its entry. -/
theorem find_eq_entry {t : Table} {k : Key} (h : ∀ i, t.keySlot k = some i → t.slots.size ≤ i) :
    t.find k = t.entryValue k := by
  cases slot : t.keySlot k with
  | none => simp [find, slot]
  | some i =>
    have := h i slot
    simp [find, slot, Option.filter, Nat.not_lt.2 this]

theorem find_setSlot {t : Table} {k : Key} {i : Nat} (v : Value) (proper : k.Proper)
    (inside : i < t.slots.size) (small : i + t.origin ≤ maxSlots) :
    (t.setSlot i v).find k = if k = .ofNat (i + t.origin) then v else t.find k := by
  split
  · rename_i here
    have slot := (t.keySlot_eq_some_iff proper small).2 here
    rw [find_eq_slot (i := i) (by simpa using slot) (by simpa using inside)]
    simp [setSlot, inside]
  · rename_i elsewhere
    have other : t.keySlot k ≠ some i := fun h =>
      elsewhere ((t.keySlot_eq_some_iff proper small).1 h)
    cases slot : t.keySlot k with
    | none =>
      rw [find_eq_entry (by simp [slot]), find_eq_entry (by simp [slot])]
      rfl
    | some j =>
      by_cases within : j < t.slots.size
      · rw [find_eq_slot (i := j) (by simpa using slot) (by simpa using within),
          find_eq_slot slot within]
        have : i ≠ j := fun h => other (h ▸ slot)
        simp [setSlot, Array.getElem?_setIfInBounds_ne this]
      · rw [find_eq_entry (by simp [slot]; omega), find_eq_entry (by simp [slot]; omega)]
        rfl

@[simp] theorem size_pushSlot (t : Table) : t.pushSlot.slots.size = t.slots.size + 1 := by
  simp [pushSlot]

@[simp] theorem keySlot_pushSlot (t : Table) (k : Key) : t.pushSlot.keySlot k = t.keySlot k :=
  keySlot_congr rfl k

theorem mem_eraseEntry {entries : List Entry} (distinct : (entries.map Entry.key).Nodup) {k : Key}
    {e : Entry} (mem : e ∈ eraseEntry entries k) : e ∈ entries ∧ e.key ≠ k := by
  refine ⟨List.mem_of_mem_eraseP mem, ?_⟩
  intro same
  have gone := findEntry_eraseEntry distinct k k
  rw [if_pos rfl] at gone
  exact findEntry_eq_none_iff.1 gone e mem same

theorem Sound.pushSlot {t : Table} (sound : t.Sound) : t.pushSlot.Sound where
  origin_le := sound.origin_le
  distinct := sound.distinct.sublist (List.eraseP_sublist.map _)
  named := fun e mem => sound.named e (mem_eraseEntry sound.distinct mem).1
  outside := by
    intro e mem i inside
    obtain ⟨mem, other⟩ := mem_eraseEntry sound.distinct mem
    rw [size_pushSlot] at inside
    by_cases last : i = t.slots.size
    · exact last ▸ other
    · exact sound.outside e mem i (by omega)
  flagged := fun e mem => sound.flagged e (mem_eraseEntry sound.distinct mem).1

/-- A slot is added with what the table already holds under its key. -/
theorem find_pushSlot {t : Table} (sound : t.Sound) {k : Key} (proper : k.Proper)
    (small : t.slots.size < maxSlots) : t.pushSlot.find k = t.find k := by
  have bound : t.slots.size + t.origin ≤ maxSlots := by
    have := sound.origin_le
    omega
  have next := t.keySlot_eq_some_iff proper bound
  have entry (other : k ≠ t.nextKey) : t.pushSlot.entryValue k = t.entryValue k := by
    simp only [entryValue, pushSlot, findEntry_eraseEntry sound.distinct, if_neg other]
  cases slot : t.keySlot k with
  | none =>
    rw [find_eq_entry (by simp [slot]), find_eq_entry (by simp [slot])]
    exact entry fun h => by simp [next.2 h] at slot
  | some i =>
    rcases Nat.lt_trichotomy i t.slots.size with before | here | behind
    · rw [find_eq_slot (i := i) (by simpa using slot) (by simp; omega), find_eq_slot slot before]
      simp [pushSlot, Array.getElem?_push, Nat.ne_of_lt before]
    · subst here
      obtain rfl : k = t.nextKey := next.1 slot
      rw [find_eq_slot (i := t.slots.size) (by simpa using slot) (by simp),
        find_eq_entry (by simp [slot])]
      simp [pushSlot]
    · rw [find_eq_entry (by simp [slot]; omega), find_eq_entry (by simp [slot]; omega)]
      refine entry fun h => ?_
      have := Option.some.inj ((next.2 h).symm.trans slot)
      omega

theorem Sound.pushSlots {t : Table} (sound : t.Sound) (count : Nat) : (t.pushSlots count).Sound := by
  induction count generalizing t with
  | zero => exact sound
  | succ count ih => exact ih sound.pushSlot

theorem size_pushSlots (t : Table) (count : Nat) :
    (t.pushSlots count).slots.size = t.slots.size + count := by
  induction count generalizing t with
  | zero => rfl
  | succ count ih =>
    rw [pushSlots, ih, size_pushSlot]
    omega

theorem find_pushSlots {t : Table} (sound : t.Sound) {k : Key} (proper : k.Proper) (count : Nat)
    (small : (t.pushSlots count).slots.size ≤ maxSlots) : (t.pushSlots count).find k = t.find k := by
  induction count generalizing t with
  | zero => rfl
  | succ count ih =>
    have fits : t.slots.size < maxSlots := by
      rw [size_pushSlots] at small
      omega
    exact (ih sound.pushSlot small).trans (find_pushSlot sound proper fits)

theorem Sound.absorb {t : Table} (sound : t.Sound) (fuel : Nat) : (t.absorb fuel).Sound := by
  induction fuel generalizing t with
  | zero => exact sound
  | succ fuel ih =>
    rw [Table.absorb]
    split
    · exact ih sound.pushSlot
    · exact sound

theorem size_le_absorb (t : Table) (fuel : Nat) : t.slots.size ≤ (t.absorb fuel).slots.size := by
  induction fuel generalizing t with
  | zero => exact Nat.le_refl _
  | succ fuel ih =>
    rw [absorb]
    split
    · have := ih t.pushSlot
      rw [size_pushSlot] at this
      omega
    · exact Nat.le_refl _

theorem find_absorb {t : Table} (sound : t.Sound) {k : Key} (proper : k.Proper) (fuel : Nat)
    (small : (t.absorb fuel).slots.size ≤ maxSlots) : (t.absorb fuel).find k = t.find k := by
  induction fuel generalizing t with
  | zero => rfl
  | succ fuel ih =>
    rw [absorb] at small ⊢
    split at small
    · rename_i more
      have grows := size_le_absorb t.pushSlot fuel
      rw [size_pushSlot] at grows
      rw [if_pos more, ih sound.pushSlot small, find_pushSlot sound proper (by omega)]
    · rename_i done
      rw [if_neg done]

/-- Each step takes an entry, so with a step for every entry nothing is left to absorb. -/
theorem findEntry_absorb (t : Table) (fuel : Nat) (enough : t.entries.length ≤ fuel) :
    findEntry (t.absorb fuel).entries (t.absorb fuel).nextKey = none := by
  induction fuel generalizing t with
  | zero =>
    have : t.entries = [] := List.eq_nil_of_length_eq_zero (by omega)
    simp [absorb, this, findEntry]
  | succ fuel ih =>
    rw [absorb]
    split
    · rename_i more
      apply ih
      obtain ⟨e, found⟩ := Option.isSome_iff_exists.1 more
      obtain ⟨mem, key⟩ := findEntry_mem found
      have : (eraseEntry t.entries t.nextKey).length = t.entries.length - 1 :=
        List.length_eraseP_of_mem mem (by simp [key])
      simp only [pushSlot, this]
      omega
    · rename_i done
      simpa using done

/-- Adding slots keeps a table well-formed, once its length is unknown. -/
theorem grow_wellFormed {t : Table} (sound : t.Sound) (size : Nat) : (t.grow size).WellFormed where
  toSound :=
    let inner := (sound.pushSlots (size - t.slots.size)).absorb _
    { origin_le := inner.origin_le, distinct := inner.distinct, named := inner.named,
      outside := inner.outside, flagged := inner.flagged }
  settled := findEntry_absorb _ _ (Nat.le_refl _)
  cached := by simp [grow]

theorem le_size_grow (t : Table) (size : Nat) : size ≤ (t.grow size).slots.size := by
  have := size_le_absorb (t.pushSlots (size - t.slots.size))
    (t.pushSlots (size - t.slots.size)).entries.length
  rw [size_pushSlots] at this
  simp only [grow]
  omega

/-- Growth changes nothing that the table holds. -/
theorem find_grow {t : Table} (sound : t.Sound) {k : Key} (proper : k.Proper) (size : Nat)
    (small : (t.grow size).slots.size ≤ maxSlots) : (t.grow size).find k = t.find k := by
  have grows := size_le_absorb (t.pushSlots (size - t.slots.size))
    (t.pushSlots (size - t.slots.size)).entries.length
  have absorbed := find_absorb (sound.pushSlots (size - t.slots.size)) proper _ small
  have pushed := find_pushSlots sound proper (size - t.slots.size) (Nat.le_trans grows small)
  exact absorbed.trans pushed

theorem origin_pushSlots (t : Table) (count : Nat) : (t.pushSlots count).origin = t.origin := by
  induction count generalizing t with
  | zero => rfl
  | succ count ih => exact ih t.pushSlot

theorem origin_absorb (t : Table) (fuel : Nat) : (t.absorb fuel).origin = t.origin := by
  induction fuel generalizing t with
  | zero => rfl
  | succ fuel ih =>
    rw [absorb]
    split
    · exact ih t.pushSlot
    · rfl

theorem origin_grow (t : Table) (size : Nat) : (t.grow size).origin = t.origin :=
  (origin_absorb _ _).trans (origin_pushSlots _ _)

/-- A table with other entries is well-formed if they are, since the length never counts them. -/
theorem WellFormed.withEntries {t : Table} (wf : t.WellFormed) {entries : List Entry} {flag : Bool}
    (distinct : (entries.map Entry.key).Nodup)
    (named : ∀ e ∈ entries, Key.ofScalar e.name = .ok e.key)
    (outside : ∀ e ∈ entries, ∀ i ≤ t.slots.size, e.key ≠ .ofNat (i + t.origin))
    (flagged : ∀ e ∈ entries, e.value.isNil = true → flag = true) :
    WellFormed { t with entries := entries, mayHoldTombstones := flag } where
  origin_le := wf.origin_le
  distinct := distinct
  named := named
  outside := fun e mem i inside => outside e mem i (Nat.le_of_lt inside)
  flagged := flagged
  settled := findEntry_eq_none_iff.2 fun e mem => outside e mem _ (Nat.le_refl _)
  cached := by
    intro n known
    have before := wf.cached n known
    rw [measure_eq_slotRun wf.settled] at before
    rw [measure_eq_slotRun]
    · exact before
    · exact findEntry_eq_none_iff.2 fun e mem => outside e mem _ (Nat.le_refl _)

/-- No entry has the key of a slot or of the one behind them. -/
theorem WellFormed.beyond {t : Table} (wf : t.WellFormed) :
    ∀ e ∈ t.entries, ∀ i ≤ t.slots.size, e.key ≠ .ofNat (i + t.origin) := by
  intro e mem i bound
  rcases Nat.lt_or_eq_of_le bound with inside | rfl
  · exact wf.outside e mem i inside
  · exact findEntry_eq_none_iff.1 wf.settled e mem

theorem WellFormed.forgetLength {t : Table} (wf : t.WellFormed) :
    WellFormed { t with knownLength := none } where
  origin_le := wf.origin_le
  distinct := wf.distinct
  named := wf.named
  outside := wf.outside
  flagged := wf.flagged
  settled := wf.settled
  cached := by simp

theorem WellFormed.withCursor {t : Table} (wf : t.WellFormed) (cursor : Nat) :
    WellFormed { t with cursor := cursor } where
  origin_le := wf.origin_le
  distinct := wf.distinct
  named := wf.named
  outside := wf.outside
  flagged := wf.flagged
  settled := wf.settled
  cached := wf.cached

theorem WellFormed.withKnownLength {t : Table} (wf : t.WellFormed) :
    t.withKnownLength.WellFormed where
  origin_le := wf.origin_le
  distinct := wf.distinct
  named := wf.named
  outside := wf.outside
  flagged := wf.flagged
  settled := wf.settled
  cached := by
    intro n known
    obtain rfl : t.length = n := Option.some.inj known
    cases kept : t.knownLength with
    | none =>
      rw [Table.length, kept]
      rfl
    | some m =>
      rw [Table.length, kept]
      exact wf.cached m kept

theorem map_key_replaceValue (entries : List Entry) (k : Key) (v : Value) :
    (replaceValue entries k v).map Entry.key = entries.map Entry.key := by
  simp only [replaceValue, List.map_map]
  apply List.map_congr_left
  intro e _
  simp only [Function.comp]
  split <;> rfl

theorem mem_replaceValue {entries : List Entry} {k : Key} {v : Value} {e : Entry}
    (mem : e ∈ replaceValue entries k v) :
    ∃ e' ∈ entries, e.key = e'.key ∧ e.name = e'.name ∧ (e.value = v ∨ e.value = e'.value) := by
  obtain ⟨e', mem', rfl⟩ := List.mem_map.1 mem
  refine ⟨e', mem', ?_⟩
  split
  · exact ⟨rfl, rfl, .inl rfl⟩
  · exact ⟨rfl, rfl, .inr rfl⟩

/-- What is in the entries after a store. -/
theorem mem_writeEntry {entries : List Entry} {k : Key} {name v : Value} {e : Entry}
    (mem : e ∈ writeEntry entries k name v) :
    (e.key = k ∧ e.name = name ∧ e.value = v) ∨
      ∃ e' ∈ entries, e.key = e'.key ∧ e.name = e'.name ∧ (e.value = v ∨ e.value = e'.value) := by
  simp only [writeEntry] at mem
  split at mem
  · exact .inr (mem_replaceValue mem)
  · split at mem
    · exact .inr ⟨e, mem, rfl, rfl, .inr rfl⟩
    · rcases List.mem_append.1 mem with old | new
      · exact .inr ⟨e, old, rfl, rfl, .inr rfl⟩
      · obtain rfl := List.mem_singleton.1 new
        exact .inl ⟨rfl, rfl, rfl⟩

theorem nodup_writeEntry {entries : List Entry} (distinct : (entries.map Entry.key).Nodup) (k : Key)
    (name v : Value) : ((writeEntry entries k name v).map Entry.key).Nodup := by
  simp only [writeEntry]
  split
  · rw [map_key_replaceValue]
    exact distinct
  · rename_i absent
    split
    · exact distinct
    · rw [List.map_append, List.nodup_append]
      refine ⟨distinct, by simp, ?_⟩
      intro a old b new
      obtain ⟨e, mem, rfl⟩ := List.mem_map.1 old
      obtain rfl : b = k := by simpa using new
      exact findEntry_eq_none_iff.1 absent e mem

theorem sweep_wellFormed {t : Table} (wf : t.WellFormed) : t.sweep.WellFormed := by
  apply wf.withEntries
  · exact wf.distinct.sublist (List.filter_sublist.map _)
  · exact fun e mem => wf.named e (List.mem_filter.1 mem).1
  · exact fun e mem => wf.beyond e (List.mem_filter.1 mem).1
  · intro e mem empty
    simpa [empty] using (List.mem_filter.1 mem).2

theorem isNil_entryValue (t : Table) (k : Key) : (t.entryValue k).isNil =
    match findEntry t.entries k with
      | some e => e.value.isNil
      | none => true := by
  rw [entryValue]
  cases findEntry t.entries k <;> rfl

/-- The entries with a store made: swept where a value comes under a key that had none, if the flag
says that there may be tombstones. -/
def rewritten (t : Table) (k : Key) (name v : Value) : Table :=
  if t.mayHoldTombstones && !v.isNil && (t.entryValue k).isNil then
    sweep { t with entries := writeEntry t.entries k name v }
  else if v.isNil then
    { t with entries := writeEntry t.entries k name v, mayHoldTombstones := true }
  else { t with entries := writeEntry t.entries k name v }

theorem knownLength_rewritten (t : Table) (k : Key) (name v : Value) :
    (t.rewritten k name v).knownLength = t.knownLength := by
  rw [rewritten]
  split
  · rfl
  · split <;> rfl

/-- A store into the entries that has something to do; the length may change if its key is a number. -/
theorem setEntry_eq {t : Table} {k : Key} {v : Value}
    (needed : ¬ ((findEntry t.entries k).isNone && v.isNil) = true) (name : Value) :
    ∃ known, (known = t.knownLength ∨ known = none) ∧
      t.setEntry k name v = { t.rewritten k name v with knownLength := known } := by
  have kept := t.knownLength_rewritten k name v
  cases name with
  | number n =>
    refine ⟨none, .inr rfl, ?_⟩
    rw [rewritten, isNil_entryValue, setEntry]
    exact if_neg needed
  | _ =>
    refine ⟨_, .inl kept, ?_⟩
    rw [rewritten, isNil_entryValue, setEntry]
    exact if_neg needed

/-- What a store into the entries can do: nothing, or write them and perhaps sweep them. -/
theorem setEntry_cases (t : Table) (k : Key) (name v : Value) :
    (t.setEntry k name v = t ∧ findEntry t.entries k = none ∧ v.isNil = true) ∨
    ∃ entries flag known, t.setEntry k name v =
        { t with entries := entries, mayHoldTombstones := flag, knownLength := known } ∧
      (known = t.knownLength ∨ known = none) ∧
      ((findEntry t.entries k).isSome = true ∨ v.isNil = false) ∧
      (entries = (writeEntry t.entries k name v).filter (fun e => !e.value.isNil) ∨
        entries = writeEntry t.entries k name v ∧
          flag = if v.isNil then true else t.mayHoldTombstones) := by
  by_cases idle : ((findEntry t.entries k).isNone && v.isNil) = true
  · have parts : findEntry t.entries k = none ∧ v.isNil = true := by simpa using idle
    exact .inl ⟨by rw [setEntry, if_pos idle], parts⟩
  · have needed : (findEntry t.entries k).isSome = true ∨ v.isNil = false := by
      cases found : findEntry t.entries k <;> simp [found] at idle ⊢
      exact idle
    obtain ⟨known, length, stored⟩ := setEntry_eq idle name
    right
    rw [stored, rewritten]
    split
    · exact ⟨_, _, known, rfl, length, needed, .inl rfl⟩
    · split <;> exact ⟨_, _, known, rfl, length, needed, .inr ⟨rfl, rfl⟩⟩

theorem slots_setEntry (t : Table) (k : Key) (name v : Value) :
    (t.setEntry k name v).slots = t.slots := by
  rcases t.setEntry_cases k name v with ⟨same, _⟩ | ⟨_, _, _, same, _⟩ <;> rw [same]

theorem origin_setEntry (t : Table) (k : Key) (name v : Value) :
    (t.setEntry k name v).origin = t.origin := by
  rcases t.setEntry_cases k name v with ⟨same, _⟩ | ⟨_, _, _, same, _⟩ <;> rw [same]

/-- A store into the entries keeps a table well-formed, if the key is none of the slots' or nothing
is stored. -/
theorem setEntry_wellFormed {t : Table} (wf : t.WellFormed) {k : Key} {name v : Value}
    (key : Key.ofScalar name = .ok k)
    (apart : v.isNil = false → ∀ i ≤ t.slots.size, k ≠ .ofNat (i + t.origin)) :
    (t.setEntry k name v).WellFormed := by
  rcases t.setEntry_cases k name v with ⟨same, _⟩ | ⟨entries, flag, known, same, forgets, needed, how⟩
  · rw [same]
    exact wf
  have named : ∀ e ∈ writeEntry t.entries k name v, Key.ofScalar e.name = .ok e.key := by
    intro e mem
    rcases mem_writeEntry mem with ⟨rfl, rfl, _⟩ | ⟨e', mem', hk, hn, _⟩
    · exact key
    · rw [hk, hn]
      exact wf.named e' mem'
  have outside : ∀ e ∈ writeEntry t.entries k name v, ∀ i ≤ t.slots.size,
      e.key ≠ .ofNat (i + t.origin) := by
    intro e mem i bound
    rcases mem_writeEntry mem with ⟨rfl, _, rfl⟩ | ⟨e', mem', hk, _⟩
    · -- the entry of the key itself: either it was there, or a value was stored
      cases present : findEntry t.entries e.key with
      | some e' =>
        obtain ⟨mem', same⟩ := findEntry_mem present
        rw [← same]
        exact wf.beyond e' mem' i bound
      | none => exact apart (by simpa [present] using needed) i bound
    · rw [hk]
      exact wf.beyond e' mem' i bound
  have written : WellFormed { t with entries := entries, mayHoldTombstones := flag } := by
    rcases how with rfl | ⟨rfl, rfl⟩
    · apply wf.withEntries
      · exact (nodup_writeEntry wf.distinct k name v).sublist (List.filter_sublist.map _)
      · exact fun e mem => named e (List.mem_filter.1 mem).1
      · exact fun e mem => outside e (List.mem_filter.1 mem).1
      · intro e mem empty
        simp [empty] at mem
    · apply wf.withEntries (nodup_writeEntry wf.distinct k name v) named outside
      intro e mem empty
      cases nil : v.isNil with
      | true => rfl
      | false =>
        rcases mem_writeEntry mem with ⟨_, _, rfl⟩ | ⟨e', mem', _, _, rfl | old⟩
        · exact absurd empty (by simp [nil])
        · exact absurd empty (by simp [nil])
        · exact wf.flagged e' mem' (old ▸ empty)
  rw [same]
  rcases forgets with rfl | rfl
  · exact written
  · exact written.forgetLength

theorem entryValue_setEntry {t : Table} (wf : t.WellFormed) (k k' : Key) (name v : Value) :
    ((t.setEntry k name v).entryValue k').Matches (if k' = k then v else t.entryValue k') := by
  rcases t.setEntry_cases k name v with ⟨same, absent, empty⟩ | ⟨entries, flag, known, same, _, _, how⟩
  · rw [same]
    split
    · rename_i here
      subst here
      exact .inr ⟨by simp [entryValue, absent, Value.isNil], empty⟩
    · exact .refl _
  · have stored := entryValue_writeEntry t k k' name v
    rw [same]
    rcases how with rfl | ⟨rfl, _⟩
    · exact (entryValue_filter (t := { t with entries := writeEntry t.entries k name v })
        (nodup_writeEntry wf.distinct k name v) k').trans stored
    · exact stored

/-- Of tables with the same slots: a key has one of them, or both tables look for an entry. -/
theorem find_of_slots {t u : Table} (slots : u.slots = t.slots) (origin : u.origin = t.origin)
    (k : Key) :
    (∃ i, t.keySlot k = some i ∧ i < t.slots.size) ∧ u.find k = t.find k ∨
    (∀ i, t.keySlot k = some i → t.slots.size ≤ i) ∧ u.find k = u.entryValue k ∧
      t.find k = t.entryValue k := by
  have slot := keySlot_congr origin k
  by_cases taken : ∃ i, t.keySlot k = some i ∧ i < t.slots.size
  · left
    obtain ⟨i, own, inside⟩ := taken
    refine ⟨⟨i, own, inside⟩, ?_⟩
    rw [find_eq_slot (slot.trans own) (slots ▸ inside), find_eq_slot own inside, slots]
  · right
    have free : ∀ i, t.keySlot k = some i → t.slots.size ≤ i := fun i own =>
      Nat.not_lt.1 fun inside => taken ⟨i, own, inside⟩
    refine ⟨free, find_eq_entry ?_, find_eq_entry free⟩
    rw [slot, slots]
    exact free

/-- A store into the entries changes one key, if that has no slot. -/
theorem find_setEntry {t : Table} (wf : t.WellFormed) {k : Key} (name v : Value)
    (free : ∀ i, t.keySlot k = some i → t.slots.size ≤ i) (k' : Key) :
    ((t.setEntry k name v).find k').Matches (if k' = k then v else t.find k') := by
  rcases find_of_slots (t.slots_setEntry k name v) (t.origin_setEntry k name v) k' with
    ⟨⟨i, own, inside⟩, same⟩ | ⟨_, left, right⟩
  · have other : k' ≠ k := by
      rintro rfl
      exact absurd inside (Nat.not_lt.2 (free i own))
    rw [if_neg other, same]
    exact .refl _
  · rw [left, right]
    exact entryValue_setEntry wf k k' name v

/-- Erasing a key that a slot has does nothing. -/
theorem eraseEntry_of_slot {t : Table} (sound : t.Sound) {i : Nat} (inside : i < t.slots.size) :
    eraseEntry t.entries (.ofNat (i + t.origin)) = t.entries := by
  apply List.eraseP_of_forall_not
  intro e mem
  simpa using sound.outside e mem i inside

/-- What a store can do: write a slot, grow and write the slot, or write an entry of a key that has
none. -/
theorem store_cases {t : Table} (wf : t.WellFormed) {k : Key} {name : Value} (v : Value)
    (key : Key.ofScalar name = .ok k) (small : (t.store k name v).slots.size < maxSlots) :
    (∃ i, k = .ofNat (i + t.origin) ∧ i < t.slots.size ∧ t.store k name v = t.setSlot i v) ∨
    (∃ i, k = .ofNat (i + t.origin) ∧ i < (t.grow (i + 1)).slots.size ∧
      t.store k name v = (t.grow (i + 1)).setSlot i v) ∨
    ((∀ i, t.keySlot k = some i → t.slots.size ≤ i) ∧
      (v.isNil = false → ∀ i ≤ t.slots.size, k ≠ .ofNat (i + t.origin)) ∧
      t.store k name v = t.setEntry k name v) := by
  have proper : k.Proper := ⟨name, key⟩
  have origin := wf.origin_le
  have slot := t.slotOfKey_eq_keySlot key
  simp only [store, slot] at small ⊢
  cases own : t.keySlot k with
  | none =>
    right; right
    simp only [own, slots_setEntry] at small
    refine ⟨by simp, fun _ i bound here => ?_, rfl⟩
    have := (t.keySlot_eq_some_iff proper (i := i) (by simp only [maxSlots] at small; omega)).2 here
    simp [own] at this
  | some i =>
    simp only [own] at small
    dsimp only
    by_cases inside : i < t.slots.size
    · left
      rw [if_pos inside, size_setSlot] at small
      have bound : i + t.origin ≤ 2 ^ 53 := by
        simp only [maxSlots] at small
        omega
      exact ⟨i, (t.keySlot_eq_some_iff proper bound).1 own, inside, if_pos inside⟩
    · rw [if_neg inside] at small ⊢
      by_cases near : (!v.isNil && decide (i < max t.slots.size growthWindow * 2)) = true
      · right; left
        rw [if_pos near] at small ⊢
        have large := le_size_grow t (i + 1)
        have bound : i + t.origin ≤ 2 ^ 53 := by
          simp only [size_setSlot, maxSlots] at small
          omega
        have here := (t.keySlot_eq_some_iff proper bound).1 own
        refine ⟨i, here, large, ?_⟩
        have gone := eraseEntry_of_slot (grow_wellFormed wf.toSound (i + 1)).toSound large
        rw [origin_grow, ← here] at gone
        rw [gone]
      · right; right
        rw [if_neg near] at small ⊢
        rw [slots_setEntry] at small
        refine ⟨?_, fun value j bound here => ?_, rfl⟩
        · intro j same
          obtain rfl := Option.some.inj same
          omega
        · have other := (t.keySlot_eq_some_iff proper (i := j) (by
            simp only [maxSlots] at small; omega)).2 here
          obtain rfl : i = j := Option.some.inj (own.symm.trans other)
          refine near ?_
          rw [value, growthWindow]
          exact decide_eq_true (by omega)

theorem store_wellFormed {t : Table} (wf : t.WellFormed) {k : Key} {name : Value} (v : Value)
    (key : Key.ofScalar name = .ok k) (small : (t.store k name v).slots.size < maxSlots) :
    (t.store k name v).WellFormed := by
  rcases store_cases wf v key small with ⟨i, _, _, same⟩ | ⟨i, _, _, same⟩ | ⟨_, apart, same⟩
  · rw [same]
    exact wf.setSlot i v
  · rw [same]
    exact (grow_wellFormed wf.toSound _).setSlot i v
  · rw [same]
    exact setEntry_wellFormed wf key apart

/-- A store changes one key, wherever it goes. -/
theorem find_store {t : Table} (wf : t.WellFormed) {k : Key} {name : Value} (v : Value)
    (key : Key.ofScalar name = .ok k) (small : (t.store k name v).slots.size < maxSlots) {k' : Key}
    (proper : k'.Proper) :
    ((t.store k name v).find k').Matches (if k' = k then v else t.find k') := by
  have origin := wf.origin_le
  rcases store_cases wf v key small with
    ⟨i, rfl, inside, same⟩ | ⟨i, rfl, inside, same⟩ | ⟨free, _, same⟩
  · rw [same, size_setSlot] at small
    rw [same, find_setSlot v proper inside (by omega)]
    exact .refl _
  · rw [same, size_setSlot] at small
    rw [same, find_setSlot v proper inside (by rw [origin_grow]; omega), origin_grow,
      find_grow wf.toSound proper _ (by omega)]
    exact .refl _
  · rw [same]
    exact find_setEntry wf name v free k'

/-- The next value goes under the first integer that has none. -/
theorem append_eq_store {t : Table} (wf : t.WellFormed) (v : Value)
    (small : t.slots.size < maxSlots) :
    t.append v = t.withKnownLength.store (.ofNat (t.length + t.origin))
      (.number (.ofNat (t.length + t.origin))) v.scalar := by
  have origin := wf.origin_le
  have bound := length_le wf
  have proper := Key.proper_ofNat (t.length + t.origin)
  have key := Key.ofScalar_ofNat (t.length + t.origin)
  have slot : t.withKnownLength.slotOfKey (.number (.ofNat (t.length + t.origin))) =
      some t.length := by
    rw [slotOfKey_eq_keySlot _ key, keySlot_eq_some_iff _ proper]
    · rfl
    · simp only [withKnownLength]
      simp only [maxSlots] at small
      omega
  have gone : ∀ size, t.length < (t.withKnownLength.grow size).slots.size →
      eraseEntry (t.withKnownLength.grow size).entries (.ofNat (t.length + t.origin)) =
        (t.withKnownLength.grow size).entries := by
    intro size inside
    have := eraseEntry_of_slot (grow_wellFormed wf.withKnownLength.toSound size).toSound inside
    rwa [origin_grow] at this
  simp only [append, store, slot]
  by_cases inside : t.length < t.withKnownLength.slots.size
  · rw [if_pos inside, if_pos inside]
  · rw [if_neg inside, if_neg inside]
    have full : t.length = t.withKnownLength.slots.size := by
      simp only [withKnownLength] at inside ⊢
      omega
    have near : t.length < max t.length growthWindow * 2 := by
      simp only [growthWindow]
      omega
    rw [gone _ (le_size_grow _ _), ← full]
    simp only [near, decide_true, Bool.true_and, Bool.and_true]
    rfl

theorem WellFormed.erase {t : Table} (wf : t.WellFormed) (k : Key) :
    WellFormed { t with entries := eraseEntry t.entries k } :=
  wf.withEntries (wf.distinct.sublist (List.eraseP_sublist.map _))
    (fun e mem => wf.named e (mem_eraseEntry wf.distinct mem).1)
    (fun e mem => wf.beyond e (mem_eraseEntry wf.distinct mem).1)
    (fun e mem => wf.flagged e (mem_eraseEntry wf.distinct mem).1)

/-- What is left when the entry of a key is gone. -/
theorem find_erase {t : Table} (wf : t.WellFormed) {k : Key}
    (free : ∀ i, t.keySlot k = some i → t.slots.size ≤ i) (k' : Key) :
    find { t with entries := eraseEntry t.entries k } k' = if k' = k then .nil else t.find k' := by
  rcases find_of_slots (t := t) (u := { t with entries := eraseEntry t.entries k }) rfl rfl k' with
    ⟨⟨i, own, inside⟩, same⟩ | ⟨_, left, right⟩
  · have other : k' ≠ k := by
      rintro rfl
      exact absurd inside (Nat.not_lt.2 (free i own))
    rw [if_neg other, same]
  · rw [left, right]
    simp only [entryValue, findEntry_eraseEntry wf.distinct]
    by_cases same : k' = k <;> simp [same]

theorem find_sweep {t : Table} (wf : t.WellFormed) (k : Key) :
    (t.sweep.find k).Matches (t.find k) := by
  rcases find_of_slots (t := t) (u := t.sweep) rfl rfl k with ⟨_, same⟩ | ⟨_, left, right⟩
  · exact .of_eq same
  · rw [left, right]
    exact entryValue_filter wf.distinct k

theorem clear_wellFormed {t : Table} (wf : t.WellFormed) : t.clear.WellFormed where
  origin_le := wf.origin_le
  distinct := List.nodup_nil
  named := by simp [clear]
  outside := by simp [clear]
  flagged := by simp [clear]
  settled := rfl
  cached := by
    intro n h
    obtain rfl : 0 = n := Option.some.inj h
    rfl

theorem find_clear (t : Table) (k : Key) : t.clear.find k = .nil := by
  rw [find_eq_entry (by simp [clear])]
  rfl

end ScriptMachine.Table
