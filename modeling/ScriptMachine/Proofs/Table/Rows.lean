import ScriptMachine.Proofs.Table.History

/-!
# A table as a list of rows

Slots and entries are two halves of one list, and a traversal goes down that list.

* `Reachable`: the tables that histories lead to.
* `rows`: the slots, each with its key, and behind them the entries. No key has two rows.
* `pairs_eq`, `next_eq`, `find_of_mem_rows`: listing, going on from a key and reading, through the
  rows.
* `rows_store`: a store that does not make the array grow changes the value of one row, and no
  row changes its place.
-/

namespace ScriptMachine

theorem Key.ofNat_inj {a b : Nat} (ha : a ≤ 2 ^ 53) (hb : b ≤ 2 ^ 53)
    (h : Key.ofNat a = Key.ofNat b) : a = b := by
  have slot := fun (n : Nat) (hn : n ≤ 2 ^ 53) =>
    (Table.withOrigin 0).keySlot_eq_some_iff (Key.proper_ofNat a) (i := n) hn
  have left := (slot a ha).2 rfl
  rw [(slot b hb).2 h] at left
  exact (Option.some.inj left).symm

namespace Table

/-- The tables that commands lead to from an empty one. An array of `maxSlots` slots does not fit in
the address space of any machine. -/
inductive Reachable : Table → Prop
  | fresh (origin : Nat) : Reachable (withOrigin origin)
  | mutated {t : Table} (m : Mutation) : Reachable t → (m.after t).slots.size < maxSlots →
      Reachable (m.after t)
  | withMetatable {t : Table} (metatable : Option TableId) : Reachable t →
      Reachable { t with metatable }

theorem WellFormed.withMetatable {t : Table} (wf : t.WellFormed) (metatable : Option TableId) :
    WellFormed { t with metatable } where
  origin_le := wf.origin_le
  distinct := wf.distinct
  named := wf.named
  outside := wf.outside
  flagged := wf.flagged
  settled := wf.settled
  cached := wf.cached

theorem Reachable.wellFormed {t : Table} (reached : t.Reachable) :
    t.WellFormed ∧ t.slots.size < maxSlots := by
  induction reached with
  | fresh origin => exact ⟨withOrigin_wellFormed origin, Nat.two_pow_pos 53⟩
  | mutated m _ grown ih => exact ⟨(after_applies ih.1 m ih.2 grown).1, grown⟩
  | withMetatable metatable _ ih => exact ⟨ih.1.withMetatable metatable, ih.2⟩

theorem reachable_replay {t : Table} (reached : t.Reachable) {ms : List Mutation}
    (bounded : Bounded t ms) : (replay t ms).Reachable := by
  induction ms generalizing t with
  | nil => exact reached
  | cons m rest ih => exact ih (.mutated m reached bounded.2.head) bounded.2

def slotRow (origin i : Nat) (v : Value) : Entry :=
  ⟨.ofNat (i + origin), .number (.ofNat (i + origin)), v⟩

def slotRows (origin start : Nat) : List Value → List Entry
  | [] => []
  | v :: rest => slotRow origin start v :: slotRows origin (start + 1) rest

/-- Slots and entries in the order of a traversal. -/
def rows (t : Table) : List Entry := slotRows t.origin 0 t.slots.toList ++ t.entries

theorem slotRows_append (origin start : Nat) (vs ws : List Value) :
    slotRows origin start (vs ++ ws) =
      slotRows origin start vs ++ slotRows origin (start + vs.length) ws := by
  induction vs generalizing start with
  | nil => rfl
  | cons v rest ih =>
    rw [List.cons_append, slotRows, slotRows, ih, List.length_cons, List.cons_append,
      Nat.add_right_comm, Nat.add_assoc]

/-- The rows around a slot, whatever it holds. -/
theorem rows_split (t : Table) {i : Nat} (inside : i < t.slots.size) (v : Value) :
    slotRows t.origin 0 (t.slots.toList.set i v) ++ t.entries =
      slotRows t.origin 0 (t.slots.toList.take i) ++ slotRow t.origin i v ::
        (slotRows t.origin (i + 1) (t.slots.toList.drop (i + 1)) ++ t.entries) := by
  have inside : i < t.slots.toList.length := by simpa using inside
  have length : (t.slots.toList.take i).length = i := by
    rw [List.length_take]
    omega
  rw [List.set_eq_take_append_cons_drop, if_pos inside, slotRows_append, length, slotRows,
    Nat.zero_add, List.append_assoc, List.cons_append]

theorem exists_rows_split (t : Table) {i : Nat} (inside : i < t.slots.size) :
    ∃ v, t.rows = slotRows t.origin 0 (t.slots.toList.take i) ++ slotRow t.origin i v ::
        (slotRows t.origin (i + 1) (t.slots.toList.drop (i + 1)) ++ t.entries) := by
  refine ⟨t.slots[i], ?_⟩
  rw [← t.rows_split inside, ← Array.getElem_toList, List.set_getElem_self]
  rfl

theorem mem_slotRows {origin start : Nat} {vs : List Value} {e : Entry}
    (mem : e ∈ slotRows origin start vs) :
    ∃ i, vs[i]? = some e.value ∧ e.key = .ofNat (start + i + origin) ∧
      e.name = .number (.ofNat (start + i + origin)) := by
  induction vs generalizing start with
  | nil => cases mem
  | cons v rest ih =>
    rcases List.mem_cons.1 mem with rfl | later
    · exact ⟨0, rfl, rfl, rfl⟩
    · obtain ⟨i, value, key, name⟩ := ih later
      have shift : start + 1 + i = start + (i + 1) := by omega
      rw [shift] at key name
      exact ⟨i + 1, value, key, name⟩

theorem nodup_slotRows {origin start : Nat} {vs : List Value}
    (small : start + vs.length + origin ≤ 2 ^ 53) :
    ((slotRows origin start vs).map Entry.key).Nodup := by
  induction vs generalizing start with
  | nil => exact List.nodup_nil
  | cons v rest ih =>
    rw [List.length_cons] at small
    refine List.nodup_cons.2 ⟨fun mem => ?_, ih (by omega)⟩
    obtain ⟨e, later, same⟩ := List.mem_map.1 mem
    obtain ⟨i, value, key, _⟩ := mem_slotRows later
    have inside := (List.getElem?_eq_some_iff.1 value).1
    have := Key.ofNat_inj (by omega) (by omega) (key.symm.trans same)
    omega

section
variable {t : Table} (wf : t.WellFormed) (small : t.slots.size < maxSlots)
include wf small

theorem bound_of_slot {i : Nat} (inside : i ≤ t.slots.size) : i + t.origin ≤ 2 ^ 53 := by
  have := wf.origin_le
  simp only [maxSlots] at small
  omega

/-- No key has two rows. -/
theorem nodup_rows : (t.rows.map Entry.key).Nodup := by
  rw [rows, List.map_append]
  have bound := bound_of_slot wf small (Nat.le_refl _)
  refine List.nodup_append.2 ⟨nodup_slotRows (by simpa using bound), wf.distinct, ?_⟩
  rintro k slot k' entry rfl
  obtain ⟨e, mem, rfl⟩ := List.mem_map.1 slot
  obtain ⟨e', mem', same⟩ := List.mem_map.1 entry
  obtain ⟨i, value, key, _⟩ := mem_slotRows mem
  have inside := (List.getElem?_eq_some_iff.1 value).1
  rw [Nat.zero_add] at key
  exact wf.outside e' mem' i (by simpa using inside) (same.trans key)

omit small in
/-- Every row is filed under its name. -/
theorem named_rows {e : Entry} (mem : e ∈ t.rows) : Key.ofScalar e.name = .ok e.key := by
  rcases List.mem_append.1 mem with slot | entry
  · obtain ⟨i, _, key, name⟩ := mem_slotRows slot
    rw [key, name]
    exact Key.ofScalar_ofNat _
  · exact wf.named e entry

/-- A key has a slot of the table, or none of the slots' rows is its. -/
theorem keySlot_cases {k : Key} (proper : k.Proper) :
    (∃ i < t.slots.size, t.keySlot k = some i ∧ k = .ofNat (i + t.origin)) ∨
    (∀ i, t.keySlot k = some i → t.slots.size ≤ i) ∧
      ∀ e ∈ slotRows t.origin 0 t.slots.toList, e.key ≠ k := by
  by_cases own : ∃ i, t.keySlot k = some i ∧ i < t.slots.size
  · obtain ⟨i, slot, inside⟩ := own
    have bound := bound_of_slot wf small (Nat.le_of_lt inside)
    exact .inl ⟨i, inside, slot, (t.keySlot_eq_some_iff proper bound).1 slot⟩
  · right
    refine ⟨fun i slot => Nat.not_lt.1 fun inside => own ⟨i, slot, inside⟩, fun e mem same => ?_⟩
    obtain ⟨i, value, key, _⟩ := mem_slotRows mem
    rw [Nat.zero_add] at key
    have inside : i < t.slots.size := by simpa using (List.getElem?_eq_some_iff.1 value).1
    have bound := bound_of_slot wf small (Nat.le_of_lt inside)
    exact own ⟨i, (t.keySlot_eq_some_iff proper bound).2 (same.symm.trans key), inside⟩

end

theorem livePairs_append (es es' : List Entry) :
    livePairs (es ++ es') = livePairs es ++ livePairs es' := by
  rw [livePairs, List.filter_append, List.map_append]
  rfl

theorem livePairs_slotRows (origin start : Nat) (vs : List Value) :
    livePairs (slotRows origin start vs) = slotPairsFrom origin start vs := by
  induction vs generalizing start with
  | nil => rfl
  | cons v rest ih =>
    rw [slotPairsFrom, ← ih]
    cases empty : v.isNil <;> simp [livePairs, slotRows, slotRow, empty]

/-- The pairs are the rows that hold a value. -/
theorem pairs_eq (t : Table) : t.pairs = livePairs t.rows := by
  rw [rows, livePairs_append, livePairs_slotRows]
  rfl

theorem mem_pairs {t : Table} {p : Value × Value} :
    p ∈ t.pairs ↔ ∃ e ∈ t.rows, e.value.isNil = false ∧ p = (e.name, e.value) := by
  rw [pairs_eq, livePairs, List.mem_map]
  simp only [List.mem_filter, Bool.not_eq_true', and_assoc, eq_comm (a := p)]

theorem count_eq (t : Table) : t.count = t.pairs.length := by
  have slots : ∀ (start : Nat) (vs : List Value),
      (slotPairsFrom t.origin start vs).length = (vs.filter fun v => !v.isNil).length := by
    intro start vs
    induction vs generalizing start with
    | nil => rfl
    | cons v rest ih => cases empty : v.isNil <;> simp [slotPairsFrom, empty, ih]
  rw [pairs, List.length_append, slotPairs, slots, livePairs, List.length_map]
  rfl

theorem entriesAfter_append {es es' : List Entry} {k : Key} (other : ∀ e ∈ es, e.key ≠ k) :
    entriesAfter (es ++ es') k = entriesAfter es' k := by
  rw [entriesAfter, entriesAfter, List.dropWhile_append_of_pos]
  intro e mem
  simpa using other e mem

theorem entriesAfter_cons_of_ne {e : Entry} {k : Key} (other : e.key ≠ k) (es : List Entry) :
    entriesAfter (e :: es) k = entriesAfter es k := by
  rw [← List.singleton_append, entriesAfter_append (by simpa using other)]

theorem entriesAfter_cons_self (e : Entry) (es : List Entry) :
    entriesAfter (e :: es) e.key = some es := by
  simp [entriesAfter]

/-- What stands behind the row of a key, where the list is split at it. -/
theorem entriesAfter_split {es es' : List Entry} {e : Entry}
    (distinct : ((es ++ e :: es').map Entry.key).Nodup) :
    entriesAfter (es ++ e :: es') e.key = some es' := by
  rw [entriesAfter_append, entriesAfter_cons_self]
  intro e' mem same
  rw [List.map_append, List.map_cons] at distinct
  exact (List.nodup_append.1 distinct).2.2 e'.key (List.mem_map_of_mem mem) e.key (by simp) same

theorem exists_split_of_entriesAfter {es rest : List Entry} {k : Key}
    (h : entriesAfter es k = some rest) : ∃ before e, es = before ++ e :: rest ∧ e.key = k := by
  simp only [entriesAfter] at h
  split at h
  · cases h
  · rename_i e behind drop
    obtain rfl := Option.some.inj h
    refine ⟨es.takeWhile fun e => e.key != k, e, ?_, ?_⟩
    · rw [← drop, List.takeWhile_append_dropWhile]
    · have := List.head?_dropWhile_not (fun e : Entry => e.key != k) es
      rw [drop] at this
      simpa using this

/-- A traversal goes on from a key with the first value behind the key's row. -/
theorem next_eq {t : Table} (wf : t.WellFormed) (small : t.slots.size < maxSlots) {current : Value}
    {k : Key} (filed : Key.ofScalar current = .ok k) :
    t.next current = match entriesAfter t.rows k with
      | some rest => .ok (livePairs rest).head?
      | none => .error .strayKey := by
  have begun : current.isNil = false := by
    cases current <;> first | rfl | simp [Key.ofScalar] at filed
  have key : Key.ofValue current = .ok k :=
    (Key.ofValue_eq_ofScalar (Key.kind_of_ofScalar filed)).trans filed
  have own := ownSlot_eq (t := t) filed
  have distinct := nodup_rows wf small
  rcases keySlot_cases wf small ⟨current, filed⟩ with ⟨i, inside, slot, rfl⟩ | ⟨free, other⟩
  · rw [slot, Option.filter, if_pos (decide_eq_true inside)] at own
    obtain ⟨v, rows⟩ := t.exists_rows_split inside
    have behind : entriesAfter t.rows (.ofNat (i + t.origin)) = some _ :=
      rows ▸ entriesAfter_split (rows ▸ distinct)
    rw [behind, next, begun, own]
    simp only [livePairs_append, livePairs_slotRows, Bool.false_eq_true, if_false]
  · have outside : t.ownSlot current = none := by
      rw [own, Option.filter_eq_none_iff]
      intro i slot
      simpa using free i slot
    rw [Table.rows, entriesAfter_append other, next, begun, outside, key]
    rfl

/-- A key's row holds what the table holds under it. -/
theorem find_of_mem_rows {t : Table} (wf : t.WellFormed) (small : t.slots.size < maxSlots)
    {e : Entry} (mem : e ∈ t.rows) : t.find e.key = e.value := by
  have proper : e.key.Proper := ⟨e.name, named_rows wf mem⟩
  rcases List.mem_append.1 mem with slot | entry
  · obtain ⟨i, value, key, _⟩ := mem_slotRows slot
    have inside : i < t.slots.size := by simpa using (List.getElem?_eq_some_iff.1 value).1
    have bound := bound_of_slot wf small (Nat.le_of_lt inside)
    rw [Nat.zero_add] at key
    rw [find_eq_slot ((t.keySlot_eq_some_iff proper bound).2 key) inside, ← Array.getElem?_toList,
      value, Option.getD_some]
  · have free : ∀ i, t.keySlot e.key = some i → t.slots.size ≤ i := by
      intro i slot
      refine Nat.not_lt.1 fun inside => wf.outside e entry i inside ?_
      exact (t.keySlot_eq_some_iff proper (bound_of_slot wf small (Nat.le_of_lt inside))).1 slot
    rw [find_eq_entry free, entryValue]
    cases found : findEntry t.entries e.key with
    | none => exact absurd rfl (findEntry_eq_none_iff.1 found e entry)
    | some e' =>
      obtain ⟨mem', same⟩ := findEntry_mem found
      rw [List.inj_on_of_nodup_map wf.distinct mem' entry same]

/-- A key under which there is a value has a row. -/
theorem exists_row {t : Table} (wf : t.WellFormed) (small : t.slots.size < maxSlots) {k : Key}
    (proper : k.Proper) (live : (t.find k).isNil = false) : ∃ e ∈ t.rows, e.key = k := by
  rcases keySlot_cases wf small proper with ⟨i, inside, slot, rfl⟩ | ⟨free, _⟩
  · obtain ⟨v, rows⟩ := t.exists_rows_split inside
    exact ⟨slotRow t.origin i v, by rw [rows]; simp, rfl⟩
  · rw [find_eq_entry free, entryValue] at live
    cases found : findEntry t.entries k with
    | none => simp [found, Value.isNil] at live
    | some e =>
      obtain ⟨mem, same⟩ := findEntry_mem found
      exact ⟨e, List.mem_append_right _ mem, same⟩

theorem entries_pushSlots_sublist (t : Table) (count : Nat) :
    (t.pushSlots count).entries.Sublist t.entries := by
  induction count generalizing t with
  | zero => exact .refl _
  | succ count ih => exact (ih t.pushSlot).trans List.eraseP_sublist

theorem entries_absorb_sublist (t : Table) (fuel : Nat) :
    (t.absorb fuel).entries.Sublist t.entries := by
  induction fuel generalizing t with
  | zero => exact .refl _
  | succ fuel ih =>
    rw [absorb]
    split
    · exact (ih t.pushSlot).trans List.eraseP_sublist
    · exact .refl _

/-- Growth only takes entries away. -/
theorem entries_grow_sublist (t : Table) (size : Nat) :
    (t.grow size).entries.Sublist t.entries :=
  (entries_absorb_sublist _ _).trans (entries_pushSlots_sublist t _)

theorem replaceValue_of_ne {es : List Entry} {k : Key} (other : ∀ e ∈ es, e.key ≠ k) (v : Value) :
    replaceValue es k v = es := by
  rw [replaceValue, List.map_congr_left (g := id), List.map_id]
  intro e mem
  simp [other e mem]

theorem replaceValue_append (es es' : List Entry) (k : Key) (v : Value) :
    replaceValue (es ++ es') k v = replaceValue es k v ++ replaceValue es' k v := List.map_append

/-- One row gets the value. -/
theorem replaceValue_split {es es' : List Entry} {e : Entry}
    (distinct : ((es ++ e :: es').map Entry.key).Nodup) (v : Value) :
    replaceValue (es ++ e :: es') e.key v = es ++ { e with value := v } :: es' := by
  rw [List.map_append, List.map_cons] at distinct
  obtain ⟨_, behind, apart⟩ := List.nodup_append.1 distinct
  have before : ∀ e' ∈ es, e'.key ≠ e.key := fun e' mem =>
    apart e'.key (List.mem_map_of_mem mem) e.key (by simp)
  have after : ∀ e' ∈ es', e'.key ≠ e.key := fun e' mem same =>
    (List.nodup_cons.1 behind).1 (List.mem_map.2 ⟨e', mem, same⟩)
  rw [replaceValue_append, replaceValue_of_ne before]
  congr 1
  have first : replaceValue (e :: es') e.key v =
      { e with value := v } :: replaceValue es' e.key v := by simp [replaceValue]
  rw [first, replaceValue_of_ne after]

theorem entriesAfter_replaceValue (es : List Entry) (k k' : Key) (v : Value) :
    entriesAfter (replaceValue es k v) k' = (entriesAfter es k').map (replaceValue · k v) := by
  induction es with
  | nil => rfl
  | cons e rest ih =>
    have first : replaceValue (e :: rest) k v =
        (if e.key == k then { e with value := v } else e) :: replaceValue rest k v := rfl
    have key : (if e.key == k then { e with value := v } else e).key = e.key := by split <;> rfl
    generalize (if e.key == k then { e with value := v } else e) = e' at first key
    rw [first]
    by_cases here : e.key = k'
    · rw [← here, entriesAfter_cons_self, ← key, entriesAfter_cons_self]
      rfl
    · rw [entriesAfter_cons_of_ne here, entriesAfter_cons_of_ne (key ▸ here), ih]

/-- Where nothing comes to life, a store into the entries sweeps nothing and changes one of them. -/
theorem entries_setEntry (t : Table) (k : Key) (name v : Value)
    (still : v.isNil = true ∨ (t.entryValue k).isNil = false) :
    (t.setEntry k name v).entries = replaceValue t.entries k v := by
  cases found : findEntry t.entries k with
  | none =>
    have empty : v.isNil = true := still.resolve_right (by simp [entryValue, found, Value.isNil])
    rw [replaceValue_of_ne (findEntry_eq_none_iff.1 found), setEntry]
    simp [found, empty]
  | some e =>
    have stays : (t.mayHoldTombstones && !v.isNil && e.value.isNil) = false := by
      rcases still with empty | live
      · simp [empty]
      · simp only [entryValue, found] at live
        simp [live]
    have needed : ((some e).isNone && v.isNil) = false := rfl
    simp only [setEntry, found, writeEntry, stays, needed, Bool.false_eq_true, if_false]
    cases name <;> cases v.isNil <;> rfl

/-- Under this key nothing makes the array grow: it has a slot of the table, is no integer, or lies
behind all that growth may add. -/
def Keeps (t : Table) (key : Value) : Prop :=
  ∀ i, t.slotOfKey key = some i → i < t.slots.size ∨ max t.slots.size growthWindow * 2 ≤ i

/-- A store that takes a value out, or writes over one without growth, changes one row. -/
theorem rows_store {t : Table} (wf : t.WellFormed) (small : t.slots.size < maxSlots) {name : Value}
    {k : Key} (filed : Key.ofScalar name = .ok k) {v : Value}
    (still : v.isNil = true ∨ (t.find k).isNil = false ∧ t.Keeps name) :
    (t.store k name v).rows = replaceValue t.rows k v ∧
    (t.store k name v).slots.size = t.slots.size ∧ (t.store k name v).origin = t.origin := by
  have slotted := t.slotOfKey_eq_keySlot filed
  rcases keySlot_cases wf small ⟨name, filed⟩ with ⟨i, inside, slot, rfl⟩ | ⟨free, other⟩
  · have stored : t.store (.ofNat (i + t.origin)) name v = t.setSlot i v := by
      rw [store, slotted, slot]
      exact if_pos inside
    obtain ⟨u, rows⟩ := t.exists_rows_split inside
    have replaced := replaceValue_split (rows ▸ nodup_rows wf small) v
    refine ⟨?_, by rw [stored, size_setSlot], by rw [stored]; rfl⟩
    rw [stored, rows]
    refine Eq.trans ?_ ((t.rows_split inside v).trans replaced.symm)
    simp only [Table.rows, setSlot, Array.toList_setIfInBounds]
  · have stored : t.store k name v = t.setEntry k name v := by
      rw [store, slotted]
      cases slot : t.keySlot k with
      | none => rfl
      | some i =>
        have behind := free i slot
        have far : (!v.isNil && decide (i < max t.slots.size growthWindow * 2)) = false := by
          rcases still with empty | ⟨_, keeps⟩
          · simp [empty]
          · have := keeps i (slotted.trans slot)
            simp
            omega
        simp only [far, Nat.not_lt.2 behind, if_false, Bool.false_eq_true]
    have entries := t.entries_setEntry k name v (still.imp id fun live => by
      rw [← find_eq_entry free]
      exact live.1)
    refine ⟨?_, by rw [stored, slots_setEntry], by rw [stored, origin_setEntry]⟩
    rw [stored, Table.rows, entries, slots_setEntry, origin_setEntry, Table.rows,
      replaceValue_append, replaceValue_of_ne other]

end Table

end ScriptMachine
