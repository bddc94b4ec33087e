import Mathlib.Data.List.Perm.Subperm
import ScriptMachine.Proofs.Table.Rebuilding

/-!
# Tables made of pairs

Pairs are stored one after the other into an empty table. Keys may come again among them, and values
may be nil.

* `Of`: what every name and every value in a table satisfies, whatever is done to the table.
* `Made`: the tables of any history, however long their arrays. `Made.usable`: all they list are keys.
* `mem_of_storeAll`: a table made of pairs lists no keys and no values but theirs.
* `perm_of_storeAll`: pairs with different keys are all listed, in whatever order.
-/

namespace ScriptMachine.Table

/-- Every name in the entries is of one sort, and every value in slots and entries of another. -/
structure Of (name value : Value → Prop) (t : Table) : Prop where
  slots : ∀ v ∈ t.slots, value v
  names : ∀ e ∈ t.entries, name e.name
  values : ∀ e ∈ t.entries, value e.value

section
variable {name value : Value → Prop} {t : Table}

theorem of_bare (slots : t.slots = #[]) (entries : t.entries = []) : t.Of name value :=
  ⟨by simp [slots], by simp [entries], by simp [entries]⟩

/-- With fewer entries, and some other fields. -/
theorem Of.fewer (made : t.Of name value) {t' : Table} (slots : t'.slots = t.slots)
    (fewer : t'.entries ⊆ t.entries) : t'.Of name value where
  slots := slots ▸ made.slots
  names := fun e mem => made.names e (fewer mem)
  values := fun e mem => made.values e (fewer mem)

theorem Of.setSlot (made : t.Of name value) (i : Nat) {v : Value} (new : value v) :
    (t.setSlot i v).Of name value where
  slots := by
    intro u mem
    rcases Array.mem_or_eq_of_mem_setIfInBounds mem with old | rfl
    · exact made.slots u old
    · exact new
  names := made.names
  values := made.values

theorem Of.entryValue (made : t.Of name value) (nil : value .nil) (k : Key) :
    value (t.entryValue k) := by
  rw [Table.entryValue]
  split
  · rename_i found
    exact made.values _ (findEntry_mem found).1
  · exact nil

theorem Of.pushSlot (made : t.Of name value) (nil : value .nil) : t.pushSlot.Of name value where
  slots := by
    intro u mem
    rcases Array.mem_push.1 mem with old | rfl
    · exact made.slots u old
    · exact made.entryValue nil _
  names := fun e mem => made.names e (List.mem_of_mem_eraseP mem)
  values := fun e mem => made.values e (List.mem_of_mem_eraseP mem)

theorem Of.pushSlots (made : t.Of name value) (nil : value .nil) (count : Nat) :
    (t.pushSlots count).Of name value := by
  induction count generalizing t with
  | zero => exact made
  | succ count ih => exact ih (made.pushSlot nil)

theorem Of.absorb (made : t.Of name value) (nil : value .nil) (fuel : Nat) :
    (t.absorb fuel).Of name value := by
  induction fuel generalizing t with
  | zero => exact made
  | succ fuel ih =>
    rw [Table.absorb]
    split
    · exact ih (made.pushSlot nil)
    · exact made

theorem Of.grow (made : t.Of name value) (nil : value .nil) (size : Nat) :
    (t.grow size).Of name value :=
  ((made.pushSlots nil _).absorb nil _).fewer rfl fun _ mem => mem

theorem Of.setEntry (made : t.Of name value) (k : Key) {n v : Value} (key : name n) (new : value v) :
    (t.setEntry k n v).Of name value := by
  have written : ∀ e ∈ writeEntry t.entries k n v, name e.name ∧ value e.value := by
    intro e mem
    rcases mem_writeEntry mem with ⟨_, rfl, rfl⟩ | ⟨e', old, _, named, rfl | kept⟩
    · exact ⟨key, new⟩
    · exact ⟨named ▸ made.names e' old, new⟩
    · exact ⟨named ▸ made.names e' old, kept ▸ made.values e' old⟩
  rcases t.setEntry_cases k n v with ⟨same, _⟩ | ⟨entries, _, _, same, _, _, how⟩
  · rw [same]
    exact made
  · have inside : entries ⊆ writeEntry t.entries k n v := by
      rcases how with rfl | ⟨rfl, _⟩
      · exact List.filter_subset_self _
      · exact fun _ mem => mem
    rw [same]
    exact ⟨made.slots, fun e mem => (written e (inside mem)).1, fun e mem => (written e (inside mem)).2⟩

theorem Of.store (made : t.Of name value) (nil : value .nil) (k : Key) {n v : Value} (key : name n)
    (new : value v) : (t.store k n v).Of name value := by
  rw [Table.store]
  split
  · split
    · exact made.setSlot _ new
    · split
      · refine Of.setSlot ?_ _ new
        exact (made.grow nil _).fewer rfl fun _ mem => List.mem_of_mem_eraseP mem
      · exact made.setEntry k key new
  · exact made.setEntry k key new

end

/-- The tables that commands lead to from an empty one, however long their arrays. -/
inductive Made : Table → Prop
  | fresh (origin : Nat) : Made (withOrigin origin)
  | mutated {t : Table} (m : Mutation) : Made t → Made (m.after t)
  | withMetatable {t : Table} (metatable : Option TableId) : Made t → Made { t with metatable }

theorem Reachable.made {t : Table} (reached : t.Reachable) : t.Made := by
  induction reached with
  | fresh origin => exact .fresh origin
  | mutated m _ _ ih => exact ih.mutated m
  | withMetatable metatable _ ih => exact ih.withMetatable metatable

theorem usable_ofNat (n : Nat) : usable (.number (.ofNat n)) = true := usable_ofRatio _ _ _

abbrev Keyed (t : Table) : Prop := t.Of (fun n => usable n = true) fun _ => True

theorem Keyed.set {t : Table} (keyed : t.Keyed) (key value : Value) :
    ((Mutation.set key value).after t).Keyed := by
  rw [Mutation.after, run_set]
  cases filed : Key.ofScalar key.scalar with
  | error cause =>
    rw [set_of_not_usable filed]
    exact keyed
  | ok k =>
    rw [set_of_usable filed]
    exact keyed.store trivial k (usable_of_ofScalar filed) trivial

theorem Keyed.append {t : Table} (keyed : t.Keyed) (value : Value) : (t.append value).Keyed := by
  have known : t.withKnownLength.Keyed := keyed.fewer rfl fun _ mem => mem
  simp only [Table.append]
  split
  · exact known.setSlot _ trivial
  · split
    · exact (known.grow trivial _).setSlot _ trivial
    · exact known.setEntry _ (usable_ofNat _) trivial

theorem Keyed.remove {t : Table} (keyed : t.Keyed) (key : Value) : (t.remove key).2.Keyed := by
  simp only [Table.remove]
  split
  · exact keyed.setSlot _ trivial
  · split
    · exact keyed.fewer rfl fun _ mem => List.mem_of_mem_eraseP mem
    · exact keyed.fewer rfl fun _ mem => mem

theorem Keyed.after {t : Table} (keyed : t.Keyed) (m : Mutation) : (m.after t).Keyed := by
  cases m with
  | set key value => exact keyed.set key value
  | setInt key value => exact keyed.set (.number (.ofInt key)) value
  | setString key value =>
    have key : usable (.string key) = true := rfl
    exact keyed.setEntry _ key trivial
  | append value => exact keyed.append value
  | appendPositional value =>
    have next : Keyed { t with cursor := t.cursor + 1 } := keyed.fewer rfl fun _ mem => mem
    have stored := next.set (.number (.ofNat (t.cursor + t.origin))) value
    rw [Mutation.after, run_set] at stored
    rw [Mutation.after, run_appendPositional, appendPositional]
    generalize Table.set _ _ _ = result at stored ⊢
    cases result with
    | ok t' => exact stored
    | error cause => exact keyed
  | remove key => exact keyed.remove key
  | sweep => exact keyed.fewer rfl fun _ mem => List.mem_of_mem_filter mem
  | clear => exact of_bare rfl rfl
  | length => exact keyed.fewer rfl fun _ mem => mem

theorem Made.keyed {t : Table} (made : t.Made) : t.Keyed := by
  induction made with
  | fresh origin => exact of_bare rfl rfl
  | mutated m _ ih => exact ih.after m
  | withMetatable metatable _ ih => exact ih.fewer rfl fun _ mem => mem

/-- All that a table lists are keys. -/
theorem Made.usable {t : Table} (made : t.Made) {p : Value × Value} (mem : p ∈ t.pairs) :
    usable p.1 = true := by
  obtain ⟨e, row, _, rfl⟩ := mem_pairs.1 mem
  rcases List.mem_append.1 row with slot | entry
  · obtain ⟨i, _, _, named⟩ := mem_slotRows slot
    rw [named]
    exact usable_ofNat _
  · exact made.keyed.names e entry

theorem size_setEntry (t : Table) (k : Key) (name v : Value) :
    (t.setEntry k name v).slots.size = t.slots.size := congrArg Array.size (t.slots_setEntry k name v)

/-- A store never takes slots away, and the origin stays. -/
theorem store_extends (t : Table) (k : Key) (name v : Value) :
    t.slots.size ≤ (t.store k name v).slots.size ∧ (t.store k name v).origin = t.origin := by
  have entry : t.slots.size ≤ (t.setEntry k name v).slots.size ∧
      (t.setEntry k name v).origin = t.origin :=
    ⟨Nat.le_of_eq (t.size_setEntry k name v).symm, t.origin_setEntry k name v⟩
  rw [store]
  split
  · split
    · exact ⟨Nat.le_of_eq (t.size_setSlot _ v).symm, rfl⟩
    · rename_i i _ behind
      have large := le_size_grow t (i + 1)
      split
      · refine ⟨?_, t.origin_grow (i + 1)⟩
        rw [size_setSlot]
        dsimp only
        omega
      · exact entry
  · exact entry

section
variable {t t' : Table} {p : Value × Value} {ps : List (Value × Value)}

theorem storeAll_cons_ok :
    t.storeAll (p :: ps) = .ok t' ↔ ∃ k, Key.ofScalar p.1.scalar = .ok k ∧
      (t.store k p.1.scalar p.2.scalar).storeAll ps = .ok t' := by
  have steps : t.storeAll (p :: ps) = (t.set p.1 p.2 >>= fun t => t.storeAll ps) := rfl
  rw [steps]
  cases filed : Key.ofScalar p.1.scalar with
  | error cause => simp [set_of_not_usable filed, Bind.bind, Except.bind]
  | ok k => simp [set_of_usable filed, Bind.bind, Except.bind]

theorem storeAll_extends (stored : t.storeAll ps = .ok t') :
    t.slots.size ≤ t'.slots.size ∧ t'.origin = t.origin := by
  induction ps generalizing t with
  | nil =>
    obtain rfl := Except.ok.inj stored
    exact ⟨Nat.le_refl _, rfl⟩
  | cons p ps ih =>
    obtain ⟨k, _, stored⟩ := storeAll_cons_ok.1 stored
    obtain ⟨grown, origin⟩ := t.store_extends k p.1.scalar p.2.scalar
    obtain ⟨grown', origin'⟩ := ih stored
    exact ⟨Nat.le_trans grown grown', origin'.trans origin⟩

theorem Reachable.store (reached : t.Reachable) {k : Key} {key value : Value}
    (filed : Key.ofScalar key.scalar = .ok k)
    (small : (t.store k key.scalar value.scalar).slots.size < maxSlots) :
    (t.store k key.scalar value.scalar).Reachable := by
  have after : (Mutation.set key value).after t = t.store k key.scalar value.scalar := by
    rw [Mutation.after, run_set, set_of_usable filed]
    rfl
  exact after ▸ reached.mutated (.set key value) (after ▸ small)

theorem Reachable.storeAll (reached : t.Reachable) (stored : t.storeAll ps = .ok t')
    (small : t'.slots.size < maxSlots) : t'.Reachable := by
  induction ps generalizing t with
  | nil =>
    obtain rfl := Except.ok.inj stored
    exact reached
  | cons p ps ih =>
    obtain ⟨k, filed, stored⟩ := storeAll_cons_ok.1 stored
    exact ih (reached.store filed (Nat.lt_of_le_of_lt (storeAll_extends stored).1 small)) stored

theorem Of.storeAll {name value : Value → Prop} (made : t.Of name value) (nil : value .nil)
    (sorts : ∀ p ∈ ps, name p.1.scalar ∧ value p.2.scalar) (stored : t.storeAll ps = .ok t') :
    t'.Of name value := by
  induction ps generalizing t with
  | nil =>
    obtain rfl := Except.ok.inj stored
    exact made
  | cons p ps ih =>
    obtain ⟨k, _, stored⟩ := storeAll_cons_ok.1 stored
    obtain ⟨key, new⟩ := sorts p List.mem_cons_self
    exact ih (made.store nil k key new) (fun q mem => sorts q (List.mem_cons_of_mem _ mem)) stored

/-- A key that none of the pairs has keeps what is under it. -/
theorem find_storeAll_of_ne (reached : t.Reachable) (stored : t.storeAll ps = .ok t')
    (small : t'.slots.size < maxSlots) {k : Key} (proper : k.Proper)
    (other : ∀ p ∈ ps, Key.ofScalar p.1.scalar ≠ .ok k) : (t'.find k).Matches (t.find k) := by
  induction ps generalizing t with
  | nil =>
    obtain rfl := Except.ok.inj stored
    exact .refl _
  | cons p ps ih =>
    obtain ⟨k', filed, stored⟩ := storeAll_cons_ok.1 stored
    have room := Nat.lt_of_le_of_lt (storeAll_extends stored).1 small
    have found := find_store reached.wellFormed.1 p.2.scalar filed room proper
    rw [if_neg fun same => other p List.mem_cons_self (filed.trans (congrArg _ same.symm))] at found
    exact (ih (reached.store filed room) stored fun q mem =>
      other q (List.mem_cons_of_mem _ mem)).trans found

/-- A key that one of the pairs has holds its value. -/
theorem find_storeAll_of_mem (reached : t.Reachable) (stored : t.storeAll ps = .ok t')
    (small : t'.slots.size < maxSlots) (once : (ps.map fun p => Key.ofScalar p.1.scalar).Nodup)
    (mem : p ∈ ps) {k : Key} (filed : Key.ofScalar p.1.scalar = .ok k) :
    (t'.find k).Matches p.2.scalar := by
  induction ps generalizing t with
  | nil => cases mem
  | cons q ps ih =>
    obtain ⟨k', filed', stored⟩ := storeAll_cons_ok.1 stored
    have room := Nat.lt_of_le_of_lt (storeAll_extends stored).1 small
    have next : (t.store k' q.1.scalar q.2.scalar).Reachable := reached.store filed' room
    obtain ⟨new, once⟩ := List.nodup_cons.1 once
    rcases List.mem_cons.1 mem with rfl | later
    · obtain rfl := Except.ok.inj (filed.symm.trans filed')
      have found := find_store reached.wellFormed.1 p.2.scalar filed room ⟨_, filed⟩
      rw [if_pos rfl] at found
      refine (find_storeAll_of_ne next stored small ⟨_, filed⟩ fun q mem same => new ?_).trans found
      exact List.mem_map.2 ⟨q, mem, same.trans filed.symm⟩
    · exact ih next stored once later

end

theorem reachable_empty : empty.Reachable := .fresh 1

section
variable {t : Table} {ps : List (Value × Value)} (stored : empty.storeAll ps = .ok t)
  (small : t.slots.size < maxSlots)
include stored small

theorem reachable_of_storeAll : t.Reachable := reachable_empty.storeAll stored small

/-- A table lists no keys and no values but those it is made of. -/
theorem mem_of_storeAll {p : Value × Value} (mem : p ∈ t.pairs) :
    (∃ q ∈ ps, q.1.scalar = p.1) ∧ ∃ q ∈ ps, q.2.scalar = p.2 := by
  have reached := reachable_of_storeAll stored small
  obtain ⟨wf, _⟩ := reached.wellFormed
  have origin : t.origin = 1 := (storeAll_extends stored).2
  have made : t.Of (fun n => ∃ q ∈ ps, q.1.scalar = n)
      (fun v => v.isNil = true ∨ ∃ q ∈ ps, q.2.scalar = v) :=
    Of.storeAll (of_bare rfl rfl) (.inl rfl)
      (fun q mem => ⟨⟨q, mem, rfl⟩, .inr ⟨q, mem, rfl⟩⟩) stored
  obtain ⟨e, row, live, rfl⟩ := mem_pairs.1 mem
  rcases List.mem_append.1 row with slot | entry
  · obtain ⟨i, value, key, name⟩ := mem_slotRows slot
    have inside : i < t.slots.size := by simpa using (List.getElem?_eq_some_iff.1 value).1
    have proper : e.key.Proper := ⟨e.name, named_rows wf row⟩
    obtain ⟨q, listed, filed⟩ : ∃ q ∈ ps, Key.ofScalar q.1.scalar = .ok e.key := by
      by_contra none
      have found := find_storeAll_of_ne reachable_empty stored small proper fun q mem same =>
        none ⟨q, mem, same⟩
      have empty : (empty.find e.key).isNil = true := by
        rw [find_eq_entry (by simp [Table.empty, withOrigin])]
        rfl
      rw [← find_of_mem_rows wf small row, found.isNil_eq, empty] at live
      cases live
    refine ⟨⟨q, listed, ?_⟩, ?_⟩
    · rw [origin, Nat.zero_add] at key name
      rw [name]
      exact number_of_key (by simp only [maxSlots] at small; omega) (key ▸ filed)
    · have value : e.value ∈ t.slots := Array.mem_toList_iff.1 (List.mem_of_getElem? value)
      exact (made.slots e.value value).resolve_left (by simp [live])
  · exact ⟨made.names e entry, (made.values e entry).resolve_left (by simp [live])⟩

/-- There are no more pairs than were stored. -/
theorem length_le_of_storeAll : t.pairs.length ≤ ps.length := by
  obtain ⟨wf, _⟩ := (reachable_of_storeAll stored small).wellFormed
  have once : (t.pairs.map Prod.fst).Nodup := by
    have keys := (lists_pairs wf small).once
    have split : (t.pairs.map fun p => Key.ofScalar p.1) =
        (t.pairs.map Prod.fst).map Key.ofScalar := by simp
    exact List.Nodup.of_map _ (split ▸ keys)
  have listed : t.pairs.map Prod.fst ⊆ ps.map fun q => q.1.scalar := by
    intro key mem
    obtain ⟨p, pair, rfl⟩ := List.mem_map.1 mem
    obtain ⟨q, here, same⟩ := (mem_of_storeAll stored small pair).1
    exact List.mem_map.2 ⟨q, here, same⟩
  simpa using (once.subperm listed).length_le

/-- Values stored under different keys are all listed, in whatever order. -/
theorem perm_of_storeAll (fits : ∀ p ∈ ps, Fits p)
    (once : (ps.map fun p => Key.ofScalar p.1).Nodup) : t.pairs.Perm ps := by
  have reached := reachable_of_storeAll stored small
  obtain ⟨wf, _⟩ := reached.wellFormed
  have lists := lists_pairs wf small
  have atomic {p : Value × Value} (mem : p ∈ ps) : p.1.scalar = p.1 := by
    obtain ⟨k, filed⟩ := ofScalar_of_usable (fits p mem).1
    exact Value.scalar_eq_self (Key.kind_of_ofScalar filed)
  have distinct : (ps.map fun p => Key.ofScalar p.1.scalar).Nodup := by
    rw [List.map_congr_left fun p mem => by rw [atomic mem]]
    exact once
  -- what is under the key of a pair is its value
  have held {p : Value × Value} (mem : p ∈ ps) : t.get p.1 = p.2 := by
    obtain ⟨free, full, scalar⟩ := fits p mem
    obtain ⟨k, filed⟩ := ofScalar_of_usable free
    have found := find_storeAll_of_mem reachable_empty stored small distinct mem (atomic mem ▸ filed)
    rw [get_eq_find t filed]
    rcases found with same | ⟨_, nil⟩
    · exact same.trans scalar
    · rw [scalar, full] at nil
      cases nil
  have forth {p : Value × Value} (mem : p ∈ t.pairs) : p ∈ ps := by
    obtain ⟨q, listed, same⟩ := (mem_of_storeAll stored small mem).1
    rw [atomic listed] at same
    have value := lists.values p mem
    rw [← same, held listed] at value
    exact (Prod.ext same value : q = p) ▸ listed
  have back {p : Value × Value} (mem : p ∈ ps) : p ∈ t.pairs := by
    have live : (t.get p.1).isNil = false := held mem ▸ (fits p mem).2.1
    obtain ⟨q, listed, same⟩ := (lists.complete p.1 (fits p mem).1).1 live
    exact List.inj_on_of_nodup_map once (forth listed) mem same ▸ listed
  refine (List.perm_ext_iff_of_nodup ?_ ?_).2 fun p => ⟨forth, back⟩
  · exact lists.once.of_map _
  · exact once.of_map _

end

end ScriptMachine.Table
