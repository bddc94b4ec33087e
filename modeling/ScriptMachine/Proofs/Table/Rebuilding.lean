import ScriptMachine.Proofs.Table.Traversal

/-!
# Tables made anew from their pairs

Pairs that are stored one after the other into an empty table need not be listed there in the order
in which they came: an integer for which the array grows goes before every entry.

* `Settles`: first integers, each behind the one before, and then no key for which the array grows.
* `storeAll_empty`: pairs with such keys are listed as they came.
* `settled_of_keeps`: so are the pairs of a table for none of whose own keys its array grows.
-/

namespace ScriptMachine

theorem Number.eq_ofNat_of_key {n : Number} {i : Nat} (small : i + 1 ≤ 2 ^ 53)
    (h : Key.number (Key.numberBits n) = Key.ofNat (i + 1)) : n = .ofNat (i + 1) := by
  -- both zeros are filed under one key, so that a zero could not be told from its name
  have nonzero {m : Number} (h : Key.number (Key.numberBits m) = Key.ofNat (i + 1)) :
      m.isZero = false := by
    cases zero : m.isZero with
    | false => rfl
    | true =>
      have origin : Key.number (Key.numberBits m) = Key.ofNat 0 := by
        rw [Key.numberBits, zero]
        rfl
      have := Key.ofNat_inj (by omega) small (origin.symm.trans h)
      omega
  have bits : Key.numberBits n = Key.numberBits (.ofNat (i + 1)) := Key.number.inj h
  rw [Key.numberBits, nonzero h, Key.numberBits, nonzero rfl] at bits
  exact congrArg Number.mk bits

namespace Table

/-- Stored in this order into a table of so many slots, the keys stay in it: first come integers,
each behind the one before, then keys for which the array does not grow. -/
inductive Settles : Nat → List Value → Prop
  | beyond {size : Nat} {keys : List Value}
      (far : ∀ k ∈ keys, ∀ i, empty.slotOfKey k = some i → max size growthWindow * 2 ≤ i) :
      Settles size keys
  | next {size i : Nat} {key : Value} {keys : List Value} (slot : empty.slotOfKey key = some i)
      (behind : size ≤ i) (small : i + 1 < maxSlots) (rest : Settles (i + 1) keys) :
      Settles size (key :: keys)

theorem settles_cons {size : Nat} {key : Value} {keys : List Value} :
    Settles size (key :: keys) ↔
      (∀ k ∈ key :: keys, ∀ i ∈ empty.slotOfKey k, max size growthWindow * 2 ≤ i) ∨
      ∃ i ∈ empty.slotOfKey key, size ≤ i ∧ i + 1 < maxSlots ∧ Settles (i + 1) keys := by
  constructor
  · rintro (far | ⟨slot, behind, small, rest⟩)
    · exact .inl far
    · exact .inr ⟨_, slot, behind, small, rest⟩
  · rintro (far | ⟨i, slot, behind, small, rest⟩)
    · exact .beyond far
    · exact .next slot behind small rest

instance decidableSettles : (size : Nat) → (keys : List Value) → Decidable (Settles size keys)
  | _, [] => .isTrue (.beyond nofun)
  | _, _ :: keys =>
    have (i : Nat) := decidableSettles (i + 1) keys
    decidable_of_iff _ settles_cons.symm

/-- The keys of a table come in an order that they have in a table made anew, too. -/
def Settled (t : Table) : Prop := Settles 0 t.keys

instance decidableSettled (t : Table) : Decidable t.Settled :=
  inferInstanceAs (Decidable (Settles 0 t.keys))

/-- A table into which nothing but values under new keys was stored. -/
structure Rebuilt (t : Table) : Prop where
  origin : t.origin = 1
  quiet : t.mayHoldTombstones = false
  filed : ∀ e ∈ t.entries, Key.ofScalar e.name = .ok e.key ∧ e.value.isNil = false

theorem rebuilt_empty : Rebuilt empty := ⟨rfl, rfl, nofun⟩

theorem slotOfKey_congr {t t' : Table} (same : t.origin = t'.origin) (key : Value) :
    t.slotOfKey key = t'.slotOfKey key := by
  cases key <;> simp [slotOfKey, slotOf, same]

theorem number_of_key {name : Value} {i : Nat} (small : i + 1 ≤ 2 ^ 53)
    (filed : Key.ofScalar name = .ok (.ofNat (i + 1))) : name = .number (.ofNat (i + 1)) := by
  cases name with
  | number n =>
    simp only [Key.ofScalar] at filed
    split at filed
    · cases filed
    · rw [Number.eq_ofNat_of_key small (Except.ok.inj filed)]
  | _ => simp [Key.ofScalar, Key.ofNat] at filed

theorem name_of_slot {name : Value} {k : Key} (filed : Key.ofScalar name = .ok k) {i : Nat}
    (slot : empty.slotOfKey name = some i) (small : i + 1 < maxSlots) :
    name = .number (.ofNat (i + 1)) := by
  have bound : i + empty.origin ≤ 2 ^ 53 := Nat.le_of_lt small
  rw [empty.slotOfKey_eq_keySlot filed, empty.keySlot_eq_some_iff ⟨name, filed⟩ bound] at slot
  exact number_of_key (Nat.le_of_lt small) (slot ▸ filed)

/-- Without entries growth only adds slots. -/
theorem grow_of_bare {t : Table} (bare : t.entries = []) (size : Nat) :
    t.grow size = { t with
      slots := t.slots ++ Array.replicate (size - t.slots.size) .nil, knownLength := none } := by
  have pushed (count : Nat) : t.pushSlots count =
      { t with slots := t.slots ++ Array.replicate count .nil } := by
    induction count generalizing t with
    | zero => simp [pushSlots]
    | succ count ih =>
      have one : t.pushSlot = { t with slots := t.slots.push .nil } := by
        simp [pushSlot, bare, entryValue, findEntry, eraseEntry]
      have slots : t.slots.push .nil ++ Array.replicate count .nil =
          t.slots ++ Array.replicate (count + 1) .nil := by
        apply Array.toList_inj.1
        simp [List.replicate_succ]
      rw [pushSlots, one, ih (by exact bare), slots]
  rw [grow, pushed]
  simp [bare, absorb]

/-- A new key that gets no slot comes behind the entries. -/
theorem Rebuilt.entry {t : Table} (built : Rebuilt t) {name : Value} {k : Key} {v : Value}
    (filed : Key.ofScalar name = .ok k) (full : v.isNil = false)
    (new : findEntry t.entries k = none)
    (far : ∀ i, t.slotOfKey name = some i → max t.slots.size growthWindow * 2 ≤ i) :
    Rebuilt (t.store k name v) ∧ (t.store k name v).slots = t.slots ∧
    (t.store k name v).pairs = t.pairs ++ [(name, v)] := by
  have stored : t.store k name v = t.setEntry k name v := by
    rw [store]
    split
    · rename_i i slot
      have := far i slot
      rw [if_neg (by omega), if_neg (by simp; omega)]
    · rfl
  have last : writeEntry t.entries k name v = t.entries ++ [⟨k, name, v⟩] := by
    simp [writeEntry, new, full]
  obtain ⟨known, written⟩ : ∃ known, t.setEntry k name v =
      { t with entries := t.entries ++ [⟨k, name, v⟩], knownLength := known } := by
    simp only [setEntry, new, full, built.quiet, last, Bool.and_false, Bool.false_and,
      Bool.false_eq_true, if_false]
    cases name <;> exact ⟨_, rfl⟩
  rw [stored, written]
  refine ⟨⟨built.origin, built.quiet, fun e mem => ?_⟩, rfl, ?_⟩
  · rcases List.mem_append.1 mem with old | new
    · exact built.filed e old
    · obtain rfl := List.mem_singleton.1 new
      exact ⟨filed, full⟩
  · have more : livePairs [⟨k, name, v⟩] = [(name, v)] := by simp [livePairs, full]
    rw [pairs, livePairs_append, more, ← List.append_assoc]
    rfl

theorem slotPairsFrom_append (origin start : Nat) (vs ws : List Value) :
    slotPairsFrom origin start (vs ++ ws) =
      slotPairsFrom origin start vs ++ slotPairsFrom origin (start + vs.length) ws := by
  simp only [← livePairs_slotRows, slotRows_append, livePairs_append]

/-- Cleared slots and one with a value behind them. -/
theorem slotPairsFrom_gap (origin start gap : Nat) {v : Value} (full : v.isNil = false) :
    slotPairsFrom origin start (List.replicate gap .nil ++ [v]) =
      [(.number (.ofNat (start + gap + origin)), v)] := by
  induction gap generalizing start with
  | zero => simp [slotPairsFrom, full]
  | succ gap ih =>
    have shift : start + 1 + gap = start + (gap + 1) := by omega
    rw [List.replicate_succ, List.cons_append, slotPairsFrom, ih, shift]
    rfl

/-- Without entries an integer behind the slots gets a slot, and comes behind them. -/
theorem Rebuilt.slot {t : Table} (built : Rebuilt t) {name : Value} {k : Key} {v : Value}
    (filed : Key.ofScalar name = .ok k) (full : v.isNil = false) (bare : t.entries = []) {i : Nat}
    (slot : t.slotOfKey name = some i) (behind : t.slots.size ≤ i)
    (near : i < max t.slots.size growthWindow * 2) (small : i + 1 < maxSlots) :
    Rebuilt (t.store k name v) ∧ (t.store k name v).slots.size = i + 1 ∧
    (t.store k name v).entries = [] ∧ (t.store k name v).pairs = t.pairs ++ [(name, v)] := by
  have named : name = .number (.ofNat (i + 1)) :=
    name_of_slot filed ((slotOfKey_congr built.origin.symm name).trans slot) small
  obtain ⟨gap, rfl⟩ := Nat.exists_eq_add_of_le behind
  have added : t.slots.size + gap + 1 - t.slots.size = gap + 1 := by omega
  have slots : (t.slots ++ Array.replicate (gap + 1) Value.nil).setIfInBounds (t.slots.size + gap) v =
      t.slots ++ (List.replicate gap Value.nil ++ [v]).toArray := by
    apply Array.toList_inj.1
    simp [List.replicate_succ']
  have stored : t.store k name v = { t with
      slots := t.slots ++ (List.replicate gap Value.nil ++ [v]).toArray, knownLength := none } := by
    rw [store, slot]
    simp only [Nat.not_lt.2 behind, full, near, if_false, if_true, Bool.not_false, decide_true,
      Bool.and_self, grow_of_bare bare, added]
    simp [setSlot, bare, eraseEntry, slots]
  rw [stored]
  refine ⟨⟨built.origin, built.quiet, built.filed⟩, by simp; omega, bare, ?_⟩
  have whole : (t.slots ++ (List.replicate gap Value.nil ++ [v]).toArray).toList =
      t.slots.toList ++ (List.replicate gap Value.nil ++ [v]) := by simp
  have none : livePairs t.entries = [] := by rw [bare]; rfl
  simp only [pairs, slotPairs, none, List.append_nil]
  rw [whole, slotPairsFrom_append, slotPairsFrom_gap _ _ _ full, named, built.origin, Nat.zero_add,
    Array.length_toList]

/-- What can be stored under a new key of a table made anew. -/
def Fits (p : Value × Value) : Prop :=
  usable p.1 = true ∧ p.2.isNil = false ∧ p.2.scalar = p.2

theorem Rebuilt.findEntry_eq_none {t : Table} (built : Rebuilt t) {k : Key}
    (new : ∀ p ∈ t.pairs, Key.ofScalar p.1 ≠ .ok k) : findEntry t.entries k = none := by
  refine findEntry_eq_none_iff.2 fun e mem same => ?_
  obtain ⟨filed, full⟩ := built.filed e mem
  have listed : (e.name, e.value) ∈ t.pairs :=
    List.mem_append_right _ (List.mem_map.2 ⟨e, List.mem_filter.2 ⟨mem, by simp [full]⟩, rfl⟩)
  exact new _ listed (same ▸ filed)

theorem storeAll_cons {t : Table} {p : Value × Value} {k : Key} (fits : Fits p)
    (filed : Key.ofScalar p.1 = .ok k) (ps : List (Value × Value)) :
    t.storeAll (p :: ps) = (t.store k p.1 p.2).storeAll ps := by
  have atomic : p.1.scalar = p.1 := Value.scalar_eq_self (Key.kind_of_ofScalar filed)
  have stored : t.set p.1 p.2 = .ok (t.store k p.1 p.2) := by
    rw [← atomic] at filed
    rw [set_of_usable filed, atomic, fits.2.2]
  have steps : t.storeAll (p :: ps) = (t.set p.1 p.2 >>= fun t => t.storeAll ps) := rfl
  rw [steps, stored]
  rfl

/-- A key that comes after others is new to a table that lists these. -/
theorem new_of_nodup {t : Table} {p : Value × Value} {ps : List (Value × Value)} {k : Key}
    (once : ((t.pairs ++ p :: ps).map fun p => Key.ofScalar p.1).Nodup)
    (filed : Key.ofScalar p.1 = .ok k) : ∀ q ∈ t.pairs, Key.ofScalar q.1 ≠ .ok k := by
  intro q mem same
  rw [List.map_append, List.map_cons] at once
  exact (List.nodup_append.1 once).2.2 _ (List.mem_map_of_mem mem) _ List.mem_cons_self
    (same.trans filed.symm)

/-- Keys for which the array does not grow come behind the others. -/
theorem Rebuilt.storeAll_beyond {t : Table} (built : Rebuilt t) {ps : List (Value × Value)}
    (fits : ∀ p ∈ ps, Fits p) (once : ((t.pairs ++ ps).map fun p => Key.ofScalar p.1).Nodup)
    (far : ∀ k ∈ ps.map Prod.fst, ∀ i, empty.slotOfKey k = some i →
      max t.slots.size growthWindow * 2 ≤ i) :
    ∃ t', t.storeAll ps = .ok t' ∧ t'.pairs = t.pairs ++ ps := by
  induction ps generalizing t with
  | nil => exact ⟨t, rfl, (List.append_nil _).symm⟩
  | cons p ps ih =>
    obtain ⟨free, full, _⟩ := fits p List.mem_cons_self
    obtain ⟨k, filed⟩ := ofScalar_of_usable free
    rw [List.map_cons, List.forall_mem_cons] at far
    have new := built.findEntry_eq_none (new_of_nodup once filed)
    obtain ⟨built', slots, pairs⟩ := built.entry filed full new fun i slot =>
      far.1 i ((slotOfKey_congr built.origin.symm p.1).trans slot)
    have split : t.pairs ++ p :: ps = (t.store k p.1 p.2).pairs ++ ps := by rw [pairs]; simp
    rw [split] at once
    obtain ⟨t', stored, listed⟩ := ih built' (fun q mem => fits q (List.mem_cons_of_mem _ mem)) once
      (by rw [slots]; exact far.2)
    exact ⟨t', (storeAll_cons (fits p List.mem_cons_self) filed ps).trans stored, listed.trans split.symm⟩

/-- Keys in a settled order come in that order. What carries the induction: once there are entries,
every integer that follows lies behind all that growth may add. -/
theorem Rebuilt.storeAll_settles {t : Table} (built : Rebuilt t) {size : Nat}
    {ps : List (Value × Value)} (settles : Settles size (ps.map Prod.fst)) (room : t.slots.size ≤ size)
    (order : t.entries = [] ∨ max t.slots.size growthWindow * 2 ≤ size) (fits : ∀ p ∈ ps, Fits p)
    (once : ((t.pairs ++ ps).map fun p => Key.ofScalar p.1).Nodup) :
    ∃ t', t.storeAll ps = .ok t' ∧ t'.pairs = t.pairs ++ ps := by
  induction ps generalizing t size with
  | nil => exact ⟨t, rfl, (List.append_nil _).symm⟩
  | cons p ps ih =>
    rw [List.map_cons] at settles
    cases settles with
    | beyond far =>
      refine built.storeAll_beyond fits once fun k mem i slot => ?_
      have := far k mem i slot
      omega
    | next slot behind small rest =>
      rename_i i
      obtain ⟨free, full, _⟩ := fits p List.mem_cons_self
      obtain ⟨k, filed⟩ := ofScalar_of_usable free
      have own : t.slotOfKey p.1 = some i := (slotOfKey_congr built.origin p.1).trans slot
      have step (built' : Rebuilt (t.store k p.1 p.2))
          (pairs : (t.store k p.1 p.2).pairs = t.pairs ++ [p])
          (room' : (t.store k p.1 p.2).slots.size ≤ i + 1)
          (order' : (t.store k p.1 p.2).entries = [] ∨
            max (t.store k p.1 p.2).slots.size growthWindow * 2 ≤ i + 1) :
          ∃ t', t.storeAll (p :: ps) = .ok t' ∧ t'.pairs = t.pairs ++ p :: ps := by
        have split : t.pairs ++ p :: ps = (t.store k p.1 p.2).pairs ++ ps := by rw [pairs]; simp
        rw [split] at once ⊢
        rw [storeAll_cons (fits p List.mem_cons_self) filed]
        exact ih built' rest room' order' (fun q mem => fits q (List.mem_cons_of_mem _ mem)) once
      by_cases grows : t.entries = [] ∧ i < max t.slots.size growthWindow * 2
      · obtain ⟨built', size, bare, pairs⟩ := built.slot filed full grows.1 own
          (Nat.le_trans room behind) grows.2 small
        exact step built' pairs (Nat.le_of_eq size) (.inl bare)
      · have far : max t.slots.size growthWindow * 2 ≤ i := by
          rcases order with bare | above
          · exact Nat.not_lt.1 fun near => grows ⟨bare, near⟩
          · exact Nat.le_trans above behind
        have new := built.findEntry_eq_none (new_of_nodup once filed)
        obtain ⟨built', slots, pairs⟩ := built.entry filed full new fun j slot => by
          obtain rfl := Option.some.inj (own.symm.trans slot)
          exact far
        refine step built' pairs ?_ (.inr ?_) <;> rw [slots] <;> omega

/-- Pairs whose keys come in a settled order make a table that lists them. -/
theorem storeAll_empty {ps : List (Value × Value)} (settles : Settles 0 (ps.map Prod.fst))
    (fits : ∀ p ∈ ps, Fits p) (once : (ps.map fun p => Key.ofScalar p.1).Nodup) :
    ∃ t, empty.storeAll ps = .ok t ∧ t.pairs = ps :=
  rebuilt_empty.storeAll_settles settles (Nat.zero_le 0) (.inl rfl) fits once

theorem Settles.mono {size size' : Nat} {keys : List Value} (h : Settles size keys)
    (le : size' ≤ size) : Settles size' keys := by
  cases h with
  | beyond far =>
    refine .beyond fun k mem i slot => ?_
    have := far k mem i slot
    omega
  | next slot behind small rest => exact .next slot (Nat.le_trans le behind) small rest

/-- Slots come in order, whether they hold something or not. -/
theorem settles_slotPairs {start : Nat} {vs : List Value} (small : start + vs.length < maxSlots)
    {keys : List Value} (rest : Settles (start + vs.length) keys) :
    Settles start ((slotPairsFrom 1 start vs).map Prod.fst ++ keys) := by
  induction vs generalizing start with
  | nil => exact rest
  | cons v vs ih =>
    rw [List.length_cons] at small rest
    have later : Settles (start + 1) ((slotPairsFrom 1 (start + 1) vs).map Prod.fst ++ keys) :=
      ih (by omega) (rest.mono (by omega))
    cases empty : v.isNil with
    | true =>
      have skipped : slotPairsFrom 1 start (v :: vs) = slotPairsFrom 1 (start + 1) vs := by
        simp [slotPairsFrom, empty]
      rw [skipped]
      exact later.mono (Nat.le_succ start)
    | false =>
      have first : slotPairsFrom 1 start (v :: vs) =
          (.number (.ofNat (start + 1)), v) :: slotPairsFrom 1 (start + 1) vs := by
        simp [slotPairsFrom, empty]
      have filed := Key.ofScalar_ofNat (start + 1)
      have slot : Table.empty.slotOfKey (.number (.ofNat (start + 1))) = some start := by
        rw [Table.empty.slotOfKey_eq_keySlot filed]
        exact (Table.empty.keySlot_eq_some_iff ⟨_, filed⟩ (by
          simp only [maxSlots] at small
          have : Table.empty.origin = 1 := rfl
          omega)).2 rfl
      rw [first]
      exact .next slot (Nat.le_refl start) (by omega) later

/-- A table settles whose array starts at one and grows for none of the keys that have a value. -/
theorem settled_of_keeps {t : Table} (reached : t.Reachable) (origin : t.origin = 1)
    (keeps : ∀ key ∈ t.keys, t.Keeps key) : t.Settled := by
  obtain ⟨wf, small⟩ := reached.wellFormed
  rw [Settled, keys, pairs, List.map_append, slotPairs, origin]
  refine settles_slotPairs (by simpa using small) (.beyond fun k mem i slot => ?_)
  obtain ⟨p, listed, rfl⟩ := List.mem_map.1 mem
  obtain ⟨e, live, rfl⟩ := List.mem_map.1 listed
  have entry := (List.mem_filter.1 live).1
  have key : e.name ∈ t.keys := List.mem_map.2 ⟨_, List.mem_append_right _ listed, rfl⟩
  have own : t.slotOfKey e.name = some i := (slotOfKey_congr origin e.name).trans slot
  rcases keeps e.name key i own with inside | far
  · have filed := wf.named e entry
    rw [t.slotOfKey_eq_keySlot filed] at own
    have bound := bound_of_slot wf small (Nat.le_of_lt inside)
    exact absurd ((t.keySlot_eq_some_iff ⟨_, filed⟩ bound).1 own) (wf.outside e entry i inside)
  · simpa using far

end Table

end ScriptMachine
