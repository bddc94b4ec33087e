import ScriptMachine.Proofs.Table.Rows

/-!
# The length of a table is its first border

The length counts the integers from the origin on that have a value, and a value that is appended
comes behind them.

* `length_eq_iff_border`: the length of a well-formed table, known or not, is its border, although
  it looks at the slots only.
* `get_append`: what a table reads as after an append.
* `length_is_border`: so it is for every table that commands lead to.
-/

namespace ScriptMachine.Table

/-- The first `n` integers from the origin on have values, and the next one has none. -/
def Border (t : Table) (n : Nat) : Prop :=
  (∀ i < n, (t.get (.number (.ofNat (t.origin + i)))).isNil = false) ∧
    (t.get (.number (.ofNat (t.origin + n)))).isNil = true

/-- Up to the key behind the last slot, integers read as their slots. -/
theorem get_slot {t : Table} (wf : t.WellFormed) {i : Nat} (within : i ≤ t.slots.size)
    (small : t.slots.size < maxSlots) :
    t.get (.number (.ofNat (t.origin + i))) = t.slots[i]?.getD .nil := by
  have origin := wf.origin_le
  have slot : t.keySlot (.ofNat (i + t.origin)) = some i :=
    (t.keySlot_eq_some_iff (Key.proper_ofNat _) (by simp only [maxSlots] at small; omega)).2 rfl
  rw [Nat.add_comm, get_eq_find t (Key.ofScalar_ofNat _)]
  rcases Nat.lt_or_eq_of_le within with inside | rfl
  · exact find_eq_slot slot inside
  · have absent : t.entryValue (.ofNat (t.slots.size + t.origin)) = .nil := by
      have settled := wf.settled
      rw [nextKey] at settled
      simp only [entryValue, settled]
    rw [find_eq_entry (by simp [slot]), absent]
    simp

theorem length_eq_slotRun {t : Table} (wf : t.WellFormed) : t.length = t.slotRun := by
  rw [← measure_eq_slotRun wf.settled]
  cases known : t.knownLength with
  | none => simp [length, known]
  | some n => simp [length, known, wf.cached n known]

/-- The run of the slots ends at the first that has no value. -/
theorem slotRun_eq_findIdx (t : Table) : t.slotRun = t.slots.toList.findIdx Value.isNil := by
  have run : t.slots.toList.takeWhile (fun v => !v.isNil) = _ := List.takeWhile_eq_take_findIdx_not
  simp only [Bool.not_not] at run
  rw [slotRun, run, List.length_take]
  exact Nat.min_eq_left List.findIdx_le_length

/-- The length is a border. -/
theorem border_length {t : Table} (wf : t.WellFormed) (small : t.slots.size < maxSlots) :
    t.Border t.length := by
  have within := t.slotRun_le
  rw [length_eq_slotRun wf]
  constructor
  · intro i inside
    have present : i < t.slots.size := by omega
    rw [slotRun_eq_findIdx] at inside
    have value := List.not_of_lt_findIdx inside
    rw [get_slot wf (by omega) small]
    simpa [present] using value
  · rw [get_slot wf within small]
    rcases Nat.lt_or_eq_of_le within with inside | full
    · rw [slotRun_eq_findIdx] at inside ⊢
      have first : t.slots.toList.findIdx Value.isNil < t.slots.toList.length := inside
      have empty := List.findIdx_getElem (w := first)
      simpa [inside] using empty
    · simp [full, Value.isNil]

/-- There is one border only. -/
theorem Border.unique {t : Table} {m n : Nat} (hm : t.Border m) (hn : t.Border n) : m = n := by
  rcases Nat.lt_trichotomy m n with below | same | above
  · exact absurd (hn.1 m below) (by simp [hm.2])
  · exact same
  · exact absurd (hm.1 n above) (by simp [hn.2])

theorem length_eq_iff_border {t : Table} (wf : t.WellFormed) (small : t.slots.size < maxSlots)
    (n : Nat) : t.length = n ↔ t.Border n :=
  ⟨fun same => same ▸ border_length wf small, (border_length wf small).unique⟩

/-- An appended value gets the slot behind the last value; all other keys keep theirs. -/
theorem find_append {t : Table} (wf : t.WellFormed) {v : Value} (present : v.scalar.isNil = false)
    (small : t.slots.size < maxSlots) (grown : (t.append v).slots.size < maxSlots) {k : Key}
    (proper : k.Proper) :
    (t.append v).find k = if k = .ofNat (t.length + t.origin) then v.scalar else t.find k := by
  have origin := wf.origin_le
  have within := length_le wf
  have filed := Key.ofScalar_ofNat (t.length + t.origin)
  rw [append_eq_store wf v small] at grown ⊢
  rcases store_cases wf.withKnownLength v.scalar filed grown with
    ⟨i, same, inside, stored⟩ | ⟨i, same, inside, stored⟩ | ⟨_, apart, _⟩
  · rw [stored, find_setSlot v.scalar proper inside, same]
    · rfl
    · have : t.withKnownLength.slots.size = t.slots.size := rfl
      have : t.withKnownLength.origin = t.origin := rfl
      omega
  · rw [stored, size_setSlot] at grown
    rw [stored, find_setSlot v.scalar proper inside, origin_grow, same,
      find_grow wf.withKnownLength.toSound proper _ (Nat.le_of_lt grown)]
    · rfl
    · have : (t.withKnownLength.grow (i + 1)).origin = t.origin := origin_grow _ _
      omega
  · exact absurd rfl (apart present t.length within)

theorem append_wellFormed {t : Table} (wf : t.WellFormed) (v : Value)
    (small : t.slots.size < maxSlots) (grown : (t.append v).slots.size < maxSlots) :
    (t.append v).WellFormed :=
  (after_applies wf (.append v) small grown).1

theorem origin_append (t : Table) (v : Value) : (t.append v).origin = t.origin := by
  simp only [append]
  split
  · rfl
  · split
    · exact origin_grow _ _
    · exact origin_setEntry _ _ _ _

/-- Reading a key that is no tuple after an append. -/
theorem get_append {t : Table} (wf : t.WellFormed) {v : Value} (present : v.scalar.isNil = false)
    (small : t.slots.size < maxSlots) (grown : (t.append v).slots.size < maxSlots) {k : Value}
    (atomic : k.kind ≠ .tuple) :
    (t.append v).get k =
      if k.sameKey (.number (.ofNat (t.origin + t.length))) then v.scalar else t.get k := by
  rw [Nat.add_comm]
  have filed := Key.ofScalar_ofNat (t.length + t.origin)
  cases free : usable k with
  | true =>
    obtain ⟨key, named⟩ := ofScalar_of_usable free
    have same := Value.sameKey_iff named filed (by simp)
    rw [get_eq_find _ named, get_eq_find _ named, find_append wf present small grown ⟨k, named⟩]
    simp only [same]
  | false =>
    obtain ⟨cause, failed⟩ := ofScalar_of_not_usable free
    have other : k.sameKey (.number (.ofNat (t.length + t.origin))) = false := by
      cases equal : k.sameKey (.number (.ofNat (t.length + t.origin))) with
      | false => rfl
      | true =>
        have := (usable_eq_of_sameKey equal).symm.trans free
        simp [usable_of_ofScalar filed] at this
    rw [← Value.scalar_eq_self atomic] at failed
    rw [get_eq_nil _ failed, get_eq_nil _ failed, other]
    rfl

/-- **The length is the first border.** A table that any history of commands led to has as its
length the number of integers from the origin on that have a value, up to the first that has none. A
value whose scalar is not nil is appended under that integer, no other key that is no tuple reads
differently, and the length grows. -/
theorem length_is_border {t : Table} (reached : t.Reachable) :
    (∀ n, t.length = n ↔ t.Border n) ∧
    ∀ v : Value, v.scalar.isNil = false → (t.append v).slots.size < maxSlots →
      (t.append v).get (.number (.ofNat (t.origin + t.length))) = v.scalar ∧
      (∀ k : Value, k.kind ≠ .tuple →
        k.sameKey (.number (.ofNat (t.origin + t.length))) = false →
        (t.append v).get k = t.get k) ∧
      t.length < (t.append v).length := by
  obtain ⟨wf, small⟩ := reached.wellFormed
  refine ⟨length_eq_iff_border wf small, fun v present grown => ?_⟩
  have read : ∀ n, (t.append v).get (.number n) = _ := fun n =>
    get_append wf present small grown (k := .number n) (by simp [Value.kind])
  have here : (t.append v).get (.number (.ofNat (t.origin + t.length))) = v.scalar := by
    rw [read, if_pos]
    exact (Value.sameKey_iff (Key.ofScalar_ofNat _) (Key.ofScalar_ofNat _) (by simp)).2 rfl
  refine ⟨here, fun k atomic other => ?_, Nat.lt_of_not_le fun short => ?_⟩
  · rw [get_append wf present small grown atomic, other]
    rfl
  · -- the first integer that has none now would have had none before, or be the new one
    have before := border_length wf small
    have after := border_length (append_wellFormed wf v small grown) grown
    have empty := after.2
    rw [origin_append] at empty
    rcases Nat.lt_or_eq_of_le short with below | same
    · rw [read] at empty
      split at empty
      · simp [present] at empty
      · simp [before.1 _ below] at empty
    · rw [same, here] at empty
      simp [present] at empty

def holed : Table :=
  replay (withOrigin 1) [.append (.boolean true), .append (.boolean true), .appendPositional .nil,
    .setString "name" (.boolean true)]

theorem holed_reachable : holed.Reachable :=
  reachable_replay (.fresh 1) (by decide +kernel)

/-- An appended value fills the hole, and the length counts what comes behind it. -/
theorem length_is_border_holed :
    holed.Reachable ∧ (Value.string "new").scalar.isNil = false ∧
    (holed.append (.string "new")).slots.size < maxSlots ∧ holed.Border 0 ∧
    (holed.append (.string "new")).get (.number (.ofNat (1 + 0))) = .string "new" ∧
    (holed.append (.string "new")).get (.number 2) = holed.get (.number 2) ∧
    0 < (holed.append (.string "new")).length := by
  have present : (Value.string "new").scalar.isNil = false := by decide
  have grown : (holed.append (.string "new")).slots.size < maxSlots := by decide +kernel
  have length : holed.length = 0 := by decide +kernel
  have origin : holed.origin = 1 := by decide +kernel
  obtain ⟨border, appends⟩ := length_is_border holed_reachable
  obtain ⟨here, others, longer⟩ := appends _ present grown
  rw [length] at here others longer
  rw [origin] at here others
  exact ⟨holed_reachable, present, grown, (border 0).1 length, here,
    others (.number 2) (by decide) (by decide +kernel), longer⟩

/-- Slots from 1 to 64, and an entry that waits for 65 to follow on them. -/
def expectant : Table :=
  replay (withOrigin 1) (.set (.number 66) (.string "moved") ::
    (List.range' 1 64).map fun i : Nat => .setInt i (.boolean true))

/-- Tables hold scalars: a tuple that starts with nil is no nil, but to append it changes nothing.
Nor does reading collapse a tuple before it looks at the slots: under a tuple an entry is found, and
no longer once an appended value has made it a slot. -/
theorem append_of_tuple :
    holed.Reachable ∧ (Value.tuple [.nil, .string "reason"]).isNil = false ∧
    (holed.append (.tuple [.nil, .string "reason"])).length = holed.length ∧
    ((holed.append (.tuple [.nil, .string "reason"])).get (.number 1)).isNil = true ∧
    expectant.Reachable ∧ (Value.tuple [.number 66]).sameKey (.number 65) = false ∧
    (expectant.get (.tuple [.number 66])).asString = some "moved" ∧
    ((expectant.append (.string "new")).get (.tuple [.number 66])).isNil = true :=
  ⟨holed_reachable, by decide, by decide +kernel, by decide +kernel,
    reachable_replay (.fresh 1) (by decide +kernel), by decide +kernel, by decide +kernel,
    by decide +kernel⟩

end ScriptMachine.Table
