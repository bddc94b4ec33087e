import ScriptMachine.Proofs.Table.Rebuilding

/-!
# How far the array grows

A store adds at most the slots up to its own key: what growth absorbs beyond them was an entry
before. So slots and entries are counted together.

* `Adds`, `Mutation.adds_after`: what one mutation may add.
* `extent_replay_le`: mutations that never reach far past the end add no more than that each.
* `weight_replay_le`: any mutation at most doubles what there is.
* `Rebuilt.replay_doubling`: stores can do so one after the other.
-/

namespace ScriptMachine.Table

/-- Slots and entries together. -/
def extent (t : Table) : Nat := t.slots.size + t.entries.length

/-- A change by at most one more entry, and at most so many more slots than entries that it takes. -/
structure Adds (room : Nat) (t t' : Table) : Prop where
  entries : t'.entries.length ≤ t.entries.length + 1
  extent : t'.extent ≤ t.extent + room

theorem Adds.mono {room room' : Nat} {t t' : Table} (h : Adds room t t') (le : room ≤ room') :
    Adds room' t t' := ⟨h.entries, Nat.le_trans h.extent (Nat.add_le_add_left le _)⟩

/-- Nothing is added where slots and entries only go. -/
theorem Adds.of_sublist {t t' : Table} (slots : t'.slots.size ≤ t.slots.size)
    (entries : t'.entries.Sublist t.entries) : Adds 0 t t' := by
  have fewer := entries.length_le
  exact ⟨Nat.le_succ_of_le fewer, by simp only [Table.extent]; omega⟩

theorem adds_setSlot (t : Table) (i : Nat) (v : Value) : Adds 0 t (t.setSlot i v) :=
  .of_sublist (Nat.le_of_eq (t.size_setSlot i v)) (.refl _)

theorem extent_pushSlot_le (t : Table) : t.pushSlot.extent ≤ t.extent + 1 := by
  have fewer : (eraseEntry t.entries t.nextKey).length ≤ t.entries.length :=
    List.eraseP_sublist.length_le
  simp only [extent, pushSlot, Array.size_push]
  omega

/-- A slot that takes in an entry is no gain. -/
theorem extent_pushSlot {t : Table} (waits : (findEntry t.entries t.nextKey).isSome = true) :
    t.pushSlot.extent = t.extent := by
  obtain ⟨e, found⟩ := Option.isSome_iff_exists.1 waits
  obtain ⟨mem, same⟩ := findEntry_mem found
  have one := List.length_eraseP_of_mem (p := fun e => e.key == t.nextKey) mem (by simp [same])
  have some := List.length_pos_of_mem mem
  simp only [extent, pushSlot, eraseEntry, Array.size_push, one]
  omega

theorem extent_pushSlots_le (t : Table) (count : Nat) :
    (t.pushSlots count).extent ≤ t.extent + count := by
  induction count generalizing t with
  | zero => exact Nat.le_refl _
  | succ count ih =>
    have first := t.extent_pushSlot_le
    have rest := ih t.pushSlot
    rw [pushSlots]
    omega

theorem extent_absorb (t : Table) (fuel : Nat) : (t.absorb fuel).extent = t.extent := by
  induction fuel generalizing t with
  | zero => rfl
  | succ fuel ih =>
    rw [absorb]
    split
    case isTrue waits => rw [ih, extent_pushSlot waits]
    case isFalse => rfl

theorem extent_grow_le (t : Table) (size : Nat) :
    (t.grow size).extent ≤ t.extent + (size - t.slots.size) := by
  have grown : (t.grow size).extent = (t.pushSlots (size - t.slots.size)).extent :=
    extent_absorb _ _
  exact grown ▸ t.extent_pushSlots_le _

/-- Growth up to a slot, with a value put there and entries dropped. -/
theorem adds_grow (t : Table) (i : Nat) {t' : Table}
    (slots : t'.slots.size ≤ (t.grow (i + 1)).slots.size)
    (entries : t'.entries.Sublist (t.grow (i + 1)).entries) : Adds (i + 1 - t.slots.size) t t' := by
  have kept := (Adds.of_sublist slots entries).extent
  have grown := t.extent_grow_le (i + 1)
  have fewer := (entries.trans (t.entries_grow_sublist (i + 1))).length_le
  exact ⟨Nat.le_succ_of_le fewer, by omega⟩

theorem length_writeEntry_le (es : List Entry) (k : Key) (name v : Value) :
    (writeEntry es k name v).length ≤ es.length + 1 := by
  rw [writeEntry]
  split
  · simp [replaceValue]
  · split <;> simp

theorem adds_setEntry (t : Table) (k : Key) (name v : Value) : Adds 1 t (t.setEntry k name v) := by
  have written := length_writeEntry_le t.entries k name v
  have entries : (t.setEntry k name v).entries.length ≤ t.entries.length + 1 := by
    rcases t.setEntry_cases k name v with ⟨same, _⟩ | ⟨_, _, _, same, _, _, rfl | ⟨rfl, _⟩⟩ <;>
      rw [same]
    · exact Nat.le_succ _
    · exact Nat.le_trans (List.length_filter_le _ _) written
    · exact written
  refine ⟨entries, ?_⟩
  simp only [extent, slots_setEntry]
  omega

def growthSlot? (t : Table) (key value : Value) : Option Nat :=
  if value.isNil then none
  else (t.slotOfKey key).filter fun i =>
    t.slots.size ≤ i && i < max t.slots.size growthWindow * 2

/-- What a store may add: the slots up to the one the array grows for, or else an entry. -/
def room (t : Table) : Option Nat → Nat
  | some i => i + 1 - t.slots.size
  | none => 1

theorem growthSlot?_eq_some_iff {t : Table} {key value : Value} {i : Nat} :
    t.growthSlot? key value = some i ↔ value.isNil = false ∧ t.slotOfKey key = some i ∧
      t.slots.size ≤ i ∧ i < max t.slots.size growthWindow * 2 := by
  cases empty : value.isNil <;> simp [growthSlot?, empty, Option.filter_eq_some_iff]

theorem one_le_room_growthSlot? (t : Table) (key value : Value) :
    1 ≤ t.room (t.growthSlot? key value) := by
  cases grows : t.growthSlot? key value with
  | none => exact Nat.le_refl 1
  | some i =>
    have behind := (growthSlot?_eq_some_iff.1 grows).2.2.1
    rw [room]
    omega

theorem adds_store (t : Table) (k : Key) (name v : Value) :
    Adds (t.room (t.growthSlot? name v)) t (t.store k name v) := by
  have entry : Adds (t.room (t.growthSlot? name v)) t (t.setEntry k name v) :=
    (t.adds_setEntry k name v).mono (t.one_le_room_growthSlot? name v)
  cases slot : t.slotOfKey name with
  | none => simpa only [store, slot] using entry
  | some i =>
    simp only [store, slot]
    split
    case isTrue => exact (t.adds_setSlot i v).mono (Nat.zero_le _)
    case isFalse outside =>
      split
      case isTrue near =>
        have grows : t.growthSlot? name v = some i :=
          growthSlot?_eq_some_iff.2 ⟨by simp_all, slot, by omega, by simp_all⟩
        rw [grows]
        exact t.adds_grow i (Nat.le_of_eq (size_setSlot ..)) List.eraseP_sublist
      case isFalse => exact entry

theorem adds_append (t : Table) (v : Value) : Adds 1 t (t.append v) := by
  -- asking for the length leaves slots and entries as they are
  suffices known : Adds 1 t.withKnownLength (t.append v) from ⟨known.entries, known.extent⟩
  rw [append]
  split
  case isTrue => exact (adds_setSlot ..).mono (Nat.zero_le 1)
  case isFalse =>
    split
    case isTrue next =>
      have last : t.length = t.withKnownLength.slots.size := by simp_all
      exact (t.withKnownLength.adds_grow t.length (Nat.le_of_eq (size_setSlot ..)) (.refl _)).mono (by omega)
    case isFalse => exact adds_setEntry ..

def Mutation.growthSlot? (t : Table) (m : Mutation) : Option Nat :=
  match m.write? t with
  | some (.put key value) => t.growthSlot? key value
  | _ => none

theorem Mutation.one_le_room (t : Table) (m : Mutation) : 1 ≤ t.room (m.growthSlot? t) := by
  rw [growthSlot?]
  split
  · exact t.one_le_room_growthSlot? ..
  · exact Nat.le_refl 1

theorem adds_remove (t : Table) (key : Value) : Adds 0 t (t.remove key).2 := by
  rw [remove]
  split
  · exact t.adds_setSlot ..
  · split
    · exact .of_sublist (Nat.le_refl _) List.eraseP_sublist
    · exact .of_sublist (Nat.le_refl _) (.refl _)

theorem after_setInt (t : Table) (i : Int) (v : Value) :
    ∃ k, Key.ofScalar (.number (.ofInt i)) = .ok k ∧
      (Mutation.setInt i v).after t = t.store k (.number (.ofInt i)) v.scalar := by
  have free : usable (.number (.ofInt i)) = true := usable_ofRatio ..
  obtain ⟨k, filed⟩ := ofScalar_of_usable free
  have stored : t.set (.number (.ofInt i)) v = .ok (t.store k (.number (.ofInt i)) v.scalar) :=
    set_of_usable (by simpa [Value.scalar] using filed) v
  have run : (Mutation.setInt i v).run t = _ := run_set t (.number (.ofInt i)) v
  exact ⟨k, filed, by rw [Mutation.after, run, stored]; rfl⟩

theorem after_appendPositional (t : Table) (v : Value) :
    (Mutation.appendPositional v).after t = { t with cursor := t.cursor + 1 }.store
      (.ofNat (t.cursor + t.origin)) (.number (.ofNat (t.cursor + t.origin))) v.scalar := by
  have filed := Key.ofScalar_ofNat (t.cursor + t.origin)
  have stored : { t with cursor := t.cursor + 1 }.set (.number (.ofNat (t.cursor + t.origin))) v =
      .ok _ := set_of_usable (by simpa [Value.scalar] using filed) v
  rw [Mutation.after, run_appendPositional, appendPositional, stored]
  rfl

/-- What one mutation adds, failed or not. -/
theorem Mutation.adds_after (t : Table) (m : Mutation) :
    Adds (t.room (m.growthSlot? t)) t (m.after t) := by
  have small {room : Nat} {t' : Table} (h : Adds room t t') (le : room ≤ 1) :
      Adds (t.room (m.growthSlot? t)) t t' := h.mono (Nat.le_trans le (m.one_le_room t))
  cases m with
  | set key value =>
    cases free : usable key.scalar with
    | true =>
      obtain ⟨k, filed⟩ := ofScalar_of_usable free
      simp only [after, run_set, set_of_usable filed, changed, growthSlot?, write?, free, if_true]
      exact t.adds_store ..
    | false =>
      obtain ⟨cause, failed⟩ := ofScalar_of_not_usable free
      simp only [after, run_set, set_of_not_usable failed, changed]
      exact small (.of_sublist (Nat.le_refl _) (.refl _)) (Nat.zero_le 1)
  | setInt key value =>
    obtain ⟨k, _, stored⟩ := t.after_setInt key value
    exact stored ▸ t.adds_store ..
  | setString key value => exact small (t.adds_setEntry (.string key) (.string key) _) (Nat.le_refl 1)
  | append value => exact small (t.adds_append value) (Nat.le_refl 1)
  | appendPositional value =>
    have stored := { t with cursor := t.cursor + 1 }.adds_store (.ofNat (t.cursor + t.origin))
      (.number (.ofNat (t.cursor + t.origin))) value.scalar
    rw [← after_appendPositional] at stored
    exact ⟨stored.entries, stored.extent⟩
  | remove key => exact small (t.adds_remove key) (Nat.zero_le 1)
  | sweep => exact small (.of_sublist (Nat.le_refl _) List.filter_sublist) (Nat.zero_le 1)
  | clear => exact small (.of_sublist (Nat.zero_le _) (List.nil_sublist _)) (Nat.zero_le 1)
  | length => exact small (.of_sublist (Nat.le_refl _) (.refl _)) (Nat.zero_le 1)

/-- No mutation of the history makes the array grow for a slot more than `reach` past its end. -/
def Paced (reach : Nat) : Table → List Mutation → Prop
  | _, [] => True
  | t, m :: rest =>
    (∀ i ∈ m.growthSlot? t, i ≤ t.slots.size + reach) ∧ Paced reach (m.after t) rest

instance decidablePaced (reach : Nat) : (t : Table) → (ms : List Mutation) →
    Decidable (Paced reach t ms)
  | _, [] => inferInstanceAs (Decidable True)
  | t, m :: rest =>
    have := decidablePaced reach (m.after t) rest
    inferInstanceAs (Decidable (_ ∧ _))

theorem extent_replay_le {reach : Nat} {t : Table} {ms : List Mutation} (paced : Paced reach t ms) :
    (replay t ms).extent ≤ t.extent + (reach + 1) * ms.length := by
  induction ms generalizing t with
  | nil => exact Nat.le_refl _
  | cons m rest ih =>
    have near : t.room (m.growthSlot? t) ≤ reach + 1 := by
      cases grows : m.growthSlot? t with
      | none => exact Nat.le_add_left 1 reach
      | some i =>
        have := paced.1 i grows
        simp only [room]
        omega
    have first := (m.adds_after t).extent
    have later := ih paced.2
    rw [replay, List.length_cons, Nat.mul_succ]
    omega

/-- Slots, or as many as growth always allows for, and entries. -/
def weight (t : Table) : Nat := max t.slots.size growthWindow + t.entries.length

/-- What one mutation adds is less than what there is. -/
theorem weight_after_le (t : Table) (m : Mutation) : (m.after t).weight ≤ 2 * t.weight := by
  have window : t.room (m.growthSlot? t) ≤ max t.slots.size growthWindow * 2 - t.slots.size := by
    rw [Mutation.growthSlot?]
    split
    case h_1 key value _ =>
      cases grows : t.growthSlot? key value with
      | none => simp only [room, growthWindow]; omega
      | some i =>
        have := (growthSlot?_eq_some_iff.1 grows).2.2
        simp only [room]
        omega
    case h_2 => simp only [room, growthWindow]; omega
  obtain ⟨entries, extent⟩ := m.adds_after t
  simp only [weight, growthWindow, Table.extent] at *
  omega

theorem weight_replay_le (t : Table) (ms : List Mutation) :
    (replay t ms).weight ≤ 2 ^ ms.length * t.weight := by
  induction ms generalizing t with
  | nil => simp [replay]
  | cons m rest ih =>
    calc (replay (m.after t) rest).weight
        ≤ 2 ^ rest.length * (m.after t).weight := ih _
      _ ≤ 2 ^ rest.length * (2 * t.weight) := Nat.mul_le_mul_left _ (t.weight_after_le m)
      _ = 2 ^ (m :: rest).length * t.weight := by rw [List.length_cons, Nat.pow_succ, Nat.mul_assoc]

/-- **Slots for the work done.** Where no mutation makes the array grow for a slot more than `reach`
past its end, there are at most `reach + 1` slots for each; and without that, twice as many with each
as there may be without it. -/
theorem slots_of_work (origin reach : Nat) (ms : List Mutation) :
    (Paced reach (withOrigin origin) ms →
      (replay (withOrigin origin) ms).slots.size ≤ (reach + 1) * ms.length) ∧
    (replay (withOrigin origin) ms).slots.size ≤ growthWindow * 2 ^ ms.length := by
  constructor
  · intro paced
    have whole := extent_replay_le paced
    have start : (withOrigin origin).extent = 0 := rfl
    rw [start, extent] at whole
    omega
  · have whole := weight_replay_le (withOrigin origin) ms
    have start : (withOrigin origin).weight = growthWindow := rfl
    rw [start, weight] at whole
    rw [Nat.mul_comm]
    omega

/-- Two stores reach as far past the end as `growthWindow`, and one so far that it stays an entry. -/
def strides : List Mutation :=
  [.append (.boolean true), .setInt 34 (.boolean true), .set (.number (.ofNat 67)) (.string "far"),
    .setInt 200 (.string "kept"), .appendPositional .nil]

theorem slots_of_work_strides :
    Paced growthWindow (withOrigin 1) strides ∧ (replay (withOrigin 1) strides).slots.size = 67 ∧
    (replay (withOrigin 1) strides).slots.size ≤ 33 * 5 := by
  have paced : Paced growthWindow (withOrigin 1) strides := by decide +kernel
  exact ⟨paced, by decide +kernel, (slots_of_work 1 growthWindow strides).1 paced⟩

def doubling (start : Nat) : Nat → List Int
  | 0 => []
  | count + 1 => start :: doubling (2 * start) count

def marks (keys : List Int) : List Mutation := keys.map fun i => .setInt i (.boolean true)

theorem length_doubling (start count : Nat) : (doubling start count).length = count := by
  induction count generalizing start with
  | zero => rfl
  | succ count ih => rw [doubling, List.length_cons, ih]

/-- A store within the window makes the array grow up to its own slot, where there are no entries. -/
theorem Rebuilt.after_mark {t : Table} (built : Rebuilt t) (bare : t.entries = []) {i : Nat}
    (behind : t.slots.size ≤ i) (near : i < max t.slots.size growthWindow * 2)
    (small : i + 1 < maxSlots) :
    Rebuilt ((Mutation.setInt (i + 1 : Nat) (.boolean true)).after t) ∧
    ((Mutation.setInt (i + 1 : Nat) (.boolean true)).after t).slots.size = i + 1 ∧
    ((Mutation.setInt (i + 1 : Nat) (.boolean true)).after t).entries = [] := by
  obtain ⟨k, filed, stored⟩ := t.after_setInt (i + 1 : Nat) (.boolean true)
  have weight : maxSlots < Number.signWeight := by decide
  have integer : (Number.ofInt (i + 1 : Nat)).integer? = some ((i + 1 : Nat) : Int) :=
    Number.integer?_ofNat (Nat.le_of_lt small)
  have slot : t.slotOfKey (.number (.ofInt (i + 1 : Nat))) = some i :=
    t.slotOf_eq_some_iff.2 (by rw [built.origin]; exact ⟨integer, Nat.lt_trans small weight⟩)
  have full : (Value.boolean true).scalar.isNil = false := rfl
  obtain ⟨again, size, none, _⟩ := built.slot filed full bare slot behind near small
  exact stored ▸ ⟨again, size, none⟩

theorem bounded_mark {t : Table} {key : Int} {keys : List Int} (fits : t.slots.size < maxSlots)
    (rest : Bounded ((Mutation.setInt key (.boolean true)).after t) (marks keys)) :
    Bounded t (marks (key :: keys)) := ⟨fits, rest⟩

theorem replay_mark (t : Table) (key : Int) (keys : List Int) : replay t (marks (key :: keys)) =
    replay ((Mutation.setInt key (.boolean true)).after t) (marks keys) := rfl

/-- From a first key within the window on, every doubling stays within it. -/
theorem Rebuilt.replay_doubling {t : Table} (built : Rebuilt t) (bare : t.entries = []) {start : Nat}
    (behind : t.slots.size < start) (near : start ≤ max t.slots.size growthWindow * 2)
    {count : Nat} (small : start * 2 ^ count < maxSlots) :
    Bounded t (marks (doubling start (count + 1))) ∧
    (replay t (marks (doubling start (count + 1)))).slots.size = start * 2 ^ count := by
  induction count generalizing t start with
  | zero =>
    obtain ⟨i, rfl⟩ := Nat.exists_eq_add_one_of_ne_zero (Nat.ne_zero_of_lt behind)
    rw [Nat.pow_zero, Nat.mul_one] at small ⊢
    obtain ⟨_, size, _⟩ := built.after_mark bare (Nat.le_of_lt_succ behind) near small
    have last : ((Mutation.setInt (i + 1 : Nat) (.boolean true)).after t).slots.size < maxSlots :=
      size.symm ▸ small
    exact ⟨bounded_mark (Nat.lt_trans behind small) last, size⟩
  | succ count ih =>
    obtain ⟨i, rfl⟩ := Nat.exists_eq_add_one_of_ne_zero (Nat.ne_zero_of_lt behind)
    have whole : (i + 1) * 2 ^ (count + 1) = 2 * (i + 1) * 2 ^ count := by
      rw [Nat.pow_succ]
      ac_rfl
    rw [whole] at small ⊢
    have first : i + 1 < maxSlots := by
      refine Nat.lt_of_le_of_lt ?_ small
      exact Nat.le_trans (by omega) (Nat.le_mul_of_pos_right _ (Nat.two_pow_pos count))
    obtain ⟨again, size, none⟩ := built.after_mark bare (Nat.le_of_lt_succ behind) near first
    have within : 2 * (i + 1) ≤ max (i + 1) growthWindow * 2 := by omega
    obtain ⟨bounded, result⟩ :=
      ih again none (by rw [size]; omega) (by rw [size]; exact within) small
    rw [doubling, replay_mark]
    exact ⟨bounded_mark (Nat.lt_trans behind first) bounded, result⟩

/-- Linear growth fails for every constant short of the address space. -/
theorem no_linear_growth : ¬ ∃ c ≤ 2 ^ 46, ∀ keys : List Int, Bounded (withOrigin 1) (marks keys) →
    (replay (withOrigin 1) (marks keys)).slots.size ≤ c * keys.length := by
  rintro ⟨c, small, linear⟩
  have first : empty.slots.size < 64 := by decide
  have window : 64 ≤ max empty.slots.size growthWindow * 2 := by decide
  have fits : 64 * 2 ^ 46 < maxSlots := by decide
  obtain ⟨bounded, size⟩ := rebuilt_empty.replay_doubling rfl first window fits
  have most : (replay empty (marks (doubling 64 47))).slots.size ≤ _ := linear _ bounded
  rw [size, length_doubling] at most
  omega

end ScriptMachine.Table
