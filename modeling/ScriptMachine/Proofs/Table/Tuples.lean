import ScriptMachine.Proofs.Table.Making
import ScriptMachine.Proofs.Table.Sweeping

/-!
# Tuples as keys

A tuple is filed as its scalar, but only a store collapses it before it looks for a slot. To read it,
to remove it and to go on from it finds entries alone.

* `Access`: what a table is asked under a key.
* `findEntry_of_ownSlot`: what has a slot has no entry, so that a tuple that stands for it finds
  nothing.
* `tuples_act_as_scalars`: a tuple acts as its scalar wherever that has no slot, and how it acts
  where it has one.
-/

namespace ScriptMachine.Table

/-- What can be asked of a table under a key. -/
inductive Access
  | get
  | set (value : Value)
  | remove
  | next

def Access.command : Access → Value → TableSession.Command
  | .get, key => .get key
  | .set value, key => .set key value
  | .remove, key => .remove key
  | .next, key => .next key

/-- What a table answers, and what it is then. -/
def Access.run (a : Access) (t : Table) (key : Value) :
    EStateM.Result Cause Table TableSession.Reply :=
  (TableSession.respond Value.sameKey (a.command key)).run t

theorem Access.run_get (t : Table) (key : Value) :
    Access.get.run t key = .ok (.value (t.get key)) t := rfl

theorem Access.run_set (t : Table) (key value : Value) :
    (Access.set value).run t key = changed t (t.set key value) := Table.run_set t key value

theorem Access.run_remove (t : Table) (key : Value) :
    Access.remove.run t key = .ok (.value (t.remove key).1) (t.remove key).2 := rfl

theorem Access.run_next (t : Table) (key : Value) : Access.next.run t key =
    (TableSession.lift (t.next key) >>= fun found => match found with
      | some (k, v) => pure (.list [k, v])
      | none => pure .nothing : TableSession.Work _) t := rfl

@[simp] theorem ofValue_scalar (key : Value) : Key.ofValue key.scalar = Key.ofValue key := by
  rw [Key.ofValue, Key.ofValue, Value.scalar_scalar]

theorem ownSlot_tuple (t : Table) (items : List Value) : t.ownSlot (.tuple items) = none := rfl

/-- A store collapses its key first. -/
theorem set_scalar (t : Table) (key value : Value) : t.set key.scalar value = t.set key value := by
  rw [set, set, ofValue_scalar, Value.scalar_scalar]

/-- What has a slot is filed under a key that has no entry. -/
theorem findEntry_of_ownSlot {t : Table} (wf : t.WellFormed) (small : t.slots.size < maxSlots)
    {key : Value} {i : Nat} (own : t.ownSlot key.scalar = some i) :
    ∃ k, Key.ofValue key = .ok k ∧ findEntry t.entries k = none := by
  cases filed : Key.ofScalar key.scalar with
  | error cause => simp [t.ownSlot_eq_none (v := key.scalar) (by simpa using filed)] at own
  | ok k =>
    rw [ownSlot_eq filed] at own
    obtain ⟨slot, inside⟩ := Option.filter_eq_some_iff.1 own
    have inside : i < t.slots.size := by simpa using inside
    have bound := bound_of_slot wf small (Nat.le_of_lt inside)
    refine ⟨k, filed, findEntry_eq_none_iff.2 fun e mem same => wf.outside e mem i inside ?_⟩
    exact same.trans ((t.keySlot_eq_some_iff ⟨_, filed⟩ bound).1 slot)

theorem eraseEntry_of_absent {es : List Entry} {k : Key} (absent : findEntry es k = none) :
    eraseEntry es k = es :=
  List.eraseP_of_forall_not fun e mem => by simpa using findEntry_eq_none_iff.1 absent e mem

theorem entriesAfter_of_absent {es : List Entry} {k : Key} (absent : findEntry es k = none) :
    entriesAfter es k = none := by
  rw [← List.append_nil es, entriesAfter_append (findEntry_eq_none_iff.1 absent)]
  rfl

/-- A tuple whose scalar has no slot reads, and is removed, as its scalar. -/
theorem get_remove_of_no_slot {t : Table} {items : List Value}
    (free : t.ownSlot (Value.tuple items).scalar = none) :
    t.get (.tuple items) = t.get (Value.tuple items).scalar ∧
    t.remove (.tuple items) = t.remove (Value.tuple items).scalar := by
  simp only [get, remove, free, ownSlot_tuple, ofValue_scalar, and_self]

/-- A traversal goes on from such a tuple as from its scalar, unless that is nil. -/
theorem next_of_no_slot {t : Table} {items : List Value}
    (free : t.ownSlot (Value.tuple items).scalar = none)
    (begun : (Value.tuple items).scalar.isNil = false) :
    t.next (.tuple items) = t.next (Value.tuple items).scalar := by
  have tuple : (Value.tuple items).isNil = false := rfl
  simp only [next, free, begun, tuple, ownSlot_tuple, ofValue_scalar]

/-- A tuple whose scalar has a slot finds nothing. -/
theorem missed_of_slot {t : Table} (wf : t.WellFormed) (small : t.slots.size < maxSlots)
    {items : List Value} {i : Nat} (own : t.ownSlot (Value.tuple items).scalar = some i) :
    t.get (.tuple items) = .nil ∧ t.remove (.tuple items) = (.nil, { t with knownLength := none }) ∧
    t.next (.tuple items) = .error .strayKey := by
  obtain ⟨k, filed, absent⟩ := findEntry_of_ownSlot wf small own
  have tuple : (Value.tuple items).isNil = false := rfl
  have empty : t.entryValue k = .nil := by rw [entryValue, absent]
  refine ⟨?_, ?_, ?_⟩
  · simp only [get, ownSlot_tuple, filed, empty]
  · simp only [remove, ownSlot_tuple, filed, empty, eraseEntry_of_absent absent]
  · simp only [next, tuple, ownSlot_tuple, filed, entriesAfter_of_absent absent, Bool.false_eq_true,
      if_false]

/-- From a tuple that stands for nil a traversal does not begin. -/
theorem next_of_nil {t : Table} {items : List Value}
    (empty : (Value.tuple items).scalar.isNil = true) :
    t.next (.tuple items) = .error .strayKey := by
  have failed : Key.ofValue (.tuple items) = .error .nilKey := by
    rw [Key.ofValue]
    cases scalar : (Value.tuple items).scalar <;> simp [scalar, Value.isNil] at empty <;> rfl
  have tuple : (Value.tuple items).isNil = false := rfl
  simp only [next, tuple, ownSlot_tuple, failed, Bool.false_eq_true, if_false]

/-- What was stored under a tuple among the entries is read under it. -/
theorem get_of_set_tuple {t t' : Table} (wf : t.WellFormed) {items : List Value} {v : Value}
    (stored : t.set (.tuple items) v = .ok t')
    (free : t'.ownSlot (Value.tuple items).scalar = none) :
    (t'.get (.tuple items)).Matches v.scalar := by
  cases filed : Key.ofScalar (Value.tuple items).scalar with
  | error cause =>
    rw [set_of_not_usable filed] at stored
    cases stored
  | ok k =>
    rw [set_of_usable filed] at stored
    obtain rfl := Except.ok.inj stored
    have key : Key.ofValue (.tuple items) = .ok k := filed
    have origin := (t.store_extends k (Value.tuple items).scalar v.scalar).2
    have entered := store_eq_setEntry (t := t) (k := k) (v := v.scalar) fun i slot =>
      le_of_ownSlot_eq_none free ((slotOfKey_congr origin _).trans slot)
    rw [entered]
    simpa only [get, ownSlot_tuple, key, if_true] using
      entryValue_setEntry wf k k (Value.tuple items).scalar v.scalar

/-- **A tuple acts as its scalar, but for slots.** To store under a tuple is to store under its
scalar. To read it, to remove it and to go on from it is to do so with its scalar, if that has no slot
and, to go on, is not nil; so what was stored under it among the entries is read again. Where the
scalar has a slot the tuple reads as nil, its removal takes nothing out, and a traversal cannot go on
from it; nor does one begin from a tuple that stands for nil. -/
theorem tuples_act_as_scalars {t : Table} (reached : t.Reachable) (items : List Value) :
    (∀ a : Access, (t.ownSlot (Value.tuple items).scalar = none ∨ ∃ v, a = .set v) →
      ((Value.tuple items).scalar.isNil = false ∨ a ≠ .next) →
      a.run t (.tuple items) = a.run t (Value.tuple items).scalar) ∧
    (∀ v t', t.set (.tuple items) v = .ok t' → t'.ownSlot (Value.tuple items).scalar = none →
      (t'.get (.tuple items)).Matches v.scalar) ∧
    (∀ i, t.ownSlot (Value.tuple items).scalar = some i →
      t.get (.tuple items) = .nil ∧
      t.remove (.tuple items) = (.nil, { t with knownLength := none }) ∧
      t.next (.tuple items) = .error .strayKey) ∧
    ((Value.tuple items).scalar.isNil = true → t.next (.tuple items) = .error .strayKey) := by
  obtain ⟨wf, small⟩ := reached.wellFormed
  refine ⟨fun a free begun => ?_, fun v t' => get_of_set_tuple wf, fun i => missed_of_slot wf small,
    next_of_nil⟩
  cases a with
  | get =>
    have free := free.resolve_right (by simp)
    rw [Access.run_get, Access.run_get, (get_remove_of_no_slot free).1]
  | set v => rw [Access.run_set, Access.run_set, set_scalar]
  | remove =>
    have free := free.resolve_right (by simp)
    rw [Access.run_remove, Access.run_remove, (get_remove_of_no_slot free).2]
  | next =>
    have free := free.resolve_right (by simp)
    rw [Access.run_next, Access.run_next, next_of_no_slot free (begun.resolve_right (by simp))]

/-- A slot, and behind it a name. -/
def labelled : Table :=
  replay (withOrigin 1) [.append (.string "x"), .setString "a" (.boolean true)]

theorem labelled_reachable : labelled.Reachable :=
  reachable_replay (.fresh 1) (by decide +kernel)

/-- Nested tuples that stand for the name act as it does, and one that stands for the slot finds
nothing. -/
theorem tuples_act_as_scalars_labelled :
    labelled.Reachable ∧
    labelled.ownSlot (Value.tuple [.tuple [.string "a"], .nil]).scalar = none ∧
    (Value.tuple [.tuple [.string "a"], .nil]).scalar.isNil = false ∧
    Access.remove.run labelled (.tuple [.tuple [.string "a"], .nil]) =
      Access.remove.run labelled (.string "a") ∧
    Access.next.run labelled (.tuple [.tuple [.string "a"], .nil]) =
      Access.next.run labelled (.string "a") ∧
    labelled.ownSlot (Value.tuple [.number 1]).scalar = some 0 ∧
    labelled.get (.tuple [.number 1]) = .nil := by
  obtain ⟨acts, _⟩ := tuples_act_as_scalars labelled_reachable [.tuple [.string "a"], .nil]
  obtain ⟨_, _, missed, _⟩ := tuples_act_as_scalars labelled_reachable [.number 1]
  have slot : labelled.ownSlot (Value.tuple [.number 1]).scalar = some 0 := by decide +kernel
  exact ⟨labelled_reachable, rfl, rfl, acts .remove (.inl rfl) (.inl rfl),
    acts .next (.inl rfl) (.inl rfl), slot, (missed 0 slot).1⟩

/-- A value stored under a tuple that stands for an integer. -/
def boxed : Table := replay (withOrigin 1) [.set (.tuple [.number 1]) (.string "x")]

/-- What was stored under a tuple is not read under it when its scalar got a slot, nor taken out, nor
does a traversal go on from there; from a tuple of nothing it does not begin. -/
theorem tuple_misses_slot :
    boxed.Reachable ∧ (withOrigin 1).set (.tuple [.number 1]) (.string "x") = .ok boxed ∧
    (boxed.get (.number 1)).asString = some "x" ∧ (boxed.get (.tuple [.number 1])).isNil = true ∧
    (boxed.remove (.number 1)).1.asString = some "x" ∧
    (boxed.remove (.tuple [.number 1])).1.isNil = true ∧
    (boxed.next (.number 1)).toOption.isSome = true ∧
    (boxed.next (.tuple [.number 1])).toOption.isSome = false ∧
    (boxed.next .nil).toOption.isSome = true ∧ (Value.tuple []).scalar.isNil = true ∧
    (boxed.next (.tuple [])).toOption.isSome = false := by
  have stored : (withOrigin 1).set (.tuple [.number 1]) (.string "x") = .ok boxed := by rfl
  exact ⟨reachable_replay (.fresh 1) (by decide +kernel), stored, by decide +kernel,
    by decide +kernel, by decide +kernel, by decide +kernel, by decide +kernel, by decide +kernel,
    by decide +kernel, rfl, by decide +kernel⟩

end ScriptMachine.Table
