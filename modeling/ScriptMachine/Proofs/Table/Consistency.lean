import ScriptMachine.Proofs.Table.Clearing
import ScriptMachine.Proofs.Table.Making

/-!
# The parts of a table agree

Slots, entries, the flag for tombstones and the known length are changed by different commands in
different combinations. Whatever the commands, they keep saying the same of the table.

* `Table.Consistent`: what they have to do with each other.
* `Extending`: work that takes no slots away. Between its first store and its last the slots are no
  more than in the end, so that a bound on what it leaves is one on all that it went through.
* `reachable_respond`: every command, those that traverse and store on the way included, leads from
  one reachable table to another.
* `session_consistent`: the parts agree in every table that a session comes by.
-/

namespace ScriptMachine

namespace Table

/-- How the parts of a table fit together. -/
structure Consistent (t : Table) : Prop where
  /-- An entry, tombstone or not, has the key of none of the slots nor of the next one. -/
  behind : ∀ e ∈ t.entries, ∀ i, t.slotOfKey e.name = some i → t.slots.size < i
  filed : ∀ e ∈ t.entries, Key.ofValue e.name = .ok e.key
  /-- No key is stored twice. -/
  single : (t.entries.map Entry.key).Nodup
  flagged : ∀ e ∈ t.entries, e.value.isNil = true → t.mayHoldTombstones = true
  known : ∀ n, t.knownLength = some n → t.measure = n

theorem WellFormed.consistent {t : Table} (wf : t.WellFormed) (small : t.slots.size < maxSlots) :
    t.Consistent where
  behind := by
    intro e mem i slot
    by_contra near
    have within : i ≤ t.slots.size := Nat.not_lt.1 near
    have named := wf.named e mem
    rw [t.slotOfKey_eq_keySlot named] at slot
    have bound := bound_of_slot wf small within
    exact wf.beyond e mem i within ((t.keySlot_eq_some_iff ⟨e.name, named⟩ bound).1 slot)
  filed := by
    intro e mem
    have named := wf.named e mem
    exact (Key.ofValue_eq_ofScalar (Key.kind_of_ofScalar named)).trans named
  single := wf.distinct
  flagged := wf.flagged
  known := wf.cached

end Table

namespace TableSession

open Table

section Work

variable {α β : Type}

/-- The work takes no slots away, and comes by reachable tables only as long as the slots are few
enough. -/
structure Extending (work : Work α) : Prop where
  grows : ∀ t, t.slots.size ≤ (left (work t)).slots.size
  reaches : ∀ t, t.Reachable → (left (work t)).slots.size < maxSlots → (left (work t)).Reachable

/-- Work that leaves the table alone. -/
theorem extending_of_left {work : Work α} (same : ∀ t, left (work t) = t) : Extending work where
  grows t := Nat.le_of_eq (congrArg (·.slots.size) (same t).symm)
  reaches t reached _ := (same t).symm ▸ reached

theorem extending_pure (a : α) : Extending (pure a) := extending_of_left fun _ => rfl

theorem Extending.bind {work : Work α} {f : α → Work β} (h : Extending work)
    (rest : ∀ a, Extending (f a)) : Extending (work >>= f) := by
  constructor
  · intro t
    have first := h.grows t
    simp only [Bind.bind, EStateM.bind]
    cases done : work t with
    | ok a t' =>
      rw [done] at first
      exact Nat.le_trans first ((rest a).grows t')
    | error cause t' =>
      rw [done] at first
      exact first
  · intro t reached
    have first := h.reaches t reached
    simp only [Bind.bind, EStateM.bind]
    cases done : work t with
    | ok a t' =>
      intro small
      rw [done] at first
      exact (rest a).reaches t' (first (Nat.lt_of_le_of_lt ((rest a).grows t') small)) small
    | error cause t' =>
      intro small
      rw [done] at first
      exact first small

theorem extending_look {f : Table → Except Cause α} : Extending (do lift (f (← get))) := by
  apply extending_of_left
  intro t
  change left (lift (f t) t) = t
  cases f t <;> rfl

theorem extending_store (key value : Value) : Extending (store key value) := by
  have steps : ∀ t : Table, store key value t =
      (lift (t.set key value) >>= MonadStateOf.set : Work Unit) t := fun _ => rfl
  cases filed : Key.ofScalar key.scalar with
  | error cause =>
    apply extending_of_left
    intro t
    rw [steps, set_of_not_usable filed]
    rfl
  | ok k =>
    have stored : ∀ t : Table, left (store key value t) = t.store k key.scalar value.scalar := by
      intro t
      rw [steps, set_of_usable filed]
      rfl
    constructor
    · intro t
      rw [stored]
      exact (t.store_extends k key.scalar value.scalar).1
    · intro t reached small
      rw [stored] at small ⊢
      exact reached.store filed small

theorem extending_storeEach (is : List Int) : Extending (storeEach is) := by
  induction is with
  | nil => exact extending_pure ()
  | cons i rest ih => exact (extending_store _ _).bind fun _ => ih

theorem extending_traverse {visit : Value → Work Unit} (h : ∀ key, Extending (visit key))
    (fuel : Nat) (current : Value) : Extending (traverse visit fuel current) := by
  induction fuel generalizing current with
  | zero => exact extending_pure []
  | succ fuel ih =>
    rw [traverse, ← bind_assoc]
    refine extending_look.bind fun pair => ?_
    cases pair with
    | none => exact extending_pure []
    | some pair =>
      exact (h pair.1).bind fun _ => (ih pair.1).bind fun _ => extending_pure _

end Work

variable (same : Value → Value → Bool)

theorem left_command (m : Mutation) (t : Table) : left (respond same m.command t) = m.after t := by
  have run : respond same m.command t = m.run t := by cases m <;> rfl
  rw [run, Mutation.after]
  cases m.run t <;> rfl

/-- A command leads from one reachable table to another. -/
theorem reachable_respond (c : Command) {t : Table} (reached : t.Reachable)
    (small : (left (respond same c t)).slots.size < maxSlots) :
    (left (respond same c t)).Reachable := by
  have mutates (m : Mutation) (is : m.command = c) : (left (respond same c t)).Reachable := by
    subst is
    rw [left_command] at small ⊢
    exact reached.mutated m small
  have works (extending : Extending (respond same c)) : (left (respond same c t)).Reachable :=
    extending.reaches t reached small
  cases c with
  | set key value => exact mutates (.set key value) rfl
  | setInt key value => exact mutates (.setInt key value) rfl
  | setString key value => exact mutates (.setString key value) rfl
  | append value => exact mutates (.append value) rfl
  | appendPositional value => exact mutates (.appendPositional value) rfl
  | remove key => exact mutates (.remove key) rfl
  | sweep => exact mutates .sweep rfl
  | clear => exact mutates .clear rfl
  | length => exact mutates .length rfl
  | setMetatable m => exact reached.withMetatable m
  | get | getInt | getString | count | origin | pairs | keys | values | metatable => exact reached
  | next key =>
    refine works (extending_look.bind fun pair => ?_)
    cases pair <;> exact extending_pure _
  | fill first last step =>
    exact works ((extending_storeEach _).bind fun _ => extending_pure _)
  | walk change =>
    refine works ((extending_traverse (fun key => ?_) _ _).bind fun _ => extending_pure _)
    rcases change with _ | ⟨k, k', v'⟩
    · exact extending_pure ()
    · dsimp only
      split
      · exact extending_store k' v'
      · exact extending_pure ()
  | clearingWalk =>
    have count : Extending (do return (← get).count) := extending_look (f := fun t => .ok t.count)
    have steps : respond same .clearingWalk = (do return (← get).count) >>= fun fuel =>
        traverse (fun key => store key .nil) fuel .nil >>= fun keys => pure (.list keys) := rfl
    apply works
    rw [steps]
    exact count.bind fun fuel =>
      (extending_traverse (fun key => extending_store key .nil) fuel .nil).bind
        fun _ => extending_pure _

/-- The slots stay below the bound throughout a session. -/
def Confined : Table → List Command → Prop
  | t, [] => t.slots.size < maxSlots
  | t, c :: rest => t.slots.size < maxSlots ∧ Confined (left (respond same c t)) rest

instance decidableConfined : (t : Table) → (cs : List Command) → Decidable (Confined same t cs)
  | t, [] => inferInstanceAs (Decidable (t.slots.size < maxSlots))
  | t, c :: rest =>
    have := decidableConfined (left (respond same c t)) rest
    inferInstanceAs (Decidable (_ ∧ _))

theorem Confined.head {t : Table} {cs : List Command} (confined : Confined same t cs) :
    t.slots.size < maxSlots := by
  cases cs with
  | nil => exact confined
  | cons c rest => exact confined.1

theorem reachable_after {t : Table} (reached : t.Reachable) {cs : List Command}
    (confined : Confined same t cs) : (after same t cs).Reachable := by
  induction cs generalizing t with
  | nil => exact reached
  | cons c rest ih => exact ih (reachable_respond same c reached confined.2.head) confined.2

/-- **The parts of a table always agree.** Whatever commands a table has answered since it was made,
successfully or not: no entry, tombstones included, has the key of a slot or of the one behind the
slots; each entry is filed under the key of its name, no two under one; if there is a tombstone the
flag says so; and a length that is known is the one that slots and entries give. -/
theorem session_consistent (origin : Nat) (cs : List Command)
    (confined : Confined same (withOrigin origin) cs) :
    (after same (withOrigin origin) cs).Consistent := by
  obtain ⟨wf, small⟩ := (reachable_after same (.fresh origin) confined).wellFormed
  exact wf.consistent small

/-- A name and an integer that were taken out again and an integer far away; then the slots come up
to the one that was taken out, and a store that fails. -/
def crowded : List Command :=
  [.set (.number 66) (.string "gone"), .set (.number 300) (.string "far"),
    .setString "name" (.boolean true), .set (.number 66) .nil, .setString "name" .nil,
    .fill 1 2 1, .setInt 64 (.boolean true), .setInt 65 (.boolean true), .length,
    .set .nil (.boolean true)]

/-- The tombstone of the integer became a slot, that of the name is still an entry. -/
theorem session_consistent_crowded :
    Confined Value.sameKey (withOrigin 1) crowded ∧
    (after Value.sameKey (withOrigin 1) crowded).Consistent ∧
    (after Value.sameKey (withOrigin 1) crowded).slots.size = 66 ∧
    (after Value.sameKey (withOrigin 1) crowded).entries.map (fun e => (e.key, e.value.isNil)) =
      [(.ofNat 300, false), (.string "name", true)] ∧
    (after Value.sameKey (withOrigin 1) crowded).mayHoldTombstones = true ∧
    (after Value.sameKey (withOrigin 1) crowded).knownLength = some 2 := by
  have confined : Confined Value.sameKey (withOrigin 1) crowded := by decide +kernel
  exact ⟨confined, session_consistent Value.sameKey 1 crowded confined, by decide +kernel,
    by decide +kernel, by decide +kernel, by decide +kernel⟩

end TableSession

end ScriptMachine
