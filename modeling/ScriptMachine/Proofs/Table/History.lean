import ScriptMachine.Proofs.Table.Representation
import ScriptMachine.Table.Session

/-!
# A table is what was written into it

A table that has been through any history of commands holds under each key what was last written
there, although its slots and entries come about in quite different ways.

* `Mutation` is a command that changes a table, and `replay` a history of them.
* `Write` is what a mutation means, and `lastWritten` reads a log of writes.
* `step_keeps`: one mutation keeps table and log in agreement; `replay_keeps`: so does a history.
-/

namespace ScriptMachine

namespace Table

/-- The commands that change a table. Asking for the length makes it known. -/
inductive Mutation
  | set (key value : Value)
  | setInt (key : Int) (value : Value)
  | setString (key : String) (value : Value)
  | append (value : Value)
  | appendPositional (value : Value)
  | remove (key : Value)
  | sweep
  | clear
  | length

def Mutation.command : Mutation → TableSession.Command
  | set key value => .set key value
  | setInt key value => .setInt key value
  | setString key value => .setString key value
  | append value => .append value
  | appendPositional value => .appendPositional value
  | remove key => .remove key
  | sweep => .sweep
  | clear => .clear
  | length => .length

/-- What a table answers, and what it is then. -/
def Mutation.run (m : Mutation) (t : Table) : EStateM.Result Cause Table TableSession.Reply :=
  (TableSession.respond Value.sameKey m.command).run t

/-- The table after a mutation, failed or not. -/
def Mutation.after (m : Mutation) (t : Table) : Table :=
  match m.run t with
  | .ok _ t' => t'
  | .error _ t' => t'

def replay : Table → List Mutation → Table
  | t, [] => t
  | t, m :: rest => replay (m.after t) rest

/-- The slots stay below the bound throughout a history. -/
def Bounded : Table → List Mutation → Prop
  | t, [] => t.slots.size < maxSlots
  | t, m :: rest => t.slots.size < maxSlots ∧ Bounded (m.after t) rest

instance decidableBounded : (t : Table) → (ms : List Mutation) → Decidable (Bounded t ms)
  | t, [] => inferInstanceAs (Decidable (t.slots.size < maxSlots))
  | t, m :: rest =>
    have := decidableBounded (m.after t) rest
    inferInstanceAs (Decidable (_ ∧ _))

inductive Write
  | put (key value : Value)
  | take (key : Value)
  | wipe

/-- What the log, newest write first, says of a key. -/
def lastWritten : List Write → Value → Value
  | [], _ => .nil
  | .put key value :: rest, k => if key.sameKey k then value else lastWritten rest k
  | .take key :: rest, k => if key.sameKey k then .nil else lastWritten rest k
  | .wipe :: _, _ => .nil

/-- The values that can be keys. -/
def usable : Value → Bool
  | .nil | .void | .tuple _ | .tailCall _ | .yield _ | .await _ => false
  | .number n => !n.isNaN
  | _ => true

/-- What a mutation of this table writes. Keys and values act as their scalars, but a tuple takes
nothing out of a slot. -/
def Mutation.write? (t : Table) : Mutation → Option Write
  | set key value => if usable key.scalar then some (.put key.scalar value.scalar) else none
  | setInt key value => some (.put (.number (.ofInt key)) value.scalar)
  | setString key value => some (.put (.string key) value.scalar)
  | append value => some (.put (.number (.ofNat (t.length + t.origin))) value.scalar)
  | appendPositional value => some (.put (.number (.ofNat (t.cursor + t.origin))) value.scalar)
  | remove key =>
    if key.kind = .tuple ∧ (t.ownSlot key.scalar).isSome then none else some (.take key.scalar)
  | clear => some .wipe
  | sweep | length => none

/-- The log after a history, on top of an earlier one. -/
def record : Table → List Mutation → List Write → List Write
  | _, [], log => log
  | t, m :: rest, log => record (m.after t) rest ((m.write? t).toList ++ log)

/-- The answer to a change; a table that cannot be changed stays as it is. -/
def changed (t : Table) : Except Cause Table → EStateM.Result Cause Table TableSession.Reply
  | .ok t' => .ok .nothing t'
  | .error cause => .error cause t

theorem run_set (t : Table) (key value : Value) :
    (Mutation.set key value).run t = changed t (t.set key value) := by
  have steps : (Mutation.set key value).run t =
      ((TableSession.lift (t.set key value) >>= fun t' => MonadStateOf.set t') >>=
        fun _ => pure .nothing : TableSession.Work _) t := rfl
  rw [steps]
  cases t.set key value <;> rfl

theorem run_appendPositional (t : Table) (value : Value) :
    (Mutation.appendPositional value).run t = changed t (t.appendPositional value) := by
  have steps : (Mutation.appendPositional value).run t =
      (TableSession.lift (t.appendPositional value) >>= fun t' =>
        MonadStateOf.set t' >>= fun _ => pure .nothing : TableSession.Work _) t := rfl
  rw [steps]
  cases t.appendPositional value <;> rfl

theorem ofScalar_of_usable {v : Value} (h : usable v = true) : ∃ k, Key.ofScalar v = .ok k := by
  cases v <;> simp_all [usable, Key.ofScalar]

theorem ofScalar_of_not_usable {v : Value} (h : usable v = false) :
    ∃ cause, Key.ofScalar v = .error cause := by
  cases v <;> simp_all [usable, Key.ofScalar]

theorem usable_of_ofScalar {v : Value} {k : Key} (h : Key.ofScalar v = .ok k) :
    usable v = true := by
  cases free : usable v with
  | true => rfl
  | false =>
    obtain ⟨cause, failed⟩ := ofScalar_of_not_usable free
    simp [h] at failed

theorem usable_eq_of_sameKey {a b : Value} (h : a.sameKey b = true) : usable a = usable b := by
  simp only [Value.sameKey] at h
  unfold Value.equalsWith at h
  split at h
  case h_6 => simp_all [Number.equals, usable]
  all_goals first | rfl | cases h

theorem set_of_usable {t : Table} {key : Value} {k : Key} (h : Key.ofScalar key.scalar = .ok k)
    (value : Value) : t.set key value = .ok (t.store k key.scalar value.scalar) := by
  simp only [set, Key.ofValue, h]
  rfl

theorem set_of_not_usable {t : Table} {key : Value} {cause : Cause}
    (h : Key.ofScalar key.scalar = .error cause) (value : Value) :
    t.set key value = .error cause := by
  simp only [set, Key.ofValue, h]
  rfl

theorem usable_ofRatio (negative : Bool) (n d : Nat) :
    usable (.number (.ofRatio negative n d)) = true := by
  simp [usable, Key.isNaN_ofRatio]

def Write.applied : Write → Key → Value → Value
  | .put key value, k, before => if (Key.ofScalar key).toOption = some k then value else before
  | .take key, k, before => if (Key.ofScalar key).toOption = some k then .nil else before
  | .wipe, _, _ => .nil

/-- Reading the log by filed key. -/
theorem lastWritten_cons {w : Write} {log : List Write} {q : Value} {k : Key}
    (key : Key.ofScalar q = .ok k) (real : ∀ r, q = .range r → r.isReal = true) :
    lastWritten (w :: log) q = w.applied k (lastWritten log q) := by
  have same : ∀ a : Value, a.sameKey q = true ↔ (Key.ofScalar a).toOption = some k := by
    intro a
    cases filed : Key.ofScalar a with
    | ok k' =>
      rw [Value.sameKey_iff filed key real]
      simp [Except.toOption]
    | error cause =>
      simp only [Except.toOption, reduceCtorEq, iff_false]
      intro equal
      obtain ⟨_, filed'⟩ := ofScalar_of_usable
        ((usable_eq_of_sameKey equal).trans (usable_of_ofScalar key))
      rw [filed] at filed'
      cases filed'
  cases w with
  | put a v => simp only [lastWritten, Write.applied, same]
  | take a => simp only [lastWritten, Write.applied, same]
  | wipe => rfl

theorem lastWritten_of_not_usable {log : List Write} {q : Value} (free : usable q = false)
    (puts : ∀ key value, .put key value ∈ log → usable key = true) : lastWritten log q = .nil := by
  induction log with
  | nil => rfl
  | cons w rest ih =>
    have ih := ih fun key value mem => puts key value (List.mem_cons_of_mem _ mem)
    cases w with
    | put key value =>
      have other : key.sameKey q = false := by
        cases equal : key.sameKey q with
        | false => rfl
        | true =>
          have := usable_eq_of_sameKey equal
          simp [free, puts key value List.mem_cons_self] at this
      simp [lastWritten, other, ih]
    | take key => simp [lastWritten, ih]
    | wipe => rfl

/-- A store writes what it is told, wherever it goes. -/
theorem store_applies {t : Table} (wf : t.WellFormed) {name : Value} {key : Key} (v : Value)
    (filed : Key.ofScalar name = .ok key) (small : (t.store key name v).slots.size < maxSlots)
    {k : Key} (proper : k.Proper) :
    ((t.store key name v).find k).Matches ((Write.put name v).applied k (t.find k)) := by
  have found := find_store wf v filed small proper
  simp only [Write.applied, filed, Except.toOption, Option.some.injEq]
  simpa only [eq_comm (a := k)] using found

theorem remove_wellFormed {t : Table} (wf : t.WellFormed) (key : Value) :
    (t.remove key).2.WellFormed := by
  simp only [remove]
  split
  · exact wf.setSlot _ _
  · split
    · exact (wf.erase _).forgetLength
    · exact wf.forgetLength

/-- The slot of a value by its filed key. -/
theorem ownSlot_eq {t : Table} {v : Value} {k : Key} (filed : Key.ofScalar v = .ok k) :
    t.ownSlot v = (t.keySlot k).filter (· < t.slots.size) := by
  rw [ownSlot, t.slotOfKey_eq_keySlot filed]

/-- A removal takes out what it says. A tuple does not reach the slots. -/
theorem remove_applies {t : Table} (wf : t.WellFormed) (key : Value)
    (small : t.slots.size < maxSlots) {k : Key} (proper : k.Proper) :
    (t.remove key).2.find k =
      match (Mutation.remove key).write? t with
        | none => t.find k
        | some w => w.applied k (t.find k) := by
  have origin := wf.origin_le
  have atomic : key.kind ≠ .tuple → t.ownSlot key = t.ownSlot key.scalar := by
    intro atomic
    rw [Value.scalar_eq_self atomic]
  have tupled : key.kind = .tuple → t.ownSlot key = none := by
    intro tupled
    cases key <;> simp [Value.kind] at tupled
    rfl
  cases filed : Key.ofScalar key.scalar with
  | error cause =>
    have unslotted := t.ownSlot_eq_none filed
    have unslotted' := t.ownSlot_eq_none (v := key.scalar) (by simpa using filed)
    have takes : (Mutation.remove key).write? t = some (.take key.scalar) := by
      simp [Mutation.write?, unslotted']
    simp only [remove, unslotted, Key.ofValue, filed, takes, Write.applied]
    rfl
  | ok k' =>
    have slot := ownSlot_eq (t := t) filed
    by_cases own : ∃ i, t.keySlot k' = some i ∧ i < t.slots.size
    · obtain ⟨i, own, inside⟩ := own
      have slotted : t.ownSlot key.scalar = some i := by simp [slot, own, Option.filter, inside]
      have here := (t.keySlot_eq_some_iff (i := i) ⟨_, filed⟩ (by
        simp only [maxSlots] at small
        omega)).1 own
      by_cases tuple : key.kind = .tuple
      · have gone := eraseEntry_of_slot wf.toSound inside
        rw [← here] at gone
        simp only [remove, tupled tuple, Key.ofValue, filed, gone, Mutation.write?, tuple, slotted]
        rfl
      · simp only [remove, atomic tuple, slotted, Mutation.write?, tuple, false_and, if_false]
        rw [find_setSlot .nil proper inside (by omega), ← here]
        simp only [Write.applied, filed, Except.toOption, Option.some.injEq, eq_comm (a := k)]
    · have free : ∀ i, t.keySlot k' = some i → t.slots.size ≤ i := fun i has =>
        Nat.not_lt.1 fun inside => own ⟨i, has, inside⟩
      have unslotted : t.ownSlot key.scalar = none := by
        rw [slot, Option.filter_eq_none_iff]
        intro i has
        simpa using free i has
      have unslotted' : t.ownSlot key = none := by
        by_cases tuple : key.kind = .tuple
        · exact tupled tuple
        · exact (atomic tuple).trans unslotted
      have takes : (Mutation.remove key).write? t = some (.take key.scalar) := by
        simp [Mutation.write?, unslotted]
      simp only [remove, unslotted', Key.ofValue, filed, takes, Write.applied, Except.toOption,
        Option.some.injEq, eq_comm (b := k)]
      exact find_erase wf free k

/-- What a mutation leaves is well-formed, and has changed as the mutation says. -/
theorem after_applies {t : Table} (wf : t.WellFormed) (m : Mutation) (small : t.slots.size < maxSlots)
    (grown : (m.after t).slots.size < maxSlots) :
    (m.after t).WellFormed ∧ ∀ k : Key, k.Proper → ((m.after t).find k).Matches
      (match m.write? t with
        | none => t.find k
        | some w => w.applied k (t.find k)) := by
  have stores : ∀ key value, (Mutation.set key value).after t = m.after t →
      (Mutation.set key value).write? t = m.write? t → (m.after t).WellFormed ∧
        ∀ k : Key, k.Proper → ((m.after t).find k).Matches
          (match m.write? t with
            | none => t.find k
            | some w => w.applied k (t.find k)) := by
    intro key value same means
    rw [← means]
    rw [← same] at grown ⊢
    simp only [Mutation.after, Mutation.write?, run_set] at grown ⊢
    cases free : usable key.scalar with
    | true =>
      obtain ⟨filed, key⟩ := ofScalar_of_usable free
      simp only [set_of_usable key, changed] at grown ⊢
      exact ⟨store_wellFormed wf _ key grown, fun k proper => store_applies wf _ key grown proper⟩
    | false =>
      obtain ⟨cause, failed⟩ := ofScalar_of_not_usable free
      simp only [set_of_not_usable failed, changed]
      exact ⟨wf, fun k _ => .refl _⟩
  cases m with
  | set key value => exact stores key value rfl rfl
  | setInt key value =>
    refine stores (.number (.ofInt key)) value rfl ?_
    simp [Mutation.write?, Value.scalar, Number.ofInt, usable_ofRatio]
  | setString key value =>
    have filed : Key.ofScalar (.string key) = .ok (.string key) := rfl
    have same : (Mutation.setString key value).after t =
        t.setEntry (.string key) (.string key) value.scalar := rfl
    rw [same]
    refine ⟨setEntry_wellFormed wf filed (fun _ i _ h => by simp [Key.ofNat_eq] at h),
      fun k _ => ?_⟩
    have found := find_setEntry wf (.string key) value.scalar (k := .string key) (by simp [keySlot]) k
    simp only [Mutation.write?, Write.applied, filed, Except.toOption, Option.some.injEq]
    simpa only [eq_comm (a := k)] using found
  | append value =>
    have same : (Mutation.append value).after t = t.append value := rfl
    rw [same, append_eq_store wf value small] at grown ⊢
    have filed := Key.ofScalar_ofNat (t.length + t.origin)
    exact ⟨store_wellFormed wf.withKnownLength _ filed grown,
      fun k proper => store_applies wf.withKnownLength _ filed grown proper⟩
  | appendPositional value =>
    have filed := Key.ofScalar_ofNat (t.cursor + t.origin)
    have same : (Mutation.appendPositional value).after t =
        { t with cursor := t.cursor + 1 }.store (.ofNat (t.cursor + t.origin))
          (.number (.ofNat (t.cursor + t.origin))) value.scalar := by
      have stored : { t with cursor := t.cursor + 1 }.set (.number (.ofNat (t.cursor + t.origin)))
          value = .ok _ :=
        set_of_usable (k := .ofNat (t.cursor + t.origin)) (by simpa [Value.scalar] using filed) value
      rw [Mutation.after, run_appendPositional, appendPositional, stored]
      rfl
    rw [same] at grown ⊢
    exact ⟨store_wellFormed (wf.withCursor _) _ filed grown,
      fun k proper => store_applies (wf.withCursor _) _ filed grown proper⟩
  | remove key =>
    have same : (Mutation.remove key).after t = (t.remove key).2 := rfl
    rw [same]
    exact ⟨remove_wellFormed wf key, fun k proper => .of_eq (remove_applies wf key small proper)⟩
  | sweep => exact ⟨sweep_wellFormed wf, fun k _ => find_sweep wf k⟩
  | clear => exact ⟨clear_wellFormed wf, fun k _ => .of_eq (find_clear t k)⟩
  | length => exact ⟨wf.withKnownLength, fun k _ => .refl _⟩

/-- A well-formed table, and the log that says what is in it. -/
structure Agrees (t : Table) (log : List Write) : Prop where
  wellFormed : t.WellFormed
  puts : ∀ key value, .put key value ∈ log → usable key = true
  content : ∀ q k, Key.ofScalar q = .ok k → (∀ r, q = .range r → r.isReal = true) →
    (t.find k).Matches (lastWritten log q)

theorem usable_of_put {t : Table} {m : Mutation} {key value : Value}
    (h : m.write? t = some (.put key value)) : usable key = true := by
  cases m <;> simp only [Mutation.write?, Option.some.injEq, Write.put.injEq, reduceCtorEq] at h
  case set =>
    split at h
    · rename_i free
      obtain ⟨rfl, _⟩ : _ ∧ _ := by simpa using h
      exact free
    · cases h
  case remove =>
    split at h <;> simp at h
  case setString => simp [← h.1, usable]
  all_goals simp [← h.1, Number.ofInt, Number.ofNat, usable_ofRatio]

/-- What is written lies over what was there. -/
theorem Write.applied_matches (w : Write) (k : Key) {a b : Value} (h : a.Matches b) :
    (w.applied k a).Matches (w.applied k b) := by
  cases w with
  | put key value =>
    simp only [Write.applied]
    split
    · exact .refl _
    · exact h
  | take key =>
    simp only [Write.applied]
    split
    · exact .refl _
    · exact h
  | wipe => exact .refl _

/-- One mutation keeps table and log in agreement. -/
theorem step_keeps {t : Table} {log : List Write} (agrees : Agrees t log) (m : Mutation)
    (small : t.slots.size < maxSlots) (grown : (m.after t).slots.size < maxSlots) :
    Agrees (m.after t) ((m.write? t).toList ++ log) := by
  obtain ⟨wf, applies⟩ := after_applies agrees.wellFormed m small grown
  refine ⟨wf, ?_, ?_⟩
  · intro key value mem
    rcases List.mem_append.1 mem with new | old
    · exact usable_of_put (Option.mem_toList.1 new)
    · exact agrees.puts key value old
  · intro q k filed real
    have before := agrees.content q k filed real
    have now := applies k ⟨q, filed⟩
    cases writes : m.write? t with
    | none =>
      rw [writes] at now
      exact now.trans before
    | some w =>
      rw [writes] at now
      simp only [Option.toList_some, List.singleton_append, lastWritten_cons filed real]
      exact now.trans (w.applied_matches k before)

theorem Bounded.head {t : Table} {ms : List Mutation} (h : Bounded t ms) :
    t.slots.size < maxSlots := by
  cases ms with
  | nil => exact h
  | cons m rest => exact h.1

/-- So does a history. -/
theorem replay_keeps {t : Table} {log : List Write} (agrees : Agrees t log) {ms : List Mutation}
    (bounded : Bounded t ms) : Agrees (replay t ms) (record t ms log) := by
  induction ms generalizing t log with
  | nil => exact agrees
  | cons m rest ih => exact ih (step_keeps agrees m bounded.1 bounded.2.head) bounded.2

theorem replay_bounded {t : Table} {ms : List Mutation} (bounded : Bounded t ms) :
    (replay t ms).slots.size < maxSlots := by
  induction ms generalizing t with
  | nil => exact bounded
  | cons m rest ih => exact ih bounded.2

theorem withOrigin_agrees (origin : Nat) : Agrees (withOrigin origin) [] where
  wellFormed := withOrigin_wellFormed origin
  puts := by simp
  content := by
    intro q k _ _
    rw [find_eq_entry (by simp [withOrigin])]
    exact .refl _

/-- Reading is reading the log, also under values that are no keys. -/
theorem Agrees.get {t : Table} {log : List Write} (agrees : Agrees t log) {k : Value}
    (atomic : k.kind ≠ .tuple) (real : ∀ r, k = .range r → r.isReal = true) :
    (t.get k).Matches (lastWritten log k) := by
  cases free : usable k with
  | true =>
    obtain ⟨key, filed⟩ := ofScalar_of_usable free
    rw [get_eq_find t filed]
    exact agrees.content k key filed real
  | false =>
    obtain ⟨cause, failed⟩ := ofScalar_of_not_usable free
    rw [get_eq_nil t (c := cause) (by rwa [Value.scalar_eq_self atomic]),
      lastWritten_of_not_usable free agrees.puts]
    exact .refl _

/-- **A table is a finite map.** After any history, a key that is no tuple reads as what was last
written under an equal key; a further store changes nothing under the others; and a store under a
value that cannot be a key, and no other, is refused and leaves the table as it is. -/
theorem get_replay (origin : Nat) (ms : List Mutation) (bounded : Bounded (withOrigin origin) ms)
    (k : Value) (atomic : k.kind ≠ .tuple) (real : ∀ r, k = .range r → r.isReal = true) :
    ((replay (withOrigin origin) ms).get k).Matches (lastWritten (record (withOrigin origin) ms []) k) ∧
    (∀ (m : Mutation) (key value : Value), m.write? (replay (withOrigin origin) ms) = some (.put key value) →
      key.sameKey k = false → (m.after (replay (withOrigin origin) ms)).slots.size < maxSlots →
      ((m.after (replay (withOrigin origin) ms)).get k).Matches
        ((replay (withOrigin origin) ms).get k)) ∧
    (∀ key value, usable key.scalar = false → ∃ cause,
      (Mutation.set key value).run (replay (withOrigin origin) ms) =
        .error cause (replay (withOrigin origin) ms)) ∧
    (∀ key value, usable key.scalar = true → ∃ t,
      (Mutation.set key value).run (replay (withOrigin origin) ms) = .ok .nothing t) := by
  have agrees := replay_keeps (withOrigin_agrees origin) bounded
  have small := replay_bounded bounded
  refine ⟨agrees.get atomic real, ?_, ?_, ?_⟩
  · intro m key value writes other grown
    have now := (step_keeps agrees m small grown).get atomic real
    simp only [writes, Option.toList_some, List.singleton_append, lastWritten, other,
      Bool.false_eq_true, if_false] at now
    exact now.trans (agrees.get atomic real).symm
  · intro key value free
    obtain ⟨cause, failed⟩ := ofScalar_of_not_usable free
    exact ⟨cause, by rw [run_set, set_of_not_usable failed]; rfl⟩
  · intro key value free
    obtain ⟨_, filed⟩ := ofScalar_of_usable free
    exact ⟨_, by rw [run_set, set_of_usable filed]; rfl⟩

/-- The last key first gets an entry, which then moves into a slot when the array grows. -/
def migration : List Mutation :=
  [.append (.boolean true), .set (.number (.ofNat 65)) (.string "moved"),
    .set (.number (.ofNat 64)) (.string "grows"), .remove (.number (.ofNat 1)), .sweep]

theorem get_replay_migration :
    Bounded (withOrigin 1) migration ∧ (Value.number (.ofNat 65)).kind ≠ .tuple ∧
    ((replay (withOrigin 1) migration).get (.number (.ofNat 65))).Matches (.string "moved") ∧
    ((replay (withOrigin 1) migration).get (.number (.ofNat 1))).Matches .nil := by
  have bounded : Bounded (withOrigin 1) migration := by decide +kernel
  refine ⟨bounded, by decide, ?_, ?_⟩
  · exact (get_replay 1 migration bounded (.number (.ofNat 65)) (by decide) (by simp)).1
  · exact (get_replay 1 migration bounded (.number (.ofNat 1)) (by decide) (by simp)).1

end Table

end ScriptMachine
