import ScriptMachine.Proofs.Number.Nearest
import ScriptMachine.Proofs.Table.Border
import ScriptMachine.Proofs.Table.Growth

/-!
# Cleared tables

A table that was cleared answers as a new one does, except that its constructor goes on from the
position where it was.

* `Table.withCursor`: the constructor is at another position.
* `Unpositioned`: work that does the same at every position. `unpositioned_respond`: so does every
  command but the constructor's.
* `answers`, `after`: what a table answers to a list of commands, and what it is then.
* `clear_after`: what clearing leaves after any history.
* `answers_probe`: how the position of a constructor shows.
* `cleared_answers`: what a cleared table answers, and when it can be told from a new one.
-/

namespace ScriptMachine

namespace Table

/-- The same table, with its constructor at another position. -/
def withCursor (t : Table) (n : Nat) : Table := { t with cursor := n }

theorem pushSlots_withCursor (t : Table) (n count : Nat) :
    (t.withCursor n).pushSlots count = (t.pushSlots count).withCursor n := by
  induction count generalizing t with
  | zero => rfl
  | succ count ih => exact ih t.pushSlot

theorem absorb_withCursor (t : Table) (n fuel : Nat) :
    (t.withCursor n).absorb fuel = (t.absorb fuel).withCursor n := by
  induction fuel generalizing t with
  | zero => rfl
  | succ fuel ih =>
    have next : (t.withCursor n).nextKey = t.nextKey := rfl
    have entries : (t.withCursor n).entries = t.entries := rfl
    unfold absorb
    rw [next, entries]
    split
    · exact ih t.pushSlot
    · rfl

theorem grow_withCursor (t : Table) (n size : Nat) :
    (t.withCursor n).grow size = (t.grow size).withCursor n := by
  have slots : (t.withCursor n).slots = t.slots := rfl
  have entries : ((t.pushSlots (size - t.slots.size)).withCursor n).entries =
      (t.pushSlots (size - t.slots.size)).entries := rfl
  simp only [grow, slots, pushSlots_withCursor, entries, absorb_withCursor]
  rfl

theorem rewritten_withCursor (t : Table) (n : Nat) (key : Key) (name value : Value) :
    (t.withCursor n).rewritten key name value = (t.rewritten key name value).withCursor n := by
  have entries : (t.withCursor n).entries = t.entries := rfl
  have flag : (t.withCursor n).mayHoldTombstones = t.mayHoldTombstones := rfl
  have previous : (t.withCursor n).entryValue key = t.entryValue key := rfl
  simp only [rewritten, entries, flag, previous]
  split
  · rfl
  · split <;> rfl

/-- A store into the entries that has something to do. -/
theorem setEntry_eq_rewritten {t : Table} {key : Key} {value : Value}
    (needed : ¬ ((findEntry t.entries key).isNone && value.isNil) = true) (name : Value) :
    t.setEntry key name value = match name with
      | .number _ => { t.rewritten key name value with knownLength := none }
      | _ => t.rewritten key name value := by
  cases name <;> (rw [rewritten, isNil_entryValue, setEntry]; exact if_neg needed)

theorem setEntry_withCursor (t : Table) (n : Nat) (key : Key) (name value : Value) :
    (t.withCursor n).setEntry key name value = (t.setEntry key name value).withCursor n := by
  by_cases idle : ((findEntry t.entries key).isNone && value.isNil) = true
  · exact (if_pos idle).trans (congrArg (withCursor · n) (if_pos idle).symm)
  · rw [setEntry_eq_rewritten (t := t.withCursor n) idle, setEntry_eq_rewritten idle,
      rewritten_withCursor]
    cases name <;> rfl

theorem store_withCursor (t : Table) (n : Nat) (key : Key) (name value : Value) :
    (t.withCursor n).store key name value = (t.store key name value).withCursor n := by
  have slots : (t.withCursor n).slots = t.slots := rfl
  have slot : (t.withCursor n).slotOfKey name = t.slotOfKey name := by cases name <;> rfl
  simp only [store, slots, slot, grow_withCursor, setEntry_withCursor]
  split
  · split
    · rfl
    · split <;> rfl
  · rfl

theorem cursor_store (t : Table) (key : Key) (name value : Value) :
    (t.store key name value).cursor = t.cursor := by
  have kept := congrArg Table.cursor (t.store_withCursor t.cursor key name value)
  exact kept

theorem set_withCursor (t : Table) (n : Nat) (key value : Value) :
    (t.withCursor n).set key value = (t.set key value).map (·.withCursor n) := by
  simp only [set]
  cases Key.ofValue key with
  | error cause => rfl
  | ok k => exact congrArg Except.ok (store_withCursor t n k key.scalar value.scalar)

theorem append_withCursor (t : Table) (n : Nat) (value : Value) :
    (t.withCursor n).append value = (t.append value).withCursor n := by
  have length : (t.withCursor n).length = t.length := rfl
  have known : (t.withCursor n).withKnownLength = t.withKnownLength.withCursor n := rfl
  have slots : (t.withKnownLength.withCursor n).slots = t.withKnownLength.slots := rfl
  have origin : (t.withKnownLength.withCursor n).origin = t.withKnownLength.origin := rfl
  simp only [append, length, known, slots, origin, grow_withCursor, setEntry_withCursor]
  split
  · rfl
  · split <;> rfl

theorem remove_withCursor (t : Table) (n : Nat) (key : Value) :
    (t.withCursor n).remove key = ((t.remove key).1, (t.remove key).2.withCursor n) := by
  have own : (t.withCursor n).ownSlot key = t.ownSlot key := by cases key <;> rfl
  simp only [remove, own]
  split
  · rfl
  · split <;> rfl

/-- Reading does not depend on the position. -/
theorem next_withCursor (t : Table) (n : Nat) (key : Value) :
    (t.withCursor n).next key = t.next key := by
  have own : (t.withCursor n).ownSlot key = t.ownSlot key := by cases key <;> rfl
  simp only [next, own]
  rfl

theorem get_withCursor (t : Table) (n : Nat) (key : Value) :
    (t.withCursor n).get key = t.get key := by
  have own : (t.withCursor n).ownSlot key = t.ownSlot key := by cases key <;> rfl
  simp only [get, own]
  rfl

theorem origin_store (t : Table) (key : Key) (name value : Value) :
    (t.store key name value).origin = t.origin := by
  simp only [store]
  split
  · split
    · rfl
    · split
      · exact t.origin_grow _
      · exact t.origin_setEntry ..
  · exact t.origin_setEntry ..

theorem origin_remove (t : Table) (key : Value) : (t.remove key).2.origin = t.origin := by
  simp only [remove]
  split
  · rfl
  · split <;> rfl

theorem origin_set (t : Table) (key value : Value) (t' : Table) (h : t.set key value = .ok t') :
    t'.origin = t.origin := by
  simp only [set] at h
  cases filed : Key.ofValue key with
  | error cause => simp [filed, bind, Except.bind] at h
  | ok k =>
    simp only [filed, bind, Except.bind, pure, Except.pure, Except.ok.injEq] at h
    rw [← h, origin_store]

end Table

namespace TableSession

open Table

section Work

variable {α β : Type}

/-- The outcome of work on a table, with the constructor at another position. -/
def moved (n : Nat) : EStateM.Result Cause Table α → EStateM.Result Cause Table α
  | .ok a t => .ok a (t.withCursor n)
  | .error cause t => .error cause (t.withCursor n)

/-- The table that work leaves, failed or not. -/
def left : EStateM.Result Cause Table α → Table
  | .ok _ t => t
  | .error _ t => t

/-- The work does the same wherever the constructor is, and leaves it and the origin there. -/
structure Unpositioned (work : Work α) : Prop where
  moves : ∀ t n, work (t.withCursor n) = moved n (work t)
  origin : ∀ t, (left (work t)).origin = t.origin

theorem Unpositioned.cursor {work : Work α} (h : Unpositioned work) (t : Table) :
    (left (work t)).cursor = t.cursor := by
  have same : work t = moved t.cursor (work t) := h.moves t t.cursor
  rw [same]
  cases work t <;> rfl

theorem unpositioned_pure (a : α) : Unpositioned (pure a) := ⟨fun _ _ => rfl, fun _ => rfl⟩

theorem Unpositioned.bind {work : Work α} {f : α → Work β} (h : Unpositioned work)
    (rest : ∀ a, Unpositioned (f a)) : Unpositioned (work >>= f) := by
  constructor
  · intro t n
    simp only [Bind.bind, EStateM.bind, h.moves t n]
    cases work t with
    | ok a t' => exact (rest a).moves t' n
    | error cause t' => rfl
  · intro t
    have first := h.origin t
    simp only [Bind.bind, EStateM.bind]
    cases after : work t with
    | ok a t' => exact ((rest a).origin t').trans (by rw [← first, after]; rfl)
    | error cause t' => exact Eq.trans (by rw [after]; rfl) first

/-- What is looked up does not depend on the position. -/
theorem unpositioned_look {f : Table → Except Cause α} (h : ∀ t n, f (t.withCursor n) = f t) :
    Unpositioned (do lift (f (← get))) := by
  constructor
  · intro t n
    change lift (f (t.withCursor n)) (t.withCursor n) = moved n (lift (f t) t)
    rw [h t n]
    cases f t <;> rfl
  · intro t
    change (left (lift (f t) t)).origin = t.origin
    cases f t <;> rfl

theorem unpositioned_modify {f : Table → Table}
    (moves : ∀ t n, f (t.withCursor n) = (f t).withCursor n)
    (origin : ∀ t, (f t).origin = t.origin) : Unpositioned (modify f) :=
  ⟨fun t n => congrArg (EStateM.Result.ok PUnit.unit) (moves t n), origin⟩

theorem unpositioned_store (key value : Value) : Unpositioned (store key value) := by
  have steps : ∀ t : Table, store key value t =
      (lift (t.set key value) >>= MonadStateOf.set : Work Unit) t := fun _ => rfl
  constructor
  · intro t n
    rw [steps, steps, set_withCursor]
    cases t.set key value <;> rfl
  · intro t
    have kept := t.origin_set key value
    rw [steps]
    cases stored : t.set key value with
    | error cause => rfl
    | ok t' => exact kept t' stored

theorem unpositioned_storeEach (is : List Int) : Unpositioned (storeEach is) := by
  induction is with
  | nil => exact unpositioned_pure ()
  | cons i rest ih => exact (unpositioned_store _ _).bind fun _ => ih

theorem unpositioned_traverse {visit : Value → Work Unit} (h : ∀ key, Unpositioned (visit key))
    (fuel : Nat) (current : Value) : Unpositioned (traverse visit fuel current) := by
  induction fuel generalizing current with
  | zero => exact unpositioned_pure []
  | succ fuel ih =>
    rw [traverse, ← bind_assoc]
    refine (unpositioned_look fun t n => t.next_withCursor n current).bind fun pair => ?_
    cases pair with
    | none => exact unpositioned_pure []
    | some pair =>
      exact (h pair.1).bind fun _ => (ih pair.1).bind fun _ => unpositioned_pure _

end Work

/-- The command of a constructor. -/
def Command.isPositional : Command → Bool
  | .appendPositional _ => true
  | _ => false

variable (same : Value → Value → Bool)

/-- A command answers the same wherever the constructor is, unless it stores at its position. -/
theorem unpositioned_respond {c : Command} (other : c.isPositional = false) :
    Unpositioned (respond same c) := by
  have look {f : Table → Reply} (h : ∀ t n, f (t.withCursor n) = f t) :
      Unpositioned (do return f (← get)) :=
    unpositioned_look (f := fun t => .ok (f t)) (by simp [h])
  have change {f : Table → Table} (moves : ∀ t n, f (t.withCursor n) = (f t).withCursor n)
      (origin : ∀ t, (f t).origin = t.origin) : Unpositioned (do modify f; return Reply.nothing) :=
    (unpositioned_modify moves origin).bind fun _ => unpositioned_pure _
  cases c with
  | appendPositional value => simp [Command.isPositional] at other
  | get key => exact look fun t n => congrArg Reply.value (t.get_withCursor n key)
  | getInt key => exact look fun t n => congrArg Reply.value (t.get_withCursor n _)
  | getString | count | origin | pairs | keys | values | metatable => exact look fun _ _ => rfl
  | set key value => exact (unpositioned_store key value).bind fun _ => unpositioned_pure _
  | setInt key value => exact (unpositioned_store _ value).bind fun _ => unpositioned_pure _
  | setString key value =>
    exact change (fun t n => t.setEntry_withCursor n ..) fun t => t.origin_setEntry ..
  | append value =>
    exact change (fun t n => t.append_withCursor n value) fun t => t.origin_append value
  | sweep => exact change (f := Table.sweep) (fun _ _ => rfl) fun _ => rfl
  | clear => exact change (f := Table.clear) (fun _ _ => rfl) fun _ => rfl
  | setMetatable m =>
    exact change (f := fun t => { t with metatable := m }) (fun _ _ => rfl) fun _ => rfl
  | remove key =>
    have steps : ∀ t, respond same (.remove key) t =
        .ok (.value (t.remove key).1) (t.remove key).2 := fun _ => rfl
    refine ⟨fun t n => ?_, fun t => t.origin_remove key⟩
    rw [steps, steps, remove_withCursor]
    rfl
  | length => exact ⟨fun _ _ => rfl, fun _ => rfl⟩
  | next key =>
    refine (unpositioned_look fun t n => t.next_withCursor n key).bind fun pair => ?_
    cases pair <;> exact unpositioned_pure _
  | fill first last step => exact (unpositioned_storeEach _).bind fun _ => unpositioned_pure _
  | walk change =>
    refine (unpositioned_traverse (fun key => ?_) _ _).bind fun _ => unpositioned_pure _
    rcases change with _ | ⟨k, k', v'⟩
    · exact unpositioned_pure ()
    · dsimp only
      split
      · exact unpositioned_store k' v'
      · exact unpositioned_pure ()
  | clearingWalk =>
    have count : Unpositioned (do return (← get).count) :=
      unpositioned_look (f := fun t => .ok t.count) fun _ _ => rfl
    have steps : respond same .clearingWalk = (do return (← get).count) >>= fun fuel =>
        traverse (fun key => store key .nil) fuel .nil >>= fun keys => pure (.list keys) := rfl
    rw [steps]
    exact count.bind fun fuel =>
      (unpositioned_traverse (fun key => unpositioned_store key .nil) fuel .nil).bind
        fun _ => unpositioned_pure _

def answer : EStateM.Result Cause Table Reply → Except Cause Reply
  | .ok reply _ => .ok reply
  | .error cause _ => .error cause

/-- What a table answers to commands, one after the other. -/
def answers : Table → List Command → List (Except Cause Reply)
  | _, [] => []
  | t, c :: rest => answer (respond same c t) :: answers (left (respond same c t)) rest

/-- The table after the commands. -/
def after : Table → List Command → Table
  | t, [] => t
  | t, c :: rest => after (left (respond same c t)) rest

/-- A constructor never fails. -/
theorem respond_appendPositional (t : Table) (value : Value) :
    respond same (.appendPositional value) t =
      .ok .nothing ({ t with cursor := t.cursor + 1 }.store (.ofNat (t.cursor + t.origin))
        (.number (.ofNat (t.cursor + t.origin))) value.scalar) := by
  have filed := Key.ofScalar_ofNat (t.cursor + t.origin)
  have stored : t.appendPositional value = .ok _ :=
    set_of_usable (k := .ofNat (t.cursor + t.origin)) (by simpa [Value.scalar] using filed) value
  have run : respond same (.appendPositional value) t = changed t (t.appendPositional value) :=
    run_appendPositional t value
  rw [run, stored]
  rfl

theorem origin_left (c : Command) (t : Table) : (left (respond same c t)).origin = t.origin := by
  cases positional : c.isPositional with
  | false => exact (unpositioned_respond same positional).origin t
  | true =>
    cases c with
    | appendPositional value =>
      rw [respond_appendPositional]
      exact origin_store ..
    | _ => simp [Command.isPositional] at positional

/-- The constructor's command alone moves the position, by one. -/
theorem cursor_left (c : Command) (t : Table) :
    (left (respond same c t)).cursor = t.cursor + if c.isPositional then 1 else 0 := by
  cases positional : c.isPositional with
  | false => exact (unpositioned_respond same positional).cursor t
  | true =>
    cases c with
    | appendPositional value =>
      rw [respond_appendPositional]
      exact cursor_store ..
    | _ => simp [Command.isPositional] at positional

theorem origin_after (t : Table) (cs : List Command) : (after same t cs).origin = t.origin := by
  induction cs generalizing t with
  | nil => rfl
  | cons c rest ih => exact (ih _).trans (origin_left same c t)

theorem cursor_after (t : Table) (cs : List Command) :
    (after same t cs).cursor = t.cursor + cs.countP Command.isPositional := by
  induction cs generalizing t with
  | nil => rfl
  | cons c rest ih =>
    rw [after, ih, cursor_left, List.countP_cons]
    omega

theorem answers_withCursor (t : Table) (n : Nat) {cs : List Command}
    (others : ∀ c ∈ cs, c.isPositional = false) :
    answers same (t.withCursor n) cs = answers same t cs := by
  induction cs generalizing t with
  | nil => rfl
  | cons c rest ih =>
    obtain ⟨other, others⟩ := List.forall_mem_cons.1 others
    have answered : ∀ r : EStateM.Result Cause Table Reply, answer (moved n r) = answer r ∧
        left (moved n r) = (left r).withCursor n := by
      intro r
      cases r <;> exact ⟨rfl, rfl⟩
    rw [answers, answers, (unpositioned_respond same other).moves, (answered _).1, (answered _).2,
      ih _ others]

/-- A new table, except for its metatable. -/
def fresh (origin : Nat) (metatable : Option TableId) : Table :=
  { withOrigin origin with metatable := metatable }

theorem clear_after (origin : Nat) (history : List Command) :
    (after same (withOrigin origin) history).clear =
      (fresh origin (after same (withOrigin origin) history).metatable).withCursor
        (history.countP Command.isPositional) := by
  have origin' := origin_after same (withOrigin origin) history
  have cursor := cursor_after same (withOrigin origin) history
  have start : (withOrigin origin).cursor = 0 := rfl
  rw [start, Nat.zero_add] at cursor
  rw [← cursor, clear, origin']
  rfl

theorem fresh_wellFormed (origin : Nat) (metatable : Option TableId) (n : Nat) :
    ((fresh origin metatable).withCursor n).WellFormed where
  origin_le := Nat.min_le_right _ _
  distinct := List.nodup_nil
  named := by simp [fresh, withOrigin, withCursor]
  outside := by simp [fresh, withOrigin, withCursor]
  flagged := by simp [fresh, withOrigin, withCursor]
  settled := rfl
  cached := (withOrigin_wellFormed origin).cached

/-- The first key of the slots is no other position's. -/
theorem ofNat_ne {origin n : Nat} (small : origin ≤ 1) (behind : 0 < n) :
    Key.ofNat origin ≠ Key.ofNat (n + origin) := by
  intro same
  have power : origin < 2 ^ origin := Nat.lt_two_pow_self
  have above : 2 ^ origin ≤ n + origin := by
    have : origin = 0 ∨ origin = 1 := by omega
    rcases this with rfl | rfl <;> omega
  have beyond := Number.two_pow_le_nearest above
  have whole := Number.integer?_eq_of_numberBits (Key.number.inj same)
  rw [Number.integer?_ofNat (by omega)] at whole
  obtain ⟨finite, units, -⟩ := Number.integer?_eq_some_iff.1 whole.symm
  rcases Nat.lt_or_ge (Number.nearest (n + origin)) (2 ^ 1024) with held | large
  · rw [(Number.ofNat_of_lt held).2, Int.natAbs_natCast] at units
    have := Nat.eq_of_mul_eq_mul_right Number.unitsPerOne_pos units
    omega
  · rw [Number.ofNat_of_le large] at finite
    exact absurd finite (by decide)

/-- What tells how far a constructor has come: its next entry, and then the first key. -/
def probe (origin : Nat) : List Command :=
  [.appendPositional (.boolean true), .get (.number (.ofNat origin))]

/-- A new table with the entry of a constructor that was at position `n`. -/
def entered (origin : Nat) (metatable : Option TableId) (n : Nat) : Table :=
  ((fresh origin metatable).withCursor (n + 1)).store (.ofNat (n + min origin 1))
    (.number (.ofNat (n + min origin 1))) (.boolean true)

theorem size_entered_lt (origin : Nat) (metatable : Option TableId) (n : Nat) :
    (entered origin metatable n).slots.size < maxSlots := by
  have added := (adds_store ((fresh origin metatable).withCursor (n + 1))
    (.ofNat (n + min origin 1)) (.number (.ofNat (n + min origin 1))) (.boolean true)).extent
  have bare : ((fresh origin metatable).withCursor (n + 1)).extent = 0 := rfl
  have near : ((fresh origin metatable).withCursor (n + 1)).room
      (((fresh origin metatable).withCursor (n + 1)).growthSlot?
        (.number (.ofNat (n + min origin 1))) (.boolean true)) ≤ 64 := by
    cases grows : ((fresh origin metatable).withCursor (n + 1)).growthSlot?
        (.number (.ofNat (n + min origin 1))) (.boolean true) with
    | none => simp [room]
    | some i =>
      have window : i < 64 := (growthSlot?_eq_some_iff.1 grows).2.2.2
      simp only [room]
      omega
  have many : 64 < maxSlots := by decide
  simp only [extent] at added bare
  simp only [entered]
  omega

/-- The entry is under the first key if the constructor was at the start. -/
theorem isNil_first (origin : Nat) (metatable : Option TableId) (n : Nat) :
    ((entered origin metatable n).get (.number (.ofNat (min origin 1)))).isNil = !(n == 0) := by
  have first := Key.ofScalar_ofNat (min origin 1)
  have found := find_store (fresh_wellFormed origin metatable (n + 1)) (.boolean true)
    (Key.ofScalar_ofNat (n + min origin 1)) (size_entered_lt origin metatable n) ⟨_, first⟩
  rw [get_eq_find _ first, entered, found.isNil_eq]
  cases n with
  | zero => rw [Nat.zero_add, if_pos rfl]; rfl
  | succ n =>
    rw [if_neg (ofNat_ne (Nat.min_le_right origin 1) n.succ_pos),
      find_eq_entry fun _ _ => Nat.zero_le _]
    rfl

theorem answers_probe (origin : Nat) (metatable : Option TableId) (n : Nat) :
    answers same ((fresh origin metatable).withCursor n) (probe (min origin 1)) =
      [.ok .nothing,
        .ok (.value ((entered origin metatable n).get (.number (.ofNat (min origin 1)))))] := by
  rw [probe, answers, respond_appendPositional]
  rfl

/-- **What a cleared table answers.** Clearing a table leaves a new one of its origin and metatable,
except that the constructor goes on behind the positional entries of the whole history. So it
answers like a new one to all commands but the constructor's, and to these as well exactly if the
history has none. -/
theorem cleared_answers (origin : Nat) (history : List Command) :
    let t := after same (withOrigin origin) history
    t.clear = (fresh origin t.metatable).withCursor (history.countP Command.isPositional) ∧
    (∀ cs, (∀ c ∈ cs, c.isPositional = false) →
      answers same t.clear cs = answers same (fresh origin t.metatable) cs) ∧
    ((∀ cs, answers same t.clear cs = answers same (fresh origin t.metatable) cs) ↔
      ∀ c ∈ history, c.isPositional = false) := by
  intro t
  have cleared : t.clear = _ := clear_after same origin history
  refine ⟨cleared, fun cs others => ?_, fun alike c mem => ?_, fun others cs => ?_⟩
  · rw [cleared, answers_withCursor same _ _ others]
  · have told := alike (probe (min origin 1))
    rw [cleared, answers_probe] at told
    have start : answers same (fresh origin t.metatable) (probe (min origin 1)) = _ :=
      answers_probe same origin t.metatable 0
    rw [start] at told
    simp only [List.cons.injEq, Except.ok.injEq, Reply.value.injEq, and_true, true_and] at told
    have nils := congrArg Value.isNil told
    rw [isNil_first, isNil_first] at nils
    have none : history.countP Command.isPositional = 0 := by simpa using nils
    simpa using List.countP_eq_zero.1 none c mem
  · have none : history.countP Command.isPositional = 0 :=
      List.countP_eq_zero.2 fun c mem => by simp [others c mem]
    rw [cleared, none]
    rfl

/-- A table with a positional entry, once cleared, puts the next one under its second key. -/
theorem clear_keeps_position :
    let t := after Value.sameKey (withOrigin 1) [.appendPositional (.boolean true)]
    answers Value.sameKey t.clear (probe 1) ≠
      answers Value.sameKey (fresh 1 t.metatable) (probe 1) := by
  intro t alike
  have second : answers Value.sameKey t.clear (probe 1) = _ := answers_probe _ 1 t.metatable 1
  have first : answers Value.sameKey (fresh 1 t.metatable) (probe 1) = _ :=
    answers_probe _ 1 t.metatable 0
  rw [second, first] at alike
  simp only [List.cons.injEq, Except.ok.injEq, Reply.value.injEq, and_true, true_and] at alike
  have nils := congrArg Value.isNil alike
  rw [isNil_first, isNil_first] at nils
  exact absurd nils (by decide)

end TableSession

end ScriptMachine
