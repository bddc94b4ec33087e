import ScriptMachine.Proofs.Table.Rows

/-!
# Traversals of a table that changes

A traversal asks for the key after the one it has come to, and stores may be made between its
steps.

* `ahead`: the rows a traversal has yet to see. `ahead_of_visit`: a visit takes the first of them
  that has a value.
* `clearing_traversal`: while keys are cleared, what is visited is what was there at the start, less
  what was cleared before it was reached.
* `overwriting_traversal`: while values are overwritten the traversal goes on and ends; it visits
  every key once if no store makes the array grow. `overwriting_revisits`: otherwise it may not.
-/

namespace ScriptMachine.Table

/-! ## Traversals -/

def storeAll (t : Table) : List (Value × Value) → Except Cause Table
  | [] => .ok t
  | (k, v) :: rest => do (← t.set k v).storeAll rest

/-- The pairs that a traversal visits from a key on, if so many steps are enough for it to end. After
each visit the next batch of stores is made. -/
def tour : Nat → List (List (Value × Value)) → Table → Value →
    Except Cause (Option (List (Value × Value)))
  | 0, _, _, _ => .ok none
  | fuel + 1, batches, t, current => do
    match ← t.next current with
    | none => return some []
    | some pair => do
      let t ← t.storeAll (batches.headD [])
      return (← tour fuel batches.tail t pair.1).map (pair :: ·)

/-- The rows behind the one of a key, and all of them before the traversal has begun. -/
def ahead (t : Table) (current : Value) : Option (List Entry) :=
  if current.isNil then some t.rows
  else match Key.ofScalar current with
    | .ok k => entriesAfter t.rows k
    | .error _ => none

/-- The pairs are each key of the table that has a value, once, with that value. -/
structure Lists (t : Table) (ps : List (Value × Value)) : Prop where
  once : (ps.map fun p => Key.ofScalar p.1).Nodup
  values : ∀ p ∈ ps, t.get p.1 = p.2
  complete : ∀ k, usable k = true →
    ((t.get k).isNil = false ↔ ∃ p ∈ ps, Key.ofScalar p.1 = Key.ofScalar k)

theorem tour_end {t : Table} {current : Value} (fuel : Nat) (batches : List (List (Value × Value)))
    (h : t.next current = .ok none) : tour (fuel + 1) batches t current = .ok (some []) := by
  rw [tour, h]
  rfl

theorem tour_visit {t t' : Table} {current : Value} {fuel : Nat}
    {batches : List (List (Value × Value))} {p : Value × Value} {seen : List (Value × Value)}
    (h : t.next current = .ok (some p)) (stored : t.storeAll (batches.headD []) = .ok t')
    (onward : tour fuel batches.tail t' p.1 = .ok (some seen)) :
    tour (fuel + 1) batches t current = .ok (some (p :: seen)) := by
  rw [tour, h]
  have steps : (do
      let t ← t.storeAll (batches.headD [])
      return (← tour fuel batches.tail t p.1).map (p :: ·)) = Except.ok (some (p :: seen)) := by
    rw [stored]
    show (do return (← tour fuel batches.tail t' p.1).map (p :: ·)) = _
    rw [onward]
    rfl
  exact steps

theorem ahead_eq {t : Table} {current : Value} {k : Key} (filed : Key.ofScalar current = .ok k) :
    t.ahead current = entriesAfter t.rows k := by
  have begun : current.isNil = false := by
    cases current <;> first | rfl | simp [Key.ofScalar] at filed
  rw [ahead, begun, filed]
  rfl

/-- What is ahead are the last rows of the table. -/
theorem suffix_of_ahead {t : Table} {current : Value} {rest : List Entry}
    (h : t.ahead current = some rest) : rest <:+ t.rows := by
  simp only [ahead] at h
  split at h
  · obtain rfl := Option.some.inj h
    exact List.suffix_refl _
  · split at h
    · obtain ⟨before, e, rows, _⟩ := exists_split_of_entriesAfter h
      exact ⟨before ++ [e], by rw [rows]; simp⟩
    · cases h

theorem livePairs_ahead_sublist {t : Table} {current : Value} {rest : List Entry}
    (h : t.ahead current = some rest) : (livePairs rest).Sublist t.pairs := by
  obtain ⟨before, rows⟩ := suffix_of_ahead h
  rw [pairs_eq, ← rows, livePairs_append]
  exact List.sublist_append_right _ _

section
variable {t : Table} (wf : t.WellFormed) (small : t.slots.size < maxSlots)
include wf small

theorem next_of_ahead {current : Value} {rest : List Entry} (h : t.ahead current = some rest) :
    t.next current = .ok (livePairs rest).head? := by
  cases begun : current.isNil with
  | true =>
    rw [ahead, begun] at h
    obtain rfl := Option.some.inj h
    rw [next, begun, pairs_eq]
    rfl
  | false =>
    cases filed : Key.ofScalar current with
    | error cause => simp [ahead, begun, filed] at h
    | ok k =>
      rw [ahead_eq filed] at h
      rw [next_eq wf small filed, h]

/-- From a visited key on, the rest of what was ahead is ahead. -/
theorem ahead_of_visit {current : Value} {rest : List Entry} (h : t.ahead current = some rest)
    {p : Value × Value} {more : List (Value × Value)} (live : livePairs rest = p :: more) :
    ∃ rest', t.ahead p.1 = some rest' ∧ livePairs rest' = more := by
  obtain ⟨e, shown, visible, rfl, rfl⟩ := List.map_eq_cons_iff.1 live
  obtain ⟨dead, rest', rfl, _, _, rfl⟩ := List.filter_eq_cons_iff.1 visible
  obtain ⟨before, rows⟩ := suffix_of_ahead h
  have mem : e ∈ t.rows := by
    rw [← rows]
    simp
  have distinct : ((before ++ dead ++ e :: rest').map Entry.key).Nodup := by
    rw [List.append_assoc, rows]
    exact nodup_rows wf small
  have split := entriesAfter_split distinct
  rw [List.append_assoc, rows] at split
  exact ⟨rest', (ahead_eq (named_rows wf mem)).trans split, rfl⟩

theorem live_of_mem_pairs {p : Value × Value} (mem : p ∈ t.pairs) :
    usable p.1 = true ∧ (t.get p.1).isNil = false := by
  obtain ⟨e, row, live, rfl⟩ := mem_pairs.1 mem
  have filed := named_rows wf row
  refine ⟨usable_of_ofScalar filed, ?_⟩
  rw [get_eq_find t filed, find_of_mem_rows wf small row]
  exact live

/-- The pairs list what the table holds. -/
theorem lists_pairs : t.Lists t.pairs where
  once := by
    have keys : (t.pairs.map fun p => Key.ofScalar p.1) =
        ((t.rows.filter fun e => !e.value.isNil).map Entry.key).map Except.ok := by
      rw [pairs_eq, livePairs, List.map_map, List.map_map]
      exact List.map_congr_left fun e mem => named_rows wf (List.mem_filter.1 mem).1
    rw [keys]
    refine List.Nodup.map (fun _ _ => Except.ok.inj) ?_
    exact (nodup_rows wf small).sublist (List.filter_sublist.map _)
  values := by
    intro p mem
    obtain ⟨e, row, _, rfl⟩ := mem_pairs.1 mem
    rw [get_eq_find t (named_rows wf row), find_of_mem_rows wf small row]
  complete := by
    intro k free
    obtain ⟨key, filed⟩ := ofScalar_of_usable free
    rw [get_eq_find t filed, filed]
    constructor
    · intro live
      obtain ⟨e, row, rfl⟩ := exists_row wf small ⟨k, filed⟩ live
      rw [find_of_mem_rows wf small row] at live
      exact ⟨(e.name, e.value), mem_pairs.2 ⟨e, row, live, rfl⟩, named_rows wf row⟩
    · rintro ⟨p, mem, same⟩
      have live := (live_of_mem_pairs wf small mem).2
      rwa [get_eq_find t same] at live

/-- A store without growth leaves what is ahead, but for one value. -/
theorem ahead_store {name : Value} {k : Key} (filed : Key.ofScalar name = .ok k) {v : Value}
    (still : v.isNil = true ∨ (t.find k).isNil = false ∧ t.Keeps name) {current : Value}
    {rest : List Entry} (h : t.ahead current = some rest) :
    (t.store k name v).ahead current = some (replaceValue rest k v) := by
  have rows := (rows_store wf small filed still).1
  simp only [ahead] at h ⊢
  split at h
  · obtain rfl := Option.some.inj h
    rw [rows, if_pos ‹_›]
  · rw [if_neg ‹_›]
    split at h
    · rw [rows, entriesAfter_replaceValue, h]
      rfl
    · cases h

end

/-! ## Clearing -/

def sameFile (a b : Value) : Bool := decide (Key.ofScalar a = Key.ofScalar b)

/-- The pairs less those whose keys are cleared before they are reached, given the keys cleared so
far and those that are cleared after each visit. -/
def survivors : List Value → List (List Value) → List (Value × Value) → List (Value × Value)
  | _, _, [] => []
  | cleared, batches, p :: rest =>
    if cleared.any (sameFile · p.1) then survivors cleared batches rest
    else p :: survivors (cleared ++ batches.headD []) batches.tail rest

/-- The stores that clear keys. -/
def clears (keys : List Value) : List (Value × Value) := keys.map fun k => (k, .nil)

/-- Taking out the value of a key takes its pair out. -/
theorem livePairs_replaceValue_nil {es : List Entry}
    (named : ∀ e ∈ es, Key.ofScalar e.name = .ok e.key) {name : Value} {k : Key}
    (filed : Key.ofScalar name = .ok k) :
    livePairs (replaceValue es k .nil) = (livePairs es).filter fun p => !sameFile name p.1 := by
  induction es with
  | nil => rfl
  | cons e rest ih =>
    have ih := ih fun e mem => named e (List.mem_cons_of_mem _ mem)
    have here : sameFile name e.name = (e.key == k) := by
      rw [sameFile, named e List.mem_cons_self, filed, Bool.eq_iff_iff]
      simpa using eq_comm
    have split (e : Entry) (es : List Entry) : livePairs (e :: es) =
        (if e.value.isNil then [] else [(e.name, e.value)]) ++ livePairs es := by
      cases empty : e.value.isNil <;> simp [livePairs, empty]
    have first : replaceValue (e :: rest) k .nil =
        (if e.key == k then { e with value := .nil } else e) :: replaceValue rest k .nil := rfl
    rw [first, split, split e rest, List.filter_append, ih]
    congr 1
    cases same : e.key == k
    · cases empty : e.value.isNil <;> simp [here, same, empty]
    · cases e.value.isNil <;> simp [here, same, Value.isNil]

/-- A batch of clears takes pairs out of what is ahead, and nothing else happens to it. -/
theorem storeAll_clears {t : Table} (wf : t.WellFormed) (small : t.slots.size < maxSlots)
    {keys : List Value} (valid : ∀ k ∈ keys, usable k = true) :
    ∃ t', t.storeAll (clears keys) = .ok t' ∧ t'.WellFormed ∧ t'.slots.size < maxSlots ∧
      ∀ current rest, t.ahead current = some rest → ∃ rest', t'.ahead current = some rest' ∧
        livePairs rest' = (livePairs rest).filter fun p => !keys.any (sameFile · p.1) := by
  induction keys generalizing t with
  | nil => exact ⟨t, rfl, wf, small, fun _ rest h => ⟨rest, h, by simp⟩⟩
  | cons k keys ih =>
    have free := valid k List.mem_cons_self
    obtain ⟨key, filed⟩ := ofScalar_of_usable free
    have atomic : k.scalar = k := Value.scalar_eq_self (Key.kind_of_ofScalar filed)
    have stored : t.set k .nil = .ok (t.store key k .nil) := by
      rw [← atomic] at filed
      rw [set_of_usable filed, atomic]
      rfl
    have size := (rows_store wf small filed (v := .nil) (.inl rfl)).2.1
    have small' : (t.store key k .nil).slots.size < maxSlots := size ▸ small
    obtain ⟨t', all, wf', bounded, leaves⟩ := ih (store_wellFormed wf .nil filed small') small'
      fun k mem => valid k (List.mem_cons_of_mem _ mem)
    refine ⟨t', ?_, wf', bounded, fun current rest h => ?_⟩
    · have steps : t.storeAll (clears (k :: keys)) =
          (t.set k .nil >>= fun t => t.storeAll (clears keys)) := rfl
      rw [steps, stored]
      exact all
    · obtain ⟨rest', h', shown⟩ := leaves current _ (ahead_store wf small filed (.inl rfl) h)
      obtain ⟨before, rows⟩ := suffix_of_ahead h
      have named : ∀ e ∈ rest, Key.ofScalar e.name = .ok e.key := fun e mem =>
        named_rows wf (rows ▸ List.mem_append_right before mem)
      refine ⟨rest', h', ?_⟩
      rw [shown, livePairs_replaceValue_nil named filed, List.filter_filter]
      simp [Bool.and_comm]

/-- While keys are cleared, what is ahead of a traversal are the pairs of the start that were not
cleared, and these it visits unless they are cleared before it comes to them. -/
theorem tour_clearing {ps : List (Value × Value)} {t : Table} (wf : t.WellFormed)
    (small : t.slots.size < maxSlots) {cleared : List Value} {batches : List (List Value)}
    (valid : ∀ keys ∈ batches, ∀ k ∈ keys, usable k = true) {current : Value} {rest : List Entry}
    (h : t.ahead current = some rest)
    (left : livePairs rest = ps.filter fun p => !cleared.any (sameFile · p.1)) {fuel : Nat}
    (enough : ps.length < fuel) :
    tour fuel (batches.map clears) t current = .ok (some (survivors cleared batches ps)) := by
  induction ps generalizing t cleared batches current rest fuel with
  | nil =>
    obtain ⟨fuel, rfl⟩ := Nat.exists_eq_succ_of_ne_zero (Nat.ne_of_gt enough)
    refine tour_end fuel _ ?_
    rw [next_of_ahead wf small h, left]
    rfl
  | cons p ps ih =>
    rw [List.length_cons] at enough
    cases gone : cleared.any (sameFile · p.1) with
    | true =>
      rw [survivors, if_pos gone]
      exact ih wf small valid h (by simpa [gone] using left) (by omega)
    | false =>
      obtain ⟨fuel, rfl⟩ := Nat.exists_eq_succ_of_ne_zero (Nat.ne_of_gt (Nat.zero_lt_of_lt enough))
      have visible : livePairs rest = p :: ps.filter fun p => !cleared.any (sameFile · p.1) := by
        rw [left, List.filter_cons_of_pos (by simp [gone])]
      obtain ⟨rest', ahead, more⟩ := ahead_of_visit wf small h visible
      have now : ∀ k ∈ batches.headD [], usable k = true := by
        cases batches with
        | nil => simp
        | cons keys later => exact valid keys List.mem_cons_self
      have later : ∀ keys ∈ batches.tail, ∀ k ∈ keys, usable k = true := fun keys mem =>
        valid keys (List.mem_of_mem_tail mem)
      obtain ⟨t', stored, wf', small', leaves⟩ := storeAll_clears wf small now
      obtain ⟨rest'', ahead', left'⟩ := leaves p.1 rest' ahead
      rw [survivors, if_neg (by simp [gone])]
      have visit : t.next current = .ok (some p) := by
        rw [next_of_ahead wf small h, visible]
        rfl
      have made : t.storeAll ((batches.map clears).headD []) = .ok t' := by
        cases batches <;> exact stored
      refine tour_visit visit made ?_
      rw [← List.map_tail]
      refine ih wf' small' later ahead' ?_ (by omega)
      rw [left', more, List.filter_filter]
      simp [List.any_append, Bool.and_comm]

/-- **Clearing does not disturb a traversal.** Whatever keys are cleared between its steps, it ends
without fail, and visits in the order of the start what the table held there, less what was cleared
before it was reached; nothing is missing if nothing is cleared. -/
theorem clearing_traversal {t : Table} (reached : t.Reachable) (batches : List (List Value))
    (valid : ∀ keys ∈ batches, ∀ k ∈ keys, usable k = true) {fuel : Nat} (enough : t.count < fuel) :
    tour fuel (batches.map clears) t .nil = .ok (some (survivors [] batches t.pairs)) ∧
    tour fuel [] t .nil = .ok (some t.pairs) ∧ t.pairs.length = t.count ∧ t.Lists t.pairs := by
  obtain ⟨wf, small⟩ := reached.wellFormed
  rw [count_eq] at enough
  have start : t.ahead .nil = some t.rows := rfl
  have all : livePairs t.rows = t.pairs.filter fun p => !([] : List Value).any (sameFile · p.1) := by
    simp [pairs_eq]
  have unchanged : ∀ ps, survivors [] [] ps = ps := by
    intro ps
    induction ps with
    | nil => rfl
    | cons p ps ih => exact congrArg (p :: ·) ih
  refine ⟨tour_clearing wf small valid start all enough, ?_, t.count_eq.symm, lists_pairs wf small⟩
  have none : ∀ keys ∈ ([] : List (List Value)), ∀ k ∈ keys, usable k = true := by simp
  have quiet := tour_clearing wf small none start all enough
  rwa [unchanged] at quiet

/-- Slots, one of them cleared, and entries, one of them an integer within reach of the slots. -/
def assortment : List Mutation :=
  [.append (.boolean true), .setString "a" (.boolean true), .set (.number 66) (.boolean true),
    .setString "b" (.boolean true), .append (.boolean true), .set (.number 1) .nil,
    .set (.number 34) (.boolean true), .setString "c" (.boolean true)]

def assorted : Table := replay (withOrigin 1) assortment

theorem assorted_reachable : assorted.Reachable :=
  reachable_replay (.fresh 1) (by decide +kernel)

/-- Keys ahead, behind and in no table are cleared. -/
theorem clearing_traversal_assorted :
    assorted.Reachable ∧
    (∀ keys ∈ [[.string "b", .number 34], [.number 2, .string "d"]], ∀ k ∈ keys, usable k = true) ∧
    assorted.count < 7 ∧
    ∃ seen, tour 7 ([[.string "b", .number 34], [.number 2, .string "d"]].map clears) assorted .nil =
        .ok (some seen) ∧
      seen.map (fun p => Key.ofScalar p.1) =
        [.number 2, .string "a", .number 66, .string "c"].map Key.ofScalar := by
  have valid : ∀ keys ∈ [[.string "b", .number 34], [.number 2, .string "d"]], ∀ k ∈ keys,
      usable k = true := by decide +kernel
  have enough : assorted.count < 7 := by decide +kernel
  refine ⟨assorted_reachable, valid, enough, _,
    (clearing_traversal assorted_reachable _ valid enough).1, ?_⟩
  decide +kernel

/-! ## Overwriting -/

/-- Every store writes a value over another, and the slots stay below the bound. -/
def Overwrites : Table → List (Value × Value) → Prop
  | _, [] => True
  | t, (k, v) :: rest =>
    (t.get k.scalar).isNil = false ∧ v.scalar.isNil = false ∧
    match t.set k v with
    | .ok t' => t'.slots.size < maxSlots ∧ t'.Overwrites rest
    | .error _ => True

instance decidableOverwrites : (t : Table) → (stores : List (Value × Value)) →
    Decidable (Overwrites t stores)
  | _, [] => inferInstanceAs (Decidable True)
  | t, (k, v) :: rest =>
    have : Decidable (match t.set k v with
        | .ok t' => t'.slots.size < maxSlots ∧ t'.Overwrites rest
        | .error _ => True) := match t.set k v with
      | .ok t' =>
        have := decidableOverwrites t' rest
        inferInstanceAs (Decidable (_ ∧ _))
      | .error _ => inferInstanceAs (Decidable True)
    inferInstanceAs (Decidable (_ ∧ _ ∧ _))

/-- A row but for its value: whether it has one. -/
def outline (e : Entry) : Key × Value × Bool := (e.key, e.name, e.value.isNil)

/-- No row has moved, appeared or gone, and each has a value if it had one. -/
structure Still (t t' : Table) : Prop where
  rows : t'.rows.map outline = t.rows.map outline
  size : t'.slots.size = t.slots.size
  origin : t'.origin = t.origin

theorem Still.refl (t : Table) : Still t t := ⟨rfl, rfl, rfl⟩

theorem Still.trans {t t' t'' : Table} (h : Still t t') (h' : Still t' t'') : Still t t'' :=
  ⟨h'.rows.trans h.rows, h'.size.trans h.size, h'.origin.trans h.origin⟩

theorem length_slotRows (origin start : Nat) (vs : List Value) :
    (slotRows origin start vs).length = vs.length := by
  induction vs generalizing start with
  | nil => rfl
  | cons v rest ih => rw [slotRows, List.length_cons, ih, List.length_cons]

theorem Still.entries {t t' : Table} (h : Still t t') : t'.entries.length = t.entries.length := by
  have rows := congrArg List.length h.rows
  have size := h.size
  simp only [List.length_map, Table.rows, List.length_append, length_slotRows,
    Array.length_toList] at rows
  omega

theorem Still.keeps {t t' : Table} (h : Still t t') {key : Value} (keeps : t.Keeps key) :
    t'.Keeps key := by
  intro i slot
  rw [h.size]
  refine keeps i ?_
  cases key <;> simp_all [slotOfKey, slotOf, h.origin]

/-- The keys that have a value, in order, show in the outline. -/
theorem names_eq_outline (es : List Entry) :
    (livePairs es).map Prod.fst =
      ((es.map outline).filter fun o => !o.2.2).map fun o => o.2.1 := by
  rw [livePairs, List.map_map, List.filter_map, List.map_map]
  rfl

theorem entriesAfter_outline {es es' : List Entry} (same : es'.map outline = es.map outline)
    {k : Key} {rest : List Entry} (h : entriesAfter es k = some rest) :
    ∃ rest', entriesAfter es' k = some rest' ∧ rest'.map outline = rest.map outline := by
  induction es generalizing es' with
  | nil => cases h
  | cons e es ih =>
    obtain ⟨e', es', rfl, shape, later⟩ := List.map_eq_cons_iff.1 same
    have key : e'.key = e.key := congrArg Prod.fst shape
    by_cases here : e.key = k
    · rw [← here, entriesAfter_cons_self] at h
      obtain rfl := Option.some.inj h
      exact ⟨es', by rw [← here, ← key, entriesAfter_cons_self], later⟩
    · rw [entriesAfter_cons_of_ne here] at h
      rw [entriesAfter_cons_of_ne (key ▸ here)]
      exact ih later h

/-- What is ahead shows in the outline. -/
theorem Still.ahead {t t' : Table} (h : Still t t') {current : Value} {rest : List Entry}
    (left : t.ahead current = some rest) :
    ∃ rest', t'.ahead current = some rest' ∧ rest'.map outline = rest.map outline := by
  simp only [Table.ahead] at left ⊢
  split at left
  · obtain rfl := Option.some.inj left
    rw [if_pos ‹_›]
    exact ⟨_, rfl, h.rows⟩
  · rw [if_neg ‹_›]
    split at left
    · exact entriesAfter_outline h.rows left
    · cases left

theorem outline_replaceValue {es : List Entry} {k : Key} {v : Value} (full : v.isNil = false)
    (live : ∀ e ∈ es, e.key = k → e.value.isNil = false) :
    (replaceValue es k v).map outline = es.map outline := by
  rw [replaceValue, List.map_map]
  refine List.map_congr_left fun e mem => ?_
  by_cases here : e.key = k
  · simp [outline, here, full, live e mem here]
  · simp [outline, here]

def liveKeys (t : Table) : List Key := (t.rows.filter fun e => !e.value.isNil).map Entry.key

theorem count_eq_liveKeys (t : Table) : t.count = t.liveKeys.length := by
  rw [count_eq, pairs_eq, livePairs, liveKeys, List.length_map, List.length_map]

/-- What several overwrites may do to a table. -/
structure Overwritten (t t' : Table) : Prop where
  wellFormed : t'.WellFormed
  small : t'.slots.size < maxSlots
  live : ∀ k : Key, k.Proper → (t'.find k).isNil = (t.find k).isNil
  /-- Rows move only when entries become slots. -/
  moved : Still t t' ∨ t'.entries.length < t.entries.length

theorem Overwritten.isNil_get {t t' : Table} (h : Overwritten t t') {key : Value}
    (free : usable key = true) : (t'.get key).isNil = (t.get key).isNil := by
  obtain ⟨k, filed⟩ := ofScalar_of_usable free
  rw [get_eq_find t filed, get_eq_find t' filed, h.live k ⟨key, filed⟩]

theorem Overwritten.trans {t t' t'' : Table} (h : Overwritten t t') (h' : Overwritten t' t'') :
    Overwritten t t'' where
  wellFormed := h'.wellFormed
  small := h'.small
  live k proper := (h'.live k proper).trans (h.live k proper)
  moved := by
    rcases h.moved with still | fewer <;> rcases h'.moved with still' | fewer'
    · exact .inl (still.trans still')
    · exact .inr (still.entries ▸ fewer')
    · exact .inr (still'.entries ▸ fewer)
    · exact .inr (Nat.lt_trans fewer' fewer)

section
variable {t : Table} (wf : t.WellFormed) (small : t.slots.size < maxSlots)
include wf small

theorem mem_liveKeys {k : Key} : k ∈ t.liveKeys ↔ k.Proper ∧ (t.find k).isNil = false := by
  simp only [liveKeys, List.mem_map, List.mem_filter, Bool.not_eq_true', and_assoc]
  constructor
  · rintro ⟨e, row, live, rfl⟩
    exact ⟨⟨e.name, named_rows wf row⟩, (find_of_mem_rows wf small row) ▸ live⟩
  · rintro ⟨proper, live⟩
    obtain ⟨e, row, rfl⟩ := exists_row wf small proper live
    exact ⟨e, row, (find_of_mem_rows wf small row) ▸ live, rfl⟩

/-- With the same keys live there are as many of them. -/
theorem Overwritten.count {t' : Table} (h : Overwritten t t') : t'.count = t.count := by
  have distinct {t : Table} (wf : t.WellFormed) (small : t.slots.size < maxSlots) :
      t.liveKeys.Nodup := (nodup_rows wf small).sublist (List.filter_sublist.map _)
  rw [count_eq_liveKeys, count_eq_liveKeys]
  refine ((List.perm_ext_iff_of_nodup (distinct h.wellFormed h.small) (distinct wf small)).2
    fun k => ?_).length_eq
  rw [mem_liveKeys h.wellFormed h.small, mem_liveKeys wf small]
  exact and_congr_right fun proper => by rw [h.live k proper]

omit small in
/-- A store that makes the array grow takes its key out of the entries. -/
theorem entries_store_lt {name : Value} {k : Key} (filed : Key.ofScalar name = .ok k) {v : Value}
    (live : (t.find k).isNil = false) (full : v.isNil = false) (grows : ¬ t.Keeps name) :
    (t.store k name v).entries.length < t.entries.length := by
  obtain ⟨i, slot, behind, near⟩ : ∃ i, t.slotOfKey name = some i ∧ t.slots.size ≤ i ∧
      i < max t.slots.size growthWindow * 2 := by
    simp only [Keeps, not_forall, not_or, Nat.not_lt, Nat.not_le] at grows
    obtain ⟨i, slot, far⟩ := grows
    exact ⟨i, slot, far⟩
  have entries : (t.store k name v).entries = eraseEntry (t.grow (i + 1)).entries k := by
    rw [store, slot]
    simp only [Nat.not_lt.2 behind, full, near, if_false, Bool.not_false, decide_true, Bool.and_self,
      if_true]
    rfl
  obtain ⟨e, mem, rfl⟩ : ∃ e ∈ t.entries, e.key = k := by
    have slot := (t.slotOfKey_eq_keySlot filed).symm.trans slot
    have free : ∀ j, t.keySlot k = some j → t.slots.size ≤ j := by
      intro j own
      obtain rfl := Option.some.inj (slot.symm.trans own)
      exact behind
    rw [find_eq_entry free, entryValue] at live
    cases found : findEntry t.entries k with
    | none => simp [found, Value.isNil] at live
    | some e => exact ⟨e, findEntry_mem found⟩
  have fewer : (eraseEntry (t.grow (i + 1)).entries e.key).Sublist t.entries :=
    List.eraseP_sublist.trans (entries_grow_sublist t (i + 1))
  rw [entries]
  refine Nat.lt_of_not_le fun many => ?_
  have same : eraseEntry (t.grow (i + 1)).entries e.key = t.entries := fewer.eq_of_length_le many
  exact (mem_eraseEntry (grow_wellFormed wf.toSound (i + 1)).distinct (same ▸ mem)).2 rfl

/-- Writing over a value: every key keeps having one or none, and rows stay or entries become
slots. -/
theorem overwritten_store {name : Value} {k : Key} (filed : Key.ofScalar name = .ok k) {v : Value}
    (live : (t.find k).isNil = false) (full : v.isNil = false)
    (bounded : (t.store k name v).slots.size < maxSlots) :
    Overwritten t (t.store k name v) ∧ (t.Keeps name → Still t (t.store k name v)) := by
  have still (keeps : t.Keeps name) : Still t (t.store k name v) := by
    obtain ⟨rows, size, origin⟩ := rows_store wf small filed (.inr ⟨live, keeps⟩)
    refine ⟨?_, size, origin⟩
    rw [rows, outline_replaceValue full]
    rintro e row rfl
    rwa [find_of_mem_rows wf small row] at live
  refine ⟨⟨store_wellFormed wf v filed bounded, bounded, fun k' proper => ?_, ?_⟩, still⟩
  · have found := find_store wf v filed bounded proper
    by_cases same : k' = k
    · subst same
      rw [if_pos rfl] at found
      rw [found.isNil_eq, full, live]
    · rw [if_neg same] at found
      exact found.isNil_eq
  · by_cases keeps : t.Keeps name
    · exact .inl (still keeps)
    · exact .inr (entries_store_lt wf filed live full keeps)

/-- A key with a value has rows behind its row. -/
theorem ahead_of_live {key : Value} (free : usable key = true) (live : (t.get key).isNil = false) :
    ∃ rest, t.ahead key = some rest := by
  obtain ⟨k, filed⟩ := ofScalar_of_usable free
  rw [get_eq_find t filed] at live
  obtain ⟨e, row, rfl⟩ := exists_row wf small ⟨key, filed⟩ live
  obtain ⟨before, after, rows⟩ := List.append_of_mem row
  refine ⟨after, (ahead_eq filed).trans ?_⟩
  rw [rows]
  exact entriesAfter_split (rows ▸ nodup_rows wf small)

/-- A batch of overwrites is not refused. -/
theorem storeAll_overwrites {batch more : List (Value × Value)}
    (overwrites : t.Overwrites (batch ++ more)) :
    ∃ t', t.storeAll batch = .ok t' ∧ Overwritten t t' ∧ t'.Overwrites more ∧
      ((∀ s ∈ batch, t.Keeps s.1.scalar) → Still t t') := by
  induction batch generalizing t with
  | nil => exact ⟨t, rfl, ⟨wf, small, fun _ _ => rfl, .inl (.refl t)⟩, overwrites, fun _ => .refl t⟩
  | cons s batch ih =>
    obtain ⟨k, v⟩ := s
    obtain ⟨live, full, later⟩ := overwrites
    have free : usable k.scalar = true := by
      cases free : usable k.scalar with
      | true => rfl
      | false =>
        obtain ⟨cause, failed⟩ := ofScalar_of_not_usable free
        rw [get_eq_nil t (by simpa using failed)] at live
        cases live
    obtain ⟨key, filed⟩ := ofScalar_of_usable free
    have stored := set_of_usable (t := t) filed v
    rw [get_eq_find t filed] at live
    simp only [stored] at later
    obtain ⟨once, stays⟩ := overwritten_store wf small filed live full later.1
    obtain ⟨t', all, written, onward, still⟩ := ih once.wellFormed once.small later.2
    refine ⟨t', ?_, once.trans written, onward, fun keeps => ?_⟩
    · have steps : t.storeAll ((k, v) :: batch) = (t.set k v >>= fun t => t.storeAll batch) := rfl
      rw [steps, stored]
      exact all
    · have here := stays (keeps _ List.mem_cons_self)
      exact here.trans (still fun s mem => here.keeps (keeps s (List.mem_cons_of_mem _ mem)))

/-- While values are overwritten a traversal goes on and ends. What carries the induction: a visit
leaves fewer keys ahead, and where rows move, which may bring all keys ahead again, there are fewer
entries left. -/
theorem tour_overwriting {fuel : Nat} {batches : List (List (Value × Value))}
    (overwrites : t.Overwrites batches.flatten) {current : Value} {rest : List Entry}
    (h : t.ahead current = some rest)
    (enough : t.entries.length * (t.count + 1) + (livePairs rest).length < fuel) :
    ∃ seen, tour fuel batches t current = .ok (some seen) ∧
      ((∀ s ∈ batches.flatten, t.Keeps s.1.scalar) →
        seen.map Prod.fst = (livePairs rest).map Prod.fst) := by
  induction fuel generalizing t batches current rest with
  | zero => omega
  | succ fuel ih =>
    have next := next_of_ahead wf small h
    cases left : livePairs rest with
    | nil =>
      rw [left] at next
      exact ⟨[], tour_end fuel batches next, fun _ => rfl⟩
    | cons p more =>
      rw [left, List.length_cons] at enough
      rw [left] at next
      obtain ⟨rest', ahead, behind⟩ := ahead_of_visit wf small h left
      have split : batches.flatten = batches.headD [] ++ batches.tail.flatten := by
        cases batches <;> rfl
      rw [split] at overwrites ⊢
      obtain ⟨t', stored, written, onward, still⟩ := storeAll_overwrites wf small overwrites
      have count := written.count wf small
      have keys : ∀ rest'', t'.ahead p.1 = some rest'' → Still t t' →
          (livePairs rest'').map Prod.fst = more.map Prod.fst := by
        intro rest'' ahead'' still
        obtain ⟨rest', ahead', shape⟩ := still.ahead ahead
        obtain rfl := Option.some.inj (ahead''.symm.trans ahead')
        rw [names_eq_outline, shape, ← names_eq_outline, behind]
      -- the key that was visited is live, so it has a row in any case
      have visited : p ∈ t.pairs := livePairs_ahead_sublist h |>.subset (by simp [left])
      obtain ⟨free, live⟩ := live_of_mem_pairs wf small visited
      obtain ⟨rest'', ahead''⟩ := ahead_of_live written.wellFormed written.small free
        ((written.isNil_get free).trans live)
      have fewer : t'.entries.length * (t'.count + 1) + (livePairs rest'').length < fuel := by
        rw [count]
        rcases written.moved with here | fewer
        · have length := congrArg List.length (keys rest'' ahead'' here)
          rw [List.length_map, List.length_map] at length
          rw [here.entries]
          omega
        · have most := (livePairs_ahead_sublist ahead'').length_le
          have room := Nat.mul_le_mul_right (t.count + 1) fewer
          rw [← count_eq, count] at most
          rw [Nat.succ_mul] at room
          omega
      obtain ⟨seen, toured, shown⟩ := ih written.wellFormed written.small onward ahead'' fewer
      refine ⟨p :: seen, tour_visit next stored toured, fun keeps => ?_⟩
      have here := still fun s mem => keeps s (List.mem_append_left _ mem)
      have later := shown fun s mem => here.keeps (keeps s (List.mem_append_right _ mem))
      rw [List.map_cons, List.map_cons, later, keys rest'' ahead'' here]

end

/-- **Overwriting does not stop a traversal.** Whatever values are overwritten between its steps, it
ends without fail; and it visits each key of the start once and in order, if none of the stores is
one that makes the array grow. -/
theorem overwriting_traversal {t : Table} (reached : t.Reachable)
    (batches : List (List (Value × Value))) (overwrites : t.Overwrites batches.flatten) {fuel : Nat}
    (enough : t.entries.length * (t.count + 1) + t.count < fuel) :
    ∃ seen, tour fuel batches t .nil = .ok (some seen) ∧
      ((∀ s ∈ batches.flatten, t.Keeps s.1.scalar) →
        seen.map Prod.fst = t.keys ∧ t.Lists t.pairs) := by
  obtain ⟨wf, small⟩ := reached.wellFormed
  have start : t.ahead .nil = some t.rows := rfl
  rw [count_eq, pairs_eq] at enough
  obtain ⟨seen, toured, keys⟩ := tour_overwriting wf small overwrites start
    (by rwa [count_eq, pairs_eq])
  refine ⟨seen, toured, fun keeps => ⟨(keys keeps).trans ?_, lists_pairs wf small⟩⟩
  rw [← pairs_eq]
  rfl

instance decidableKeeps (t : Table) (key : Value) : Decidable (t.Keeps key) :=
  inferInstanceAs (Decidable (∀ i ∈ t.slotOfKey key,
    i < t.slots.size ∨ max t.slots.size growthWindow * 2 ≤ i))

/-- Nothing is written to the integer among the entries that may become a slot. -/
def inPlace : List (List (Value × Value)) :=
  [[(.number 2, .boolean false)], [(.string "c", .string "new")]]

theorem overwriting_traversal_in_place :
    assorted.Reachable ∧
    assorted.Overwrites inPlace.flatten ∧
    assorted.entries.length * (assorted.count + 1) + assorted.count < 40 ∧
    (∀ s ∈ inPlace.flatten, assorted.Keeps s.1.scalar) ∧
    ∃ seen, tour 40 inPlace assorted .nil = .ok (some seen) ∧ seen.map Prod.fst = assorted.keys := by
  have overwrites : assorted.Overwrites inPlace.flatten := by decide +kernel
  have enough : assorted.entries.length * (assorted.count + 1) + assorted.count < 40 := by
    decide +kernel
  have keeps : ∀ s ∈ inPlace.flatten, assorted.Keeps s.1.scalar := by decide +kernel
  obtain ⟨seen, toured, shown⟩ := overwriting_traversal assorted_reachable _ overwrites enough
  exact ⟨assorted_reachable, overwrites, enough, keeps, seen, toured, (shown keeps).1⟩

def tourKeys (fuel : Nat) (batches : List (List (Value × Value))) (t : Table) : Option (List Key) :=
  match tour fuel batches t .nil with
  | .ok (some seen) => some (seen.filterMap fun p => (Key.ofScalar p.1).toOption)
  | _ => none

/-- Writing over an integer among the entries makes it a slot: a traversal that has come to it goes
through the entries again, and one that has yet to come to it has passed it. -/
theorem overwriting_revisits :
    assorted.Reachable ∧ assorted.Overwrites [(.number 66, .boolean false)] ∧
    assorted.liveKeys = [.ofNat 2, .ofNat 34, .string "a", .ofNat 66, .string "b", .string "c"] ∧
    assorted.tourKeys 40 [[], [], [], [(.number 66, .boolean false)]] =
      some [.ofNat 2, .ofNat 34, .string "a", .ofNat 66, .string "a", .string "b", .string "c"] ∧
    assorted.tourKeys 40 [[], [], [(.number 66, .boolean false)]] =
      some [.ofNat 2, .ofNat 34, .string "a", .string "b", .string "c"] :=
  ⟨assorted_reachable, by decide +kernel, by decide +kernel, by decide +kernel, by decide +kernel⟩

end ScriptMachine.Table
