import ScriptMachine.Proofs.Table.Rows

/-!
# When tombstones go

A value that is stored under a key that had none sweeps the tombstones, and no other store among the
entries drops or moves one.

* `store_eq_setEntry`: the stores that go into the entries.
* `entries_setEntry_revives`, `entries_setEntry_keeps`: what such a store does to them. The flag that
  decides it may be up without cause, but is never down while there are tombstones.
* `tombstones_swept`: so it is for every table that commands lead to.
-/

namespace ScriptMachine.Table

/-- The entries that hold a value, in their order. -/
def liveEntries (es : List Entry) : List Entry := es.filter fun e => !e.value.isNil

/-- A value comes under a key that had none, and there are tombstones. -/
def Revives (t : Table) (k : Key) (v : Value) : Prop :=
  v.isNil = false ∧ (t.entryValue k).isNil = true ∧ ∃ e ∈ t.entries, e.value.isNil = true

theorem liveEntries_append (es es' : List Entry) :
    liveEntries (es ++ es') = liveEntries es ++ liveEntries es' := List.filter_append ..

theorem liveEntries_cons_of_live {e : Entry} (live : e.value.isNil = false) (es : List Entry) :
    liveEntries (e :: es) = e :: liveEntries es := List.filter_cons_of_pos (by simp [live])

theorem liveEntries_eq_self {es : List Entry} (live : ∀ e ∈ es, e.value.isNil = false) :
    liveEntries es = es := List.filter_eq_self.2 fun e mem => by simp [live e mem]

theorem live_of_mem_liveEntries {es : List Entry} {e : Entry} (mem : e ∈ liveEntries es) :
    e.value.isNil = false := by simpa using (List.mem_filter.1 mem).2

/-- A store whose key is none of the slots' afterwards has left them alone. -/
theorem store_eq_setEntry {t : Table} {k : Key} {name v : Value}
    (apart : ∀ i, t.slotOfKey name = some i → (t.store k name v).slots.size ≤ i) :
    t.store k name v = t.setEntry k name v := by
  cases slot : t.slotOfKey name with
  | none => simp only [store, slot]
  | some i =>
    have behind := apart i slot
    simp only [store, slot] at behind ⊢
    by_cases inside : i < t.slots.size
    · rw [if_pos inside, size_setSlot] at behind
      omega
    · rw [if_neg inside] at behind ⊢
      by_cases near : (!v.isNil && decide (i < max t.slots.size growthWindow * 2)) = true
      · have large := le_size_grow t (i + 1)
        rw [if_pos near, size_setSlot] at behind
        dsimp only at behind
        omega
      · exact if_neg near

/-- A key that is no slot's has its slot, if any, behind the slots. -/
theorem le_of_ownSlot_eq_none {t : Table} {name : Value} (outside : t.ownSlot name = none) {i : Nat}
    (slot : t.slotOfKey name = some i) : t.slots.size ≤ i := by
  rw [ownSlot, slot] at outside
  simpa using Option.filter_eq_none_iff.1 outside i rfl

/-- The entries after a store, by the flag. -/
theorem entries_setEntry_eq (t : Table) (k : Key) (name v : Value) :
    (t.setEntry k name v).entries =
      if t.mayHoldTombstones && !v.isNil && (t.entryValue k).isNil then
        liveEntries (writeEntry t.entries k name v)
      else writeEntry t.entries k name v := by
  by_cases idle : ((findEntry t.entries k).isNone && v.isNil) = true
  · obtain ⟨absent, empty⟩ : findEntry t.entries k = none ∧ v.isNil = true := by simpa using idle
    simp [setEntry, writeEntry, absent, empty]
  · obtain ⟨known, _, stored⟩ := setEntry_eq idle name
    rw [stored, rewritten]
    split
    · rfl
    · split <;> rfl

/-- A key that comes to life takes the tombstones away. -/
theorem entries_setEntry_revives {t : Table} (wf : t.WellFormed) {k : Key} {v : Value}
    (revives : t.Revives k v) (name : Value) :
    (t.setEntry k name v).entries = liveEntries (writeEntry t.entries k name v) := by
  obtain ⟨full, unheld, e, mem, dead⟩ := revives
  rw [entries_setEntry_eq, wf.flagged e mem dead, full, unheld]
  rfl

/-- Any other store leaves them: where the flag says that there may be some, there are none. -/
theorem entries_setEntry_keeps {t : Table} {k : Key} {v : Value} (keeps : ¬ t.Revives k v)
    (name : Value) : (t.setEntry k name v).entries = writeEntry t.entries k name v := by
  rw [entries_setEntry_eq]
  split
  · rename_i flagged
    obtain ⟨⟨_, full⟩, unheld⟩ : (t.mayHoldTombstones = true ∧ v.isNil = false) ∧
        (t.entryValue k).isNil = true := by simpa using flagged
    have clean : ∀ e ∈ t.entries, e.value.isNil = false := by
      intro e mem
      cases dead : e.value.isNil with
      | false => rfl
      | true => exact absurd ⟨full, unheld, e, mem, dead⟩ keeps
    refine liveEntries_eq_self fun e mem => ?_
    rcases mem_writeEntry mem with ⟨_, _, same⟩ | ⟨e', mem', _, _, same | same⟩
    · rw [same, full]
    · rw [same, full]
    · rw [same, clean e' mem']
  · rfl

/-- A store is made in the entry of the key, or in a new one behind the others. -/
theorem writeEntry_eq (es : List Entry) (k : Key) (name v : Value) :
    writeEntry es k name v = replaceValue es k v ++
      if (findEntry es k).isNone && !v.isNil then [⟨k, name, v⟩] else [] := by
  cases found : findEntry es k with
  | some e => simp [writeEntry, found]
  | none =>
    rw [replaceValue_of_ne (findEntry_eq_none_iff.1 found)]
    cases empty : v.isNil <;> simp [writeEntry, found, empty]

/-- Among what is left of the entries a new key comes last. -/
theorem liveEntries_writeEntry_new {es : List Entry} {k : Key} {v : Value} (full : v.isNil = false)
    (absent : findEntry es k = none) (name : Value) :
    liveEntries (writeEntry es k name v) = liveEntries es ++ [⟨k, name, v⟩] := by
  rw [writeEntry_eq, replaceValue_of_ne (findEntry_eq_none_iff.1 absent), absent, full,
    liveEntries_append]
  exact congrArg _ (liveEntries_cons_of_live full [])

/-- A key that is there keeps its place among them. -/
theorem liveEntries_writeEntry_placed {before after : List Entry} {e : Entry}
    (distinct : ((before ++ e :: after).map Entry.key).Nodup) {v : Value} (full : v.isNil = false)
    (name : Value) :
    liveEntries (writeEntry (before ++ e :: after) e.key name v) =
      liveEntries before ++ { e with value := v } :: liveEntries after := by
  have present : (findEntry (before ++ e :: after) e.key).isNone = false := by
    cases found : findEntry (before ++ e :: after) e.key with
    | some _ => rfl
    | none => exact absurd rfl (findEntry_eq_none_iff.1 found e (by simp))
  rw [writeEntry_eq, present, replaceValue_split distinct, Bool.false_and, liveEntries_append,
    liveEntries_append, liveEntries_cons_of_live (by exact full)]
  exact List.append_nil _

/-- **Tombstones are swept when a key comes to life.** Of a store under a key that is no slot's and
for which the array does not grow: if the key had no value, gets one and there are tombstones, then
all of these go and the other entries keep their order, the key in its place among them, or last if it
was absent. Any other such store drops no entry and moves none, adds at most one behind them, and
changes no value but that of its key. -/
theorem tombstones_swept {t t' : Table} (reached : t.Reachable) {key value : Value}
    (stored : t.set key value = .ok t') (outside : t.ownSlot key.scalar = none)
    (same : t'.slots.size = t.slots.size) :
    ∃ k, Key.ofScalar key.scalar = .ok k ∧
      (t.Revives k value.scalar →
        (∀ e ∈ t'.entries, e.value.isNil = false) ∧
        (findEntry t.entries k = none →
          t'.entries = liveEntries t.entries ++ [⟨k, key.scalar, value.scalar⟩]) ∧
        (∀ before e after, t.entries = before ++ e :: after → e.key = k →
          t'.entries =
            liveEntries before ++ { e with value := value.scalar } :: liveEntries after)) ∧
      (¬ t.Revives k value.scalar →
        t.entries.map Entry.key <+: t'.entries.map Entry.key ∧
        t'.entries.length ≤ t.entries.length + 1 ∧
        ∀ e ∈ t.entries, e.key ≠ k → e ∈ t'.entries) := by
  have wf := reached.wellFormed.1
  cases filed : Key.ofScalar key.scalar with
  | error cause =>
    rw [set_of_not_usable filed] at stored
    cases stored
  | ok k =>
    rw [set_of_usable filed] at stored
    obtain rfl := Except.ok.inj stored
    have entered := store_eq_setEntry (k := k) (v := value.scalar) fun i slot =>
      same ▸ le_of_ownSlot_eq_none outside slot
    rw [entered]
    refine ⟨k, rfl, fun revives => ?_, fun keeps => ?_⟩
    · have full := revives.1
      rw [entries_setEntry_revives wf revives]
      refine ⟨fun e => live_of_mem_liveEntries, fun absent => ?_, ?_⟩
      · exact liveEntries_writeEntry_new full absent _
      · rintro before e after split rfl
        rw [split]
        exact liveEntries_writeEntry_placed (split ▸ wf.distinct) full _
    · rw [entries_setEntry_keeps keeps, writeEntry_eq, List.map_append, map_key_replaceValue]
      refine ⟨List.prefix_append _ _, ?_, fun e mem other => List.mem_append_left _ ?_⟩
      · rw [List.length_append, replaceValue, List.length_map]
        split <;> simp
      · exact List.mem_map.2 ⟨e, mem, by simp [other]⟩

/-- Three names, of which the first and the last were taken out again. -/
def littered : Table :=
  replay (withOrigin 1) [.setString "a" (.boolean true), .setString "b" (.boolean true),
    .setString "c" (.boolean true), .setString "a" .nil, .setString "c" .nil]

theorem littered_reachable : littered.Reachable :=
  reachable_replay (.fresh 1) (by decide +kernel)

theorem littered_entries : littered.entries =
    [⟨.string "a", .string "a", .nil⟩, ⟨.string "b", .string "b", .boolean true⟩,
      ⟨.string "c", .string "c", .nil⟩] := by rfl

/-- The last name comes back and the first goes for good. -/
theorem tombstones_swept_littered :
    littered.Reachable ∧
    littered.set (.string "c") (.boolean false) =
      .ok (littered.store (.string "c") (.string "c") (.boolean false)) ∧
    littered.ownSlot (.string "c") = none ∧
    (littered.store (.string "c") (.string "c") (.boolean false)).slots.size =
      littered.slots.size ∧
    littered.Revives (.string "c") (.boolean false) ∧
    (littered.store (.string "c") (.string "c") (.boolean false)).entries =
      [⟨.string "b", .string "b", .boolean true⟩, ⟨.string "c", .string "c", .boolean false⟩] := by
  have stored : littered.set (.string "c") (.boolean false) =
      .ok (littered.store (.string "c") (.string "c") (.boolean false)) := rfl
  have same : (littered.store (.string "c") (.string "c") (.boolean false)).slots.size =
      littered.slots.size := by decide +kernel
  have revives : littered.Revives (.string "c") (.boolean false) :=
    ⟨rfl, by decide +kernel, by rw [littered_entries]; exact ⟨_, List.mem_cons_self, rfl⟩⟩
  obtain ⟨k, filed, swept, _⟩ := tombstones_swept littered_reachable stored rfl same
  obtain rfl : Key.string "c" = k := Except.ok.inj filed
  refine ⟨littered_reachable, stored, rfl, same, revives, ?_⟩
  exact (swept revives).2.2 [_, _] _ [] littered_entries rfl

/-- Tables hold scalars: a tuple that starts with nil is no nil, but what it stores under a new name
is one, and sweeps nothing. -/
theorem tuple_of_nil_sweeps_nothing :
    littered.Reachable ∧ (Value.tuple [.nil, .string "x"]).isNil = false ∧
    littered.ownSlot (.string "d") = none ∧ findEntry littered.entries (.string "d") = none ∧
    (∃ e ∈ littered.entries, e.value.isNil = true) ∧
    ∃ t', littered.set (.string "d") (.tuple [.nil, .string "x"]) = .ok t' ∧
      t'.slots.size = littered.slots.size ∧ ∃ e ∈ t'.entries, e.value.isNil = true := by
  have dead : ∃ e ∈ littered.entries, e.value.isNil = true := by
    rw [littered_entries]
    exact ⟨_, List.mem_cons_self, rfl⟩
  have absent : findEntry littered.entries (.string "d") = none := by rw [littered_entries]; rfl
  have stored : littered.set (.string "d") (.tuple [.nil, .string "x"]) = .ok littered := by rfl
  exact ⟨littered_reachable, rfl, rfl, absent, dead, littered, stored, rfl, dead⟩

end ScriptMachine.Table
