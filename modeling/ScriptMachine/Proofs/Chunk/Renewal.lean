import ScriptMachine.Proofs.Chunk.Remaking

/-!
# Annotation tables and their copies

Reading a function makes its annotation tables anew, on the heap behind the tables that are there.

* `Copied`: a value and its copy, with the same pairs in the same order at every level.
* `remakes_copied`: storing the pairs of a table that settles copies it. `renews_function`: so what was
  written is read as a copy, if the tables settle.
* `writeValue_copied`, `writeFunction_copied`: a copy is written as the original was.
* `undump_dump_settled`: so a chunk outlives a round trip. `undump_dump_unsettled`: but not every one.
-/

namespace ScriptMachine

namespace Chunk

/-- A copy of a value on another heap: the value itself, or a table with copies of the pairs, in
their order. -/
inductive Copied (h h' : Heap) : Value → Value → Prop
  | plain {v : Value} (plain : isPlain v = true) : Copied h h' v v
  | table {t t' : TableId}
      (keys : List.Forall₂ (Copied h h') (h.table t).keys (h'.table t').keys)
      (values : List.Forall₂ (Copied h h') (h.table t).values (h'.table t').values) :
      Copied h h' (.table t) (.table t')

theorem Copied.stands {h h' : Heap} {v v' : Value} (copied : Copied h h' v v') : Stands v v' := by
  cases copied with
  | plain plain => exact .plain plain
  | table => exact .table _ _

/-- Keys with copies settle if the copies do. -/
theorem settles_copied {h h' : Heap} {size : Nat} {keys keys' : List Value}
    (settles : Table.Settles size keys) (copied : List.Forall₂ (Copied h h') keys keys') :
    Table.Settles size keys' := by
  induction settles generalizing keys' with
  | beyond far =>
    refine .beyond fun k' mem i slot => ?_
    obtain ⟨k, original, like⟩ := exists_of_forall₂ copied mem
    exact far k original i ((like.stands.slotOfKey_eq _).symm.trans slot)
  | next slot behind small rest ih =>
    cases copied with
    | cons first others => exact .next ((first.stands.slotOfKey_eq _).trans slot) behind small (ih others)

/-- A table that settles is copied by storing copies of its pairs. -/
theorem remakes_copied {h : Heap} {t : TableId} (reached : (h.table t).Reachable)
    (settled : (h.table t).Settled) : Remakes h (Copied h) t := by
  intro heap ps stands distinct like
  obtain ⟨wf, small⟩ := reached.wellFormed
  have settles := settles_copied settled (keys_alike (like heap (.refl heap)))
  obtain ⟨made, stored, listed⟩ := Table.storeAll_empty settles (fits_of_stands reached stands)
    (distinct (Table.lists_pairs wf small).once)
  refine ⟨made, stored, fun later t' added result => ?_⟩
  have like := like later added
  rw [← listed, ← result] at like
  exact .table (keys_alike like) (values_alike like)

def AnnotationCopied (h h' : Heap) (a a' : NamedValue) : Prop :=
  a'.name = a.name ∧ Copied h h' a.value a'.value

/-- A copy of a function: the same but for its annotations, at every level, which are copies. -/
inductive ProtoCopied (h h' : Heap) : Proto → Proto → Prop
  | intro {p : Proto} {annotations : List NamedValue} {protos : List Proto}
      (own : List.Forall₂ (AnnotationCopied h h') p.annotations annotations)
      (nested : List.Forall₂ (ProtoCopied h h') p.protos protos) :
      ProtoCopied h h' p { p with annotations, protos }

/-- What was written of a function is read as a copy, if the tables of its annotations settle. -/
theorem renews_function {h : Heap} {fuel depth : Nat} (level : depth + fuel = maxNesting + 1)
    {p : Proto} {b : List UInt8} (written : writeFunction h depth p = .ok b)
    (settled : ∀ v, Annotates p v → ∀ t, Inside h v t →
      (h.table t).Reachable ∧ (h.table t).Settled) :
    Renews (ProtoCopied h) (readFunction fuel) b p :=
  remakes_function (fun _ _ => .plain) (fun _ _ _ _ => .intro) level written
    fun v annotates t inside =>
      remakes_copied (settled v annotates t inside).1 (settled v annotates t inside).2

/-- What is written alike makes the same list of bytes. -/
theorem writeEach_alike {α : Type} {write write' : α → Written} {xs ys : List α}
    (same : List.Forall₂ (fun x y => write' y = write x) xs ys) :
    writeEach write' ys = writeEach write xs := by
  induction same with
  | nil => rfl
  | cons first _ ih => rw [writeEach, writeEach, first, ih]

theorem writeList_alike {α : Type} {write write' : α → Written} {xs ys : List α}
    (same : List.Forall₂ (fun x y => write' y = write x) xs ys) :
    writeList write' ys = writeList write xs := by
  rw [writeList, writeList, writeEach_alike same, same.length_eq]

/-- A copy is written as the original. -/
theorem writeValue_copied {h h' : Heap} {fuel : Nat} {v v' : Value} (copied : Copied h h' v v') :
    writeValue h' fuel v' = writeValue h fuel v := by
  induction fuel generalizing v v' with
  | zero => rfl
  | succ fuel ih =>
    cases copied with
    | plain plain => exact writeValue_congr h' h fuel plain
    | table keys values =>
      rw [Table.keys, Table.keys, List.forall₂_map_left_iff, List.forall₂_map_right_iff] at keys
      rw [Table.values, Table.values, List.forall₂_map_left_iff, List.forall₂_map_right_iff] at values
      have pair (p p' : Value × Value) (key : Copied h h' p.1 p'.1) (value : Copied h h' p.2 p'.2) :
          writePair (writeValue h' fuel) p' = writePair (writeValue h fuel) p := by
        rw [writePair, writePair, ih key, ih value]
      simp only [writeValue, writeList_alike (keys.mp pair values)]

theorem writeNamedValue_copied {h h' : Heap} {a a' : NamedValue} (copied : AnnotationCopied h h' a a') :
    writeNamedValue h' a' = writeNamedValue h a := by
  rw [writeNamedValue, writeNamedValue, copied.1, writeValue_copied copied.2]

theorem writeFunction_copied {h h' : Heap} {fuel depth : Nat} (level : depth + fuel = maxNesting + 1)
    {p q : Proto} (copied : ProtoCopied h h' p q) :
    writeFunction h' depth q = writeFunction h depth p := by
  induction fuel generalizing depth p q with
  | zero => rw [writeFunction_deep (by omega), writeFunction_deep (by omega)]
  | succ fuel ih =>
    cases copied with
    | intro own nested =>
      have level : depth + 1 + fuel = maxNesting + 1 := by omega
      have annotations := writeList_alike (own.imp fun _ _ => writeNamedValue_copied)
      have functions := writeEach_alike (nested.imp fun _ _ copied => ih level copied)
      have count := nested.length_eq
      cases p
      simp only [writeFunction, writeFunctions_eq, annotations, functions, count]

theorem dump_copied {h h' : Heap} {p q : Proto} (copied : ProtoCopied h h' p q) :
    dump h' q = dump h p := by
  rw [dump, dump, writeFunction_copied (Nat.zero_add _) copied]

/-- **Chunks outlive a round trip.** If the tables of its annotations settle, a function is read back
from its bytes, on every heap, as a copy with the same pairs in the same order in every one of these
tables, which are new; and the copy has the same bytes, and with them the same fingerprint. -/
theorem undump_dump_settled (h : Heap) (p : Proto)
    (settled : ∀ v, Annotates p v → ∀ t, Inside h v t →
      (h.table t).Reachable ∧ (h.table t).Settled)
    {b : List UInt8} (written : dump h p = .ok b) (heap : Heap) :
    ∃ q heap', undump heap b = .ok (q, heap') ∧ heap.Extends heap' ∧ ProtoCopied h heap' p q ∧
      dump heap' q = .ok b ∧ fingerprint heap' q = fingerprint h p := by
  obtain ⟨body, hbody, bytes⟩ := bind_eq_ok.1 written
  obtain rfl := Except.ok.inj bytes
  obtain ⟨q, heap', takes, grown, like⟩ := renews_function (Nat.zero_add _) hbody settled heap
  have copied := like heap' (.refl heap')
  have same := dump_copied copied
  exact ⟨q, heap', undump_of_takes takes, grown, copied, same.trans written, by
    rw [fingerprint, fingerprint, same]⟩

/-- A table with a cleared slot, another integer far behind the slots, and a table as key and value. -/
def settledHeap : Heap :=
  { tables := #[
      Table.replay (.withOrigin 0) [.setString "x" (.boolean true), .setString "y" .nil],
      Table.replay (.withOrigin 1) [.append (.boolean true), .append (.string "gone"),
        .append (.number ⟨5⟩), .setString "t" (.table ⟨0⟩), .set (.number 2) .nil,
        .set (.table ⟨0⟩) (.table ⟨0⟩), .set (.number 200) (.boolean false)]] }

/-- A function with a table of its own and another in a function nested in it. -/
def settledProto : Proto :=
  { name := "outer"
    annotations := [⟨"doc", .string "é"⟩, ⟨"t", .table ⟨1⟩⟩]
    protos := [{ name := "inner", annotations := [⟨"u", .table ⟨0⟩⟩] }] }

theorem settledHeap_settled (t : TableId) :
    (settledHeap.table t).Reachable ∧ (settledHeap.table t).Settled := by
  obtain ⟨_ | _ | n⟩ := t
  · exact ⟨Table.reachable_replay (.fresh 0) (by decide +kernel), by decide +kernel⟩
  · exact ⟨Table.reachable_replay (.fresh 1) (by decide +kernel), by decide +kernel⟩
  · have none : settledHeap.table ⟨n + 2⟩ = .empty := by simp [settledHeap, Heap.table]
    rw [none]
    exact ⟨.fresh 1, by decide +kernel⟩

theorem undump_dump_settled_sample :
    (∀ v, Annotates settledProto v → ∀ t, Inside settledHeap v t →
      (settledHeap.table t).Reachable ∧ (settledHeap.table t).Settled) ∧
    ∃ b, dump settledHeap settledProto = .ok b ∧
      ∃ q heap, undump {} b = .ok (q, heap) ∧ dump heap q = .ok b := by
  have settled : ∀ v, Annotates settledProto v → ∀ t, Inside settledHeap v t →
      (settledHeap.table t).Reachable ∧ (settledHeap.table t).Settled :=
    fun _ _ t _ => settledHeap_settled t
  have succeeds : (dump settledHeap settledProto).isOk = true := by decide +kernel
  obtain ⟨b, written⟩ : ∃ b, dump settledHeap settledProto = .ok b := by
    cases h : dump settledHeap settledProto with
    | ok b => exact ⟨b, rfl⟩
    | error fault => simp [h, Except.isOk, Except.toBool] at succeeds
  obtain ⟨q, heap, read, _, _, again, _⟩ :=
    undump_dump_settled settledHeap settledProto settled written {}
  exact ⟨settled, b, written, q, heap, read, again⟩

/-- A function with one annotation, a table that commands have filled. -/
def unsettledProto : Proto := { name := "m", annotations := [⟨"t", .table ⟨0⟩⟩] }

/-- What becomes of that table, and whether the copy has the bytes it was read from. -/
def renewal (h : Heap) (p : Proto) (t : TableId) : Except Fault (List Key × Bool) := do
  let bytes ← dump h p
  let (q, heap) ← undump {} bytes
  return ((heap.table t).liveKeys, writes heap q bytes)

/-- An integer for which the array grows when the table is made anew goes before the entries that it
came behind; and the bytes of the copy are others. -/
theorem undump_dump_unsettled :
    Table.assorted.Reachable ∧
    Table.assorted.liveKeys =
      [.ofNat 2, .ofNat 34, .string "a", .ofNat 66, .string "b", .string "c"] ∧
    ∃ b q heap, dump { tables := #[Table.assorted] } unsettledProto = .ok b ∧
      undump {} b = .ok (q, heap) ∧
      (heap.table ⟨0⟩).liveKeys =
        [.ofNat 2, .ofNat 34, .ofNat 66, .string "a", .string "b", .string "c"] ∧
      dump heap q ≠ .ok b := by
  refine ⟨Table.assorted_reachable, by decide +kernel, ?_⟩
  have shown : renewal { tables := #[Table.assorted] } unsettledProto ⟨0⟩ =
      .ok ([.ofNat 2, .ofNat 34, .ofNat 66, .string "a", .string "b", .string "c"], false) := by
    decide +kernel
  obtain ⟨b, written, shown⟩ := bind_eq_ok.1 shown
  obtain ⟨⟨q, heap⟩, read, shown⟩ := bind_eq_ok.1 shown
  obtain ⟨keys, other⟩ := Prod.mk.inj (Except.ok.inj shown)
  refine ⟨b, q, heap, written, read, keys, fun same => ?_⟩
  simp [writes, same] at other

end Chunk

end ScriptMachine
