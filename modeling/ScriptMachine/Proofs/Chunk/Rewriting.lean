import ScriptMachine.Proofs.Chunk.Accepting

/-!
# What is read, written and read again

The bytes that a function is written as need not be those it was read from. But they stand for that
function, up to the order in which its annotation tables list their pairs.

* `Alike`: the same value, or tables with the same keys and values, in whatever order.
* `remakes_alike`: storing the pairs of a table that was made of pairs makes one like it.
* `undump_rewritten`: whatever is accepted can be written back, and is then read as it was.
-/

namespace ScriptMachine.Chunk

/-- A value and one on another heap: plain values that are equal, or tables that hold the same under
the same keys. -/
inductive Alike (h h' : Heap) : Value → Value → Prop
  | plain {v : Value} (plain : isPlain v = true) : Alike h h' v v
  | table {t t' : TableId} {ps : List (Value × Value)}
      (keys : List.Forall₂ (Alike h h') (h.table t).keys (ps.map Prod.fst))
      (values : List.Forall₂ (Alike h h') (h.table t).values (ps.map Prod.snd))
      (order : (h'.table t').pairs.Perm ps) : Alike h h' (.table t) (.table t')

/-- Functions that are equal in every field, at every level, but for tables in annotations, which are
alike. -/
inductive ProtoAlike (h h' : Heap) : Proto → Proto → Prop
  | intro {p : Proto} {annotations : List NamedValue} {protos : List Proto}
      (own : List.Forall₂ (NamedAlike (Alike h h')) p.annotations annotations)
      (nested : List.Forall₂ (ProtoAlike h h') p.protos protos) :
      ProtoAlike h h' p { p with annotations, protos }

theorem forall₂_of_holds {α β : Type} {alike alike' : α → β → Prop} {holds : β → Prop}
    (each : ∀ x y, holds y → alike x y → alike' x y) {xs : List α} {ys : List β}
    (h : List.Forall₂ alike xs ys) (all : ∀ y ∈ ys, holds y) : List.Forall₂ alike' xs ys := by
  induction h with
  | nil => exact .nil
  | cons first _ ih =>
    obtain ⟨here, others⟩ := List.forall_mem_cons.1 all
    exact .cons (each _ _ here first) (ih others)

/-- A table that is made of what was read of another's pairs is like it, if their arrays fit in
memory. -/
theorem remakes_alike {h : Heap} {t : TableId} (reached : (h.table t).Reachable) :
    Remakes h (fun later v v' => Roomy later v' → Alike h later v v') t := by
  intro heap ps stands distinct like
  have fits := fits_of_stands reached stands
  obtain ⟨wf, small⟩ := reached.wellFormed
  have once := distinct (Table.lists_pairs wf small).once
  obtain ⟨made, stored⟩ := @storeAll_of_usable ps .empty fun p mem => by
    obtain ⟨q, _, key, _⟩ := exists_of_forall₂ stands mem
    rw [key.scalar_eq]
    exact (fits p mem).1
  refine ⟨made, stored, fun later t' added result room => ?_⟩
  subst result
  have order := Table.perm_of_storeAll stored (room t' (.self t')) fits once
  have roomy : ∀ p ∈ ps, Roomy later p.1 ∧ Roomy later p.2 := fun p mem => by
    have listed := order.mem_iff.2 mem
    exact ⟨fun u inside => room u (.key (List.mem_map_of_mem listed) inside),
      fun u inside => room u (.value (List.mem_map_of_mem listed) inside)⟩
  have alike : List.Forall₂ (Both (Alike h later)) (h.table t).pairs ps :=
    forall₂_of_holds (fun _ _ roomy pair => ⟨pair.1 roomy.1, pair.2 roomy.2⟩) (like later added) roomy
  exact .table (keys_alike alike) (values_alike alike) order

/-- What was written of a function whose tables were made of pairs is read as one like it. -/
theorem renews_alike {h : Heap} {p : Proto} {b : List UInt8} (written : writeFunction h 0 p = .ok b)
    (made : ∀ v, Annotates p v → ∀ t, Inside h v t → (h.table t).Reachable) :
    Renews (fun later p q => RoomyProto later q → ProtoAlike h later p q)
      (readFunction (maxNesting + 1)) b p := by
  refine remakes_function
    (fun _ _ plain _ => .plain plain) ?_ (Nat.zero_add _) written
    fun v annotates t inside => remakes_alike (made v annotates t inside)
  intro later p annotations protos own nested room
  refine .intro (forall₂_of_holds (fun a a' roomy like => ⟨like.1, like.2 roomy⟩) own ?_)
    (forall₂_of_holds (fun q q' roomy like => like roomy) nested ?_)
  · exact fun a mem => room a.value (.own mem)
  · exact fun q mem v inside => room v (.nested mem inside)

/-- **Whatever is accepted can be written back.** The bytes that it is written as are read, on every
heap, as a function that is equal to the one that was read in every field and at every level, with the
same keys and values in its annotation tables. In all of these the arrays must fit in memory. -/
theorem undump_rewritten (heap : Heap) (bytes : List UInt8) (p : Proto) (heap' : Heap)
    (read : undump heap bytes = .ok (p, heap')) (room : RoomyProto heap' p) :
    ∃ b, dump heap' p = .ok b ∧ ∀ start, ∃ q last, undump start b = .ok (q, last) ∧
      (RoomyProto last q → ProtoAlike heap' last p q) := by
  obtain ⟨⟨body, written⟩, made⟩ := accepted_of_undump read room
  refine ⟨_, bind_eq_ok.2 ⟨body, written, rfl⟩, fun start => ?_⟩
  obtain ⟨q, last, takes, _, like⟩ := renews_alike written made start
  exact ⟨q, last, undump_of_takes takes, like last (.refl last)⟩

/-- A symbol comes twice and nothing uses another one, a span is written out again, a byte for true is
not one, and a key comes again with another value. -/
def loose : List UInt8 :=
  let word (n : UInt8) : List UInt8 := [n, 0, 0, 0]
  let text : List UInt8 := word 1 ++ [120]
  let slot := SymbolKind.slot.tag :: word 3 ++ text ++ word 0
  let unused := SymbolKind.upvalue.tag :: word 7 ++ text ++ word 9
  let nop := 0 :: word 0 ++ word 0
  let span : List UInt8 := 2 :: word 1 ++ word 2 ++ word 3 ++ word 4 ++ word 5 ++ [9]
  let key := Kind.string.tag :: text
  let pairs := key ++ [Kind.boolean.tag, 2] ++ [Kind.boolean.tag, 7] ++ key ++ key ++ [Kind.nil.tag]
  magic ++ [version] ++ text ++ [0] ++ word 1 ++ text ++ Kind.table.tag :: word 3 ++ pairs ++ word 3 ++
    slot ++ unused ++ slot ++ word 1 ++ word 2 ++ word 0 ++ word 0 ++ word 0 ++ word 0 ++ word 0 ++
    word 2 ++ nop ++ nop ++ [1] ++ span ++ span

def allFit (heap : Heap) : Bool := heap.tables.all fun t => t.slots.size < Table.maxSlots

theorem roomy_of_allFit {heap : Heap} (fit : allFit heap = true) (p : Proto) : RoomyProto heap p := by
  intro _ _ t _
  rw [Heap.table]
  cases known : heap.tables[t.index]? with
  | none => exact Nat.two_pow_pos 53
  | some u =>
    have := Array.all_eq_true_iff_forall_mem.1 fit u (Array.mem_of_getElem? known)
    simpa using this

/-- Bytes read, written and read again: whether all arrays fit, and whether other bytes were
written. -/
def rewriting (bytes : List UInt8) : Except Fault (Bool × Bool × Bool) := do
  let (p, heap) ← undump {} bytes
  let written ← dump heap p
  let (_, last) ← undump {} written
  return (allFit heap, allFit last, written != bytes)

theorem undump_rewritten_loose : ∃ p heap b q last, undump {} loose = .ok (p, heap) ∧
    RoomyProto heap p ∧ dump heap p = .ok b ∧ b ≠ loose ∧ undump {} b = .ok (q, last) ∧
    RoomyProto last q ∧ ProtoAlike heap last p q := by
  have shown : rewriting loose = .ok (true, true, true) := by decide +kernel
  obtain ⟨⟨p, heap⟩, read, shown⟩ := bind_eq_ok.1 shown
  obtain ⟨b, written, shown⟩ := bind_eq_ok.1 shown
  obtain ⟨⟨q, last⟩, again, shown⟩ := bind_eq_ok.1 shown
  obtain ⟨fit, fit', other⟩ : allFit heap = true ∧ allFit last = true ∧ b ≠ loose := by
    simpa using Except.ok.inj shown
  obtain ⟨b', written', rereads⟩ := undump_rewritten {} loose p heap read (roomy_of_allFit fit p)
  obtain rfl := Except.ok.inj (written.symm.trans written')
  obtain ⟨q', last', again', alike⟩ := rereads {}
  obtain ⟨rfl, rfl⟩ := Prod.mk.inj (Except.ok.inj (again.symm.trans again'))
  exact ⟨p, heap, b, q, last, read, roomy_of_allFit fit p, written, other, again,
    roomy_of_allFit fit' q, alike (roomy_of_allFit fit' q)⟩

end ScriptMachine.Chunk
