import ScriptMachine.Proofs.Chunk.Copy
import ScriptMachine.Proofs.Table.Making

/-!
# Reading tables anew

Reading a function makes its annotation tables anew, on the heap behind the tables that are there.
In what sense they are then those that were written is left open here: `alike` says it of two values,
the second one on a heap that may have grown since.

* `Stands`: what is read of a value is that value, or a table for a table.
* `Remakes`: pairs that are read alike can be stored, and make a table that is alike.
* `remade_value`, `remakes_function`: if so do all tables in it, a value or a function is read alike.
* `takes_written`: what was written is read to its end if all that its tables list are keys.
-/

namespace ScriptMachine

/-- Nothing but new tables was added to a heap. -/
def Heap.Extends (h h' : Heap) : Prop := ∃ more, h' = { h with tables := h.tables ++ more }

theorem Heap.Extends.refl (h : Heap) : h.Extends h := ⟨#[], by simp⟩

theorem Heap.Extends.trans {h h' h'' : Heap} (first : h.Extends h') (second : h'.Extends h'') :
    h.Extends h'' := by
  obtain ⟨more, rfl⟩ := first
  obtain ⟨more', rfl⟩ := second
  exact ⟨more ++ more', by simp⟩

theorem Heap.extends_newTable (h : Heap) (t : Table) : h.Extends (h.newTable t).2 :=
  ⟨#[t], by simp [Heap.newTable]⟩

theorem Heap.table_newTable (h : Heap) (t : Table) : (h.newTable t).2.table (h.newTable t).1 = t := by
  simp [Heap.newTable, Heap.table]

theorem Heap.Extends.size_le {h h' : Heap} (grown : h.Extends h') :
    h.tables.size ≤ h'.tables.size := by
  obtain ⟨more, rfl⟩ := grown
  simp

theorem Heap.Extends.table_eq {h h' : Heap} (grown : h.Extends h') {t : TableId}
    (known : t.index < h.tables.size) : h'.table t = h.table t := by
  obtain ⟨more, rfl⟩ := grown
  simp [Heap.table, Array.getElem?_append_left known]

namespace Chunk

/-- A table that a value is, or that it has in it as a key or as a value. -/
inductive Inside (h : Heap) : Value → TableId → Prop
  | self (t : TableId) : Inside h (.table t) t
  | key {t u : TableId} {v : Value} (mem : v ∈ (h.table t).keys) (inside : Inside h v u) :
      Inside h (.table t) u
  | value {t u : TableId} {v : Value} (mem : v ∈ (h.table t).values) (inside : Inside h v u) :
      Inside h (.table t) u

/-- A function has an annotation with this value, or one nested in it has. -/
inductive Annotates : Proto → Value → Prop
  | own {p : Proto} {a : NamedValue} (mem : a ∈ p.annotations) : Annotates p a.value
  | nested {p q : Proto} {v : Value} (mem : q ∈ p.protos) (inner : Annotates q v) : Annotates p v

/-- What may be read of a value: the value itself, or a table for a table. -/
inductive Stands : Value → Value → Prop
  | plain {v : Value} (plain : isPlain v = true) : Stands v v
  | table (t t' : TableId) : Stands (.table t) (.table t')

section
variable {v v' : Value}

theorem Stands.usable_eq (stands : Stands v v') : Table.usable v' = Table.usable v := by
  cases stands <;> rfl

theorem Stands.isNil_eq (stands : Stands v v') : v'.isNil = v.isNil := by
  cases stands <;> rfl

theorem Stands.scalar_eq (stands : Stands v v') : v'.scalar = v' := by
  cases stands with
  | plain plain => cases v <;> first | rfl | cases plain
  | table => rfl

theorem Stands.slotOfKey_eq (stands : Stands v v') (t : Table) :
    t.slotOfKey v' = t.slotOfKey v := by
  cases stands <;> rfl

end

/-- What stands for different keys is different, if the tables among it are. -/
theorem Stands.ofScalar_ne {v v' w w' : Value} (stands : Stands v v') (stands' : Stands w w')
    (apart : ∀ t u, v' = .table t → w' = .table u → t ≠ u)
    (other : Key.ofScalar v ≠ Key.ofScalar w) : Key.ofScalar v' ≠ Key.ofScalar w' := by
  have mixed {v : Value} (plain : isPlain v = true) (t : TableId) :
      Key.ofScalar v ≠ Key.ofScalar (.table t) := by
    cases v with
    | number n => simp only [Key.ofScalar]; split <;> simp
    | nil | boolean | string => simp [Key.ofScalar]
    | _ => cases plain
  cases stands with
  | plain plain =>
    cases stands' with
    | plain => exact other
    | table => exact mixed plain _
  | table =>
    cases stands' with
    | plain plain => exact (mixed plain _).symm
    | table =>
      intro same
      exact apart _ _ rfl rfl (Key.table.inj (Except.ok.inj same))

def Both (alike : Value → Value → Prop) (p p' : Value × Value) : Prop :=
  alike p.1 p'.1 ∧ alike p.2 p'.2

theorem exists_of_forall₂ {α β : Type} {alike : α → β → Prop} {xs : List α} {ys : List β}
    (h : List.Forall₂ alike xs ys) {y : β} (mem : y ∈ ys) : ∃ x ∈ xs, alike x y := by
  induction h with
  | nil => cases mem
  | cons first _ ih =>
    rcases List.mem_cons.1 mem with rfl | later
    · exact ⟨_, List.mem_cons_self, first⟩
    · obtain ⟨x, mem, like⟩ := ih later
      exact ⟨x, List.mem_cons_of_mem _ mem, like⟩

theorem keys_alike {alike : Value → Value → Prop} {ps ps' : List (Value × Value)}
    (both : List.Forall₂ (Both alike) ps ps') :
    List.Forall₂ alike (ps.map Prod.fst) (ps'.map Prod.fst) := by
  rw [List.forall₂_map_left_iff, List.forall₂_map_right_iff]
  exact both.imp fun _ _ pair => pair.1

theorem values_alike {alike : Value → Value → Prop} {ps ps' : List (Value × Value)}
    (both : List.Forall₂ (Both alike) ps ps') :
    List.Forall₂ alike (ps.map Prod.snd) (ps'.map Prod.snd) := by
  rw [List.forall₂_map_left_iff, List.forall₂_map_right_iff]
  exact both.imp fun _ _ pair => pair.2

/-- What stands for the pairs of a table can be stored under new keys. -/
theorem fits_of_stands {t : Table} (reached : t.Reachable) {ps : List (Value × Value)}
    (stands : List.Forall₂ (Both Stands) t.pairs ps) : ∀ p ∈ ps, Table.Fits p := by
  obtain ⟨wf, small⟩ := reached.wellFormed
  intro p' mem
  obtain ⟨p, listed, key, value⟩ := exists_of_forall₂ stands mem
  obtain ⟨free, full⟩ := Table.live_of_mem_pairs wf small listed
  rw [(Table.lists_pairs wf small).values p listed] at full
  exact ⟨key.usable_eq.trans free, value.isNil_eq.trans full, value.scalar_eq⟩

/-- However the pairs of a table are read, if only alike, they make a table that is alike. -/
def Remakes (h : Heap) (alike : Heap → Value → Value → Prop) (t : TableId) : Prop :=
  ∀ (heap : Heap) (ps : List (Value × Value)),
    List.Forall₂ (Both Stands) (h.table t).pairs ps →
    (((h.table t).pairs.map fun p => Key.ofScalar p.1).Nodup →
      (ps.map fun p => Key.ofScalar p.1).Nodup) →
    (∀ later, heap.Extends later → List.Forall₂ (Both (alike later)) (h.table t).pairs ps) →
    ∃ made, Table.empty.storeAll ps = .ok made ∧ ∀ later t', heap.Extends later →
      later.table t' = made → alike later (.table t) (.table t')

/-- What was written of a value is read alike, and stays so while tables are added; and a table is
read as a new one. -/
def Remade (alike : Heap → Value → Value → Prop) (fuel : Nat) (v : Value) (b : List UInt8) : Prop :=
  ∀ heap, ∃ v' heap', Takes (readValue fuel) b heap v' heap' ∧ heap.Extends heap' ∧ Stands v v' ∧
    (∀ t, v' = .table t → heap.tables.size ≤ t.index ∧ t.index < heap'.tables.size) ∧
    ∀ later, heap'.Extends later → alike later v v'

section
variable {h : Heap} {alike : Heap → Value → Value → Prop} {fuel : Nat}

/-- The pairs of a table are read alike, and can be stored in their order; and no table among their
keys is read twice. -/
theorem takes_pairs {ps : List (Value × Value)} {b : List UInt8}
    (written : writeEach (writePair (writeValue h fuel)) ps = .ok b)
    (remade : ∀ p ∈ ps, ∀ b, (writeValue h fuel p.1 = .ok b → Remade alike fuel p.1 b) ∧
      (writeValue h fuel p.2 = .ok b → Remade alike fuel p.2 b)) (heap : Heap) :
    ∃ ps' heap', heap.Extends heap' ∧
      (∀ t t', t.storeAll ps' = .ok t' →
        Takes (readPairs (readValue fuel) t ps.length) b heap t' heap') ∧
      (∀ p' ∈ ps', ∀ t, p'.1 = .table t → heap.tables.size ≤ t.index) ∧
      List.Forall₂ (Both Stands) ps ps' ∧
      ((ps.map fun p => Key.ofScalar p.1).Nodup → (ps'.map fun p => Key.ofScalar p.1).Nodup) ∧
      ∀ later, heap'.Extends later → List.Forall₂ (Both (alike later)) ps ps' := by
  induction ps generalizing b heap with
  | nil =>
    obtain rfl := Except.ok.inj written
    refine ⟨[], heap, .refl heap, fun t t' stored => ?_, by simp, .nil, fun _ => List.nodup_nil,
      fun _ _ => .nil⟩
    obtain rfl := Except.ok.inj stored
    exact fun rest => rfl
  | cons p ps ih =>
    obtain ⟨pair, hpair, written⟩ := bind_eq_ok.1 written
    obtain ⟨others, hothers, written⟩ := bind_eq_ok.1 written
    obtain rfl := Except.ok.inj written
    obtain ⟨keyBytes, hkey, hpair⟩ := bind_eq_ok.1 hpair
    obtain ⟨valueBytes, hvalue, hpair⟩ := bind_eq_ok.1 hpair
    obtain rfl := Except.ok.inj hpair
    have here := remade p List.mem_cons_self
    obtain ⟨k, mid, takesKey, grown, standsKey, freshKey, likeKey⟩ := (here keyBytes).1 hkey heap
    obtain ⟨v, mid', takesValue, grown', standsValue, _, likeValue⟩ :=
      (here valueBytes).2 hvalue mid
    obtain ⟨ps', heap', grown'', takes, fresh, stands, once, like⟩ := ih hothers
      (fun q mem => remade q (List.mem_cons_of_mem _ mem)) mid'
    have end' := grown'.trans grown''
    refine ⟨(k, v) :: ps', heap', grown.trans end', fun t t' stored => ?_, ?_,
      .cons ⟨standsKey, standsValue⟩ stands, fun distinct => ?_, ?_⟩
    · obtain ⟨next, set, stored⟩ := bind_eq_ok.1 stored
      rw [List.append_assoc]
      refine takesKey.bind (takesValue.bind ?_)
      simp only [set]
      exact takes next t' stored
    · intro p' mem t table
      rcases List.mem_cons.1 mem with rfl | later
      · exact (freshKey t table).1
      · exact Nat.le_trans (grown.trans grown').size_le (fresh p' later t table)
    · obtain ⟨new, distinct⟩ := List.nodup_cons.1 distinct
      refine List.nodup_cons.2 ⟨fun mem => ?_, once distinct⟩
      obtain ⟨q', mem', same⟩ := List.mem_map.1 mem
      obtain ⟨q, original, standsQ, _⟩ := exists_of_forall₂ stands mem'
      have other : Key.ofScalar p.1 ≠ Key.ofScalar q.1 := fun same =>
        new (List.mem_map.2 ⟨q, original, same.symm⟩)
      refine standsKey.ofScalar_ne standsQ (fun t u isT isU => ?_) other same.symm
      -- the key was made before the later ones were
      rintro rfl
      have before := (freshKey t isT).2
      have behind := fresh q' mem' t isU
      have := grown'.size_le
      omega
    · exact fun later added => .cons ⟨likeKey later (end'.trans added),
        likeValue later (grown''.trans added)⟩ (like later added)

theorem length_pos_of_writeValue {h : Heap} {fuel : Nat} {v : Value} {b : List UInt8}
    (written : writeValue h fuel v = .ok b) : 0 < b.length := by
  cases fuel with
  | zero => cases written
  | succ fuel =>
    cases v with
    | string | table =>
      obtain ⟨_, _, written⟩ := bind_eq_ok.1 written
      obtain rfl := Except.ok.inj written
      simp
    | nil | boolean | number =>
      obtain rfl := Except.ok.inj written
      simp
    | _ => cases written

/-- Elements that take a byte each take as many bytes together. -/
theorem length_le_of_writeEach {α : Type} {write : α → Written}
    (nonempty : ∀ x b, write x = .ok b → 0 < b.length) {xs : List α} {b : List UInt8}
    (h : writeEach write xs = .ok b) : xs.length ≤ b.length := by
  induction xs generalizing b with
  | nil => exact Nat.zero_le _
  | cons x xs ih =>
    obtain ⟨first, hfirst, h⟩ := bind_eq_ok.1 h
    obtain ⟨others, hothers, h⟩ := bind_eq_ok.1 h
    obtain rfl := Except.ok.inj h
    have := nonempty x first hfirst
    have := ih hothers
    rw [List.length_cons, List.length_append]
    omega

theorem length_pos_of_writePair {h : Heap} {fuel : Nat} {p : Value × Value} {b : List UInt8}
    (written : writePair (writeValue h fuel) p = .ok b) : 0 < b.length := by
  obtain ⟨key, hkey, written⟩ := bind_eq_ok.1 written
  obtain ⟨value, _, written⟩ := bind_eq_ok.1 written
  obtain rfl := Except.ok.inj written
  exact List.length_append ▸ Nat.lt_of_lt_of_le (length_pos_of_writeValue hkey) (Nat.le_add_right _ _)

/-- What was written of a table is read alike, if it is remade and so is what is in it. -/
theorem remade_table {t : TableId} {b : List UInt8}
    (written : writeValue h (fuel + 1) (.table t) = .ok b) (remakes : Remakes h alike t)
    (remade : ∀ p ∈ (h.table t).pairs, ∀ b, (writeValue h fuel p.1 = .ok b → Remade alike fuel p.1 b) ∧
      (writeValue h fuel p.2 = .ok b → Remade alike fuel p.2 b)) :
    Remade alike (fuel + 1) (.table t) b := by
  intro heap
  obtain ⟨list, hlist, written⟩ := bind_eq_ok.1 written
  obtain rfl := Except.ok.inj written
  obtain ⟨count, hcount, hlist⟩ := bind_eq_ok.1 hlist
  obtain ⟨body, hbody, hlist⟩ := bind_eq_ok.1 hlist
  obtain rfl := Except.ok.inj hlist
  obtain ⟨ps, heap', grown, takes, _, stands, once, like⟩ := takes_pairs hbody remade heap
  obtain ⟨made, stored, result⟩ := remakes heap' ps stands once like
  have added := heap'.extends_newTable made
  have inside : (heap'.newTable made).1.index < (heap'.newTable made).2.tables.size := by
    simp [Heap.newTable]
  refine ⟨.table (heap'.newTable made).1, (heap'.newTable made).2, ?_, grown.trans added,
    .table _ _, ?_, fun later more => ?_⟩
  · have pairs : Takes (readPairs (readValue fuel) .empty (h.table t).pairs.length >>= allocate) body
        heap (.table (heap'.newTable made).1) (heap'.newTable made).2 :=
      (takes _ made stored).finish (takes_allocate made heap')
    have all := takes_counted
      (r := fun count => readPairs (readValue fuel) .empty count >>= allocate) hcount pairs
      (length_le_of_writeEach (fun _ _ => length_pos_of_writePair) hbody)
    exact ((reads_byte Kind.table.tag).takes heap).bind all
  · rintro u same
    obtain rfl := Value.table.inj same
    exact ⟨grown.size_le, inside⟩
  · refine result later _ (added.trans more) ?_
    rw [more.table_eq inside, Heap.table_newTable]

/-- What was written of a value is read alike, if the tables in it are remade. -/
theorem remade_value (plain : ∀ later v, isPlain v = true → alike later v v) {v : Value}
    {b : List UInt8} (written : writeValue h fuel v = .ok b)
    (remakes : ∀ t, Inside h v t → Remakes h alike t) : Remade alike fuel v b := by
  induction fuel generalizing v b with
  | zero => cases written
  | succ fuel ih =>
    cases table : isTable v with
    | false =>
      intro heap
      have scalar : v.kind ≠ .table := by simpa [isTable] using table
      have own := plain_of_writeValue written table
      refine ⟨v, heap, (copies_value h fuel scalar b written).1.takes heap, .refl heap, .plain own, ?_,
        fun later _ => plain later v own⟩
      rintro t rfl
      exact absurd rfl scalar
    | true =>
      obtain ⟨t, rfl⟩ : ∃ t, v = .table t := by
        cases v <;> first | exact ⟨_, rfl⟩ | cases table
      exact remade_table written (remakes t (.self t)) fun p mem b =>
        ⟨fun hkey => ih hkey fun u inside => remakes u (.key (List.mem_map_of_mem mem) inside),
          fun hvalue => ih hvalue fun u inside => remakes u (.value (List.mem_map_of_mem mem) inside)⟩

end

/-- What was written is read as something like it, which it stays while tables are added. -/
def Renews {α : Type} (alike : Heap → α → α → Prop) (read : Reader α) (b : List UInt8) (x : α) :
    Prop :=
  ∀ heap, ∃ y heap', Takes read b heap y heap' ∧ heap.Extends heap' ∧
    ∀ later, heap'.Extends later → alike later x y

theorem renews_each {α : Type} {alike : Heap → α → α → Prop} {write : α → Written} {read : Reader α}
    {xs : List α} (renews : ∀ x ∈ xs, ∀ b, write x = .ok b → Renews alike read b x) {b : List UInt8}
    (h : writeEach write xs = .ok b) :
    Renews (fun later => List.Forall₂ (alike later)) (readEach read xs.length) b xs := by
  induction xs generalizing b with
  | nil =>
    obtain rfl := Except.ok.inj h
    exact fun heap => ⟨[], heap, (Reads.pure []).takes heap, .refl heap, fun _ _ => .nil⟩
  | cons x xs ih =>
    obtain ⟨first, hfirst, h⟩ := bind_eq_ok.1 h
    obtain ⟨others, hothers, h⟩ := bind_eq_ok.1 h
    obtain rfl := Except.ok.inj h
    intro heap
    obtain ⟨y, mid, takes, grown, like⟩ := renews x List.mem_cons_self first hfirst heap
    obtain ⟨ys, heap', takes', grown', like'⟩ :=
      ih (fun x mem => renews x (List.mem_cons_of_mem _ mem)) hothers mid
    exact ⟨y :: ys, heap', takes.bind (takes'.last (y :: ·)), grown.trans grown', fun later added =>
      .cons (like later (grown'.trans added)) (like' later added)⟩

theorem renews_list {α : Type} {alike : Heap → α → α → Prop} {write : α → Written} {read : Reader α}
    (nonempty : ∀ x b, write x = .ok b → 0 < b.length) {xs : List α}
    (renews : ∀ x ∈ xs, ∀ b, write x = .ok b → Renews alike read b x) {b : List UInt8}
    (h : writeList write xs = .ok b) :
    Renews (fun later => List.Forall₂ (alike later)) (readList read) b xs := by
  obtain ⟨count, hcount, h⟩ := bind_eq_ok.1 h
  obtain ⟨body, hbody, h⟩ := bind_eq_ok.1 h
  obtain rfl := Except.ok.inj h
  intro heap
  obtain ⟨ys, heap', takes, grown, like⟩ := renews_each renews hbody heap
  exact ⟨ys, heap', takes_counted (r := readEach read) hcount takes
    (length_le_of_writeEach nonempty hbody), grown, like⟩

theorem length_pos_of_writeNamedValue {h : Heap} {a : NamedValue} {b : List UInt8}
    (written : writeNamedValue h a = .ok b) : 0 < b.length := by
  obtain ⟨name, hname, written⟩ := bind_eq_ok.1 written
  obtain ⟨value, _, written⟩ := bind_eq_ok.1 written
  obtain rfl := Except.ok.inj written
  exact List.length_append ▸ Nat.lt_of_lt_of_le (copies_string a.name name hname).2 (Nat.le_add_right _ _)

theorem length_pos_of_writeFunction {h : Heap} {depth : Nat} {p : Proto} {b : List UInt8}
    (written : writeFunction h depth p = .ok b) : 0 < b.length := by
  by_cases deep : maxNesting < depth
  · rw [writeFunction_deep deep] at written
    cases written
  · exact (takes_function deep written).1

/-- An annotation and what is read of it: of one name, and with values that are alike. -/
def NamedAlike (alike : Value → Value → Prop) (a a' : NamedValue) : Prop :=
  a'.name = a.name ∧ alike a.value a'.value

section
variable {h : Heap} {alike : Heap → Value → Value → Prop}
  (plain : ∀ later v, isPlain v = true → alike later v v)
include plain

theorem remakes_namedValue {a : NamedValue} {b : List UInt8}
    (written : writeNamedValue h a = .ok b)
    (remakes : ∀ t, Inside h a.value t → Remakes h alike t) :
    Renews (fun later => NamedAlike (alike later)) readNamedValue b a := by
  obtain ⟨name, hname, written⟩ := bind_eq_ok.1 written
  obtain ⟨value, hvalue, written⟩ := bind_eq_ok.1 written
  obtain rfl := Except.ok.inj written
  intro heap
  obtain ⟨v, heap', takes, grown, _, _, like⟩ := remade_value plain hvalue remakes heap
  exact ⟨⟨a.name, v⟩, heap', ((copies_string a.name name hname).1.takes heap).bind
    (takes.last (NamedValue.mk a.name)), grown, fun later added => ⟨rfl, like later added⟩⟩

/-- What was written of a function is read alike, if the tables of its annotations are remade.
Functions are alike when their annotations and the functions in them are, and nothing else is
changed. -/
theorem remakes_function {like : Heap → Proto → Proto → Prop}
    (intro : ∀ later p annotations protos,
      List.Forall₂ (NamedAlike (alike later)) p.annotations annotations →
      List.Forall₂ (like later) p.protos protos → like later p { p with annotations, protos })
    {fuel depth : Nat} (level : depth + fuel = maxNesting + 1) {p : Proto} {b : List UInt8}
    (written : writeFunction h depth p = .ok b)
    (remakes : ∀ v, Annotates p v → ∀ t, Inside h v t → Remakes h alike t) :
    Renews like (readFunction fuel) b p := by
  induction fuel generalizing depth p b with
  | zero =>
    rw [writeFunction_deep (by omega)] at written
    cases written
  | succ fuel ih =>
    obtain ⟨_, own, inner, hown, hinner, takes⟩ := takes_function (by omega) written
    intro heap
    obtain ⟨annotations, mid, takesOwn, grown, likeOwn⟩ :=
      renews_list (fun _ _ => length_pos_of_writeNamedValue)
        (fun a mem _ written => remakes_namedValue plain written (remakes a.value (.own mem))) hown heap
    obtain ⟨protos, heap', takesInner, grown', likeInner⟩ :=
      renews_list (fun _ _ => length_pos_of_writeFunction)
        (fun q mem _ written => ih (by omega) written fun v inner => remakes v (.nested mem inner))
        hinner mid
    exact ⟨{ p with annotations, protos }, heap', takes takesOwn takesInner, grown.trans grown',
      fun later added => intro later p annotations protos (likeOwn later (grown'.trans added))
        (likeInner later added)⟩

end

theorem storeAll_of_usable {ps : List (Value × Value)} (t : Table)
    (keys : ∀ p ∈ ps, Table.usable p.1.scalar = true) : ∃ made, t.storeAll ps = .ok made := by
  induction ps generalizing t with
  | nil => exact ⟨t, rfl⟩
  | cons p ps ih =>
    obtain ⟨k, filed⟩ := Table.ofScalar_of_usable (keys p List.mem_cons_self)
    obtain ⟨made, stored⟩ := ih (t.store k p.1.scalar p.2.scalar)
      fun q mem => keys q (List.mem_cons_of_mem _ mem)
    exact ⟨made, Table.storeAll_cons_ok.2 ⟨k, filed, stored⟩⟩

/-- What was written of a function is read to its end if all that its tables list are keys. -/
theorem takes_written {h : Heap} {p : Proto} {b : List UInt8} (written : writeFunction h 0 p = .ok b)
    (keys : ∀ v, Annotates p v → ∀ t, Inside h v t → ∀ q ∈ (h.table t).pairs,
      Table.usable q.1 = true) (heap : Heap) :
    ∃ q heap', Takes (readFunction (maxNesting + 1)) b heap q heap' := by
  have remakes (v : Value) (annotates : Annotates p v) (t : TableId) (inside : Inside h v t) :
      Remakes h (fun _ _ _ => True) t := by
    intro _ ps stands _ _
    obtain ⟨made, stored⟩ := @storeAll_of_usable ps .empty fun p' mem => by
      obtain ⟨q, listed, key, _⟩ := exists_of_forall₂ stands mem
      rw [key.scalar_eq, key.usable_eq]
      exact keys v annotates t inside q listed
    exact ⟨made, stored, fun _ _ _ _ => trivial⟩
  have renews : Renews (fun _ _ _ => True) (readFunction (maxNesting + 1)) b p :=
    remakes_function (fun _ _ _ => trivial) (fun _ _ _ _ _ _ => trivial) (Nat.zero_add _) written remakes
  obtain ⟨q, heap', takes, _⟩ := renews heap
  exact ⟨q, heap', takes⟩

end Chunk

end ScriptMachine
