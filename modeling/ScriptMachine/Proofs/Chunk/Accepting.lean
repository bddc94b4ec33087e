import ScriptMachine.Proofs.Chunk.Faults
import ScriptMachine.Proofs.Chunk.Remaking

/-!
# What is read can be written

A reader takes more than a writer makes: symbols that nothing uses, spans written out again, any byte
for true, pairs whose keys come again. Whatever it makes of them is within the limits of the writer.

* `Yields`: what holds of all that a reader reads. `Yields.bind`: it adds up.
* `SymbolPool.Within`: the pool made anew is no larger than the one that was read.
* `Accepted`: of a value that was read, the tables were made of its pairs, and it can be written.
* `yields_function`: so can a function, at the depth at which it was read.
-/

namespace ScriptMachine.Chunk

/-- A reader only adds tables to the heap, and what it reads has a property on every later heap. -/
def Yields {α : Type} (r : Reader α) (property : Heap → α → Prop) : Prop :=
  ∀ input x left, r input = .ok (x, left) →
    input.heap.Extends left.heap ∧ ∀ later, left.heap.Extends later → property later x

section
variable {α β : Type} {r : Reader α} {f : α → Reader β} {p p' : Heap → α → Prop}
  {q : Heap → β → Prop}

theorem Yields.pure {x : α} (h : ∀ later, p later x) : Yields (pure x) p := by
  intro input y left read
  obtain ⟨rfl, rfl⟩ := pure_ok.1 read
  exact ⟨.refl _, fun later _ => h later⟩

theorem Yields.malformed (fault : FormatFault) : Yields (malformed fault : Reader α) p :=
  fun _ _ _ read => absurd read malformed_ne_ok

/-- What was read first is known of when the rest is read. -/
theorem Yields.bind (first : Yields r p)
    (second : ∀ x, Yields (f x) fun later y => p later x → q later y) : Yields (r >>= f) q := by
  intro input y left read
  obtain ⟨x, mid, readFirst, readRest⟩ := bind_ok.1 read
  obtain ⟨grown, known⟩ := first input x mid readFirst
  obtain ⟨grown', holds⟩ := second x mid y left readRest
  exact ⟨grown.trans grown', fun later added => holds later added (known later (grown'.trans added))⟩

theorem Yields.imp (h : Yields r p) (weaker : ∀ later x, p later x → p' later x) : Yields r p' :=
  fun input x left read =>
    ⟨(h input x left read).1, fun later added => weaker later x ((h input x left read).2 later added)⟩

end

theorem yields_raw (count : Nat) : Yields (readRaw count) fun _ bytes => bytes.length = count := by
  intro input bytes left read
  obtain ⟨length, rfl⟩ := readRaw_ok.1 read
  exact ⟨.refl _, fun _ _ => length⟩

theorem yields_length : Yields readLength fun _ n => n < 2 ^ 32 := by
  intro input n left read
  obtain ⟨w, rfl, rfl⟩ := readLength_ok read
  exact ⟨.refl _, fun _ _ => w.toNat_lt⟩

/-- Readers that make no tables leave the heap as it is. -/
theorem Composed.yields {α : Type} {r : Reader α} (composed : Composed (fun _ _ => False) r) :
    Yields r fun _ _ => True := by
  induction composed with
  | pure x => exact .pure fun _ => trivial
  | malformed fault => exact .malformed fault
  | raw count => exact (yields_raw count).imp fun _ _ _ => trivial
  | length => exact yields_length.imp fun _ _ _ => trivial
  | of h => exact h.elim
  | bind _ _ first second => exact first.bind fun x => (second x).imp fun _ _ _ _ => trivial

theorem yields_each {α : Type} {read : Reader α} {p : Heap → α → Prop} (h : Yields read p)
    (count : Nat) :
    Yields (readEach read count) fun later xs => xs.length = count ∧ ∀ x ∈ xs, p later x := by
  induction count with
  | zero => exact .pure fun _ => ⟨rfl, nofun⟩
  | succ count ih =>
    refine h.bind fun x => ih.bind fun xs => .pure fun later => ?_
    rintro ⟨length, others⟩ first
    exact ⟨by rw [List.length_cons, length], List.forall_mem_cons.2 ⟨first, others⟩⟩

theorem yields_list {α : Type} {read : Reader α} {p : Heap → α → Prop} (h : Yields read p) :
    Yields (readList read) fun later xs => xs.length < 2 ^ 32 ∧ ∀ x ∈ xs, p later x :=
  yields_length.bind fun n => (yields_each h n).imp fun _ _ ⟨length, each⟩ small =>
    ⟨length ▸ small, each⟩

theorem writes_length {n : Nat} (small : n < 2 ^ 32) : ∃ b, writeLength n = .ok b :=
  ⟨_, if_pos small⟩

theorem writes_each {α : Type} {write : α → Written} {xs : List α}
    (each : ∀ x ∈ xs, ∃ b, write x = .ok b) : ∃ b, writeEach write xs = .ok b := by
  induction xs with
  | nil => exact ⟨[], rfl⟩
  | cons x xs ih =>
    obtain ⟨first, hfirst⟩ := each x List.mem_cons_self
    obtain ⟨others, hothers⟩ := ih fun y mem => each y (List.mem_cons_of_mem x mem)
    exact ⟨_, bind_eq_ok.2 ⟨first, hfirst, bind_eq_ok.2 ⟨others, hothers, rfl⟩⟩⟩

theorem writes_list {α : Type} {write : α → Written} {xs : List α} (small : xs.length < 2 ^ 32)
    (each : ∀ x ∈ xs, ∃ b, write x = .ok b) : ∃ b, writeList write xs = .ok b := by
  obtain ⟨length, hlength⟩ := writes_length small
  obtain ⟨body, hbody⟩ := writes_each each
  exact ⟨_, bind_eq_ok.2 ⟨length, hlength, bind_eq_ok.2 ⟨body, hbody, rfl⟩⟩⟩

theorem yields_string : Yields readString fun _ s => ∃ b, writeString s = .ok b := by
  refine yields_length.bind fun n => (yields_raw n).bind fun bytes => ?_
  split
  · rename_i s valid
    refine .pure fun _ length small => ?_
    have same : s.toUTF8.data.toList = bytes := by
      rw [String.fromUTF8?] at valid
      split at valid
      · obtain rfl := Option.some.inj valid
        rfl
      · cases valid
    rw [← same] at length
    obtain ⟨count, hcount⟩ := writes_length (n := s.toUTF8.data.toList.length) (by omega)
    exact ⟨_, bind_eq_ok.2 ⟨count, hcount, rfl⟩⟩
  · exact .malformed _

/-- The arrays of all tables in a value fit in the address space of a machine. -/
def Roomy (heap : Heap) (v : Value) : Prop :=
  ∀ t, Inside heap v t → (heap.table t).slots.size < Table.maxSlots

/-- What is known of a value that was read with so many levels left: the tables in it were made by
storing pairs, and it can be written with as many levels. -/
structure Accepted (heap : Heap) (fuel : Nat) (v : Value) : Prop where
  atomic : v.scalar = v
  made : Roomy heap v → ∀ t, Inside heap v t → (heap.table t).Reachable
  writes : Roomy heap v → ∃ b, writeValue heap fuel v = .ok b

theorem accepted_plain {heap : Heap} {fuel : Nat} {v : Value} (plain : isPlain v = true)
    (writes : ∃ b, writeValue heap (fuel + 1) v = .ok b) : Accepted heap (fuel + 1) v where
  atomic := by cases v <;> first | rfl | cases plain
  made := by
    intro _ t inside
    cases inside <;> cases plain
  writes := fun _ => writes

/-- A table is accepted that was made of accepted pairs. -/
theorem accepted_table {heap : Heap} {fuel : Nat} {t : TableId} {ps : List (Value × Value)}
    (stored : Table.empty.storeAll ps = .ok (heap.table t)) (few : ps.length < 2 ^ 32)
    (accepted : ∀ p ∈ ps, Accepted heap fuel p.1 ∧ Accepted heap fuel p.2) :
    Accepted heap (fuel + 1) (.table t) := by
  -- what the table lists are keys and values that were stored
  have listed (room : Roomy heap (.table t)) {p : Value × Value} (mem : p ∈ (heap.table t).pairs) :
      Accepted heap fuel p.1 ∧ Accepted heap fuel p.2 := by
    obtain ⟨⟨q, mem, key⟩, q', mem', value⟩ :=
      Table.mem_of_storeAll stored (room t (.self t)) mem
    rw [← key, ← value, (accepted q mem).1.atomic, (accepted q' mem').2.atomic]
    exact ⟨(accepted q mem).1, (accepted q' mem').2⟩
  have roomKey (room : Roomy heap (.table t)) {p : Value × Value} (mem : p ∈ (heap.table t).pairs) :
      Roomy heap p.1 := fun u inside => room u (.key (List.mem_map_of_mem mem) inside)
  have roomValue (room : Roomy heap (.table t)) {p : Value × Value}
      (mem : p ∈ (heap.table t).pairs) : Roomy heap p.2 :=
    fun u inside => room u (.value (List.mem_map_of_mem mem) inside)
  refine ⟨rfl, fun room u inside => ?_, fun room => ?_⟩
  · cases inside with
    | self => exact Table.reachable_of_storeAll stored (room t (.self t))
    | key mem inside =>
      obtain ⟨p, pair, rfl⟩ := List.mem_map.1 mem
      exact (listed room pair).1.made (roomKey room pair) u inside
    | value mem inside =>
      obtain ⟨p, pair, rfl⟩ := List.mem_map.1 mem
      exact (listed room pair).2.made (roomValue room pair) u inside
  · have count := Table.length_le_of_storeAll stored (room t (.self t))
    obtain ⟨list, hlist⟩ := @writes_list _ (writePair (writeValue heap fuel))
      (heap.table t).pairs (by omega) fun p mem => by
        obtain ⟨key, value⟩ := listed room mem
        obtain ⟨keyBytes, hkey⟩ := key.writes (roomKey room mem)
        obtain ⟨valueBytes, hvalue⟩ := value.writes (roomValue room mem)
        exact ⟨_, bind_eq_ok.2 ⟨keyBytes, hkey, bind_eq_ok.2 ⟨valueBytes, hvalue, rfl⟩⟩⟩
    exact ⟨_, bind_eq_ok.2 ⟨list, hlist, rfl⟩⟩

theorem yields_pairs {fuel : Nat}
    (value : Yields (readValue fuel) fun later v => Accepted later fuel v) (t : Table) (count : Nat) :
    Yields (readPairs (readValue fuel) t count) fun later t' => ∃ ps, ps.length = count ∧
      t.storeAll ps = .ok t' ∧ ∀ p ∈ ps, Accepted later fuel p.1 ∧ Accepted later fuel p.2 := by
  induction count generalizing t with
  | zero => exact .pure fun _ => ⟨[], rfl, rfl, nofun⟩
  | succ count ih =>
    refine value.bind fun k => value.bind fun v => ?_
    cases stored : t.set k v with
    | error cause => exact fun _ _ _ read => nomatch read
    | ok next =>
      refine (ih next).imp fun later t' => ?_
      rintro ⟨ps, length, others, accepted⟩ acceptedValue acceptedKey
      refine ⟨(k, v) :: ps, by rw [List.length_cons, length], bind_eq_ok.2 ⟨next, stored, others⟩, ?_⟩
      exact List.forall_mem_cons.2 ⟨⟨acceptedKey, acceptedValue⟩, accepted⟩

theorem yields_allocate (t : Table) :
    Yields (allocate t) fun later v => ∃ id, v = .table id ∧ later.table id = t := by
  rintro input v left read
  have made : allocate t input =
      .ok (.table (input.heap.newTable t).1, ⟨input.rest, (input.heap.newTable t).2⟩) := rfl
  obtain ⟨rfl, rfl⟩ := Prod.mk.inj (Except.ok.inj (made.symm.trans read))
  refine ⟨Heap.extends_newTable _ _, fun later added => ⟨_, rfl, ?_⟩⟩
  rw [added.table_eq (by simp [Heap.newTable]), Heap.table_newTable]

theorem yields_value (fuel : Nat) :
    Yields (readValue fuel) fun later v => Accepted later fuel v := by
  induction fuel with
  | zero => exact .malformed _
  | succ fuel ih =>
    refine composed_byte.yields.bind fun tag => ?_
    split
    · exact .pure fun _ _ => accepted_plain rfl ⟨_, rfl⟩
    · exact composed_byte.yields.bind fun _ => .pure fun _ _ _ => accepted_plain rfl ⟨_, rfl⟩
    · exact composed_number.yields.bind fun _ => .pure fun _ _ _ => accepted_plain rfl ⟨_, rfl⟩
    · refine yields_string.bind fun s => .pure fun _ text _ => accepted_plain rfl ?_
      obtain ⟨b, text⟩ := text
      exact ⟨_, bind_eq_ok.2 ⟨b, text, rfl⟩⟩
    · refine yields_length.bind fun count => (yields_pairs ih .empty count).bind fun t => ?_
      refine (yields_allocate t).imp fun later v => ?_
      rintro ⟨id, rfl, rfl⟩ ⟨ps, rfl, stored, accepted⟩ few _
      exact accepted_table stored few accepted
    · exact .malformed _

theorem yields_namedValue : Yields readNamedValue fun later a =>
    (∃ b, writeString a.name = .ok b) ∧ Accepted later (maxNesting + 1) a.value :=
  yields_string.bind fun _ => (yields_value _).bind fun _ =>
    .pure fun _ value name => ⟨name, value⟩

def SymbolFits (s : Symbol) : Prop :=
  s.index?.getD 0 < 2 ^ 32 ∧ ∃ b, writeString s.name = .ok b

/-- The environments of the symbols are among them, and all can be written. -/
structure Closed (known : List Symbol) : Prop where
  environments : ∀ {name env}, Symbol.global name env ∈ known → env ∈ known
  fits : ∀ s ∈ known, SymbolFits s

theorem yields_symbol (pool : List Symbol) : Yields (readSymbol pool) fun _ s =>
    SymbolFits s ∧ ∀ name env, s = .global name env → env ∈ pool := by
  refine composed_byte.yields.bind fun tag => ?_
  split
  · exact .malformed _
  · refine composed_word.yields.bind fun index => yields_string.bind fun name =>
      composed_word.yields.bind fun link => ?_
    split
    · exact .pure fun _ _ text _ _ => ⟨⟨index.toNat_lt, text⟩, nofun⟩
    · exact .pure fun _ _ text _ _ => ⟨⟨index.toNat_lt, text⟩, nofun⟩
    · refine .pure fun _ _ _ _ _ => ⟨⟨by decide, ?_⟩, nofun⟩
      exact ⟨_, rfl⟩
    · dsimp only
      split
      · rename_i env found
        refine .pure fun _ _ text _ _ => ⟨⟨by simp [Symbol.index?], text⟩, ?_⟩
        rintro _ _ ⟨⟩
        split at found
        · cases found
        · exact List.mem_of_getElem? found
      · exact .malformed _

theorem yields_symbolsInto (pool : List Symbol) (count : Nat) :
    Yields (readSymbolsInto pool count) fun _ all =>
      all.length = pool.length + count ∧ (Closed pool → Closed all) := by
  induction count generalizing pool with
  | zero => exact .pure fun _ => ⟨rfl, id⟩
  | succ count ih =>
    refine (yields_symbol pool).bind fun s => (ih (pool ++ [s])).imp fun _ all => ?_
    rintro ⟨length, closed⟩ ⟨fits, environment⟩
    refine ⟨by simp at length; omega, fun start => closed ⟨?_, ?_⟩⟩
    · intro name env mem
      rcases List.mem_append.1 mem with old | new
      · exact List.mem_append_left _ (start.environments old)
      · exact List.mem_append_left _ (environment name env (List.mem_singleton.1 new).symm)
    · intro s' mem
      rcases List.mem_append.1 mem with old | new
      · exact start.fits s' old
      · exact List.mem_singleton.1 new ▸ fits

theorem yields_symbolPool : Yields readSymbolPool fun _ known =>
    known.length < 2 ^ 32 ∧ Closed known :=
  yields_length.bind fun n => (yields_symbolsInto [] n).imp fun _ _ ⟨length, closed⟩ small =>
    ⟨by simpa [length] using small, closed ⟨nofun, nofun⟩⟩

theorem yields_symbolIndex (known : List Symbol) :
    Yields (readSymbolIndex known) fun _ s => s ∈ known := by
  refine composed_word.yields.bind fun i => ?_
  dsimp only
  split
  · rename_i found
    exact .pure fun _ _ => List.mem_of_getElem? found
  · exact .malformed _

namespace SymbolPool

/-- A pool of symbols out of some, none of them twice, with links into the pool. -/
structure Within (known : List Symbol) (pool : SymbolPool) : Prop where
  known : ∀ e ∈ pool, e.1 ∈ known
  once : (pool.map Prod.fst).Nodup
  links : ∀ e ∈ pool, e.2 ≤ pool.length

section
variable {known : List Symbol} {pool : SymbolPool}

theorem Within.append (within : pool.Within known) {s : Symbol} (mem : s ∈ known)
    (new : pool.position? s = none) {link : Nat} (inside : link ≤ pool.length) :
    Within known (pool ++ [(s, link)]) where
  known := by
    intro e old
    rcases List.mem_append.1 old with old | new
    · exact within.known e old
    · exact List.mem_singleton.1 new ▸ mem
  once := by
    have other : s ∉ pool.map Prod.fst := by
      intro old
      obtain ⟨e, here, rfl⟩ := List.mem_map.1 old
      simpa using List.findIdx?_eq_none_iff.1 new e here
    rw [List.map_append, List.nodup_append]
    refine ⟨within.once, by simp, ?_⟩
    rintro s' old _ last rfl
    exact other ((List.mem_singleton.1 last : s' = s) ▸ old)
  links := by
    intro e old
    rw [List.length_append]
    rcases List.mem_append.1 old with old | new
    · exact Nat.le_add_right_of_le (within.links e old)
    · obtain rfl := List.mem_singleton.1 new
      exact Nat.le_add_right_of_le inside

theorem position?_lt {s : Symbol} {i : Nat} (h : pool.position? s = some i) : i < pool.length :=
  (List.findIdx?_eq_some_iff_getElem.1 h).1

theorem position?_add (pool : SymbolPool) (s : Symbol) : ((pool.add s).position? s).isSome = true := by
  have atom (s : Symbol) :
      (position? (if (pool.position? s).isSome then pool else pool ++ [(s, 0)]) s).isSome = true := by
    split
    · assumption
    · exact position?_last _ _ _
  cases s with
  | global name env =>
    rw [SymbolPool.add]
    split
    · assumption
    · exact position?_last _ _ _
  | slot | upvalue | defaultEnv => exact atom _

/-- Only the symbol and its environments are added. -/
theorem mem_add {s : Symbol} {e : Symbol × Nat} (mem : e ∈ pool.add s) :
    e ∈ pool ∨ sizeOf e.1 ≤ sizeOf s := by
  have atom {s : Symbol}
      (mem : e ∈ if (pool.position? s).isSome then pool else pool ++ [(s, 0)]) :
      e ∈ pool ∨ sizeOf e.1 ≤ sizeOf s := by
    split at mem
    · exact .inl mem
    · refine (List.mem_append.1 mem).imp id fun last => ?_
      obtain rfl := List.mem_singleton.1 last
      exact Nat.le_refl _
  induction s with
  | global name env ih =>
    rw [SymbolPool.add] at mem
    split at mem
    · exact .inl mem
    · rcases List.mem_append.1 mem with env | last
      · refine (ih env).imp id fun small => ?_
        simp only [Symbol.global.sizeOf_spec]
        omega
      · obtain rfl := List.mem_singleton.1 last
        exact .inr (Nat.le_refl _)
  | slot | upvalue | defaultEnv => exact atom mem

/-- A symbol is added without leaving the known ones, if environments are known. -/
theorem Within.add (closed : Closed known) (within : pool.Within known) {s : Symbol}
    (mem : s ∈ known) : (pool.add s).Within known ∧ pool <+: pool.add s := by
  have atom {s : Symbol} (mem : s ∈ known) :
      Within known (if (pool.position? s).isSome then pool else pool ++ [(s, 0)]) ∧
        pool <+: if (pool.position? s).isSome then pool else pool ++ [(s, 0)] := by
    split
    · exact ⟨within, List.prefix_rfl⟩
    · rename_i new
      exact ⟨within.append mem (by simpa using new) (Nat.zero_le _), List.prefix_append _ _⟩
  induction s with
  | global name env ih =>
    rw [SymbolPool.add]
    split
    · exact ⟨within, List.prefix_rfl⟩
    · rename_i new
      obtain ⟨added, behind⟩ := ih (closed.environments mem)
      have absent : position? (pool.add env) (.global name env) = none := by
        refine List.findIdx?_eq_none_iff.2 fun e here => ?_
        rw [beq_eq_false_iff_ne]
        intro same
        rcases mem_add here with old | small
        · have absent : pool.position? (.global name env) = none := by simpa using new
          simpa [same] using List.findIdx?_eq_none_iff.1 absent e old
        · simp only [same, Symbol.global.sizeOf_spec] at small
          omega
      obtain ⟨i, place⟩ := Option.isSome_iff_exists.1 (position?_add pool env)
      have link : (position? (pool.add env) env).getD 0 + 1 ≤ (pool.add env).length := by
        rw [place]
        exact position?_lt place
      exact ⟨added.append mem absent link, behind.trans (List.prefix_append _ _)⟩
  | slot | upvalue | defaultEnv => exact atom mem

/-- The pool made anew has no symbols but those that were read, and all that a function uses. -/
theorem ofProto_within {locals upvalues symbols : List Symbol} (closed : Closed known)
    (used : ∀ s ∈ locals ++ upvalues ++ symbols, s ∈ known) :
    (ofProto locals upvalues symbols).Within known ∧ ∀ s ∈ locals ++ upvalues ++ symbols,
      ((ofProto locals upvalues symbols).position? s).isSome = true := by
  rw [ofProto]
  have start : Within known [] := ⟨by simp, List.nodup_nil, by simp⟩
  generalize locals ++ upvalues ++ symbols = all at used ⊢
  suffices ∀ pool : SymbolPool, pool.Within known →
      (all.foldl SymbolPool.add pool).Within known ∧ pool <+: all.foldl SymbolPool.add pool ∧
        ∀ s ∈ all, ((all.foldl SymbolPool.add pool).position? s).isSome = true from
    ⟨(this [] start).1, (this [] start).2.2⟩
  induction all with
  | nil => exact fun pool within => ⟨within, List.prefix_rfl, by simp⟩
  | cons s rest ih =>
    intro pool within
    obtain ⟨first, others⟩ := List.forall_mem_cons.1 used
    obtain ⟨added, behind⟩ := within.add closed first
    obtain ⟨all, ahead, found⟩ := ih others (pool.add s) added
    refine ⟨all, behind.trans ahead, List.forall_mem_cons.2 ⟨?_, found⟩⟩
    obtain ⟨i, place⟩ := Option.isSome_iff_exists.1 (position?_add pool s)
    obtain ⟨more, ahead⟩ := ahead
    rw [List.foldl_cons, ← ahead, position?_append more place]
    rfl

end

end SymbolPool

theorem writes_symbolPool {known : List Symbol} {pool : SymbolPool} (within : pool.Within known)
    (few : known.length < 2 ^ 32) (closed : Closed known) :
    pool.length < 2 ^ 32 ∧ ∃ b, writeList writeSymbol pool = .ok b := by
  have length : pool.length < 2 ^ 32 := by
    have listed : pool.map Prod.fst ⊆ known := by
      intro s mem
      obtain ⟨e, here, rfl⟩ := List.mem_map.1 mem
      exact within.known e here
    have := (within.once.subperm listed).length_le
    rw [List.length_map] at this
    omega
  refine ⟨length, writes_list length fun e mem => ?_⟩
  obtain ⟨smallIndex, name, hname⟩ := closed.fits e.1 (within.known e mem)
  obtain ⟨index, hindex⟩ := writes_length smallIndex
  obtain ⟨link, hlink⟩ := writes_length (Nat.lt_of_le_of_lt (within.links e mem) length)
  exact ⟨_, bind_eq_ok.2 ⟨index, hindex, bind_eq_ok.2 ⟨name, hname, bind_eq_ok.2 ⟨link, hlink, rfl⟩⟩⟩⟩

theorem writes_symbolIndexes {pool : SymbolPool} (few : pool.length < 2 ^ 32) {xs : List Symbol}
    (length : xs.length < 2 ^ 32) (pooled : ∀ s ∈ xs, (pool.position? s).isSome = true) :
    ∃ b, writeList (writeSymbolIndex pool) xs = .ok b := by
  refine writes_list length fun s mem => ?_
  obtain ⟨i, place⟩ := Option.isSome_iff_exists.1 (pooled s mem)
  rw [writeSymbolIndex, place]
  exact writes_length (Nat.lt_trans (SymbolPool.position?_lt place) few)

theorem yields_spans (previous : Option SourceSpan) (count : Nat) :
    Yields (readSpans previous count) fun _ spans => spans.length = count := by
  induction count generalizing previous with
  | zero => exact .pure fun _ => rfl
  | succ count ih =>
    refine (composed_taggedSpan previous).yields.bind fun span => (ih span).bind fun spans => ?_
    exact .pure fun _ length _ => by rw [List.length_cons, length]

theorem yields_spanTable (name : String) (count : Nat) : Yields (readSpanTable count) fun _ spans =>
    ∃ b, writeSpanTable name count spans = .ok b := by
  refine composed_byte.yields.bind fun marker => ?_
  split
  · exact .pure fun _ _ => ⟨_, rfl⟩
  · refine (yields_spans none count).bind fun spans => .pure fun _ length _ => ?_
    have size : spans.toArray.size = count := length
    rw [writeSpanTable, if_pos size]
    exact ⟨_, rfl⟩
  · exact .malformed _

/-- The arrays of all annotation tables of a function fit in the address space of a machine. -/
def RoomyProto (heap : Heap) (p : Proto) : Prop := ∀ v, Annotates p v → Roomy heap v

/-- A function that was read can be written at the same depth, and its tables were made by storing
pairs. -/
theorem yields_function {fuel depth : Nat} (level : depth + fuel = maxNesting + 1) :
    Yields (readFunction fuel) fun later p => RoomyProto later p →
      (∃ b, writeFunction later depth p = .ok b) ∧
      ∀ v, Annotates p v → ∀ t, Inside later v t → (later.table t).Reachable := by
  induction fuel generalizing depth with
  | zero => exact .malformed _
  | succ fuel ih =>
    refine yields_string.bind fun name => composed_flags.yields.bind fun flags => ?_
    refine (yields_list yields_namedValue).bind fun annotations => ?_
    refine yields_symbolPool.bind fun known => ?_
    have indexes := yields_list (yields_symbolIndex known)
    refine indexes.bind fun locals => indexes.bind fun upvalues => indexes.bind fun symbols => ?_
    refine (yields_list (@ih (depth + 1) (by omega))).bind fun protos => ?_
    refine (yields_list yields_string).bind fun strings => ?_
    refine (yields_list composed_number.yields).bind fun numbers => ?_
    refine (yields_list composed_instruction.yields).bind fun code => ?_
    refine (yields_spanTable name code.length).bind fun spans => .pure fun later => ?_
    rintro ⟨_, hspans⟩ ⟨codeFew, -⟩ ⟨numbersFew, -⟩ ⟨stringsFew, eachString⟩ ⟨protosFew, eachProto⟩
      ⟨symbolsFew, eachSymbol⟩ ⟨upvaluesFew, eachUpvalue⟩ ⟨localsFew, eachLocal⟩ ⟨knownFew, closed⟩
      ⟨annotationsFew, eachNote⟩ - ⟨_, hname⟩ room
    have inner (q : Proto) (mem : q ∈ protos) := eachProto q mem fun v inside => room v (.nested mem inside)
    refine ⟨?_, fun v annotates => ?_⟩
    · obtain ⟨within, pooled⟩ := @SymbolPool.ofProto_within known locals upvalues
        symbols closed fun s mem => by
          rcases List.mem_append.1 mem with mem | mem
          · exact (List.mem_append.1 mem).elim (eachLocal s) (eachUpvalue s)
          · exact eachSymbol s mem
      obtain ⟨poolFew, _, hpool⟩ := writes_symbolPool within knownFew closed
      obtain ⟨_, hannotations⟩ := @writes_list _ (writeNamedValue later) _ annotationsFew
        fun a mem => by
          obtain ⟨⟨nameBytes, text⟩, accepted⟩ := eachNote a mem
          obtain ⟨valueBytes, value⟩ := accepted.writes (room a.value (.own mem))
          exact ⟨_, bind_eq_ok.2 ⟨nameBytes, text, bind_eq_ok.2 ⟨valueBytes, value, rfl⟩⟩⟩
      obtain ⟨_, hlocals⟩ := writes_symbolIndexes poolFew localsFew fun s mem =>
        pooled s (List.mem_append_left _ (List.mem_append_left _ mem))
      obtain ⟨_, hupvalues⟩ := writes_symbolIndexes poolFew upvaluesFew fun s mem =>
        pooled s (List.mem_append_left _ (List.mem_append_right _ mem))
      obtain ⟨_, hsymbols⟩ := writes_symbolIndexes poolFew symbolsFew fun s mem =>
        pooled s (List.mem_append_right _ mem)
      obtain ⟨_, hcount⟩ := writes_length protosFew
      obtain ⟨_, hprotos⟩ := writes_each fun q mem => (inner q mem).1
      obtain ⟨_, hstrings⟩ := writes_list stringsFew eachString
      obtain ⟨_, hnumbers⟩ := @writes_list _ (fun n => .ok (writeNumber n)) _ numbersFew
        fun _ _ => ⟨_, rfl⟩
      obtain ⟨_, hcode⟩ := @writes_list _ (fun i => .ok (writeInstruction i)) _ codeFew
        fun _ _ => ⟨_, rfl⟩
      have shallow : ¬ maxNesting < depth := by omega
      simp only [writeFunction, if_neg shallow, writeFunctions_eq, hname, hannotations, hpool, hlocals,
        hupvalues, hsymbols, hcount, hprotos, hstrings, hnumbers, hcode, List.size_toArray, hspans]
      exact ⟨_, rfl⟩
    · generalize whole : Proto.mk _ _ _ _ _ _ _ _ _ _ _ = p at annotates
      cases annotates with
      | own mem =>
        subst whole
        exact (eachNote _ mem).2.made (room _ (.own mem))
      | nested mem inside =>
        subst whole
        exact (inner _ mem).2 v inside

/-- So it is with a function that a whole chunk stands for. -/
theorem accepted_of_undump {heap heap' : Heap} {bytes : List UInt8} {p : Proto}
    (read : undump heap bytes = .ok (p, heap')) (room : RoomyProto heap' p) :
    (∃ b, writeFunction heap' 0 p = .ok b) ∧
      ∀ v, Annotates p v → ∀ t, Inside heap' v t → (heap'.table t).Reachable := by
  have chunk : Yields readChunk fun later p => RoomyProto later p →
      (∃ b, writeFunction later 0 p = .ok b) ∧
      ∀ v, Annotates p v → ∀ t, Inside later v t → (later.table t).Reachable := by
    refine (yields_raw magic.length).bind fun mark => ?_
    split
    · exact .malformed _
    · refine composed_byte.yields.bind fun v => ?_
      split
      · exact .malformed _
      · refine (yields_function (Nat.zero_add _)).bind fun p input q left read => ?_
        obtain ⟨now, mid, peek, read⟩ := bind_ok.1 read
        obtain ⟨rfl, rfl⟩ := pure_ok (x := input).1 peek
        split at read
        · cases malformed_ne_ok read
        · obtain ⟨rfl, rfl⟩ := pure_ok.1 read
          exact ⟨.refl _, fun _ _ known _ _ => known⟩
  obtain ⟨⟨q, left⟩, whole, result⟩ := bind_eq_ok.1 read
  obtain ⟨rfl, rfl⟩ := Prod.mk.inj (Except.ok.inj result)
  exact (chunk ⟨bytes, heap⟩ q left whole).2 left.heap (.refl _) room

end ScriptMachine.Chunk
