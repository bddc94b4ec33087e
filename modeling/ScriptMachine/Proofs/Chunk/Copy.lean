import ScriptMachine.Chunk.RoundTrip
import ScriptMachine.Proofs.Chunk.Reads

/-!
# A function and its copy

What is written of a function is read back as the same function, in every field and at every level
of nesting, if no annotation is a table: those are made anew.

* `SymbolPool.Linked`: the environment of each pooled global stands before it, where its link says.
* `takes_function`: a function is read as it was written, whatever becomes of its annotations and of
  the functions in it. `copies_function`: by induction on the levels of nesting that are left, it is
  read back.
* `undump_dump`: so is a chunk, and its copy has the same listing and the same bytes.
-/

namespace ScriptMachine

namespace Chunk

namespace SymbolPool

/-- Every global stands behind its environment, and links to it. -/
def Linked (pool : SymbolPool) : Prop :=
  ∀ j name env link, pool[j]? = some (.global name env, link) →
    ∃ i, link = i + 1 ∧ i < j ∧ (pool.map Prod.fst)[i]? = some env

theorem getElem?_of_position? {pool : SymbolPool} {s : Symbol} {i : Nat}
    (h : pool.position? s = some i) : (pool.map Prod.fst)[i]? = some s := by
  obtain ⟨inside, found, _⟩ := List.findIdx?_eq_some_iff_getElem.1 h
  rw [List.getElem?_map, List.getElem?_eq_getElem inside]
  simpa using found

theorem position?_append {pool : SymbolPool} {s : Symbol} {i : Nat} (more : SymbolPool)
    (h : pool.position? s = some i) : position? (pool ++ more) s = some i := by
  rw [position?, List.findIdx?_append]
  rw [position?] at h
  rw [h]
  rfl

theorem position?_last (pool : SymbolPool) (s : Symbol) (link : Nat) :
    (position? (pool ++ [(s, link)]) s).isSome = true := by
  rw [position?, List.findIdx?_isSome]
  simp

/-- Another symbol, with a link that holds, leaves the pool linked. -/
theorem Linked.append {pool : SymbolPool} (linked : Linked pool) {s : Symbol} {link : Nat}
    (holds : ∀ name env, s = .global name env →
      ∃ i, link = i + 1 ∧ (pool.map Prod.fst)[i]? = some env) :
    Linked (pool ++ [(s, link)]) := by
  intro j name env link' at_j
  rw [List.map_append]
  rcases Nat.lt_trichotomy j pool.length with inside | rfl | outside
  · rw [List.getElem?_append_left inside] at at_j
    obtain ⟨i, hlink, before, found⟩ := linked j name env link' at_j
    refine ⟨i, hlink, before, ?_⟩
    rw [List.getElem?_append_left (by rw [List.length_map]; omega)]
    exact found
  · obtain ⟨rfl, rfl⟩ : s = .global name env ∧ link = link' := by simpa using at_j
    obtain ⟨i, hlink, found⟩ := holds name env rfl
    have inside : i < (pool.map Prod.fst).length := (List.getElem?_eq_some_iff.1 found).1
    refine ⟨i, hlink, by simpa using inside, ?_⟩
    rw [List.getElem?_append_left inside]
    exact found
  · rw [List.getElem?_eq_none (by simp; omega)] at at_j
    cases at_j

/-- A symbol without an environment links to nothing. -/
theorem Linked.addAtom {pool : SymbolPool} (linked : Linked pool) {s : Symbol}
    (atom : ∀ name env, s ≠ .global name env) :
    Linked (if (pool.position? s).isSome then pool else pool ++ [(s, 0)]) ∧
    (position? (if (pool.position? s).isSome then pool else pool ++ [(s, 0)]) s).isSome = true := by
  split
  · rename_i known
    exact ⟨linked, known⟩
  · exact ⟨linked.append fun name env same => absurd same (atom name env), position?_last _ _ _⟩

/-- Adding a symbol keeps the pool linked, and puts the symbol in it. -/
theorem Linked.add {pool : SymbolPool} (linked : Linked pool) (s : Symbol) :
    Linked (pool.add s) ∧ ((pool.add s).position? s).isSome = true := by
  induction s generalizing pool with
  | global name env ih =>
    rw [SymbolPool.add]
    split
    · rename_i known
      exact ⟨linked, known⟩
    · obtain ⟨linkedEnv, known⟩ := ih linked
      obtain ⟨i, position⟩ := Option.isSome_iff_exists.1 known
      refine ⟨linkedEnv.append ?_, position?_last _ _ _⟩
      intro name' env' same
      obtain ⟨rfl, rfl⟩ : name = name' ∧ env = env' := by simpa using same
      exact ⟨i, by rw [position]; rfl, getElem?_of_position? position⟩
  | slot index name => exact linked.addAtom (by simp)
  | upvalue index name => exact linked.addAtom (by simp)
  | defaultEnv => exact linked.addAtom (by simp)

theorem ofProto_linked (locals upvalues symbols : List Symbol) :
    Linked (ofProto locals upvalues symbols) := by
  rw [ofProto]
  have start : Linked [] := by
    intro j name env link at_j
    cases at_j
  generalize locals ++ upvalues ++ symbols = all
  generalize ([] : SymbolPool) = pool at start ⊢
  induction all generalizing pool with
  | nil => exact start
  | cons s rest ih => exact ih _ (start.add s).1

end SymbolPool

/-- A symbol is read back behind the symbols that its link refers to. -/
theorem copies_symbol {known : List Symbol} {s : Symbol} {link : Nat}
    (linked : ∀ name env, s = .global name env → ∃ i, link = i + 1 ∧ known[i]? = some env)
    {b : List UInt8} (h : writeSymbol (s, link) = .ok b) :
    Reads (readSymbol known) b s ∧ 0 < b.length := by
  obtain ⟨index, hindex, h⟩ := bind_eq_ok.1 h
  obtain ⟨name, hname, h⟩ := bind_eq_ok.1 h
  obtain ⟨place, hplace, h⟩ := bind_eq_ok.1 h
  obtain rfl := Except.ok.inj h
  obtain ⟨smallIndex, rfl⟩ := writeLength_eq_ok hindex
  obtain ⟨smallLink, rfl⟩ := writeLength_eq_ok hplace
  obtain ⟨readsName, _⟩ := copies_string s.name name hname
  refine ⟨?_, by simp⟩
  rw [List.append_assoc, List.cons_append]
  apply Reads.byte
  rw [SymbolKind.ofTag?_tag]
  refine (reads_word _).bind (readsName.bind ((reads_word _).finish ?_))
  rw [toNat_toUInt32 smallIndex, toNat_toUInt32 smallLink]
  cases s with
  | slot index name => exact Reads.pure _
  | upvalue index name => exact Reads.pure _
  | defaultEnv => exact Reads.pure _
  | global name env =>
    obtain ⟨i, rfl, found⟩ := linked name env rfl
    simp only [Symbol.kind, Nat.add_one_ne_zero, if_false, Nat.add_sub_cancel, found]
    exact Reads.pure _

/-- The rest of a pool is read behind what is already there. -/
theorem reads_symbolsInto (done : SymbolPool) {todo : SymbolPool}
    (linked : SymbolPool.Linked (done ++ todo)) {b : List UInt8} (h : writeEach writeSymbol todo = .ok b) :
    Reads (readSymbolsInto (done.map Prod.fst) todo.length) b ((done ++ todo).map Prod.fst) ∧
    todo.length ≤ b.length := by
  induction todo generalizing done b with
  | nil =>
    obtain rfl := Except.ok.inj h
    rw [List.append_nil]
    exact ⟨Reads.pure _, Nat.le_refl 0⟩
  | cons entry rest ih =>
    obtain ⟨s, link⟩ := entry
    obtain ⟨first, hfirst, h⟩ := bind_eq_ok.1 h
    obtain ⟨others, hothers, h⟩ := bind_eq_ok.1 h
    obtain rfl := Except.ok.inj h
    have holds : ∀ name env, s = .global name env →
        ∃ i, link = i + 1 ∧ (done.map Prod.fst)[i]? = some env := by
      rintro name env rfl
      obtain ⟨i, hlink, before, found⟩ := linked done.length name env link (by simp)
      refine ⟨i, hlink, ?_⟩
      rw [List.map_append, List.getElem?_append_left (by rw [List.length_map]; exact before)] at found
      exact found
    obtain ⟨readsFirst, nonempty⟩ := copies_symbol holds hfirst
    have split : done ++ (s, link) :: rest = (done ++ [(s, link)]) ++ rest := by simp
    rw [split] at linked ⊢
    obtain ⟨readsRest, long⟩ := ih _ linked hothers
    rw [List.map_append] at readsRest
    refine ⟨readsFirst.bind readsRest, ?_⟩
    rw [List.length_append, List.length_cons]
    omega

/-- The pool of a function is read back. -/
theorem reads_symbolPool {pool : SymbolPool} (linked : pool.Linked) {b : List UInt8}
    (h : writeList writeSymbol pool = .ok b) : Reads readSymbolPool b (pool.map Prod.fst) := by
  obtain ⟨length, hlength, h⟩ := bind_eq_ok.1 h
  obtain ⟨body, hbody, h⟩ := bind_eq_ok.1 h
  obtain rfl := Except.ok.inj h
  obtain ⟨reads, long⟩ := reads_symbolsInto [] linked hbody
  exact reads_counted hlength reads long

theorem copies_symbolIndex (pool : SymbolPool) (s : Symbol) :
    Copies (writeSymbolIndex pool) (readSymbolIndex (pool.map Prod.fst)) s := by
  intro b h
  simp only [writeSymbolIndex] at h
  split at h
  · rename_i i position
    have four := length_of_writeLength h
    obtain ⟨small, rfl⟩ := writeLength_eq_ok h
    refine ⟨(reads_word _).finish ?_, by omega⟩
    rw [toNat_toUInt32 small]
    dsimp only
    rw [SymbolPool.getElem?_of_position? position]
    exact Reads.pure s
  · cases h

mutual

/-- Every annotation of a function and of those nested in it is of a sort. -/
def annotated (sort : Value → Bool) : Proto → Bool
  | ⟨_, _, annotations, _, _, _, protos, _, _, _, _⟩ =>
    annotations.all (fun a => sort a.value) && allAnnotated sort protos

def allAnnotated (sort : Value → Bool) : List Proto → Bool
  | [] => true
  | p :: rest => annotated sort p && allAnnotated sort rest

end

def isTable (v : Value) : Bool := v.kind == .table

def isPlain : Value → Bool
  | .nil | .boolean _ | .number _ | .string _ => true
  | _ => false

theorem allAnnotated_iff {sort : Value → Bool} {ps : List Proto} :
    allAnnotated sort ps = true ↔ ∀ p ∈ ps, annotated sort p = true := by
  induction ps with
  | nil => simp [allAnnotated]
  | cons p rest ih => simp [allAnnotated, ih]

theorem annotated_iff {sort : Value → Bool} {p : Proto} :
    annotated sort p = true ↔ (∀ a ∈ p.annotations, sort a.value = true) ∧
      ∀ q ∈ p.protos, annotated sort q = true := by
  cases p
  simp [annotated, allAnnotated_iff]

theorem writeFunctions_eq (h : Heap) (depth : Nat) (ps : List Proto) :
    writeFunctions h depth ps = writeEach (writeFunction h depth) ps := by
  induction ps with
  | nil => rfl
  | cons p rest ih => rw [writeFunctions, writeEach, ih]

/-- Around its annotations and the functions nested in it, a function is read as it was written. -/
theorem takes_function {h : Heap} {depth : Nat} (shallow : ¬ maxNesting < depth) {p : Proto}
    {b : List UInt8} (written : writeFunction h depth p = .ok b) :
    0 < b.length ∧ ∃ own inner, writeList (writeNamedValue h) p.annotations = .ok own ∧
      writeList (writeFunction h (depth + 1)) p.protos = .ok inner ∧
      ∀ {fuel : Nat} {heap heap' heap'' : Heap} {annotations : List NamedValue} {protos : List Proto},
        Takes (readList readNamedValue) own heap annotations heap' →
        Takes (readList (readFunction fuel)) inner heap' protos heap'' →
        Takes (readFunction (fuel + 1)) b heap { p with annotations, protos } heap'' := by
  obtain ⟨name, flags, annotated, locals, upvalues, symbols, protos, strings, numbers, code,
    spans⟩ := p
  simp only [writeFunction, if_neg shallow, writeFunctions_eq] at written
  obtain ⟨nameBytes, hname, written⟩ := bind_eq_ok.1 written
  obtain ⟨annotationBytes, hannotations, written⟩ := bind_eq_ok.1 written
  obtain ⟨poolBytes, hpool, written⟩ := bind_eq_ok.1 written
  obtain ⟨localBytes, hlocals, written⟩ := bind_eq_ok.1 written
  obtain ⟨upvalueBytes, hupvalues, written⟩ := bind_eq_ok.1 written
  obtain ⟨symbolBytes, hsymbols, written⟩ := bind_eq_ok.1 written
  obtain ⟨countBytes, hcount, written⟩ := bind_eq_ok.1 written
  obtain ⟨nestedBytes, hnested, written⟩ := bind_eq_ok.1 written
  obtain ⟨stringBytes, hstrings, written⟩ := bind_eq_ok.1 written
  obtain ⟨numberBytes, hnumbers, written⟩ := bind_eq_ok.1 written
  obtain ⟨codeBytes, hcode, written⟩ := bind_eq_ok.1 written
  obtain ⟨spanBytes, hspans, written⟩ := bind_eq_ok.1 written
  obtain rfl := Except.ok.inj written
  have linked := SymbolPool.ofProto_linked locals upvalues symbols
  obtain ⟨readsName, nonempty⟩ := copies_string name nameBytes hname
  have inner : writeList (writeFunction h (depth + 1)) protos = .ok (countBytes ++ nestedBytes) := by
    rw [writeList, hcount, hnested]
    rfl
  refine ⟨by simp only [List.length_append]; omega, annotationBytes, countBytes ++ nestedBytes,
    hannotations, inner, ?_⟩
  intro fuel heap heap' heap'' annotations' protos' readsOwn readsInner
  simp only [List.append_assoc, List.cons_append]
  refine (readsName.takes heap).bind ?_
  refine ((reads_flags flags).takes heap).bind ?_
  refine readsOwn.bind ?_
  refine ((reads_symbolPool linked hpool).takes heap').bind ?_
  refine ((Copies.list (fun s _ => copies_symbolIndex _ s) _ hlocals).1.takes heap').bind ?_
  refine ((Copies.list (fun s _ => copies_symbolIndex _ s) _ hupvalues).1.takes heap').bind ?_
  refine ((Copies.list (fun s _ => copies_symbolIndex _ s) _ hsymbols).1.takes heap').bind ?_
  rw [← List.append_assoc countBytes]
  refine readsInner.bind ?_
  refine ((Copies.list (fun s _ => copies_string s) _ hstrings).1.takes heap'').bind ?_
  refine ((Copies.list (fun n _ => copies_number n) _ hnumbers).1.takes heap'').bind ?_
  refine ((Copies.list (fun i _ => copies_instruction i) _ hcode).1.takes heap'').bind ?_
  have readsSpans := ((reads_spanTable hspans).takes heap'').last fun spans =>
    Proto.mk name flags annotations' locals upvalues symbols protos' strings numbers code spans
  exact readsSpans

/-- At the limit of nesting nothing is written. -/
theorem writeFunction_deep {h : Heap} {depth : Nat} (deep : maxNesting < depth) (p : Proto) :
    writeFunction h depth p = .error (.format .functionsTooDeep) := by
  cases p
  rw [writeFunction, if_pos deep]

/-- A function is read back with as many levels of nesting left as there are below the limit. -/
theorem copies_function (h : Heap) {fuel depth : Nat} (level : depth + fuel = maxNesting + 1)
    {p : Proto} (free : annotated (fun v => !isTable v) p = true) :
    Copies (writeFunction h depth) (readFunction fuel) p := by
  induction fuel generalizing depth p with
  | zero =>
    intro b written
    rw [writeFunction_deep (by omega)] at written
    cases written
  | succ fuel ih =>
    intro b written
    obtain ⟨freeOwn, freeNested⟩ := annotated_iff.1 free
    obtain ⟨nonempty, own, inner, hown, hinner, reads⟩ := takes_function (by omega) written
    have annotations : ∀ a ∈ p.annotations, Copies (writeNamedValue h) readNamedValue a :=
      fun a mem => copies_namedValue h (by simpa [isTable] using freeOwn a mem)
    have nested : ∀ q ∈ p.protos, Copies (writeFunction h (depth + 1)) (readFunction fuel) q :=
      fun q mem => ih (by omega) (freeNested q mem)
    refine ⟨fun rest heap => ?_, nonempty⟩
    have read := reads ((Copies.list annotations own hown).1.takes heap)
      ((Copies.list nested inner hinner).1.takes heap) rest
    cases p
    exact read

/-- A chunk is read to its end if its function is. -/
theorem undump_of_takes {body : List UInt8} {heap heap' : Heap} {p : Proto}
    (takes : Takes (readFunction (maxNesting + 1)) body heap p heap') :
    undump heap (magic ++ version :: body) = .ok (p, heap') := by
  have read : readChunk ⟨magic ++ version :: body, heap⟩ = .ok (p, ⟨[], heap'⟩) := by
    rw [readChunk]
    refine ((reads_raw magic).bind_eq _ _ _).trans ?_
    refine ((reads_byte version).bind_eq _ body heap).trans ?_
    rw [← List.append_nil body]
    exact (takes.bind_eq _ []).trans rfl
  rw [undump_run, read]
  rfl

theorem undump_eq (h : Heap) {p : Proto} (free : annotated (fun v => !isTable v) p = true)
    {b : List UInt8} (written : dump h p = .ok b) (heap : Heap) :
    undump heap b = .ok (p, heap) := by
  obtain ⟨body, hbody, written⟩ := bind_eq_ok.1 written
  obtain rfl := Except.ok.inj written
  obtain ⟨reads, _⟩ := copies_function h (Nat.zero_add _) free body hbody
  exact undump_of_takes (reads.takes heap)

/-! ## Heaps

What a chunk can hold without tables means the same on every heap. -/

theorem plain_of_writeValue {h : Heap} {v : Value} {b : List UInt8} {fuel : Nat}
    (written : writeValue h (fuel + 1) v = .ok b) (free : isTable v = false) : isPlain v = true := by
  cases v <;> simp_all [writeValue, isPlain, isTable, Value.kind]

theorem written_of_writeEach {α : Type} {write : α → Written} {xs : List α} {b : List UInt8}
    (h : writeEach write xs = .ok b) {x : α} (mem : x ∈ xs) : ∃ b', write x = .ok b' := by
  induction xs generalizing b with
  | nil => cases mem
  | cons y rest ih =>
    obtain ⟨first, hfirst, h⟩ := bind_eq_ok.1 h
    obtain ⟨others, hothers, h⟩ := bind_eq_ok.1 h
    rcases List.mem_cons.1 mem with rfl | later
    · exact ⟨first, hfirst⟩
    · exact ih hothers later

theorem writeEach_congr {α : Type} {write write' : α → Written} {xs : List α}
    (same : ∀ x ∈ xs, write x = write' x) : writeEach write xs = writeEach write' xs := by
  induction xs with
  | nil => rfl
  | cons x rest ih =>
    rw [writeEach, writeEach, same x List.mem_cons_self,
      ih fun y mem => same y (List.mem_cons_of_mem x mem)]

theorem written_of_writeList {α : Type} {write : α → Written} {xs : List α} {b : List UInt8}
    (h : writeList write xs = .ok b) {x : α} (mem : x ∈ xs) : ∃ b', write x = .ok b' := by
  obtain ⟨_, _, h⟩ := bind_eq_ok.1 h
  obtain ⟨_, heach, _⟩ := bind_eq_ok.1 h
  exact written_of_writeEach heach mem

/-- A function without tables that can be written has plain annotations. -/
theorem plain_of_written {h : Heap} {fuel depth : Nat} (level : depth + fuel = maxNesting + 1)
    {p : Proto} (free : annotated (fun v => !isTable v) p = true) {b : List UInt8}
    (written : writeFunction h depth p = .ok b) : annotated isPlain p = true := by
  induction fuel generalizing depth p b with
  | zero =>
    rw [writeFunction_deep (by omega)] at written
    cases written
  | succ fuel ih =>
    obtain ⟨freeOwn, freeNested⟩ := annotated_iff.1 free
    obtain ⟨_, own, inner, hown, hinner, _⟩ := takes_function (by omega) written
    refine annotated_iff.2 ⟨fun a mem => ?_, fun q mem => ?_⟩
    · obtain ⟨_, hvalue⟩ := written_of_writeList hown mem
      obtain ⟨_, _, hvalue⟩ := bind_eq_ok.1 hvalue
      obtain ⟨_, hvalue, _⟩ := bind_eq_ok.1 hvalue
      exact plain_of_writeValue hvalue (by simpa using freeOwn a mem)
    · obtain ⟨_, hq⟩ := written_of_writeList hinner mem
      exact ih (by omega) (freeNested q mem) hq

theorem writeValue_congr (h h' : Heap) (fuel : Nat) {v : Value} (plain : isPlain v = true) :
    writeValue h (fuel + 1) v = writeValue h' (fuel + 1) v := by
  cases v <;> first | rfl | cases plain

theorem describe_congr (h h' : Heap) (names : FunctionNames) {v : Value}
    (plain : isPlain v = true) : h.describe names v = h'.describe names v := by
  cases v <;> first | rfl | cases plain

mutual

theorem writeFunction_congr (h h' : Heap) (depth : Nat) :
    ∀ p, annotated isPlain p = true → writeFunction h depth p = writeFunction h' depth p
  | ⟨name, flags, own, locals, upvalues, symbols, protos, strings, numbers, code, spans⟩, plain => by
    simp only [annotated, Bool.and_eq_true, List.all_eq_true] at plain
    have annotations : writeList (writeNamedValue h) own = writeList (writeNamedValue h') own := by
      rw [writeList, writeList, writeEach_congr]
      intro a mem
      rw [writeNamedValue, writeNamedValue, writeValue_congr h h' maxNesting (plain.1 a mem)]
    have nested := writeFunctions_congr h h' (depth + 1) protos plain.2
    simp only [writeFunction, annotations, nested]

theorem writeFunctions_congr (h h' : Heap) (depth : Nat) :
    ∀ ps, allAnnotated isPlain ps = true → writeFunctions h depth ps = writeFunctions h' depth ps
  | [], _ => rfl
  | p :: rest, plain => by
    simp only [allAnnotated, Bool.and_eq_true] at plain
    rw [writeFunctions, writeFunctions, writeFunction_congr h h' depth p plain.1,
      writeFunctions_congr h h' depth rest plain.2]

end

mutual

theorem lines_congr (h h' : Heap) (names : FunctionNames) :
    ∀ p, annotated isPlain p = true → Proto.lines h names p = Proto.lines h' names p
  | ⟨name, flags, own, locals, upvalues, symbols, protos, strings, numbers, code, spans⟩, plain => by
    simp only [annotated, Bool.and_eq_true, List.all_eq_true] at plain
    have annotations : (own.map fun a => "  .annotation " ++ a.name ++ " = " ++
        h.describe names a.value) = own.map fun a => "  .annotation " ++ a.name ++ " = " ++
        h'.describe names a.value := by
      apply List.map_congr_left
      intro a mem
      rw [describe_congr h h' names (plain.1 a mem)]
    have nested := nestedLines_congr h h' names protos plain.2
    simp only [Proto.lines, Proto.ownLines, annotations, nested]

theorem nestedLines_congr (h h' : Heap) (names : FunctionNames) :
    ∀ ps, allAnnotated isPlain ps = true →
      Proto.nestedLines h names ps = Proto.nestedLines h' names ps
  | [], _ => rfl
  | p :: rest, plain => by
    simp only [allAnnotated, Bool.and_eq_true] at plain
    rw [Proto.nestedLines, Proto.nestedLines, lines_congr h h' names p plain.1,
      nestedLines_congr h h' names rest plain.2]

end

/-- **What is written is read back.** If no annotation is a table, the bytes of a function stand for
that very function on every heap, which stays as it is; and there it has the same listing and the
same bytes. -/
theorem undump_dump (h : Heap) (p : Proto) (free : annotated (fun v => !isTable v) p = true)
    (b : List UInt8) (written : dump h p = .ok b) (heap : Heap) (names : FunctionNames) :
    ∃ q, undump heap b = .ok (q, heap) ∧ q = p ∧ q.listing heap names = p.listing h names ∧
      dump heap q = .ok b := by
  refine ⟨p, undump_eq h free written heap, rfl, ?_, ?_⟩
  · obtain ⟨_, hfunction, _⟩ := bind_eq_ok.1 written
    have plain := plain_of_written (Nat.zero_add _) free hfunction
    rw [Proto.listing, Proto.listing, lines_congr heap h names p plain]
  · obtain ⟨_, hfunction, _⟩ := bind_eq_ok.1 written
    have plain := plain_of_written (Nat.zero_add _) free hfunction
    rw [dump, writeFunction_congr heap h 0 p plain]
    exact written

/-- A function with annotations, shared environments, repeated spans and a function in it. -/
def sample : Proto :=
  let env := Symbol.upvalue 0 Symbol.envName
  { name := "outer"
    flags := { takesSelf := true }
    annotations := [⟨"doc", .string "é"⟩, ⟨"on", .boolean true⟩, ⟨"none", .nil⟩]
    locals := [.slot 0 "x"]
    upvalues := [env]
    symbols := [.global "g" env, .global "f" (.global "g" env), .slot 0 "x"]
    protos := [{ name := "inner", annotations := [⟨"n", .number ⟨5⟩⟩], upvalues := [.defaultEnv] }]
    strings := ["a", ""]
    numbers := [⟨0x7ff8000000000001⟩]
    code := #[⟨.pushNumber, 0, -1⟩, ⟨.load, 1, 0⟩, ⟨.ret, 0, 0⟩]
    spans := some #[some ⟨1, 2, 3, 4, 5, true⟩, some ⟨1, 2, 3, 4, 5, true⟩, none] }

theorem undump_dump_sample :
    annotated (fun v => !isTable v) sample = true ∧ ∃ b, dump {} sample = .ok b ∧
      undump {} b = .ok (sample, {}) := by
  have free : annotated (fun v => !isTable v) sample = true := by decide +kernel
  have succeeds : (dump {} sample).isOk = true := by decide +kernel
  obtain ⟨b, written⟩ : ∃ b, dump {} sample = .ok b := by
    cases h : dump {} sample with
    | ok b => exact ⟨b, rfl⟩
    | error fault => simp [h, Except.isOk, Except.toBool] at succeeds
  obtain ⟨q, read, rfl, _⟩ := undump_dump {} sample free b written {} ⟨fun _ => "", fun _ => ""⟩
  exact ⟨free, b, written, read⟩

end Chunk

end ScriptMachine
