import ScriptMachine.Machine.Debugger
import ScriptMachine.Proofs.Machine.Operands
import ScriptMachine.Proofs.Machine.Storing
import ScriptMachine.Proofs.Table.Sweeping
import ScriptMachine.Proofs.Value.Equality

/-!
# Assigning variables by name

What a debugger or a routine finds under a name after it assigned a value to it.

* `State.Holds`: what a write to a variable changes is there. A slot need not be: a function has no
  locals before its prologue, apart from its operands (`State.holds_of_called`).
* `State.reads_writeSymbol`, `State.writeSymbol_missing`: a write to a variable that is held, and to
  one that is not.
* `State.assignment_kept`: what a name says after an assignment.
-/

namespace ScriptMachine

variable {ν : Type}

namespace Table

/-- All entries of a key have the value that was stored last. -/
theorem value_of_mem_writeEntry {entries : List Entry} {k : Key} {name v : Value} {e : Entry}
    (mem : e ∈ writeEntry entries k name v) (here : e.key = k) : e.value = v := by
  simp only [writeEntry] at mem
  split at mem
  · obtain ⟨e', -, rfl⟩ := List.mem_map.1 mem
    by_cases same : e'.key == k
    · rw [if_pos same]
    · rw [if_neg same] at here
      exact absurd (beq_iff_eq.2 here) same
  · rename_i absent
    have none := findEntry_eq_none_iff.1 absent
    split at mem
    · exact absurd here (none e mem)
    · rcases List.mem_append.1 mem with old | new
      · exact absurd here (none e old)
      · rw [List.mem_singleton.1 new]

/-- A value that was stored outlives the sweep that it may bring about. -/
theorem findEntry_liveEntries_writeEntry {v : Value} (present : v.isNil = false)
    (entries : List Entry) (k : Key) (name : Value) :
    ∃ e, findEntry (liveEntries (writeEntry entries k name v)) k = some e ∧ e.value = v := by
  obtain ⟨e, mem, key⟩ : ∃ e ∈ writeEntry entries k name v, e.key = k := by
    rw [writeEntry]
    split
    · rename_i e found
      obtain ⟨mem, key⟩ := findEntry_mem found
      exact ⟨{ e with value := v }, List.mem_map.2 ⟨e, mem, if_pos (by simp [key])⟩, key⟩
    · rw [present]
      exact ⟨⟨k, name, v⟩, by simp, rfl⟩
  have live : e ∈ liveEntries (writeEntry entries k name v) :=
    List.mem_filter.2 ⟨mem, by simp [value_of_mem_writeEntry mem key, present]⟩
  cases first : findEntry (liveEntries (writeEntry entries k name v)) k with
  | none => exact absurd key (findEntry_eq_none_iff.1 first e live)
  | some e' =>
    obtain ⟨mem', key'⟩ := findEntry_mem first
    exact ⟨e', rfl, value_of_mem_writeEntry (List.mem_filter.1 mem').1 key'⟩

/-- What is stored under a name is read under it. -/
theorem getString_setString (t : Table) (name : String) (v : Value) :
    ((t.setString name v).getString name).Matches v.scalar := by
  have entries := entries_setEntry_eq t (.string name) (.string name) v.scalar
  have read : (t.setString name v).getString name = entryValue { t with
      entries := (t.setEntry (.string name) (.string name) v.scalar).entries } (.string name) := rfl
  rw [read, entries]
  by_cases swept : (t.mayHoldTombstones && !v.scalar.isNil &&
      (t.entryValue (.string name)).isNil) = true
  · have present : v.scalar.isNil = false := by
      simp only [Bool.and_eq_true, Bool.not_eq_true'] at swept
      exact swept.1.2
    obtain ⟨e, found, value⟩ :=
      findEntry_liveEntries_writeEntry present t.entries (.string name) (.string name)
    rw [if_pos swept]
    exact .of_eq (by simp only [entryValue, found, value])
  · rw [if_neg swept]
    simpa using entryValue_writeEntry t (.string name) (.string name) (.string name) v.scalar

end Table

theorem modify_eq_self {α : Type} {xs : Array α} {i : Nat} {f : α → α}
    (h : ∀ x, xs[i]? = some x → f x = x) : xs.modify i f = xs := by
  apply Array.ext_getElem?
  intro j
  rw [Array.getElem?_modify]
  split
  · rename_i here
    subst here
    cases there : xs[i]? with
    | none => rfl
    | some x => rw [Option.map_some, h x there]
  · rfl

namespace Heap

theorem table_modifyTable (h : Heap) {t : TableId} (there : t.index < h.tables.size)
    (f : Table → Table) : (h.modifyTable t f).table t = f (h.table t) := by
  simp only [table, modifyTable, Array.getElem?_modify, if_pos, Array.getElem?_eq_getElem there,
    Option.map_some, Option.getD_some]

theorem modifyTable_of_le (h : Heap) {t : TableId} (absent : h.tables.size ≤ t.index)
    (f : Table → Table) : h.modifyTable t f = h := by
  have same : h.tables.modify t.index f = h.tables := modify_eq_self fun x there => by
    rw [Array.getElem?_eq_none absent] at there
    cases there
  rw [modifyTable, same]

end Heap

namespace State

variable {s s' : State ν} {scope : Scope} {v : Value}

/-- A slot beyond its stack cannot be written. -/
theorem setSlot_of_le {o : ThreadId} {k : Nat} (beyond : s.heightOf o ≤ k) (v : Value) :
    s.setSlot o k v = s := by
  have same : (s.processors.modify o.index fun p => { p with stack := p.stack.set k v }) =
      s.processors := modify_eq_self fun p there => by
    have size : p.stack.values.size ≤ k := by
      simpa [heightOf, stackOf, processorOf, there, ValueStack.size] using beyond
    rw [ValueStack.set, Array.setIfInBounds_eq_of_size_le size]
  rw [setSlot, modifyProcessorOf, same]

/-- An open cell has its slot; a closed one was made. -/
def HoldsCell (s : State ν) (x : CellId) : Prop :=
  match s.cell x with
  | .opened o k => k < s.heightOf o
  | .closed _ => x.index < s.cells.size

def HoldsTable (s : State ν) (t : TableId) : Prop := t.index < s.heap.tables.size

/-- What a write to a variable changes is there. As references do not dangle, a slot is all that can
be missing. -/
def Holds (s : State ν) (scope : Scope) : Symbol → Prop
  | .slot index _ => scope.base + index < s.heightOf s.current
  | .upvalue index _ => ∀ x, s.upvalueCell scope.closure index = .ok x → s.HoldsCell x
  | .defaultEnv => True
  | .global _ env => ∀ t, s.readSymbol scope env = .ok (.table t) → s.HoldsTable t

/-- Where names are looked up. Without a running function all of them are globals, for which it does
not matter. -/
def viewpoint (s : State ν) : Scope := s.scope?.getD ⟨⟨0⟩, 0⟩

/-- Captured variables are held as long as frames keep the slots of their open cells. -/
theorem holds_upvalue {L : Locals} (tidy : s.Tidy L) (index : Nat) (name : String) :
    s.Holds scope (.upvalue index name) := by
  intro x found
  unfold HoldsCell
  split
  · rename_i o k cell
    exact tidy.slot_lt cell
  · exact Exec.upvalueCell_known tidy found

/-- The variable of a name is held. -/
def HoldsVariable (s : State ν) (name : String) : Prop :=
  s.Holds s.viewpoint (s.findSymbol name)

structure SamePlace (s s' : State ν) : Prop where
  current : s'.current = s.current
  closures : s'.closures = s.closures
  frames : ∀ c, (s'.processorOf c).frames = (s.processorOf c).frames

theorem samePlace_setSlot (s : State ν) (o : ThreadId) (k : Nat) (v : Value) :
    SamePlace s (s.setSlot o k v) :=
  ⟨rfl, rfl, fun c => view_modifyProcessorOf s _ o c Processor.frames fun _ => rfl⟩

theorem samePlace_writeCell (s : State ν) (x : CellId) (v : Value) :
    SamePlace s (s.writeCell x v) := by
  rw [writeCell]
  split
  · exact samePlace_setSlot s _ _ v
  · exact ⟨rfl, rfl, fun _ => rfl⟩

theorem SamePlace.scope? (same : SamePlace s s') : s'.scope? = s.scope? := by
  simp only [State.scope?, processor, same.current, same.frames]

theorem SamePlace.closure (same : SamePlace s s') (f : ClosureId) : s'.closure f = s.closure f := by
  simp only [State.closure, same.closures]

theorem SamePlace.findSymbol (same : SamePlace s s') (name : String) :
    s'.findSymbol name = s.findSymbol name := by
  simp only [State.findSymbol, same.scope?, same.closure]

theorem SamePlace.upvalueCell (same : SamePlace s s') (f : ClosureId) (index : Nat) :
    s'.upvalueCell f index = s.upvalueCell f index := by
  simp only [State.upvalueCell, same.closure]

theorem writeCell_opened {x : CellId} {o : ThreadId} {k : Nat} (cell : s.cell x = .opened o k)
    (v : Value) : s.writeCell x v = s.setSlot o k v := by
  simp only [writeCell, cell, setSlot]

theorem writeCell_closed {x : CellId} {u : Value} (cell : s.cell x = .closed u) (v : Value) :
    s.writeCell x v = { s with cells := s.cells.setIfInBounds x.index (.closed v) } := by
  simp only [writeCell, cell]

theorem readCell_writeCell {x : CellId} (held : s.HoldsCell x) (v : Value) :
    (s.writeCell x v).readCell x = v := by
  unfold HoldsCell at held
  cases cell : s.cell x with
  | opened o k =>
    rw [cell] at held
    have still : (s.setSlot o k v).cell x = .opened o k := cell
    rw [writeCell_opened cell, readCell_opened still, slot_setSlot_self v held]
    rfl
  | closed u =>
    rw [cell] at held
    rw [writeCell_closed cell]
    exact readCell_closed (by
      simp only [State.cell, Array.getElem?_setIfInBounds_self_of_lt held, Option.getD_some])

/-- A cell that is missing stays as it is, and reads as nil. -/
theorem writeCell_of_not_holds {x : CellId} (missing : ¬ s.HoldsCell x) (v : Value) :
    s.writeCell x v = s ∧ s.readCell x = .nil := by
  unfold HoldsCell at missing
  cases cell : s.cell x with
  | opened o k =>
    rw [cell] at missing
    have beyond : s.heightOf o ≤ k := Nat.not_lt.1 missing
    have none : s.slot o k = none := Array.getElem?_eq_none beyond
    rw [writeCell_opened cell, setSlot_of_le beyond, readCell_opened cell, none]
    exact ⟨rfl, rfl⟩
  | closed u =>
    rw [cell] at missing
    have beyond : s.cells.size ≤ x.index := Nat.not_lt.1 missing
    have empty : s.cell x = .closed .nil := by
      simp only [State.cell, Array.getElem?_eq_none beyond, Option.getD_none]
    rw [writeCell_closed cell, Array.setIfInBounds_eq_of_size_le beyond]
    exact ⟨rfl, readCell_closed empty⟩

/-- A variable that is held reads as what was written, unless the write changed its environment. -/
theorem reads_writeSymbol {sym : Symbol} (scalar : v.kind ≠ .tuple)
    (written : s.writeSymbol scope v sym = .ok s') (held : s.Holds scope sym) :
    SamePlace s s' ∧ ((∃ w, s'.readSymbol scope sym = .ok w ∧ w.Matches v) ∨
      ∃ name env, sym = .global name env ∧ env.kind = .global ∧
        s'.readSymbol scope env ≠ s.readSymbol scope env) := by
  cases sym with
  | slot index name =>
    cases written
    have slot : (s.setSlot s.current (scope.base + index) v).slot s.current (scope.base + index) =
      some v := slot_setSlot_self v held
    refine ⟨samePlace_setSlot .., .inl ⟨v, congrArg Except.ok ?_, .refl v⟩⟩
    exact congrArg (Option.getD · .nil) slot
  | upvalue index name =>
    simp only [writeSymbol] at written
    cases found : s.upvalueCell scope.closure index with
    | error e =>
      rw [found] at written
      cases written
    | ok x =>
      rw [found] at written
      cases written
      have same := samePlace_writeCell s x v
      refine ⟨same, .inl ⟨v, ?_, .refl v⟩⟩
      simp only [readSymbol, same.upvalueCell, found]
      exact congrArg Except.ok (readCell_writeCell (held x found) v)
  | defaultEnv => cases written
  | global name env =>
    simp only [writeSymbol] at written
    cases found : s.readSymbol scope env with
    | error e =>
      rw [found] at written
      cases written
    | ok object =>
      rw [found] at written
      cases object with
      | table t =>
        cases written
        refine ⟨⟨rfl, rfl, fun _ => rfl⟩, ?_⟩
        by_cases same : (s.modifyHeap fun h => h.modifyTable t fun table =>
            table.setString name v).readSymbol scope env = s.readSymbol scope env
        · have stored := (s.heap.table t).getString_setString name v
          rw [Value.scalar_eq_self scalar, ← Heap.table_modifyTable _ (held t found)
            fun table => table.setString name v] at stored
          refine .inl ⟨_, ?_, stored⟩
          simp only [readSymbol, same, found]
          rfl
        · refine .inr ⟨name, env, rfl, ?_, same⟩
          cases env with
          | global => rfl
          | _ => exact absurd rfl same
      | _ => cases written

/-- A variable that is missing stays as it is, and reads as nil. -/
theorem writeSymbol_missing {sym : Symbol} (written : s.writeSymbol scope v sym = .ok s')
    (missing : ¬ s.Holds scope sym) : s' = s ∧ s.readSymbol scope sym = .ok .nil := by
  cases sym with
  | slot index name =>
    cases written
    have beyond : s.heightOf s.current ≤ scope.base + index := Nat.not_lt.1 missing
    have none : s.slot s.current (scope.base + index) = none := Array.getElem?_eq_none beyond
    refine ⟨setSlot_of_le beyond v, ?_⟩
    exact congrArg (fun u : Option Value => Except.ok (u.getD .nil)) none
  | upvalue index name =>
    obtain ⟨x, found, missing⟩ : ∃ x, s.upvalueCell scope.closure index = .ok x ∧
        ¬ s.HoldsCell x := by simpa [Holds] using missing
    obtain ⟨same, absent⟩ := writeCell_of_not_holds missing v
    simp only [writeSymbol, found] at written
    cases written
    refine ⟨same, ?_⟩
    simp only [readSymbol, found]
    exact congrArg Except.ok absent
  | defaultEnv => exact absurd trivial missing
  | global name env =>
    obtain ⟨t, found, missing⟩ : ∃ t, s.readSymbol scope env = .ok (.table t) ∧
        ¬ s.HoldsTable t := by simpa [Holds] using missing
    have absent : s.heap.tables.size ≤ t.index := Nat.not_lt.1 missing
    have same := s.world.heap.modifyTable_of_le absent fun table => table.setString name v
    have empty : s.heap.table t = .empty := by
      simp only [Heap.table, Array.getElem?_eq_none absent, Option.getD_none]
    simp only [writeSymbol, found] at written
    cases written
    constructor
    · simp only [modifyHeap, same]
    · simp only [readSymbol, found]
      exact congrArg (fun table => Except.ok (Table.getString table name)) empty

theorem assignSymbol_eq (s : State ν) (name : String) (v : Value) :
    s.assignSymbol (s.findSymbol name) v = s.writeSymbol s.viewpoint v (s.findSymbol name) := by
  cases found : s.scope? with
  | some scope => simp only [assignSymbol, viewpoint, found, Option.getD_some]
  | none =>
    have sym : s.findSymbol name = .global name .defaultEnv := by simp only [findSymbol, found]
    rw [sym]
    simp only [assignSymbol, found]
    rfl

/-- What a name says is the value of its symbol where execution still is. -/
theorem SamePlace.evaluate (same : SamePlace s s') (name : String) :
    s'.evaluate (.variable name) = s'.readSymbol s.viewpoint (s.findSymbol name) := by
  rw [State.evaluate, same.findSymbol]
  cases found : s.scope? with
  | some scope => simp only [symbolValue, same.scope?, viewpoint, found, Option.getD_some]
  | none =>
    have sym : s.findSymbol name = .global name .defaultEnv := by
      simp only [State.findSymbol, found]
    rw [sym]
    simp only [symbolValue, same.scope?, found]
    rfl

/-- The environment of the variable is a global itself, and is another one in the second state. -/
def Estranged (s s' : State ν) (name : String) : Prop :=
  ∃ n env, s.findSymbol name = .global n env ∧ env.kind = .global ∧
    s'.readSymbol s.viewpoint env ≠ s.readSymbol s.viewpoint env

theorem kind_of_findLocal {p : Proto} (slots : ∀ sym ∈ p.locals, sym.kind = .slot) {name : String}
    {sym : Symbol} (found : findLocal p name = some sym) : sym.kind = .slot :=
  slots sym (List.mem_reverse.1 (List.mem_of_find?_eq_some found))

theorem kind_of_findUpvalue {p : Proto} {name : String} {sym : Symbol}
    (found : findUpvalue p name = some sym) : sym.kind = .upvalue := by
  obtain ⟨i, -, rfl⟩ := Option.map_eq_some_iff.1 found
  rfl

/-- Where locals are slots, no environment is a global. -/
theorem kind_of_findSymbol (slots : ∀ scope, s.scope? = some scope →
    ∀ sym ∈ (s.closure scope.closure).proto.locals, sym.kind = .slot) {name n : String}
    {env : Symbol} (found : s.findSymbol name = .global n env) : env.kind ≠ .global := by
  have direct {p : Proto} (slots : ∀ sym ∈ p.locals, sym.kind = .slot) {name : String}
      {sym : Symbol} (known : (findLocal p name <|> findUpvalue p name) = some sym) :
      sym.kind ≠ .global := by
    rcases (Option.orElse_eq_some _ _ _).1 known with here | ⟨-, captured⟩
    · rw [kind_of_findLocal slots here]
      decide
    · rw [kind_of_findUpvalue captured]
      decide
  unfold findSymbol at found
  cases running : s.scope? with
  | none =>
    rw [running] at found
    cases found
    decide
  | some scope =>
    rw [running] at found
    have slots := slots scope running
    dsimp only at found
    split at found
    · rename_i sym known
      exact absurd (congrArg Symbol.kind found) (direct slots known)
    · cases found
      cases env : findLocal (s.closure scope.closure).proto Symbol.envName <|>
          findUpvalue (s.closure scope.closure).proto Symbol.envName with
      | none => decide
      | some sym => exact direct slots env

theorem rawEquals_of_matches (h : Heap) {w v : Value} (same : w.Matches v)
    (real : v.isReal = true) : h.rawEquals w v = true := by
  rw [Heap.rawEquals_eq]
  rcases same with rfl | ⟨nil, nil'⟩
  · exact Value.equalsWith_refl (fun u => Comparison.same_refl u) w real
  · exact Value.equalsWith_of_isNil nil nil'

theorem scope?_of_called {c : ClosureId} {proto : Proto} {isMethod : Bool}
    {below operands : List Value} (called : s.Called c proto isMethod below operands) :
    s.scope? = some ⟨c, below.length⟩ := by
  obtain ⟨frame, top, callee, base, -⟩ := called.top
  obtain ⟨frames, all⟩ := Array.back?_eq_some_iff.1 top
  simp [State.scope?, all, Frame.closure?, callee, base]

/-- A function that was entered has those of its locals that an operand stands for. Its prologue
makes all of them. -/
theorem holds_of_called {c : ClosureId} {proto : Proto} {isMethod : Bool}
    {below operands : List Value} (called : s.Called c proto isMethod below operands) (ip : Nat)
    {i : Instruction} (prologue : i.op = .beginFn) :
    s.viewpoint = ⟨c, below.length⟩ ∧
    (∀ index name, s.Holds s.viewpoint (.slot index name) ↔ index < operands.length) ∧
    ∃ s', Exec.execute proto s.viewpoint ip i s = .ok .next s' ∧
      ∀ index name, index < proto.locals.length → s'.Holds s.viewpoint (.slot index name) := by
  have view : s.viewpoint = ⟨c, below.length⟩ := by
    rw [viewpoint, scope?_of_called called, Option.getD_some]
  have height {s : State ν} {vs : List Value} (values : s.values = vs) :
      s.heightOf s.current = vs.length := size_of_values values
  rw [view]
  refine ⟨rfl, fun index name => ?_, ?_⟩
  · simp only [Holds, height called.values, List.length_append]
    omega
  · obtain ⟨s', executed, values⟩ := (Machine.beginFn_called called ip prologue).2
    refine ⟨s', executed, fun index name declared => ?_⟩
    simp only [Holds, height values, Exec.bindArguments, List.length_append,
      List.length_replicate]
    omega

/-- **Assignments by name.** In any state, once a name was assigned a scalar, evaluating the name
gives a value equal to it, if what the assignment changes was there: for a slot of the running
function, or one that a captured variable still is, that the stack reaches that far. Where it was
not, nothing has changed and the name says nil. The one other exception is a variable whose
environment is a global that the assignment itself replaced, which takes a function that declares
globals as its locals. -/
theorem assignment_kept {name : String} (scalar : v.kind ≠ .tuple)
    (assigned : s.assignSymbol (s.findSymbol name) v = .ok s') :
    (s.HoldsVariable name →
      (∃ w, s'.evaluate (.variable name) = .ok w ∧ w.Matches v ∧
        (v.isReal = true → s'.heap.rawEquals w v = true)) ∨ s.Estranged s' name) ∧
    (¬ s.HoldsVariable name → s' = s ∧ s'.evaluate (.variable name) = .ok .nil) ∧
    ((∀ scope, s.scope? = some scope → ∀ sym ∈ (s.closure scope.closure).proto.locals,
      sym.kind = .slot) → ¬ s.Estranged s' name) := by
  rw [assignSymbol_eq] at assigned
  refine ⟨fun held => ?_, fun missing => ?_, fun slots => ?_⟩
  · obtain ⟨same, ⟨w, read, found⟩ | ⟨n, env, sym, kind, other⟩⟩ :=
      reads_writeSymbol scalar assigned held
    · exact .inl ⟨w, (same.evaluate name).trans read, found, rawEquals_of_matches _ found⟩
    · exact .inr ⟨n, env, sym, kind, other⟩
  · obtain ⟨rfl, read⟩ := writeSymbol_missing assigned missing
    have same : SamePlace s' s' := ⟨rfl, rfl, fun _ => rfl⟩
    exact ⟨rfl, (same.evaluate name).trans read⟩
  · rintro ⟨n, env, sym, kind, -⟩
    exact kind_of_findSymbol slots sym kind

end State

namespace Sample

/-- Does nothing for a while before its prologue. Debuggers stop at the first instruction. -/
def early : Proto :=
  { name := "early", locals := [.slot 0 "x"],
    code := #[⟨.nop, 0, 0⟩, ⟨.beginFn, 0, 0⟩, ⟨.ret, 0, 0⟩],
    spans := some #[some { (default : SourceSpan) with isStop := true }, none, none] }

def observed : Run library := run early rfl []

theorem observed_symbol : ∀ i ∈ [4, 6],
    (observed.machine i).state.findSymbol "x" = .slot 0 "x" ∧
    (observed.machine i).state.viewpoint = ⟨⟨0⟩, 1⟩ := by decide +kernel

end Sample

namespace State

/-- After the prologue the local is there. -/
theorem assignment_kept_local :
    let s := (Sample.observed.machine 6).state
    (Value.boolean true).kind ≠ .tuple ∧ s.HoldsVariable "x" ∧
    ∃ s', s.assignSymbol (s.findSymbol "x") (.boolean true) = .ok s' ∧
      ∃ w, s'.evaluate (.variable "x") = .ok w ∧ s'.heap.rawEquals w (.boolean true) = true := by
  intro s
  have scalar : (Value.boolean true).kind ≠ .tuple := by decide
  obtain ⟨symbol, view⟩ := Sample.observed_symbol 6 (by decide)
  have height : s.heightOf s.current = 2 := by decide +kernel
  have held : s.HoldsVariable "x" := by
    rw [HoldsVariable, symbol, view, Holds, height]
    decide
  obtain ⟨s', assigned⟩ : ∃ s', s.assignSymbol (s.findSymbol "x") (.boolean true) = .ok s' := by
    rw [assignSymbol_eq, symbol]
    exact ⟨_, rfl⟩
  obtain ⟨w, read, -, equal⟩ | ⟨n, env, other, -⟩ := (assignment_kept scalar assigned).1 held
  · exact ⟨scalar, held, s', assigned, w, read, equal rfl⟩
  · rw [symbol] at other
    cases other

/-- Before the prologue a debugger is told that it assigned the local, which still says nil. -/
theorem assignment_lost :
    let s := (Sample.observed.machine 4).state
    ((Sample.observed.machine 4).control matches .execute 0 ..) ∧
    (Sample.early.span? 0).map SourceSpan.isStop = some true ∧
    ∃ s', s.assignSymbol (s.findSymbol "x") (.boolean true) = .ok s' ∧
      s'.evaluate (.variable "x") = .ok .nil ∧ s'.heap.rawEquals .nil (.boolean true) = false := by
  intro s
  obtain ⟨symbol, view⟩ := Sample.observed_symbol 4 (by decide)
  have height : s.heightOf s.current = 1 := by decide +kernel
  have missing : ¬ s.Holds s.viewpoint (s.findSymbol "x") := by
    rw [symbol, view, Holds, height]
    decide
  obtain ⟨s', assigned⟩ : ∃ s', s.assignSymbol (s.findSymbol "x") (.boolean true) = .ok s' := by
    rw [assignSymbol_eq, symbol]
    exact ⟨_, rfl⟩
  obtain ⟨rfl, read⟩ := writeSymbol_missing ((assignSymbol_eq ..).symm.trans assigned) missing
  have same : SamePlace s s := ⟨rfl, rfl, fun _ => rfl⟩
  exact ⟨by decide +kernel, rfl, s, assigned, (same.evaluate "x").trans read, rfl⟩

end State

end ScriptMachine
