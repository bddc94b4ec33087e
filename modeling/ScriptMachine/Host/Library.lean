import ScriptMachine.Chunk.Cache
import ScriptMachine.Host.Routine
import ScriptMachine.Machine.Entry

/-!
# The host's library

What each routine does.
-/

namespace ScriptMachine.Host

abbrev Routines := Program HostRoutine

abbrev HostWorld := World HostRoutine

abbrev HostState := State HostRoutine

/-! ## Arguments -/

/-- A string argument; numbers are accepted. -/
def stringArg (i : Invocation) (name : String) (index : Nat) : Except Fault String := do
  let v ← i.arguments.check index name .string { convert := true }
  return v.asString.getD ""

/-- A number argument; numerals are accepted. -/
def numberArg (i : Invocation) (name : String) (index : Nat) : Except Fault Number := do
  let v ← i.arguments.check index name .number { convert := true }
  return v.asNumber.getD .zero

def tableArg (i : Invocation) (name : String) (index : Nat) : Except Fault TableId := do
  let v ← i.arguments.check index name .table {}
  return v.asTable.getD default

def threadArg (i : Invocation) (name : String) (index : Nat) : Except Fault ThreadId := do
  match ← i.arguments.check index name .thread {} with
  | .thread c => return c
  | _ => return default

/-- The kind of a label. -/
def kindNamed (label : String) : Except Fault Kind :=
  match Kind.ofLabel? label with
  | some k => .ok k
  | none => .error (.raiseText ("unknown type " ++ label))

/-- A count; negative numbers count as none. -/
def countOf (n : Number) : Nat := (n.clampInteger 0 0xffffffffffffffff).toNat

/-- What an argument check accepts, by the two lowest bits of a 64-bit integer; a negative integer
is read in two's complement. -/
def acceptanceOf (flags : Number) : Acceptance :=
  let bits := flags.clampInteger (-0x8000000000000000) 0x7fffffffffffffff
  ⟨bits % 2 == 1, bits / 2 % 2 == 1⟩

/-! ## Building blocks -/

/-- Answers from the state. -/
def look (query : HostState → Except Fault Value) : Routines := .ask query .finish

/-- Changes the heap and answers. -/
def onHeap (action : Heap → Except Fault (Value × Heap)) : Routines :=
  .change (fun w =>
    match action w.heap with
    | .ok (v, heap) => (.ok v, { w with heap })
    | .error e => (.error e, w)) .finish

/-- Fails with a text of the heap's. -/
def failWith (fault : Heap → Fault) : Routines := look fun s => .error (fault s.heap)

/-- The fault of a cause. -/
def caused {α : Type} : Except Cause α → Except Fault α
  | .ok a => .ok a
  | .error c => .error (.raise c)

/-- The result of a protected call: success and the results, or failure and the message. Faults
that cannot be caught pass. -/
def protected? : Except Fault Value → Except Fault Value
  | .ok v => .ok (Value.ofList (.boolean true :: v.items))
  | .error (.script e) => .ok (Value.ofList [.boolean false, .string e.message])
  | .error other => .error other

/-- Adds a handler to the natives. -/
def addHandler (w : HostWorld) (h : Handler) : NativeId × HostWorld :=
  (⟨w.natives.size⟩, { w with natives := w.natives.push ⟨h.name, .host (.handler h)⟩ })

def addHandler? (w : HostWorld) : Option Handler → Option NativeId × HostWorld
  | none => (none, w)
  | some h =>
    let (n, w) := addHandler w h
    (some n, w)

/-- Asks for a call with handlers. -/
def requestCall (function : Value) (arguments : List Value)
    (continuation errorHandler : Option Handler) (decorator : Option Value) : Routines :=
  .change (fun w =>
    let (continuation, w) := addHandler? w continuation
    let (errorHandler, w) := addHandler? w errorHandler
    let (v, heap) := w.heap.newTailCall
      { function, arguments, continuation, errorHandler, decorator }
    (.ok v, { w with heap })) .finish

/-- Asks for a yield. -/
def requestYield (values : List Value) : Routines := onHeap fun h => .ok (h.newYield values)

/-- Waits for a task. -/
def awaitTask (task : Heap → Task × Heap) : Routines :=
  onHeap fun h =>
    let (task, h) := task h
    .ok (h.newAwait task)

/-- A task that is done from the start. -/
def settled (v : Value) (h : Heap) : Task × Heap := (.settles (.ok v), h)

/-! ## Tables and objects -/

/-- The table of the arguments, with their number under `n`. -/
def packed (values : List Value) : Except Cause Table := do
  let (_, t) ← values.foldlM (fun (i, t) v => do
    return (i + 1, ← Table.setInt t i v)) ((1 : Int), Table.empty)
  return t.setString "n" (.number (.ofNat values.length))

/-- The values of a table up to its length, and the table after it was measured. -/
def unpacked (t : Table) : Value :=
  Value.ofList ((List.range t.length).map fun i : Nat => t.getInt (i + 1 : Nat))

def setMetatable (h : Heap) (target metatable : Value) : Except Fault (Value × Heap) := do
  let mt ← match metatable with
    | .table t => pure (some t)
    | .nil | .void => pure none
    | _ => throw (.raiseText "setmetatable: bad metatable")
  match target with
  | .table t => return (target, h.modifyTable t fun table => { table with metatable := mt })
  | .userdata u => return (target, h.setObjectMetatable u mt)
  | _ => throw (.raiseText "setmetatable: bad target")

/-! ## Debugging -/

/-- A variable indexed by constants in turn. -/
def watchExpr (name : String) (keys : List Value) : WatchExpr :=
  keys.foldl (fun e k => .index e (.constant k)) (.variable name)

/-! ## The routines -/

/-- What a routine does. -/
def Builtin.run (b : Builtin) (i : Invocation) : Routines :=
  let a := i.arguments
  let a0 := a.get 0
  let a1 := a.get 1
  let str (index : Nat) := stringArg i b.name index
  let num (index : Nat) := numberArg i b.name index
  let tab (index : Nat) := tableArg i b.name index
  let thr (index : Nat) := threadArg i b.name index
  match b with
  | .print => .print a.values (.reply .void)
  | .type => .reply (.string a0.typeName)
  | .tostring => look fun s => .ok (.string (s.heap.caption a0))
  | .tonumber => .reply ((a0.toNumber?.map Value.number).getD .nil)
  | .ident => .reply (Value.ofList a.values)
  | .void => .reply .void
  | .nest => .reply (.tuple [.tuple a.values, .string "tail"])
  | .nargs => .reply (.number (.ofNat a.size))
  | .ismethod => .reply (.boolean a.isMethod)
  | .pack => onHeap fun h => do
      let (t, h) := h.newTable (← caused (packed a.values))
      return (.table t, h)
  | .unpack => .andThen (tab 0) fun t => onHeap fun h =>
      .ok (unpacked (h.table t), h.modifyTable t Table.withKnownLength)
  | .range =>
    .andThen (num 0) fun first => .andThen (num 1) fun last => .andThen (num 2) fun step =>
      .reply (.range ⟨first, last, step⟩)
  | .boxyield => onHeap fun h =>
      let (v, h) := h.newYield a.values
      .ok (.tuple [v, .string "boxed"], h)
  | .check => .andThen (str 0) fun label => .andThen (kindNamed label) fun kind =>
      .andThen (num 1) fun flags =>
        .finish (a.check 2 "check" kind (acceptanceOf flags))
  | .ud => .andThen (str 0) fun name => .andThen (tab 1) fun members =>
      .andThen (tab 2) fun metamethods => onHeap fun h =>
        let descriptor : Descriptor :=
          { name, comparesById := (a.get 3).truthy, text := (a.get 4).asString }
        let (u, h) := h.newUserdata { descriptor, members, metamethods }
        .ok (.userdata u, h)
  | .setmetatable => onHeap fun h => setMetatable h a0 a1
  | .getmetatable => look fun s => .ok ((s.metatable a0).elim .nil .table)
  | .metamethod => .andThen (str 1) fun name => look fun s => .ok ((s.metamethod a0 name).getD .nil)
  | .settypemt => .andThen (str 0) fun label => .andThen (kindNamed label) fun kind =>
      .change (fun w =>
        let w := w.setTypeMetatable kind a1.asTable
        (.ok (.boolean (w.typeMetatables.lookup kind).isSome), w)) .finish
  | .rawget => .andThen (tab 0) fun t => look fun s => .ok ((s.heap.table t).get a1)
  | .rawset => .andThen (tab 0) fun t => onHeap fun h => do
      return (a0, ← caused (h.set t a1 (a.get 2)))
  | .rawlen => .andThen (tab 0) fun t => onHeap fun h =>
      .ok (.number (.ofNat (h.table t).length), h.modifyTable t Table.withKnownLength)
  | .rawequal => look fun s => .ok (.boolean (s.heap.rawEquals a0 a1))
  | .next => .andThen (tab 0) fun t => look fun s => do
      match ← caused ((s.heap.table t).next a1) with
      | some (k, v) => return Value.ofList [k, v]
      | none => return .nil
  | .error => failWith fun h => .raiseText (h.caption a0)
  | .raise => .andThen (str 0) fun label =>
      match ErrorKind.ofLabel? label with
      | some kind => failWith fun h => .raise (.raised kind (h.caption a1))
      | none => .fail (.raiseText ("unknown kind " ++ label))
  | .internal => failWith fun h => .defect (.reported (h.caption a0))
  | .pcall => requestCall a0 (a.after 1) (some .pcallDone) (some .pcallFailed) none
  | .xpcall => requestCall a0 (a.after 2) (some .pcallDone) (some .pcallFailed) (some a1)
  | .catching => requestCall a0 (a.after 1) none (some .catcher) none
  | .decorate => requestCall a0 (a.after 2) none none (some a1)
  | .cont => requestCall a0 (a.after 1) (some .continuation) none none
  | .tail => requestCall a0 (a.after 1) none none none
  | .rethrow => requestCall a0 (a.after 1) none (some .rethrower) none
  | .catchtail => requestCall a0 (a.after 2) none (some (.catchTailer a1)) none
  | .conttail => requestCall a0 (a.after 2) (some (.contTailer a1)) none none
  | .contyield => requestCall a0 (a.after 1) (some .contYielder) none none
  | .contfail => requestCall a0 (a.after 1) (some .contFailer) none none
  | .call => .call a0 (a.after 1) .finish
  | .npcall => .call a0 (a.after 1) fun r => .finish (protected? r)
  | .index => .index a0 a1 .finish
  | .hostcall => .enter a0 (a.after 1) .finish
  | .thiscall => .andThen (str 1) fun method => .enterMethod a0 method (a.after 2) .finish
  | .asynccall => .enterAsync a0 (a.after 1) .finish
  | .depth => look fun s => .ok (.number (.ofNat s.callDepth))
  | .cbname => .reply (.string i.name)
  | .genv => look fun s => .ok (.table s.world.globals)
  | .yield => requestYield a.values
  | .cocreate => .spawn a0 .finish
  | .coresume => .andThen (thr 0) fun c => .resume c (a.after 1) fun r => .finish (protected? r)
  | .costatus => .andThen (thr 0) fun c => look fun s => .ok (.string (s.coroutineState c).text)
  | .costate => .andThen (thr 0) fun c => look fun s => .ok (.string (s.coroutineState c).label)
  | .corunning => look fun s => .ok (s.currentCoroutine.elim .nil .thread)
  | .coyieldable => look fun s => .ok (.boolean s.isYieldable)
  | .coauto => .andThen (thr 0) fun c => .andThen (num 1) fun n =>
      .autoYield c (countOf n) (.reply .void)
  | .cofn => .andThen (thr 0) fun c => look fun s => .ok (s.coroutine c).function
  | .ready => awaitTask (settled (Value.ofList a.values))
  | .pend => .andThen (num 0) fun _ => awaitTask (settled (Value.ofList (a.after 1)))
  | .afail => awaitTask fun h => (.settles (.error (.raiseText (h.caption a0))), h)
  | .ainternal => awaitTask fun h => (.settles (.error (.defect (.reported (h.caption a0)))), h)
  | .atail => awaitTask fun h =>
      let (v, h) := h.newTailCall { function := a0, arguments := a.after 1 }
      (.settles (.ok v), h)
  | .ayield => awaitTask fun h =>
      let (v, h) := h.newYield a.values
      (.settles (.ok v), h)
  | .aagain => awaitTask fun h =>
      let (v, h) := h.newAwait (.settles (.ok (Value.ofList a.values)))
      (.settles (.ok v), h)
  | .never => awaitTask fun h => (.never, h)
  | .watch => .andThen (stringArg i "watch" 0) fun name =>
      look fun s => s.evaluate (watchExpr name (a.after 1))
  | .watchcall => .andThen (stringArg i "watch" 0) fun name =>
      look fun s => s.evaluate (.call (watchExpr name (a.after 1)))
  | .findsym => .andThen (str 0) fun name => look fun s => .ok (.string (s.findSymbol name).text)
  | .assign => .andThen (str 0) fun name => .assign name a1 .finish
  | .dump => look fun s => do return .string (Text.encodeHex (← s.dump a0))
  | .undump => .andThen (str 0) fun text =>
      match Text.decodeHex text with
      | some bytes => .undump bytes .finish
      | none => .fail (.raiseText "bad hex")
  | .fingerprint => look fun s =>
      match a0 with
      | .function f => do return .string (← Chunk.fingerprint s.heap (s.closure f).proto)
      | _ => .ok .nil

/-- What a handler does. -/
def Handler.run (h : Handler) (i : Invocation) : Routines :=
  let a := i.arguments
  let a0 := a.get 0
  match h with
  | .pcallDone => .reply (Value.ofList (.boolean true :: a.values))
  | .pcallFailed => .reply (Value.ofList [.boolean false, a0])
  | .catcher => look fun s => .ok (.string ("caught: " ++ s.heap.caption a0))
  | .continuation => .reply (Value.ofList (.string "cont" :: a.values))
  | .rethrower => failWith fun heap => .raiseText ("rethrown: " ++ heap.caption a0)
  | .catchTailer f => requestCall f a.values none none none
  | .contTailer f => requestCall f a.values none none none
  | .contYielder => requestYield a.values
  | .contFailer => failWith fun heap => .raiseText ("cont failed: " ++ heap.caption a0)

/-- The host's library. -/
def library : Library HostRoutine
  | .builtin b, i => b.run i
  | .handler h, i => h.run i

/-- A machine with the host's routines as globals. -/
def newState (options : Options) : HostState :=
  Builtin.all.foldl (fun s b =>
    let (v, s) := s.newNative ⟨b.name, .host (.builtin b)⟩
    { s with world := s.world.setGlobal b.name v }) (.initial options)

end ScriptMachine.Host
