import ScriptMachine.Proofs.Machine.Decorating
import ScriptMachine.Proofs.Machine.Operands

/-!
# Calls of what is no function

A value with a handler of `__call` is called through it, and the handler may be such a value itself.

* `State.calleeAt`, `State.passed`: where a call arrives after so many handlers, and the objects it
  passes on the way.
* `findCallee_chain`: the operands after so many handlers.
* `callable_chains`: a call through handlers is the call of the function it arrives at, with the
  objects in front of the arguments; if it arrives at none, it fails with an error that is caught.
-/

namespace ScriptMachine

variable {ν : Type}

namespace State

/-- The value that a call arrives at after so many handlers of `__call`. -/
def calleeAt (s : State ν) (o : Value) : Nat → Option Value
  | 0 => some o
  | n + 1 => if o.isFunction then none else (s.unaryMetamethod o "__call").bind (s.calleeAt · n)

/-- The objects it passes on the way there, the last one first. -/
def passed (s : State ν) (o : Value) (n : Nat) : List Value :=
  ((List.range n).filterMap (s.calleeAt o)).reverse

/-- The state with these values on the stack that runs. -/
def withValues (s : State ν) (vs : List Value) : State ν := s.modifyStack fun _ => ⟨vs.toArray⟩

variable {s : State ν} {o h f : Value}

theorem calleeAt_succ (object : o.isFunction = false) (handler : s.unaryMetamethod o "__call" = some h)
    (n : Nat) : s.calleeAt o (n + 1) = s.calleeAt h n := by
  simp [calleeAt, object, handler]

/-- What a call does not arrive at, or arrives at through a handler. -/
theorem calleeAt_succ_eq_some {n : Nat} (arrives : s.calleeAt o (n + 1) = some f) :
    o.isFunction = false ∧ ∃ h, s.unaryMetamethod o "__call" = some h ∧ s.calleeAt h n = some f := by
  rw [calleeAt] at arrives
  split at arrives
  · contradiction
  · rename_i object
    exact ⟨Bool.eq_false_iff.2 object, Option.bind_eq_some_iff.1 arrives⟩

/-- One more link at the far end. -/
theorem calleeAt_next {n : Nat} (arrives : s.calleeAt o n = some f) (object : f.isFunction = false) :
    s.calleeAt o (n + 1) = s.unaryMetamethod f "__call" := by
  induction n generalizing o with
  | zero =>
    obtain rfl := Option.some.inj arrives
    simp only [calleeAt, object, Bool.false_eq_true, if_false]
    exact Option.bind_fun_some _
  | succ n ih =>
    obtain ⟨object', h, handler, arrives⟩ := calleeAt_succ_eq_some arrives
    rw [calleeAt_succ object' handler, ih arrives]

/-- The first object is passed first, and so comes last. -/
theorem passed_succ (object : o.isFunction = false)
    (handler : s.unaryMetamethod o "__call" = some h) (n : Nat) :
    s.passed o (n + 1) = s.passed h n ++ [o] := by
  have first : s.calleeAt o 0 = some o := rfl
  have others : s.calleeAt o ∘ Nat.succ = s.calleeAt h := by
    funext n
    exact calleeAt_succ object handler n
  rw [passed, List.range_succ_eq_map, List.filterMap_cons, first, List.filterMap_map, others,
    List.reverse_cons]
  rfl

theorem length_passed {n : Nat} (arrives : s.calleeAt o n = some f) :
    (s.passed o n).length = n := by
  induction n generalizing o with
  | zero => rfl
  | succ n ih =>
    obtain ⟨object, h, handler, arrives⟩ := calleeAt_succ_eq_some arrives
    rw [passed_succ object handler, List.length_append, ih arrives, List.length_singleton]

/-- If a call neither arrives at a function nor gets stuck before, it goes on. -/
theorem calleeAt_of_neither {limit : Nat}
    (passes : ¬ ∃ n f, n ≤ limit ∧ s.calleeAt o n = some f ∧ f.isFunction = true)
    (handled : ¬ ∃ n v, n < limit ∧ s.calleeAt o n = some v ∧ v.isFunction = false ∧
      s.unaryMetamethod v "__call" = none) {n : Nat} (low : n ≤ limit) :
    ∃ v, s.calleeAt o n = some v ∧ v.isFunction = false := by
  have object : ∀ {v}, s.calleeAt o n = some v → v.isFunction = false := fun {v} arrives =>
    Bool.eq_false_iff.2 fun function => passes ⟨n, v, low, arrives, function⟩
  induction n with
  | zero => exact ⟨o, rfl, object rfl⟩
  | succ n ih =>
    obtain ⟨v, arrives, stuck⟩ := ih (Nat.le_of_succ_le low) fun {v} arrives =>
      Bool.eq_false_iff.2 fun function => passes ⟨n, v, Nat.le_of_succ_le low, arrives, function⟩
    obtain ⟨h, handler⟩ := Option.ne_none_iff_exists'.1 fun none =>
      handled ⟨n, v, low, arrives, stuck, none⟩
    have next := (calleeAt_next arrives stuck).trans handler
    exact ⟨h, next, object next⟩

theorem HasCurrent.withValues (here : s.HasCurrent) (vs : List Value) :
    (s.withValues vs).HasCurrent := here.modifyProcessor _

theorem values_withValues (here : s.HasCurrent) (vs : List Value) :
    (s.withValues vs).values = vs :=
  values_modifyStack here _

theorem withValues_withValues (vs ws : List Value) :
    (s.withValues vs).withValues ws = s.withValues ws :=
  s.modifyProcessorOf_twice ..

theorem modifyStack_eq (g : ValueStack → ValueStack) :
    s.modifyStack g = s.withValues (g s.processor.stack).values.toList :=
  s.modifyProcessorOf_congr rfl

theorem withValues_values {vs : List Value} (values : s.values = vs) : s.withValues vs = s := by
  subst values
  have same : s.modifyStack (fun v => v) = s := by
    simp only [modifyStack, modifyProcessor, modifyProcessorOf]
    have whole : s.processors.modify s.current.index (fun p => p) = s.processors := by
      apply Array.ext_getElem?
      intro i
      simp [Array.getElem?_modify]
    exact congrArg (fun processors => { s with processors }) whole
  exact (modifyStack_eq fun v => v).symm.trans same

end State

namespace Exec

variable {s : State ν} {below operands : List Value}

theorem push_eq (v : Value) : push v s = .ok () (s.withValues (s.values ++ [v])) := by
  have values : (s.processor.stack.push v).values.toList = s.values ++ [v] := Array.toList_push
  exact congrArg (EStateM.Result.ok ()) ((State.modifyStack_eq (·.push v)).trans (by rw [values]))

theorem pushAll_eq (vs : List Value) : pushAll vs s = .ok () (s.withValues (s.values ++ vs)) := by
  have values : (s.processor.stack.pushAll vs).values.toList = s.values ++ vs := by
    rw [ValueStack.pushAll, List.foldl_push_eq_append', Array.toList_append]
    rfl
  exact congrArg (EStateM.Result.ok ()) ((State.modifyStack_eq (·.pushAll vs)).trans (by rw [values]))

theorem splitOff_withValues (values : s.values = below ++ operands) :
    splitOff below.length s = .ok operands (s.withValues below) := by
  rw [splitOff_eq values, State.modifyStack_eq, toList_truncate values]

end Exec

namespace Machine

variable {s : State ν} {o h f : Value} {below a : List Value}

/-- An object below the operands is not looked at further once the budget is used up. -/
theorem findCallee_spent (values : s.values = below ++ o :: a) (object : o.isFunction = false)
    (name : Option String) :
    findCallee name 0 a.length s = .error (.raise .callChainTooLong) s := by
  have peeked := Exec.peek_of_values values
  rw [findCallee]
  simp only [bind, EStateM.bind, peeked]
  cases o <;> first | rfl | cases object

/-- Before that, it is called through its handler. -/
theorem findCallee_object (values : s.values = below ++ o :: a) (object : o.isFunction = false)
    (name : Option String) (budget : Nat) :
    findCallee name (budget + 1) a.length s =
      (match s.unaryMetamethod o "__call" with
        | none => Exec.raise (.callOf o.typeName name)
        | some handler => do
          let operands ← Exec.splitOff ((← Exec.height) - a.length - 1)
          Exec.push handler
          Exec.pushAll operands
          findCallee name budget (a.length + 1) : Exec ν (Callee × Nat)) s := by
  have peeked := Exec.peek_of_values values
  rw [findCallee]
  simp only [bind, EStateM.bind, peeked]
  cases o <;> first | rfl | cases object

/-- An object that has no handler is named. -/
theorem findCallee_stranded (values : s.values = below ++ o :: a) (object : o.isFunction = false)
    (handler : s.unaryMetamethod o "__call" = none) (name : Option String) (budget : Nat) :
    findCallee name (budget + 1) a.length s = .error (.raise (.callOf o.typeName name)) s := by
  rw [findCallee_object values object, handler]
  rfl

/-- One hop: the object gives way to its handler, and becomes the first operand. -/
theorem findCallee_hop (here : s.HasCurrent) (object : o.isFunction = false)
    (handler : s.unaryMetamethod o "__call" = some h) (values : s.values = below ++ o :: a)
    (name : Option String) (budget : Nat) :
    findCallee name (budget + 1) a.length s =
      findCallee name budget (a.length + 1) (s.withValues (below ++ h :: o :: a)) := by
  have split := Exec.splitOff_withValues values
  have size := State.size_of_values values
  rw [List.length_append, List.length_cons] at size
  have pushed := Exec.push_eq (s := s.withValues below) h
  rw [State.values_withValues here, State.withValues_withValues] at pushed
  have rebuilt := Exec.pushAll_eq (s := s.withValues (below ++ [h])) (o :: a)
  rw [State.values_withValues here, State.withValues_withValues, List.append_assoc] at rebuilt
  have height : Exec.height s = .ok s.processor.stack.size s := rfl
  rw [findCallee_object values object, handler]
  simp only [bind, EStateM.bind, height, size,
    show below.length + (a.length + 1) - a.length - 1 = below.length by omega, split, pushed,
    rebuilt]
  rfl

/-- So many hops: each object has become an operand, and the budget is so much smaller. -/
theorem findCallee_chain (here : s.HasCurrent) {n : Nat} (arrives : s.calleeAt o n = some f)
    (name : Option String) (budget : Nat) :
    findCallee name (n + budget) a.length (s.withValues (below ++ o :: a)) =
      findCallee name budget (n + a.length)
        (s.withValues (below ++ f :: (s.passed o n ++ a))) := by
  induction n generalizing o a with
  | zero =>
    obtain rfl := Option.some.inj arrives
    rw [Nat.zero_add, Nat.zero_add]
    rfl
  | succ n ih =>
    obtain ⟨object, h, handler, arrives⟩ := State.calleeAt_succ_eq_some arrives
    have hop := findCallee_hop (s := s.withValues (below ++ o :: a)) (here.withValues _) object
      handler (State.values_withValues here _) name (n + budget)
    have rest := ih (a := o :: a) arrives
    rw [List.length_cons] at rest
    rw [Nat.add_right_comm, hop, State.withValues_withValues, rest,
      State.passed_succ object handler, List.append_assoc, Nat.add_right_comm, Nat.add_assoc]
    rfl

variable {library : Library ν} {k : Kont ν .step} {spec : CallSpec} {n : Nat} {v : Value}

/-- What is entered depends on what is found below the operands, and on no operand count but that
of the find. -/
theorem performCall_congr {s' : State ν} {argc : Nat}
    (same : findCallee spec.name s.options.maxCallChain spec.argc s =
      findCallee spec.name s'.options.maxCallChain argc s') :
    performCall library spec k s = performCall library { spec with argc } k s' := by
  have entered : enterCall spec s = enterCall { spec with argc } s' := by
    simp only [enterCall, bind, EStateM.bind, get, getThe, MonadStateOf.get, EStateM.get, same]
  rw [performCall, performCall, Exec.andThen, Exec.andThen, entered]

theorem performCall_raises {cause : Cause} {s' : State ν}
    (raises : findCallee spec.name s.options.maxCallChain spec.argc s =
      .error (.raise cause) s') :
    performCall library spec k s = (.step (.error (.raise cause)) k, s') := by
  have entered : enterCall spec s = .error (.raise cause) s' := by
    simp only [enterCall, bind, EStateM.bind, get, getThe, MonadStateOf.get, EStateM.get, raises]
  rw [performCall, Exec.andThen, entered]
  rfl

/-- A function is found whatever the budget is. -/
theorem findCallee_function (values : s.values = below ++ f :: a) (function : f.isFunction = true)
    (name : Option String) :
    ∃ callee, ∀ budget, findCallee name budget a.length s = .ok (callee, a.length) s := by
  cases f with
  | function c =>
    exact ⟨_, fun budget => Exec.findCallee_of_values (.script c) name budget values rfl⟩
  | native c =>
    exact ⟨_, fun budget => Exec.findCallee_of_values (.native c) name budget values rfl⟩
  | _ => cases function

/-- An error on its way in a state is caught. A guard at this depth runs its handler with the
message. In a loop in which a frame catches errors, the handler of the frame runs once the
decorators have had their outcomes, with the message that they have made. -/
structure Catchable (library : Library ν) (e : ScriptError) (t : State ν) : Prop where
  guard : ∀ frame handler mark (k : Kont ν .step), t.callDepth = mark.frames →
    step library ⟨.step (.error (.script e)) (.protect frame handler mark k), t⟩ =
      ⟨.run (handling library t handler e) (.finish frame k),
        t.modifyStack (·.truncate mark.stack)⟩
  loop : ∀ mark ip (k : Kont ν .step) up f rest handler,
    Links (Manner.any library) (.step (.error (.script e)) (.loop mark ip k), t) →
    Catches e mark t up f rest handler →
    ∀ e' u, Consulted library (attributed t e ip) (decoratorsOn up f) t e' u →
      ∃ m, Leads library ⟨.step (.error (.script e)) (.loop mark ip k), t⟩ m ∧
        Handles library mark k f rest handler e' u m

theorem catchable (e : ScriptError) (t : State ν) : Catchable library e t where
  guard frame handler mark k depth := by
    have fires : handStep library (.error (.script e)) (.protect frame handler mark k) t = _ :=
      handStep_protect_script
    rw [if_pos depth] at fires
    exact congrArg (fun x : Control ν × State ν => Machine.mk x.1 x.2) fires
  loop mark ip k up f rest handler links catches e' u consulted := by
    obtain ⟨next, polling⟩ := catches.polling (m := ⟨_, t⟩) links .outcome
    rw [← List.append_nil (decoratorsOn up f)] at polling next
    obtain ⟨-, returned, leads⟩ := polling.consulted consulted
    exact ⟨_, .next (next ▸ leads), catches.handles returned e'⟩

/-- The message names the type. -/
theorem callOf_message (type : String) (near : Option String) :
    ∃ rest, (Cause.callOf type near).message = "attempt to call a " ++ type ++ " value" ++ rest := by
  -- equations of the whole table of messages are slow to make
  delta Cause.message
  cases near with
  | none => exact ⟨"", (String.append_empty ..).symm⟩
  | some near =>
    have split : " value near '" = " value" ++ " near '" := by decide
    refine ⟨" near '" ++ near ++ "'", ?_⟩
    dsimp only
    simp only [toString, split, String.append_assoc]

/-- **Handlers of calls form chains.** The value below the operands leads to other values through
handlers of `__call`. If it leads to a function within the limit, the call is the call of that
function, with the objects on the way in front of the arguments, the last one first. If it leads to
an object without a handler below the limit, the call fails, and the error names the type of that
object. Otherwise it fails because there are too many handlers. Both are call errors, and are
caught. -/
theorem callable_chains (here : s.HasCurrent) (values : s.values = below ++ o :: a)
    (argc : spec.argc = a.length) :
    let limit := s.options.maxCallChain
    let arrived n f := s.withValues (below ++ f :: (s.passed o n ++ a))
    let fails (cause : Cause) (t : State ν) : Prop :=
      performCall library spec k s = (.step (.error (.raise cause)) k, t) ∧
        cause.kind = .call ∧ Catchable library { cause } t
    (∀ n f, n ≤ limit → s.calleeAt o n = some f → f.isFunction = true →
      performCall library spec k s =
        performCall library { spec with argc := (s.passed o n ++ a).length } k (arrived n f)) ∧
    (∀ n v, n < limit → s.calleeAt o n = some v → v.isFunction = false →
      s.unaryMetamethod v "__call" = none →
      fails (.callOf v.typeName spec.name) (arrived n v) ∧
        ∃ rest, (Cause.callOf v.typeName spec.name).message =
          "attempt to call a " ++ v.typeName ++ " value" ++ rest) ∧
    ((¬ ∃ n f, n ≤ limit ∧ s.calleeAt o n = some f ∧ f.isFunction = true) →
      (¬ ∃ n v, n < limit ∧ s.calleeAt o n = some v ∧ v.isFunction = false ∧
        s.unaryMetamethod v "__call" = none) →
      ∃ v, s.calleeAt o limit = some v ∧ fails .callChainTooLong (arrived limit v)) := by
  intro limit arrived fails
  have start : s.withValues (below ++ o :: a) = s := State.withValues_values values
  have holds : ∀ n v, (arrived n v).values = below ++ v :: (s.passed o n ++ a) := fun n v =>
    State.values_withValues here _
  -- so far from the start, with what is left of the budget
  have found : ∀ {n v budget}, n + budget = limit → s.calleeAt o n = some v →
      findCallee spec.name limit spec.argc s =
        findCallee spec.name budget (s.passed o n ++ a).length (arrived n v) := by
    intro n v budget whole arrives
    rw [List.length_append, State.length_passed arrives, argc, ← whole]
    exact (congrArg _ start.symm).trans (findCallee_chain here arrives spec.name budget)
  refine ⟨fun n f low arrives function => ?_, fun n v low arrives object handler => ?_,
    fun passes handled => ?_⟩
  · obtain ⟨callee, finds⟩ := findCallee_function (holds n f) function spec.name
    have rest := (finds (limit - n)).trans (finds limit).symm
    exact performCall_congr ((found (Nat.add_sub_of_le low) arrives).trans rest)
  · obtain ⟨budget, whole⟩ : ∃ budget, n + (budget + 1) = limit :=
      ⟨limit - n - 1, by omega⟩
    have stuck := findCallee_stranded (holds n v) object handler spec.name budget
    exact ⟨⟨performCall_raises ((found whole arrives).trans stuck), rfl, catchable _ _⟩,
      callOf_message _ _⟩
  · obtain ⟨v, arrives, object⟩ := State.calleeAt_of_neither passes handled (Nat.le_refl limit)
    have spent := findCallee_spent (holds limit v) object spec.name
    exact ⟨v, arrives, performCall_raises ((found (Nat.add_zero _) arrives).trans spent), rfl,
      catchable _ _⟩

end Machine

namespace Sample

/-- Below an operand is a table whose handler is a function. -/
def callable : State Unit :=
  let s := (loaded callee).state
  let (handlers, heap) := s.heap.newTable (Table.empty.setString "__call" (.function ⟨0⟩))
  let (object, heap) := heap.newTable { Table.empty with metatable := some handlers }
  (s.setHeap heap).modifyStack (·.pushAll [.table object, .boolean true])

end Sample

namespace Machine

/-- The table and the operand are the arguments of the function. -/
theorem callable_chains_table :
    let k : Kont Unit .step := .loop {} 0 (.nested (.exit .host))
    let object : Value := .table ⟨2⟩
    Sample.callable.HasCurrent ∧ Sample.callable.values = [object, .boolean true] ∧
    Sample.callable.calleeAt object 1 = some (.function ⟨0⟩) ∧
    performCall Sample.library { argc := 1, returnAddress := 0 } k Sample.callable =
      performCall Sample.library { argc := 2, returnAddress := 0 } k
        (Sample.callable.withValues [.function ⟨0⟩, object, .boolean true]) := by
  intro k object
  have here : Sample.callable.HasCurrent := show 0 < 1 by decide
  have values : Sample.callable.values = [] ++ object :: [.boolean true] := by cbv
  have handler : Sample.callable.unaryMetamethod object "__call" = some (.function ⟨0⟩) := by cbv
  have arrives : Sample.callable.calleeAt object 1 = some (.function ⟨0⟩) :=
    State.calleeAt_succ rfl handler 0
  have passed : Sample.callable.passed object 1 = [object] := State.passed_succ rfl handler 0
  let spec : CallSpec := { argc := 1, returnAddress := 0 }
  have chains : ∀ n f, n ≤ Sample.callable.options.maxCallChain →
      Sample.callable.calleeAt object n = some f → f.isFunction = true →
      performCall Sample.library spec k Sample.callable =
        performCall Sample.library
          { spec with argc := (Sample.callable.passed object n ++ [Value.boolean true]).length } k
          (Sample.callable.withValues
            ([] ++ f :: (Sample.callable.passed object n ++ [Value.boolean true]))) :=
    (callable_chains here values rfl).1
  have calls := chains 1 _ (by decide) arrives rfl
  rw [passed] at calls
  exact ⟨here, values, arrives, calls⟩

end Machine

end ScriptMachine
