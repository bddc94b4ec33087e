import ScriptMachine.Proofs.Machine.Surfacing
import ScriptMachine.Proofs.Table.Lookup

/-!
# Operands and arguments

What a function gets for the operands it is called with. Natives and script functions take the
operands apart on their own, and both expand the last one.

* `spliceLast_append`: the last operand gives way to the values it stands for.
* `ofOperands_append`, `takes_bindArguments`: the arguments of a native, and the locals of a script
  function.
* `trailing_results_expand`: a call of either sort presents the same values.
-/

namespace ScriptMachine

variable {ν : Type}

namespace Value

theorem spliceLast_concat (p : List Value) (r : Value) :
    spliceLast (p ++ [r]) = p ++ spliceLast [r] := by
  induction p with
  | nil => rfl
  | cons v p ih =>
    have more : p ++ [r] ≠ [] := by simp
    rw [List.cons_append, spliceLast.eq_3 _ _ fun _ _ none => absurd none more, ih,
      List.cons_append]

/-- The last of several operands gives way to the values it stands for. -/
theorem spliceLast_append (p : List Value) {r : Value} (given : r.isVoid = false) :
    spliceLast (p ++ [r]) = p ++ r.items := by
  rw [spliceLast_concat]
  cases r with
  | void => contradiction
  | _ => rfl

theorem map_scalar {vs : List Value} (plain : ∀ v ∈ vs, v.kind ≠ .tuple) : vs.map scalar = vs :=
  (List.map_congr_left fun v member => scalar_eq_self (plain v member)).trans (List.map_id _)

/-- Values that are no tuples are what their tuple stands for, unless there is one that is absent. -/
theorem items_ofList {vs : List Value} (plain : ∀ v ∈ vs, v.kind ≠ .tuple) (given : vs ≠ [.void]) :
    (ofList vs).items = vs := by
  match vs with
  | [] | _ :: _ :: _ => rfl
  | [v] =>
    cases v with
    | void => exact absurd rfl given
    | tuple items => exact absurd rfl (plain _ (List.mem_singleton_self _))
    | _ => rfl

end Value

section Arguments

variable {p : List Value} {r : Value}

/-- No value that the operands stand for is a tuple. -/
theorem plain_append (plain : ∀ v ∈ p, v.kind ≠ .tuple) (flat : ∀ v ∈ r.items, v.kind ≠ .tuple) :
    ∀ v ∈ p ++ r.items, v.kind ≠ .tuple := by
  intro v member
  obtain member | member := List.mem_append.1 member
  · exact plain v member
  · exact flat v member

/-- The arguments of a native. -/
theorem Arguments.ofOperands_append (plain : ∀ v ∈ p, v.kind ≠ .tuple)
    (flat : ∀ v ∈ r.items, v.kind ≠ .tuple) (given : r.isVoid = false) (isMethod : Bool) :
    ofOperands (p ++ [r]) isMethod = ⟨p ++ r.items, isMethod⟩ := by
  rw [ofOperands, Value.spliceLast_append p given, Value.map_scalar (plain_append plain flat)]

/-- The locals of a function hold its arguments: each parameter its own, or nil if there is none,
and the local behind the parameters all that follow, in a function that takes them. One value that
is absent collapses to none. -/
structure Takes (params : Nat) (varargs : Bool) (arguments locals : List Value) : Prop where
  own : ∀ j < params, locals[j]? = some (arguments.getD j .nil)
  further : varargs = true → ∃ v, locals[params]? = some v ∧
    (arguments.drop params ≠ [.void] → v.items = arguments.drop params)

theorem Exec.takes_bindArguments {proto : Proto} (explicit : proto.flags.implicitThis = false)
    (plain : ∀ v ∈ p, v.kind ≠ .tuple) (flat : ∀ v ∈ r.items, v.kind ≠ .tuple)
    (given : r.isVoid = false) (params : Nat) (varargs isMethod : Bool) :
    Takes params varargs (p ++ r.items)
      (bindArguments proto params varargs isMethod (p ++ [r])) := by
  have scalars := plain_append plain flat
  simp only [bindArguments, explicit, Bool.false_and, Bool.false_eq_true, if_false,
    Value.spliceLast_append p given, Value.map_scalar scalars]
  generalize p ++ r.items = vs at scalars
  have size : (vs.take params ++ List.replicate (params - vs.length) Value.nil).length = params := by
    simp only [List.length_append, List.length_take, List.length_replicate]
    omega
  have own : ∀ j < params,
      (vs.take params ++ List.replicate (params - vs.length) Value.nil)[j]? =
        some (vs.getD j .nil) := by
    intro j low
    rw [List.getElem?_append, List.length_take, List.getElem?_take_of_lt low,
      List.getElem?_replicate, List.getD_eq_getElem?_getD]
    by_cases present : j < vs.length
    · rw [if_pos (by omega), List.getElem?_eq_getElem present]
      rfl
    · rw [if_neg (by omega), if_pos (by omega), List.getElem?_eq_none (by omega)]
      rfl
  generalize vs.take params ++ List.replicate (params - vs.length) Value.nil = bound at size own
  have more : (vs.drop params ≠ [.void]) → (Value.ofList (vs.drop params)).items = vs.drop params :=
    Value.items_ofList fun v member => scalars v (List.mem_of_mem_drop member)
  refine ⟨fun j low => ?_, fun takes => ⟨Value.ofList (vs.drop params), ?_, more⟩⟩
  · cases varargs
    · rw [if_neg (by decide), List.getElem?_append_left (by omega)]
      exact own j low
    · rw [if_pos rfl, List.append_assoc, List.getElem?_append_left (by omega)]
      exact own j low
  · rw [if_pos takes, List.append_assoc, List.getElem?_append_right (by omega), size, Nat.sub_self]
    rfl

end Arguments

/-! ## The stack that runs -/

namespace State

/-- The values on the stack that runs, the lowest first. -/
def values (s : State ν) : List Value := s.processor.stack.values.toList

/-- A script function with this code stands on top that was called with these operands. They are
still on the stack, above all that was there before. -/
structure Called (s : State ν) (c : ClosureId) (proto : Proto) (isMethod : Bool)
    (below operands : List Value) : Prop where
  here : s.HasCurrent
  code : (s.closure c).proto = proto
  top : ∃ frame, s.processor.frames.back? = some frame ∧ frame.callee = .script c ∧
    frame.base = below.length ∧ frame.flags.methodCall = isMethod
  values : s.values = below ++ operands

variable {s : State ν}

theorem values_modifyStack (here : s.HasCurrent) (f : ValueStack → ValueStack) :
    (s.modifyStack f).values = (f s.processor.stack).values.toList :=
  congrArg (fun p : Processor => p.stack.values.toList)
    (processor_modifyProcessor here fun p => { p with stack := f p.stack })

theorem values_modifyFrames (f : Array Frame → Array Frame) :
    (s.modifyFrames f).values = s.values :=
  view_modifyProcessorOf s _ _ _ (fun p => p.stack.values.toList) fun _ => rfl

theorem frames_modifyFrames (here : s.HasCurrent) (f : Array Frame → Array Frame) :
    (s.modifyFrames f).processor.frames = f s.processor.frames :=
  congrArg Processor.frames
    (processor_modifyProcessor here fun p => { p with frames := f p.frames })

theorem HasCurrent.modifyProcessor (here : s.HasCurrent) (f : Processor → Processor) :
    (s.modifyProcessor f).HasCurrent := by
  unfold HasCurrent
  rw [State.modifyProcessor, State.modifyProcessorOf, Array.size_modify]
  exact here

theorem size_of_values {vs : List Value} (values : s.values = vs) :
    s.processor.stack.size = vs.length := by
  rw [← values]
  exact (Array.length_toList ..).symm

end State

namespace Exec

variable {s : State ν} {below operands : List Value}

theorem peek_of_values {v : Value} (values : s.values = below ++ v :: operands) :
    peek operands.length s = .ok v s := by
  have size := State.size_of_values values
  rw [List.length_append, List.length_cons] at size
  have found : s.processor.stack.peek? operands.length = some v := by
    rw [ValueStack.peek?, if_pos (by omega), size,
      show below.length + (operands.length + 1) - 1 - operands.length = below.length by omega,
      ← Array.getElem?_toList]
    change s.values[below.length]? = some v
    rw [values, List.getElem?_append_right (Nat.le_refl _), Nat.sub_self]
    rfl
  change (present (s.processor.stack.peek? operands.length)) s = _
  rw [found]
  rfl

/-- The upper values are taken. -/
theorem splitOff_eq (values : s.values = below ++ operands) :
    splitOff below.length s = .ok operands (s.modifyStack (·.truncate below.length)) := by
  have size := State.size_of_values values
  rw [List.length_append] at size
  have found : s.processor.stack.above? below.length = some operands := by
    rw [ValueStack.above?, if_pos (by omega), Array.toList_extract, List.extract_eq_take_drop]
    change some ((s.values.drop below.length).take (s.values.length - below.length)) = _
    rw [values, List.drop_left, List.length_append, Nat.add_sub_cancel_left, List.take_length]
  change (present (s.processor.stack.above? below.length) >>= fun vs =>
    truncate below.length >>= fun _ => pure vs) s = _
  rw [found]
  rfl

/-- The lower ones stay. -/
theorem toList_truncate (values : s.values = below ++ operands) :
    (s.processor.stack.truncate below.length).values.toList = below := by
  rw [ValueStack.truncate, Array.shrink_eq_take, Array.take_eq_extract, Array.toList_extract,
    List.extract_eq_take_drop]
  change (s.values.drop 0).take (below.length - 0) = _
  rw [values, List.drop_zero, Nat.sub_zero, List.take_left]

theorem splitOff_of_values (here : s.HasCurrent) (values : s.values = below ++ operands) :
    ∃ s', splitOff below.length s = .ok operands s' ∧ s'.values = below ∧ s'.HasCurrent ∧
      s'.world = s.world :=
  ⟨_, splitOff_eq values, (State.values_modifyStack here _).trans (toList_truncate values),
    here.modifyProcessor _, rfl⟩

/-- The value below the operands is called as it is if it is a function. -/
theorem findCallee_of_values {f : Value} (callee : Callee) (name : Option String) (budget : Nat)
    (values : s.values = below ++ f :: operands)
    (function : f = match callee with | .script c => .function c | .native n => .native n) :
    Machine.findCallee name budget operands.length s = .ok (callee, operands.length) s := by
  have peeked := peek_of_values values
  cases callee <;> subst function <;> cases budget <;>
    simp only [Machine.findCallee, bind, EStateM.bind, peeked] <;> rfl

end Exec

namespace Machine

variable {s : State ν} {below operands : List Value} {spec : CallSpec}

theorem enterCall_script {c : ClosureId} (here : s.HasCurrent)
    (values : s.values = below ++ .function c :: operands) (argc : spec.argc = operands.length)
    (room : s.callDepth < s.options.maxCallDepth) :
    ∃ s', enterCall spec s = .ok .script s' ∧
      s'.Called c (s.closure c).proto spec.flags.methodCall (below ++ [.function c]) operands := by
  have size := State.size_of_values values
  rw [List.length_append, List.length_cons] at size
  have found := Exec.findCallee_of_values (.script c) spec.name s.options.maxCallChain values rfl
  let frame : Frame :=
    { base := s.processor.stack.size - operands.length, argc := operands.length,
      returnAddress := spec.returnAddress, callee := .script c, name := spec.name,
      handlers := spec.handlers, flags := spec.flags }
  refine ⟨s.modifyFrames (·.push frame), ?_, here.modifyProcessor _, rfl, ⟨frame, ?_, rfl, ?_, rfl⟩, ?_⟩
  · simp only [enterCall, bind, EStateM.bind, get, getThe, MonadStateOf.get, EStateM.get, argc,
      found, if_neg (Nat.not_le.2 room)]
    rfl
  · rw [State.frames_modifyFrames here, Array.back?_push]
  · change s.processor.stack.size - operands.length = _
    rw [List.length_append, List.length_singleton]
    omega
  · rw [State.values_modifyFrames, values, List.append_assoc]
    rfl

theorem enterCall_native {n : NativeId} (here : s.HasCurrent)
    (values : s.values = below ++ .native n :: operands) (argc : spec.argc = operands.length) :
    ∃ s', enterCall spec s = .ok (.native n operands) s' ∧ s'.world = s.world := by
  have size := State.size_of_values values
  rw [List.length_append, List.length_cons] at size
  have found := Exec.findCallee_of_values (.native n) spec.name s.options.maxCallChain values rfl
  have split : s.values = (below ++ [.native n]) ++ operands := by
    rw [values, List.append_assoc]
    rfl
  obtain ⟨s₁, split, values₁, here₁, world₁⟩ := Exec.splitOff_of_values here split
  rw [List.length_append, List.length_singleton] at split
  have peeked := Exec.peek_of_values values₁
  have popped : Exec.pop s₁ = .ok (.native n)
      (s₁.modifyStack fun stack => stack.truncate (stack.size - 1)) := by
    simp only [Exec.pop, bind, EStateM.bind]
    rw [show Exec.peek 0 s₁ = _ from peeked]
    rfl
  let rest := s₁.modifyStack fun stack => stack.truncate (stack.size - 1)
  let frame : Frame :=
    { base := rest.processor.stack.size, argc := operands.length,
      returnAddress := spec.returnAddress, callee := .native n, name := spec.name,
      handlers := spec.handlers, flags := spec.flags }
  refine ⟨rest.modifyFrames (·.push frame), ?_, world₁⟩
  simp only [enterCall, bind, EStateM.bind, get, getThe, MonadStateOf.get, EStateM.get, argc,
    found, Exec.height, Exec.stack, pure, EStateM.pure, size]
  rw [show below.length + (operands.length + 1) - operands.length = below.length + 1 by omega,
    split]
  dsimp only
  rw [popped]
  rfl

/-- The prologue of a function finds the operands that it was called with. -/
theorem beginFn_called {c : ClosureId} {proto : Proto} {isMethod : Bool}
    (called : s.Called c proto isMethod below operands) (ip : Nat) {i : Instruction}
    (prologue : i.op = .beginFn) :
    Exec.runningScope s = .ok (proto, ⟨c, below.length⟩) s ∧
    ∃ s', Exec.execute proto ⟨c, below.length⟩ ip i s = .ok .next s' ∧
      s'.values = below ++ Exec.bindArguments proto (Exec.operand i.a) (i.b != 0) isMethod
        operands := by
  obtain ⟨frame, top, callee, base, rfl⟩ := called.top
  obtain ⟨s₁, split, values₁, here₁, -⟩ := Exec.splitOff_of_values called.here called.values
  have topFrame : Exec.topFrame? s = .ok (some frame) s := by
    simp only [Exec.topFrame?, bind, EStateM.bind, get, getThe, MonadStateOf.get, EStateM.get, pure,
      EStateM.pure, top]
  constructor
  · simp only [Exec.runningScope, bind, EStateM.bind, topFrame, get, getThe, MonadStateOf.get,
      EStateM.get, callee, base, called.code]
    rfl
  · refine ⟨s₁.modifyStack (·.pushAll (Exec.bindArguments proto (Exec.operand i.a)
      (i.b != 0) frame.flags.methodCall operands)), ?_, ?_⟩
    · simp only [Exec.execute, prologue, Exec.beginFunction, bind, EStateM.bind, topFrame, split]
      rfl
    · rw [State.values_modifyStack here₁, ValueStack.pushAll, List.foldl_push_eq_append',
        Array.toList_append]
      change s₁.values ++ _ = _
      rw [values₁]

/-- **Trailing results expand to exactly their values.** A function is called with operands that are
no tuples, and behind them a result with its values. A native gets the operands and the values, as
many as there are. A script function is entered with its operands where its locals are to be; from
then on, as long as they are there and it stands on top, its prologue succeeds, and makes them
locals that hold the same values. -/
theorem trailing_results_expand (library : Library ν) (k : Kont ν .step) (here : s.HasCurrent)
    {f : Value} {p : List Value} {r : Value} (values : s.values = below ++ f :: (p ++ [r]))
    (argc : spec.argc = p.length + 1) (plain : ∀ v ∈ p, v.kind ≠ .tuple)
    (flat : ∀ v ∈ r.items, v.kind ≠ .tuple) (given : r.isVoid = false) :
    (∀ n, f = .native n → ∃ s', performCall library spec k s =
      (.run (.ofRoutine library (s.native n).routine
        ⟨(s.native n).name, ⟨p ++ r.items, spec.flags.methodCall⟩⟩) (.native k), s')) ∧
    ∀ c, f = .function c → s.callDepth < s.options.maxCallDepth →
      (∃ s', performCall library spec k s = (.step (.ok (.proceed 0)) k, s') ∧
        s'.Called c (s.closure c).proto spec.flags.methodCall (below ++ [f]) (p ++ [r])) ∧
      ∀ t : State ν,
        t.Called c (s.closure c).proto spec.flags.methodCall (below ++ [f]) (p ++ [r]) →
        (s.closure c).proto.flags.implicitThis = false → ∀ ip (i : Instruction), i.op = .beginFn →
        Exec.runningScope t = .ok ((s.closure c).proto, ⟨c, below.length + 1⟩) t ∧
        ∃ locals t', Exec.execute (s.closure c).proto ⟨c, below.length + 1⟩ ip i t = .ok .next t' ∧
          t'.values = below ++ f :: locals ∧
          Takes (Exec.operand i.a) (i.b != 0) (p ++ r.items) locals := by
  have argc : spec.argc = (p ++ [r]).length := by
    rw [argc, List.length_append, List.length_singleton]
  constructor
  · rintro n rfl
    obtain ⟨s', entered, world⟩ := enterCall_native here values argc
    refine ⟨s', ?_⟩
    rw [performCall, Exec.andThen, entered]
    change (Control.run (.ofRoutine library (s'.native n).routine
      ⟨(s'.native n).name, .ofOperands (p ++ [r]) spec.flags.methodCall⟩) (.native k), s') = _
    rw [Arguments.ofOperands_append plain flat given, State.native, world]
    rfl
  · rintro c rfl room
    obtain ⟨s', entered, called⟩ := enterCall_script here values argc room
    refine ⟨⟨s', ?_, called⟩, fun t called explicit ip i prologue => ?_⟩
    · rw [performCall, Exec.andThen, entered]
      rfl
    · obtain ⟨scope, t', began, values'⟩ := beginFn_called called ip prologue
      rw [List.length_append, List.length_singleton] at scope began
      rw [List.append_assoc] at values'
      exact ⟨scope, _, t', began, values',
        Exec.takes_bindArguments explicit plain flat given _ _ _⟩

end Machine

namespace Sample

/-- Takes one parameter, and all further arguments. -/
def collector : Proto :=
  { name := "collector", locals := [.slot 0 "first", .slot 1 "others"],
    code := #[⟨.beginFn, 1, 1⟩, ⟨.ret, 0, 0⟩] }

/-- On the stack are a function, an operand and a result of two values. -/
def operating : State Unit :=
  (loaded collector).state.modifyStack
    (·.pushAll [.function ⟨0⟩, .number 1, .tuple [.number 2, .number 3]])

end Sample

namespace Machine

/-- The parameter takes the operand, and the two values of the result follow it. -/
theorem trailing_results_expand_collector :
    let k : Kont Unit .step := .loop {} 0 (.nested (.exit .host))
    let r : Value := .tuple [.number 2, .number 3]
    let spec : CallSpec := { argc := 2, returnAddress := 0 }
    (∀ v ∈ [Value.number 1], v.kind ≠ .tuple) ∧ (∀ v ∈ r.items, v.kind ≠ .tuple) ∧
    r.isVoid = false ∧ Sample.operating.callDepth < Sample.operating.options.maxCallDepth ∧
    ∃ s' locals t', performCall Sample.library spec k Sample.operating =
        (.step (.ok (.proceed 0)) k, s') ∧
      Exec.execute Sample.collector ⟨⟨0⟩, 1⟩ 0 ⟨.beginFn, 1, 1⟩ s' = .ok .next t' ∧
      t'.values = .function ⟨0⟩ :: locals ∧
      Takes 1 true [.number 1, .number 2, .number 3] locals := by
  intro k r spec
  have plain : ∀ v ∈ [Value.number 1], v.kind ≠ .tuple := by simp [Value.kind]
  have flat : ∀ v ∈ r.items, v.kind ≠ .tuple := by simp [r, Value.items, Value.kind]
  have room : Sample.operating.callDepth < Sample.operating.options.maxCallDepth := by
    decide +kernel
  have here : Sample.operating.HasCurrent := show 0 < 1 by decide
  have values : Sample.operating.values = [] ++ .function ⟨0⟩ :: ([.number 1] ++ [r]) := rfl
  have argc : spec.argc = [Value.number 1].length + 1 := rfl
  obtain ⟨⟨s', performed, called⟩, prologue⟩ :=
    (trailing_results_expand Sample.library k here values argc plain flat rfl).2 ⟨0⟩ rfl room
  obtain ⟨-, locals, t', began, values', takes⟩ := prologue s' called rfl 0 ⟨.beginFn, 1, 1⟩ rfl
  exact ⟨plain, flat, rfl, room, s', locals, t', performed, began, values', takes⟩

open Host in
/-- An absent result has no values, and yet a native is given one for it. -/
theorem absent_result_counts :
    Value.items .void = [] ∧
    (perform? Host.library 10 (call Host.library (Builtin.global .nargs) [.number 1, .void])
      (Host.newState {})).1 matches .done (.ok (.number 2)) := by
  decide +kernel

end Machine

end ScriptMachine
