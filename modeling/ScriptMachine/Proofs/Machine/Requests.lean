import ScriptMachine.Proofs.Machine.Surfacing

/-!
# Requested calls and their handlers

A native function may ask for a call with handlers. The frame that stands for the call has one set
of handlers, so a native function that was itself called with handlers hands them on to the call it
asks for, and may bring none of its own.

* `native_request`: what becomes of a request.
* `defect_passes`: a defect passes all who wait and calls nothing.
* `requested_call_handlers`: the call is made under the handlers of the frame or of the request; a
  request that brings a second set ends the call of the host.
-/

namespace ScriptMachine

variable {ν : Type}

/-- The request that a native function answers with, and those who wait for its frame. -/
def Control.request? : Control ν → Option (RequestId × Kont ν .step)
  | .value (.ok (.tailCall r)) (.native k) => some (r, k)
  | _ => none

theorem Control.eq_of_request? {control : Control ν} {r : RequestId} {k : Kont ν .step}
    (h : control.request? = some (r, k)) : control = .value (.ok (.tailCall r)) (.native k) := by
  unfold request? at h
  split at h
  · obtain ⟨rfl, rfl⟩ := Prod.mk.inj (Option.some.inj h)
    rfl
  · contradiction

namespace Machine

variable {library : Library ν} {s : State ν}

variable (library) in
/-- A native function has asked for a call. Its frame is popped, and the request is considered. -/
theorem native_request {frame : Frame} {rest : List Frame} {r : RequestId} (k : Kont ν .step)
    (frames : s.framesOf s.current = frame :: rest) :
    ∃ f s', Exec.popFrame s = .ok f s' ∧ f.outline = frame ∧ s'.framesOf s'.current = rest ∧
      s'.HasCurrent ∧ advance library (.value (.ok (.tailCall r)) (.native k)) s =
        performTailRequest library f (s.heap.tailCall r) k s' := by
  have here : s.HasCurrent := by
    by_contra absent
    have none : s.processorOf s.current = {} := by
      simp [State.processorOf, Array.getElem?_eq_none (Nat.le_of_not_lt absent)]
    rw [State.framesOf, State.outlineOf, none] at frames
    cases frames
  obtain ⟨empty, -⟩ | ⟨f, s', below, run, top, shifted, world⟩ := Exec.popFrame_cases s
  · rw [frames] at empty
    contradiction
  · obtain ⟨rfl, rfl⟩ := List.cons.inj (frames.symm.trans top)
    refine ⟨f, s', run, rfl, shifted.frames, shifted.hasCurrent here, ?_⟩
    change handValue library (.ok (.tailCall r)) (.native k) s = _
    rw [handValue_native_ok, Exec.andThen, run, ← show s'.heap = s.heap from congrArg World.heap world]
    rfl

/-- A defect goes to the host, past all who wait. -/
theorem defect_passes (candid : library.Candid) (root : s.AtRoot) {move : Move ν (Control ν)}
    (hm : HostCall library move) {i : Nat} {d : Defect} {k : Kont ν .step} {s' : State ν}
    (reached : run library i ⟨(move s).1, (move s).2⟩ = ⟨.step (.error (.defect d)) k, s'⟩)
    (clear : k.decorates = false) :
    (∀ j, k.Passes (.defect d) (run library j ⟨.step (.error (.defect d)) k, s'⟩).control) ∧
      ∃ n t, ∀ steps, n ≤ steps → perform? library steps move s = (.done (.error (.defect d)), t) := by
  have linked := run_linked (hostCall_linked (M := candid.manner) root hm) i
  rw [reached] at linked
  obtain ⟨ts, -, linked⟩ := linked
  obtain ⟨t, surfaced⟩ : ∃ t, LeadsWhile library (k.Passes (.defect d))
      ⟨.step (.error (.defect d)) k, s'⟩ ⟨.value (.error (.defect d)) .host, t⟩ := by
    cases linked with
    | step _ chain => exact chain.surfaces clear rfl s'
  constructor
  · intro j
    obtain ⟨n, ended, passes⟩ := surfaced
    rw [run_eq_iterate]
    obtain before | after := Nat.le_total j n
    · exact passes j before
    · obtain ⟨more, rfl⟩ := Nat.exists_eq_add_of_le' after
      rw [Function.iterate_add_apply, ended, Function.iterate_fixed (step_of_halted rfl), ← ended]
      exact passes n (Nat.le_refl n)
  · obtain ⟨n, ends⟩ := perform?_of_leads (reached ▸ surfaced.leads)
    exact ⟨n, t, ends⟩

variable (library) in
/-- **Handlers of requested calls.** A native function asks for a call in place of its frame, which
is popped; the frames below stay as they are. If neither or only one of the two has handlers, the
function of the request is called with its arguments, under the handlers there are. If both have
some, no call is made. During a call of the host, in which no routine hides a defect and no
decorator is running, no handler runs from there on either: the defect passes all who wait, and the
call of the host ends with it. -/
theorem requested_call_handlers {m : Machine ν} {r : RequestId} {k : Kont ν .step}
    (asks : m.control.request? = some (r, k)) {frame : Frame} {rest : List Frame}
    (frames : m.state.framesOf m.state.current = frame :: rest) :
    let request := m.state.heap.tailCall r
    ∃ f s, Exec.popFrame m.state = .ok f s ∧ f.outline = frame ∧ s.framesOf s.current = rest ∧
      (frame.handlers.isEmpty = true ∨ request.handlers.isEmpty = true →
        let guards := guarded (effective frame request) f (mark s) k
        let x := performCall library (requestedCall f request) guards (pushedFor request s)
        m.step library = ⟨x.1, x.2⟩ ∧ (requestedCall f request).handlers = effective frame request ∧
          Calls library (requestedCall f request) guards (pushedFor request s) x) ∧
      (frame.handlers.isEmpty = false → request.handlers.isEmpty = false →
        m.step library = ⟨.step (.error (.defect .handlersTwice)) k, s⟩ ∧
        ∀ (start : State ν) (move : Move ν (Control ν)) (i : Nat), library.Candid → start.AtRoot →
          HostCall library move → run library i ⟨(move start).1, (move start).2⟩ = m →
          k.decorates = false →
          (∀ j, k.Passes (.defect .handlersTwice) (run library j (m.step library)).control) ∧
            ∃ n t, ∀ steps, n ≤ steps →
              perform? library steps move start = (.done (.error (.defect .handlersTwice)), t)) := by
  intro request
  obtain ⟨control, state⟩ := m
  obtain rfl : control = _ := Control.eq_of_request? asks
  obtain ⟨f, s, popped, rfl, below, here, considers⟩ := native_request library (r := r) k frames
  have stepped : step library ⟨.value (.ok (.tailCall r)) (.native k), state⟩ =
      ⟨(performTailRequest library f request k s).1, (performTailRequest library f request k s).2⟩ := by
    rw [← considers]
    rfl
  refine ⟨f, s, popped, rfl, below, fun once => ?_, fun armed again => ?_⟩
  · have once : f.handlers.isEmpty = true ∨ request.handlers.isEmpty = true := once
    rw [performTailRequest_once k once] at stepped
    have pushed : Rigid s (pushedFor request s) := rigid_modifyStack ..
    exact ⟨stepped, rfl, performCall_calls _ _ (pushed.hasCurrent here)⟩
  · have armed : f.handlers.isEmpty = false := armed
    rw [performTailRequest_twice k armed again] at stepped
    refine ⟨stepped, fun start move i candid root hm reached clear => ?_⟩
    rw [stepped]
    refine defect_passes candid root hm (i := i + 1) ?_ clear
    rw [run_eq_iterate, Function.iterate_succ_apply', ← run_eq_iterate, reached, stepped]

end Machine

namespace Sample

open Host Machine

/-- Calls its first argument with the others. -/
def relay : Proto :=
  { name := "relay", locals := [.slot 0 "f", .slot 1 "g", .slot 2 "x"],
    symbols := [.slot 0 "f", .slot 1 "g", .slot 2 "x"],
    code := #[⟨.beginFn, 3, 0⟩, ⟨.load, 0, 0⟩, ⟨.load, 1, 0⟩, ⟨.load, 2, 0⟩, ⟨.call, 2, 0⟩,
      ⟨.ret, 1, 0⟩] }

def relaying : HostState := { Host.newState {} with closures := #[⟨relay, #[]⟩] }

/-- A protected call of a number. -/
def inner : List Value := [Builtin.global .pcall, Builtin.global .ident, .number (.ofNat 1)]

def protect (arguments : List Value) : Move HostRoutine (Control HostRoutine) :=
  call Host.library (Builtin.global .pcall) arguments

end Sample

namespace Machine

open Host

/-- A protected call is asked for under the handlers of another one. -/
theorem requested_call_handlers_pcall :
    let move := Sample.protect Sample.inner
    let m := run Host.library 5 ⟨(move Sample.relaying).1, (move Sample.relaying).2⟩
    (m.state.framesOf m.state.current).head?.map (·.handlers.isEmpty) = some false ∧
    (m.step Host.library).control matches .step (.error (.defect .handlersTwice)) _ ∧
    ∃ n s', ∀ steps, n ≤ steps → perform? Host.library steps move Sample.relaying =
      (.done (.error (.defect .handlersTwice)), s') := by
  intro move m
  have armed : (m.state.framesOf m.state.current).head?.map (·.handlers.isEmpty) = some false := by
    decide +kernel
  obtain ⟨⟨r, k⟩, asks⟩ := Option.isSome_iff_exists.1
    (show m.control.request?.isSome = true by decide +kernel)
  have again : m.control.request?.map (fun x => (m.state.heap.tailCall x.1).handlers.isEmpty) =
      some false := by decide +kernel
  have clear : m.control.request?.map (fun x => x.2.decorates) = some false := by decide +kernel
  rw [asks] at again clear
  refine ⟨armed, ?_⟩
  cases frames : m.state.framesOf m.state.current with
  | nil =>
    rw [frames] at armed
    contradiction
  | cons frame rest =>
    rw [frames] at armed
    obtain ⟨f, s, -, -, -, -, refused⟩ :=
      requested_call_handlers Host.library asks frames
    obtain ⟨stepped, ends⟩ := refused (Option.some.inj armed) (Option.some.inj again)
    refine ⟨by rw [stepped], ?_⟩
    exact (ends _ move 5 library_candid ⟨rfl, rfl⟩ (.call ..) rfl (Option.some.inj clear)).2

/-- A protected call of a protected call does not compose. Made by a function in between, the two
calls give their results; made without, the host gets a defect. -/
theorem protected_calls_clash :
    (perform? Host.library 60 (Sample.protect (.function ⟨0⟩ :: Sample.inner)) Sample.relaying).1
      matches .done (.ok (.tuple [.boolean true, .boolean true, .number _])) ∧
    (perform? Host.library 60 (Sample.protect Sample.inner) Sample.relaying).1
      matches .done (.error (.defect .handlersTwice)) :=
  ⟨by decide +kernel, by decide +kernel⟩

end Machine

end ScriptMachine
