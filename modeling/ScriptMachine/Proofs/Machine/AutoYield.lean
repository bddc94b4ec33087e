import ScriptMachine.Proofs.Machine.Driving
import ScriptMachine.Proofs.Machine.Slice

/-!
# Shares of a coroutine

A coroutine with a share is stopped after that many of its instructions, and goes on when it is
resumed. Its host gets the same from it as without a share.

* `State.Rests`: the coroutine can be resumed.
* `Shadows`: the run with a share does what the one without does, or stands before the same
  instruction. `step_shadows`: a step keeps it so.
* `session_drives`, `session_resumes`: the sessions of the two hosts.
* `slice_exact`: the instructions between two forced yields.
-/

namespace ScriptMachine

open Machine

variable {ν : Type}

/-! ## A visit -/

/-- The coroutine is not running, and can be resumed with the empty mark. It has no share. -/
structure State.Rests (c : ThreadId) (s : State ν) : Prop where
  inRange : c.index < s.processors.size
  nested : (s.processorOf c).nestedCalls = 0
  off : (s.processorOf c).autoYield = 0
  unlimited : s.options.instructionLimit = none
  unforced : s.coroutineState c ≠ .forceSuspended
  fresh : s.coroutineState c = .notStarted → (s.processorOf c).frames = #[] ∧
    (s.processorOf c).stack = {} ∧ (s.processorOf c).pending = none
  marks : ∀ r mark, (s.processorOf c).pending = some (r, mark) → mark = {}

def State.visit (s : State ν) (c : ThreadId) : Visit := ⟨c, s.current, s.entries, s.active⟩

/-- The state in which the processor that runs is to go on at an instruction. -/
def State.putOff (s : State ν) (ip : Nat) : State ν :=
  s.modifyProcessor fun p => { p with pending := some (.instruction ip, {}) }

/-- The state in which the host gets the turn back by a forced yield. -/
def State.stopped (s : State ν) (v : Visit) : State ν :=
  { s.setCoroutineState v.coroutine .forceSuspended with
    active := s.active.tail, current := v.previous, entries := s.entries - 1 }

namespace Machine

variable {library : Library ν} {c : ThreadId} {s : State ν} {arguments : List Value} {v : Visit}

/-- The host resumes a coroutine that rests. -/
theorem visit_served (unaware : library.Unaware) (rests : s.Rests c)
    (accepted : resumeRefusal (s.coroutineState c) arguments = none) :
    Served (s.visit c) (hostResume library .synchronous c arguments s) := by
  have alive : s.coroutineState c ≠ .dead := fun e => by simp [resumeRefusal, e] at accepted
  obtain ⟨root, below⟩ := State.inRange_of_coroutineState alive
  -- the state of the visit, whatever becomes of the processor
  have visited : ∀ f : Processor → Processor, (∀ p, (f p).nestedCalls = p.nestedCalls) →
      (∀ p, (f p).autoYield = p.autoYield) → (f (s.processorOf c)).pending = none →
      (s.visit c).kont.Tends (s.visit c) ((s.resuming c).modifyProcessor f) := by
    intro f nested off pending
    have changed : ((s.resuming c).modifyProcessor f).processorOf c = f (s.processorOf c) :=
      State.processorOf_modifyProcessorOf (s.resuming c) f rests.inRange
    refine ⟨c, 0, .host, ⟨rfl, ?_, ?_, ?_, ?_, rfl, rfl, rests.unlimited⟩, ?_⟩
    · simp only [State.modifyProcessor, State.modifyProcessorOf, Array.size_modify]
      exact rests.inRange
    · exact State.coroutineState_set s .running root below
    · exact (congrArg _ changed).trans ((nested _).trans rests.nested)
    · exact (congrArg _ changed).trans ((off _).trans rests.off)
    · exact (congrArg _ changed).trans pending
  have shown : ∀ f : Processor → Processor,
      ((s.resuming c).modifyProcessor f).processor = f (s.processorOf c) := fun f =>
    State.processorOf_modifyProcessorOf (s.resuming c) f rests.inRange
  rw [hostResume, resume_accepted accepted]
  cases state : s.coroutineState c with
  | forceSuspended => exact absurd state rests.unforced
  | dead => exact absurd state alive
  | running => simp [resumeRefusal, state] at accepted
  | notStarted =>
    obtain ⟨frames, stack, pending⟩ := rests.fresh state
    refine executeCall_served unaware (visited (fun p => { p with sinceResume := 0 })
      (fun _ => rfl) (fun _ => rfl) pending) (.resumed fun _ => ?_) ..
    unfold mark
    rw [shown, frames, stack]
    rfl
  | suspended =>
    let s' := (s.resuming c).modifyProcessor fun p => { p with sinceResume := 0 }
    have shown' : s'.processor.pending = (s.processorOf c).pending := by
      rw [show s'.processor = _ from shown _]
    change Served (s.visit c)
      (resumePending library (.ok (Value.ofList arguments)) false (s.visit c).kont s')
    cases pending : (s.processorOf c).pending with
    | none =>
      rw [resumePending_nothing _ _ _ _ (shown'.trans pending)]
      exact .fails (visited (fun p => { p with sinceResume := 0 }) (fun _ => rfl) (fun _ => rfl)
        pending) _
    | some x =>
      obtain ⟨resumption, mark⟩ := x
      obtain rfl := rests.marks resumption mark pending
      have tends := visited (fun p => { p with pending := none, sinceResume := 0 })
        (fun _ => rfl) (fun _ => rfl) rfl
      have twice : s'.modifyProcessor (fun p => { p with pending := none, sinceResume := 0 }) =
          (s.resuming c).modifyProcessor fun p => { p with pending := none, sinceResume := 0 } :=
        State.modifyProcessorOf_twice ..
      cases resumption with
      | deliver frame =>
        rw [resumePending_deliver _ _ _ _ (shown'.trans pending), twice]
        exact finishFrame_served unaware (tends.loop (.resumed fun _ => rfl) _) ..
      | instruction ip =>
        rw [resumePending_instruction _ _ _ _ (shown'.trans pending), twice]
        exact .execute (.resumed fun _ => rfl) tends

/-- To be resumed sets the meter to zero, and nothing else depends on it. -/
theorem visit_metered (accepted : resumeRefusal (s.coroutineState c) arguments = none) (m : Meter) :
    hostResume library .synchronous c arguments (s.metered c m) =
      ((hostResume library .synchronous c arguments s).1,
        (hostResume library .synchronous c arguments s).2.metered c { m with sinceResume := 0 }) := by
  let m' : Meter := { m with sinceResume := 0 }
  have zeroed : ∀ state (k : Kont ν .step),
      resumeFrom library (s.coroutine c).function state arguments k ((s.resuming c).metered c m) =
        resumeFrom library (s.coroutine c).function state arguments k
          ((s.resuming c).metered c m') := by
    intro state k
    have same : ((s.resuming c).metered c m).modifyProcessor (fun p => { p with sinceResume := 0 }) =
        ((s.resuming c).metered c m').modifyProcessor fun p => { p with sinceResume := 0 } :=
      ((s.resuming c).modifyProcessor_metered m _).trans
        ((s.resuming c).modifyProcessor_metered m' fun p => { p with sinceResume := 0 }).symm
    unfold resumeFrom
    rw [bind_of_eq (x := modify _) rfl, bind_of_eq (x := modify _) rfl, same]
  have same : (s.metered c m).coroutineState c = s.coroutineState c := rfl
  rw [hostResume, resume_accepted accepted, resume_accepted (same ▸ accepted)]
  exact (zeroed _ _).trans (blind_resumeFrom (s := s.resuming c) (m := m') (fun _ => rfl) ..)

theorem resumeOutcome_unforced {outcome : Except Fault Step}
    (h : outcome ≠ .ok (.suspend .forced)) :
    (resumeOutcome outcome).1 = .dead ∨ (resumeOutcome outcome).1 = .suspended := by
  match outcome, h with
  | .ok (.return _), _ | .ok (.proceed _), _ | .ok (.suspend (.await _)), _ | .error _, _ =>
    exact .inl rfl
  | .ok (.suspend (.yield _)), _ => exact .inr rfl
  | .ok (.suspend .forced), h => exact absurd rfl h

/-- The coroutine stops, and rests. -/
theorem visit_ends {outcome : Except Fault Step} (served : Served v (.step outcome v.kont, s)) :
    (advance library (.step outcome v.kont) s).1 = .value (resumeOutcome outcome).2 .host ∧
      (advance library (.step outcome v.kont) s).2.Rests v.coroutine := by
  have stays : ∀ visited : s.Visited v v.coroutine 0 (v.kont (ν := ν)).debts,
      outcome ≠ .ok (.suspend .forced) →
      (∀ r mark, (s.processorOf v.coroutine).pending = some (r, mark) → mark = {}) →
      (advance library (.step outcome v.kont) s).2.Rests v.coroutine := by
    intro visited unforced marks
    have alive : s.coroutineState v.coroutine ≠ .dead := by
      rw [visited.running]
      nofun
    obtain ⟨root, below⟩ := State.inRange_of_coroutineState alive
    have state : (advance library (.step outcome v.kont) s).2.coroutineState v.coroutine =
        (resumeOutcome outcome).1 := State.coroutineState_set s _ root below
    have rests := resumeOutcome_unforced unforced
    rw [← state] at rests
    refine ⟨visited.inRange, visited.nested, visited.off, visited.unlimited, fun e => ?_,
      fun e => ?_, marks⟩
    · simp [e] at rests
    · simp [e] at rests
  refine ⟨rfl, ?_⟩
  cases served with
  | step h others =>
    obtain ⟨d, n, hk, visited, pending⟩ := h
    cases hk with
    | resumed other _ _ => exact absurd rfl other
    | host =>
      refine stays visited (fun e => others _ e visited.current) fun r mark h => ?_
      rw [pending] at h
      contradiction
  | suspended yields _ visited marks =>
    exact stays visited (fun e => yields (by cases e; rfl)) marks

/-- A step of a visit. -/
theorem visit_goes_on (unaware : library.Unaware) {control : Control ν}
    (served : Served v (control, s)) :
    (∃ outcome, (advance library control s).1 = .value outcome .host ∧
      (advance library control s).2.Rests v.coroutine) ∨ Served v (advance library control s) := by
  obtain ⟨outcome, rfl⟩ | served' := advance_served unaware served
  · exact .inl ⟨_, visit_ends served⟩
  · exact .inr served'

/-! ## Meters during a visit -/

/-- What a step makes of the meters of the coroutine. -/
inductive Meters (library : Library ν) (v : Visit) (m : Meter) (control : Control ν)
    (s : State ν) : Prop
  | goes (m' : Meter) : m'.share = m.share → m'.sinceResume ≤ m.share →
      m'.sinceResume = m.sinceResume +
        (if executesOwn v.coroutine ⟨control, s.metered v.coroutine m⟩ then 1 else 0) →
      advance library control (s.metered v.coroutine m) =
        ((advance library control s).1, (advance library control s).2.metered v.coroutine m') →
      Meters library v m control s
  /-- The share is used up before an instruction. -/
  | putOff (ip : Nat) : control = .execute ip {} v.kont → m.sinceResume = m.share →
      executesOwn v.coroutine ⟨control, s.metered v.coroutine m⟩ = false →
      advance library control (s.metered v.coroutine m) =
        (.step (.ok (.suspend .forced)) v.kont,
          (s.metered v.coroutine ⟨m.share, 0, m.total + 1⟩).putOff ip) →
      Meters library v m control s

/-- An instruction of which both states make the same. -/
theorem advance_execute {m : Meter} {s t : State ν} {ip : Nat} {mark : Mark} {k : Kont ν .step}
    (agree : Exec.Agree (fun _ => Metered c m s 0) (Metered c m s 0) (Exec.executeAt ip s)
      (Exec.executeAt ip t)) :
    advance library (.execute ip mark k) t = ((advance library (.execute ip mark k) s).1,
      (advance library (.execute ip mark k) s).2.metered c m) := by
  simp only [advance, Exec.andThen]
  generalize Exec.executeAt ip s = x at agree
  generalize Exec.executeAt ip t = y at agree
  cases agree with
  | ok h =>
    obtain ⟨rfl, -⟩ := h
    exact blind_perform ..
  | error h =>
    obtain ⟨rfl, -⟩ := h
    exact blind_unwind ..

/-- Only the outermost loop of a coroutine is one in which no call is nested. -/
theorem outermost {k : Kont ν .step} {mark : Mark} (loops : k.Loops v.coroutine mark)
    (serves : k.Serves v v.coroutine 0) : k = v.kont ∧ mark = {} := by
  cases serves with
  | host =>
    cases loops with
    | resumed empty => exact ⟨rfl, empty rfl⟩
  | resumed other _ _ => exact absurd rfl other
  | nested other _ => exact absurd rfl other
  | loop _ _ => cases loops
  | protect _ => cases loops

theorem execute_meters {m : Meter} {k : Kont ν .step} {mark : Mark} {ip : Nat}
    (loops : k.Loops v.coroutine mark) (tends : k.Tends v s) (on : 0 < m.share)
    (left : m.sinceResume ≤ m.share) : Meters library v m (.execute ip mark k) s := by
  obtain ⟨d, n, serves, visited, -⟩ := tends
  have shown := s.instructionAt_metered v.coroutine m ip
  have alive : s.coroutineState v.coroutine ≠ .dead := by
    rw [visited.running]
    nofun
  obtain ⟨root, -⟩ := State.inRange_of_coroutineState alive
  cases Exec.executeAt_turns (m := m) ip visited.unlimited visited.inRange visited.off on with
  | missing missing first second =>
    have idle : executesOwn v.coroutine ⟨.execute ip mark k, s.metered v.coroutine m⟩ = false := by
      simp [executesOwn, shown, missing, Except.isOk, Except.toBool]
    refine .goes m rfl left (by simp [idle]) (advance_execute ?_)
    rw [first, second]
    exact .error ⟨rfl, .refl s⟩
  | other found others agree =>
    have idle : executesOwn v.coroutine ⟨.execute ip mark k, s.metered v.coroutine m⟩ = false := by
      by_cases runs : s.current = v.coroutine
      · have nested : s.processor.nestedCalls ≠ 0 := by
          intro e
          have := others runs
          simp [State.isYieldable, State.inCoroutine, e, runs] at this
          exact root (by cases h : v.coroutine; simp_all [ThreadId.root])
        simp [executesOwn, nested]
      · simp [executesOwn, runs]
    exact .goes ⟨m.share, m.sinceResume, m.total + 1⟩ rfl left (by simp [idle])
      (advance_execute agree)
  | own found runs yieldable less agree =>
    have executes : executesOwn v.coroutine ⟨.execute ip mark k, s.metered v.coroutine m⟩ = true := by
      have nested : s.processor.nestedCalls = 0 := by
        simp only [State.isYieldable, Bool.and_eq_true, beq_iff_eq] at yieldable
        exact yieldable.2
      have peaceful := Exec.executeAt_peaceful (c := v.coroutine) ip visited.unlimited visited.off
      generalize first : Exec.executeAt ip s = x at agree peaceful
      generalize second : Exec.executeAt ip (s.metered v.coroutine m) = y at agree
      cases agree with
      | @ok effect s' t h =>
        cases effect with
        | none => exact absurd runs (peaceful.taken s' rfl)
        | some effect =>
          simp [executesOwn, runs, nested, shown, found, second, Except.isOk, Except.toBool]
      | error h => simp [executesOwn, runs, nested, shown, found, second, Except.isOk, Except.toBool]
    exact .goes ⟨m.share, m.sinceResume + 1, m.total + 1⟩ rfl less (by simp [executes])
      (advance_execute agree)
  | forced found runs yieldable used put =>
    have nested : s.processor.nestedCalls = 0 := by
      simp only [State.isYieldable, Bool.and_eq_true, beq_iff_eq] at yieldable
      exact yieldable.2
    obtain rfl : d = v.coroutine := visited.current.symm.trans runs
    obtain rfl : n = 0 := by
      rw [← visited.nested, ← runs]
      exact nested
    obtain ⟨rfl, rfl⟩ := outermost loops serves
    refine .putOff ip rfl (Nat.le_antisymm left used) ?_ ?_
    · simp [executesOwn, put]
    · simp only [advance, Exec.andThen, put]
      rfl

theorem advance_meters (library : Library ν) {m : Meter} {control : Control ν} (served : Served v (control, s))
    (on : 0 < m.share) (left : m.sinceResume ≤ m.share) : Meters library v m control s := by
  have blind : ∀ control : Control ν, (∀ ip mark k, control ≠ .execute ip mark k) →
      Blind v.coroutine m s (advance library control) → Meters library v m control s := by
    intro control executes blind
    refine .goes m rfl left ?_ blind
    cases control with
    | execute ip mark k => exact absurd rfl (executes ip mark k)
    | _ => rfl
  cases served with
  | execute loops tends => exact execute_meters loops tends on left
  | run unaware tends =>
    exact blind _ nofun (blind_runProgram tends.running tends.inRange unaware _)
  | step _ _ => exact blind _ nofun (blind_handStep ..)
  | @suspended _ x k _ _ _ _ =>
    have handed : Blind v.coroutine m s (handStep library (.ok (.suspend x)) k) := blind_handStep ..
    exact blind _ nofun handed
  | value tends =>
    refine blind _ nofun (blind_handValue (fun d k e => ?_) _)
    obtain ⟨_, _, serves, -⟩ := tends
    subst e
    cases serves
  | @await _ task _ _ => exact blind _ nofun (by cases task <;> rfl)

/-! ## Forced yields -/

/-- The coroutine is running again, as if it had not been stopped. -/
theorem setCoroutineState_running (s : State ν) (running : s.coroutineState c = .running)
    (state : CoroutineState) : (s.setCoroutineState c state).setCoroutineState c .running = s := by
  obtain ⟨world, options, closures, cells, processors, coroutines, active, current, entries,
    count⟩ := s
  obtain ⟨_ | n⟩ := c
  · cases running
  simp only [State.setCoroutineState, State.mk.injEq, true_and, and_true]
  apply Array.ext_getElem?
  intro i
  simp only [Array.getElem?_modify]
  split
  · rename_i same
    obtain rfl : n = i := same
    change (coroutines[n]?.getD ⟨.nil, .dead⟩).state = .running at running
    cases found : coroutines[n]? with
    | none => rfl
    | some r =>
      rw [found] at running
      obtain ⟨function, state⟩ := r
      obtain rfl : state = .running := running
      rfl
  · rfl

theorem stopped_resuming {u : State ν} (current : u.current = v.coroutine)
    (running : u.coroutineState v.coroutine = .running) (entries : u.entries = v.entries + 1)
    (active : u.active = v.coroutine :: v.active) :
    (u.stopped v).resuming v.coroutine = u := by
  calc (u.stopped v).resuming v.coroutine
    _ = { (u.setCoroutineState v.coroutine .forceSuspended).setCoroutineState v.coroutine .running with
          active := v.coroutine :: u.active.tail, current := v.coroutine
          entries := u.entries - 1 + 1 } := rfl
    _ = { u with
          active := v.coroutine :: u.active.tail, current := v.coroutine
          entries := u.entries - 1 + 1 } := by rw [setCoroutineState_running u running]
    _ = u := by rw [entries, active, List.tail_cons, Nat.add_sub_cancel, ← entries, ← active, ← current]

theorem resumeFrom_forced (function : Value) (arguments : List Value) (k : Kont ν .step) :
    resumeFrom library function .forceSuspended arguments k s =
      resumePending library (.ok .void) false k
        (s.modifyProcessor fun p => { p with sinceResume := 0 }) := rfl

/-- The host resumes a coroutine whose share was used up. It goes on where it was stopped. -/
theorem resume_stopped {m : Meter} {ip : Nat} (tends : (v.kont (ν := ν)).Tends v s) :
    hostResume library .synchronous v.coroutine [] (((s.metered v.coroutine m).putOff ip).stopped v) =
      (.execute ip {} v.kont, s.metered v.coroutine { m with sinceResume := 0 }) := by
  obtain ⟨d, n, serves, visited, pending⟩ := tends
  obtain rfl : d = v.coroutine := by cases serves <;> rfl
  have alive : s.coroutineState v.coroutine ≠ .dead := by
    rw [visited.running]
    nofun
  obtain ⟨root, below⟩ := State.inRange_of_coroutineState alive
  let u := (s.metered v.coroutine m).putOff ip
  have stopped : (u.stopped v).coroutineState v.coroutine = .forceSuspended :=
    State.coroutineState_set u _ root below
  have accepted : resumeRefusal ((u.stopped v).coroutineState v.coroutine) [] = none := by
    rw [stopped]
    rfl
  have back : (u.stopped v).resuming v.coroutine = u :=
    stopped_resuming visited.current visited.running visited.entries visited.active
  let u' := u.modifyProcessor fun p => { p with sinceResume := 0 }
  let m' : Meter := { m with sinceResume := 0 }
  have put : u' = { s.modifyProcessorOf v.coroutine fun p =>
      { p.metered m' with pending := some (.instruction ip, {}) } with
        instructionCount := m.total } := by
    calc u'
      _ = { ((s.modifyProcessorOf v.coroutine (·.metered m)).modifyProcessorOf s.current fun p =>
            { p with pending := some (.instruction ip, {}) }).modifyProcessorOf s.current fun p =>
              { p with sinceResume := 0 } with
            instructionCount := m.total } := rfl
      _ = _ := by
        rw [visited.current, State.modifyProcessorOf_twice, State.modifyProcessorOf_twice]
        rfl
  have waits : u'.processor.pending = some (.instruction ip, {}) := by
    rw [put]
    change ((s.modifyProcessorOf v.coroutine _).processorOf s.current).pending = _
    rw [visited.current, State.processorOf_modifyProcessorOf s _ visited.inRange]
  have taken : u'.modifyProcessor (fun p => { p with pending := none, sinceResume := 0 }) =
      s.metered v.coroutine m' := by
    rw [put]
    calc _
      _ = { (s.modifyProcessorOf v.coroutine fun p =>
            { p.metered m' with pending := some (.instruction ip, {}) }).modifyProcessorOf s.current
              fun p => { p with pending := none, sinceResume := 0 } with
            instructionCount := m.total } := rfl
      _ = { s.modifyProcessorOf v.coroutine (·.metered m') with instructionCount := m.total } := by
        rw [visited.current, State.modifyProcessorOf_twice]
        rw [s.modifyProcessorOf_congr (g := (·.metered m'))]
        simp only [Processor.metered, ← pending]
        rfl
  rw [hostResume, resume_accepted accepted, stopped, back, resumeFrom_forced,
    resumePending_instruction library _ false _ waits, taken]
  rfl

/-! ## Two runs -/

/-- The run with the share `n`, beside the run without. It does the same, or stands before the same
instruction. So many instructions of the coroutine are spent of its share. -/
inductive Shadows (v : Visit) (n : Nat) : Nat → Machine ν → Machine ν → Prop
  | same {control : Control ν} {s : State ν} {m : Meter} : Served v (control, s) → m.share = n →
      m.sinceResume ≤ n →
      Shadows v n m.sinceResume ⟨control, s⟩ ⟨control, s.metered v.coroutine m⟩
  | forced {ip : Nat} {s : State ν} {m : Meter} : (v.kont (ν := ν)).Tends v s → m.share = n →
      Shadows v n n ⟨.execute ip {} v.kont, s⟩
        ⟨.step (.ok (.suspend .forced)) v.kont, (s.metered v.coroutine m).putOff ip⟩
  /-- The host has the turn. -/
  | stopped {ip : Nat} {s : State ν} {m : Meter} : (v.kont (ν := ν)).Tends v s → m.share = n →
      Shadows v n n ⟨.execute ip {} v.kont, s⟩
        ⟨.value (.ok .void) .host, ((s.metered v.coroutine m).putOff ip).stopped v⟩
  | ended {spent : Nat} {outcome : Except Fault Value} {s : State ν} {m : Meter} :
      s.Rests v.coroutine → m.share = n →
      Shadows v n spent ⟨.value outcome .host, s⟩ ⟨.value outcome .host, s.metered v.coroutine m⟩

theorem not_served_host {outcome : Except Fault Value} (h : Served v (.value outcome .host, s)) :
    False := by
  cases h with
  | value tends =>
    obtain ⟨_, _, serves, -⟩ := tends
    cases serves

theorem stopped_forceSuspended {u : State ν} (tends : (v.kont (ν := ν)).Tends v s)
    (same : u.coroutines = s.coroutines) :
    (u.stopped v).coroutineState v.coroutine = .forceSuspended := by
  have alive : s.coroutineState v.coroutine ≠ .dead := by
    rw [tends.running]
    nofun
  obtain ⟨root, below⟩ := State.inRange_of_coroutineState alive
  exact State.coroutineState_set u _ root (same ▸ below)

theorem step_forced (v : Visit) (u : State ν) :
    Machine.step library ⟨.step (.ok (.suspend .forced)) v.kont, u⟩ =
      ⟨.value (.ok .void) .host, u.stopped v⟩ := rfl

/-- **A step of the run with a share** is a step of the other run, or part of a forced yield. -/
theorem step_shadows (unaware : library.Unaware) {n spent : Nat} (on : 0 < n) {a b : Machine ν}
    (h : Shadows v n spent a b) (going : b.isHalted = false) :
    ∃ a', (a' = a ∨ a.isHalted = false ∧ a' = a.step library) ∧
      Shadows v n (spent + if b.executesOwn v.coroutine then 1 else 0) a' (b.step library) := by
  cases h with
  | stopped _ _ => cases going
  | ended _ _ => cases going
  | forced tends share =>
    refine ⟨_, .inl rfl, ?_⟩
    rw [step_forced]
    exact .stopped tends share
  | @same control s m served share left =>
    subst share
    cases advance_meters library served on left with
    | goes m' share left' spent step =>
      refine ⟨_, .inr ⟨going, rfl⟩, ?_⟩
      rw [← spent, step_eq, step_eq, step]
      obtain ⟨outcome, control', rests⟩ | served' := visit_goes_on unaware served
      · rw [control']
        exact .ended rests share
      · exact .same served' share left'
    | putOff ip control' spent idle step =>
      subst control'
      refine ⟨_, .inl rfl, ?_⟩
      simp only [step_eq, step, idle, spent]
      cases served with
      | execute _ tends => exact .forced tends rfl

/-- What a host gets from the run with a share, it gets from the other run. -/
theorem runs_of_drives (unaware : library.Unaware) {n : Nat} (on : 0 < n) {b : Machine ν}
    {outcome : Except Fault Value} {t : State ν} (h : DrivesFrom library v.coroutine b outcome t)
    {spent : Nat} {a : Machine ν} (shadows : Shadows v n spent a b) :
    ∃ s m, t = State.metered s v.coroutine m ∧ m.share = n ∧ s.Rests v.coroutine ∧
      RunsTo library a outcome s := by
  induction h generalizing spent a with
  | answers unforced =>
    cases shadows with
    | same served _ _ => exact (not_served_host served).elim
    | stopped tends _ => exact absurd (stopped_forceSuspended tends rfl) unforced
    | ended rests share => exact ⟨_, _, rfl, share, rests, 0, rfl⟩
  | again forced _ ih =>
    cases shadows with
    | same served _ _ => exact (not_served_host served).elim
    | ended rests _ => exact absurd forced rests.unforced
    | @stopped ip s m tends share =>
      have resumed : Shadows v n 0 ⟨.execute ip {} v.kont, s⟩
          ⟨.execute ip {} v.kont, s.metered v.coroutine { m with sinceResume := 0 }⟩ :=
        .same (m := { m with sinceResume := 0 }) (.execute (.resumed fun _ => rfl) tends) share
          (Nat.zero_le n)
      simp only [ofMove, resume_stopped tends] at ih
      exact ih resumed
  | step going _ ih =>
    obtain ⟨a', follows, shadows⟩ := step_shadows unaware on shadows going
    obtain ⟨s, m, same, share, rests, runs⟩ := ih shadows
    refine ⟨s, m, same, share, rests, ?_⟩
    obtain rfl | ⟨going, rfl⟩ := follows
    · exact runs
    · exact runs.step going

theorem run_halted {m : Machine ν} (halted : m.isHalted = true) (steps : Nat) :
    run library steps m = m := by
  cases steps with
  | zero => rfl
  | succ steps => rw [run, halted, if_pos rfl]

/-- The host resumes the coroutine at the instruction that was put off. -/
theorem drives_putOff {m m' : Meter} {ip : Nat} {outcome : Except Fault Value} {t : State ν}
    (tends : (v.kont (ν := ν)).Tends v s)
    (put : advance library (.execute ip {} v.kont) (s.metered v.coroutine m) =
      (.step (.ok (.suspend .forced)) v.kont, (s.metered v.coroutine m').putOff ip))
    (h : DrivesFrom library v.coroutine
      ⟨.execute ip {} v.kont, s.metered v.coroutine { m' with sinceResume := 0 }⟩ outcome t) :
    DrivesFrom library v.coroutine ⟨.execute ip {} v.kont, s.metered v.coroutine m⟩ outcome t := by
  refine .step rfl ?_
  rw [step_eq, put]
  refine .step rfl ?_
  rw [step_forced]
  refine .again (stopped_forceSuspended tends rfl) ?_
  simp only [ofMove, resume_stopped tends]
  exact h

/-- What a host gets from the run without a share, it gets from the other run. -/
theorem drives_of_runs (unaware : library.Unaware) {n : Nat} (on : 0 < n)
    {outcome : Except Fault Value} {t : State ν} {control : Control ν} {m : Meter}
    (served : Served v (control, s)) (share : m.share = n) (left : m.sinceResume ≤ n)
    {steps : Nat} (runs : run library steps ⟨control, s⟩ = ⟨.value outcome .host, t⟩) :
    ∃ m', Meter.share m' = n ∧ t.Rests v.coroutine ∧
      DrivesFrom library v.coroutine ⟨control, s.metered v.coroutine m⟩ outcome
        (t.metered v.coroutine m') := by
  induction steps generalizing control s m with
  | zero =>
    cases runs
    exact (not_served_host served).elim
  | succ steps ih =>
    rw [run] at runs
    split at runs
    · cases runs
      exact (not_served_host served).elim
    rename_i going
    have going := Bool.eq_false_iff.2 going
    -- both runs make a step
    have together : ∀ m m' : Meter, m'.share = n → m'.sinceResume ≤ n →
        advance library control (s.metered v.coroutine m) =
          ((advance library control s).1, (advance library control s).2.metered v.coroutine m') →
        ∃ m', Meter.share m' = n ∧ t.Rests v.coroutine ∧
          DrivesFrom library v.coroutine ⟨control, s.metered v.coroutine m⟩ outcome
            (t.metered v.coroutine m') := by
      intro m m' share left step
      have next : Machine.step library ⟨control, s.metered v.coroutine m⟩ =
          ⟨(advance library control s).1, (advance library control s).2.metered v.coroutine m'⟩ := by
        rw [step_eq, step]
      rw [step_eq] at runs
      obtain ⟨o, ended, rests⟩ | served' := visit_goes_on unaware served
      · rw [ended, run_halted rfl] at runs
        obtain ⟨ended', rfl⟩ := Machine.mk.inj runs
        refine ⟨m', share, rests, .step going ?_⟩
        rw [next, ended, ended']
        exact .answers rests.unforced
      · obtain ⟨m', share, rests, drives⟩ := ih served' share left runs
        exact ⟨m', share, rests, .step going (next ▸ drives)⟩
    subst share
    cases advance_meters library served on left with
    | goes m' share left _ step => exact together m m' share left step
    | putOff ip control' _ _ put =>
      subst control'
      cases served with
      | execute loops tends =>
        let m₀ : Meter := ⟨m.share, 0, m.total + 1⟩
        cases advance_meters library (m := m₀) (.execute loops tends) on
          (Nat.zero_le _) with
        | goes m' share left _ step =>
          obtain ⟨m', share, rests, drives⟩ := together m₀ m' share left step
          exact ⟨m', share, rests, drives_putOff tends put drives⟩
        | putOff _ _ spent _ _ => exact absurd spent (Nat.ne_of_lt on)

/-! ## Turns of a host -/

section Turns

variable {m : Meter} {outcome : Except Fault Value}

theorem resumes_refused {cause : Cause} {t : State ν}
    (refused : resumeRefusal (s.coroutineState c) arguments = some cause) :
    Resumes library c arguments s outcome t ↔ outcome = .error (.raise cause) ∧ t = s := by
  rw [resumes_iff, RunsTo, ofMove, hostResume, resume_refused refused]
  simp only [run_halted (m := ⟨.value (.error (.raise cause)) .host, s⟩) rfl, exists_const,
    Machine.mk.injEq, Control.value.injEq, and_true]
  exact ⟨fun h => ⟨h.1.symm, h.2.symm⟩, fun h => ⟨h.1.symm, h.2.symm⟩⟩

theorem turn_drives (unaware : library.Unaware) (on : 0 < m.share) (rests : s.Rests c)
    {t : State ν} (h : Resumes library c arguments s outcome t) :
    ∃ m', Meter.share m' = m.share ∧ t.Rests c ∧
      Drives library c arguments (s.metered c m) outcome (t.metered c m') := by
  cases refusal : resumeRefusal (s.coroutineState c) arguments with
  | some cause =>
    obtain ⟨rfl, rfl⟩ := (resumes_refused refusal).1 h
    refine ⟨m, rfl, rests, .answers ((resumes_refused (s := t.metered c m) refusal).2 ⟨rfl, rfl⟩) rests.unforced⟩
  | none =>
    obtain ⟨steps, runs⟩ := resumes_iff.1 h
    have served := visit_served unaware rests refusal
    obtain ⟨m', share, rests, drives⟩ := drives_of_runs unaware (m := { m with sinceResume := 0 }) on served rfl (Nat.zero_le _) runs
    refine ⟨m', share, rests, drives_iff.2 ?_⟩
    rw [ofMove, visit_metered refusal]
    exact drives

theorem turn_resumes (unaware : library.Unaware) (on : 0 < m.share) (rests : s.Rests c)
    {t : State ν} (h : Drives library c arguments (s.metered c m) outcome t) :
    ∃ s' m', t = State.metered s' c m' ∧ m'.share = m.share ∧ s'.Rests c ∧
      Resumes library c arguments s outcome s' := by
  cases refusal : resumeRefusal (s.coroutineState c) arguments with
  | some cause =>
    have refusal' : resumeRefusal ((s.metered c m).coroutineState c) arguments = some cause := refusal
    cases h with
    | answers resumes _ =>
      obtain ⟨rfl, rfl⟩ := (resumes_refused refusal').1 resumes
      exact ⟨s, m, rfl, rfl, rests, (resumes_refused refusal).2 ⟨rfl, rfl⟩⟩
    | again resumes forced _ =>
      obtain ⟨rfl, rfl⟩ := (resumes_refused refusal').1 resumes
      exact absurd forced rests.unforced
  | none =>
    have served := visit_served unaware rests refusal
    rw [drives_iff, ofMove, visit_metered refusal] at h
    obtain ⟨s', m', same, share, rests, runs⟩ := runs_of_drives (v := s.visit c) unaware on h
      (.same (m := { m with sinceResume := 0 }) served rfl (Nat.zero_le _))
    exact ⟨s', m', same, share, rests, resumes_iff.2 runs⟩

theorem session_drives (unaware : library.Unaware) (on : 0 < m.share) (rests : s.Rests c)
    {calls : List (List Value)} {outcomes : List (Except Fault Value × CoroutineState)} {t : State ν}
    (h : Session (Resumes library c) c calls s outcomes t) :
    ∃ m', Session (Drives library c) c calls (s.metered c m) outcomes (t.metered c m') := by
  induction h generalizing m with
  | nil => exact ⟨m, .nil⟩
  | cons resumes _ ih =>
    obtain ⟨m', share, rests, drives⟩ := turn_drives unaware on rests resumes
    obtain ⟨m'', session⟩ := ih (share ▸ on) rests
    have session := Session.cons drives session
    exact ⟨m'', session⟩

theorem session_resumes (unaware : library.Unaware) (on : 0 < m.share) (rests : s.Rests c)
    {calls : List (List Value)} {outcomes : List (Except Fault Value × CoroutineState)} {t : State ν}
    (h : Session (Drives library c) c calls (s.metered c m) outcomes t) :
    ∃ s' m', t = State.metered s' c m' ∧ Session (Resumes library c) c calls s outcomes s' := by
  generalize start : s.metered c m = b at h
  induction h generalizing s m with
  | nil => exact ⟨s, m, start.symm, .nil⟩
  | cons drives _ ih =>
    subst start
    obtain ⟨s', m', rfl, share, rests, resumes⟩ := turn_resumes unaware on rests drives
    obtain ⟨s'', m'', rfl, session⟩ := ih (share ▸ on) rests rfl
    have session := Session.cons resumes session
    exact ⟨s'', m'', rfl, session⟩

end Turns

/-! ## Slices -/

/-- The run with a share, up to the turn of the host. -/
theorem run_shadows (unaware : library.Unaware) {n spent : Nat} (on : 0 < n) {a b : Machine ν}
    (h : Shadows v n spent a b) {outcome : Except Fault Value} {t : State ν} {steps : Nat}
    (runs : run library steps b = ⟨.value outcome .host, t⟩) :
    ∃ a', Shadows v n (spent + ownInstructions library v.coroutine steps b) a'
      ⟨.value outcome .host, t⟩ := by
  induction steps generalizing spent a b with
  | zero => exact ⟨a, runs ▸ h⟩
  | succ steps ih =>
    rw [run] at runs
    split at runs
    · rename_i halted
      rw [ownInstructions, if_pos halted]
      exact ⟨a, runs ▸ h⟩
    · rename_i going
      obtain ⟨a', -, h⟩ := step_shadows unaware on h (Bool.eq_false_iff.2 going)
      obtain ⟨a', h⟩ := ih h runs
      rw [ownInstructions, if_neg going, ← Nat.add_assoc]
      exact ⟨a', h⟩

/-- The host has the turn, and the coroutine has the share `n`. -/
def Between (c : ThreadId) (n : Nat) (t : State ν) : Prop :=
  ∃ v spent outcome a, v.coroutine = c ∧ Shadows v n spent a ⟨.value outcome .host, t⟩

/-- The host resumes the coroutine. -/
theorem Between.resumes (unaware : library.Unaware) {n : Nat} {t : State ν} (h : Between c n t)
    (accepted : resumeRefusal (t.coroutineState c) arguments = none) :
    ∃ v a, Visit.coroutine v = c ∧
      Shadows v n 0 a (ofMove (hostResume library .synchronous c arguments) t) := by
  obtain ⟨v, spent, outcome, a, rfl, shadows⟩ := h
  cases shadows with
  | same served _ _ => exact (not_served_host served).elim
  | @ended _ _ s m rests share =>
    refine ⟨s.visit v.coroutine, ofMove (hostResume library .synchronous v.coroutine arguments) s,
      rfl, ?_⟩
    rw [ofMove, ofMove, visit_metered (s := s) accepted]
    exact .same (m := { m with sinceResume := 0 }) (visit_served unaware rests accepted) share
      (Nat.zero_le n)
  | @stopped ip s m tends share =>
    have stopped := stopped_forceSuspended (u := (s.metered v.coroutine m).putOff ip) tends rfl
    rw [stopped] at accepted
    obtain rfl : arguments = [] := by
      cases arguments with
      | nil => rfl
      | cons _ _ => cases accepted
    refine ⟨v, ⟨.execute ip {} v.kont, s⟩, rfl, ?_⟩
    rw [ofMove, resume_stopped tends]
    exact .same (m := { m with sinceResume := 0 }) (.execute (.resumed fun _ => rfl) tends) share
      (Nat.zero_le n)

theorem between_of_driven (unaware : library.Unaware) {n : Nat} (on : 0 < n) {t : State ν}
    (start : Between c n s) (h : Driven library c s t) : Between c n t := by
  induction h with
  | start => exact start
  | @resume s' s'' arguments outcome _ resumes ih =>
    cases refusal : resumeRefusal (s'.coroutineState c) arguments with
    | some cause =>
      obtain ⟨-, rfl⟩ := (resumes_refused refusal).1 resumes
      exact ih
    | none =>
      obtain ⟨steps, runs⟩ := resumes_iff.1 resumes
      obtain ⟨v, a, rfl, shadows⟩ := ih.resumes unaware refusal
      obtain ⟨a', shadows⟩ := run_shadows unaware on shadows runs
      exact ⟨v, _, outcome, a', rfl, shadows⟩

/-- **A slice of a coroutine**: so many of its own instructions as its share, and no result. -/
theorem slice_exact (unaware : library.Unaware) {n : Nat} (on : 0 < n) {t t' : State ν}
    (between : Between c n t) (accepted : resumeRefusal (t.coroutineState c) arguments = none)
    {steps : Nat} {outcome : Except Fault Value}
    (runs : run library steps (ofMove (hostResume library .synchronous c arguments) t) =
      ⟨.value outcome .host, t'⟩) (forced : t'.coroutineState c = .forceSuspended) :
    outcome = .ok .void ∧ ownInstructions library c steps
      (ofMove (hostResume library .synchronous c arguments) t) = n := by
  obtain ⟨v, a, rfl, shadows⟩ := between.resumes unaware accepted
  obtain ⟨a', shadows⟩ := run_shadows unaware on shadows runs
  rw [Nat.zero_add] at shadows
  generalize ownInstructions library v.coroutine steps _ = spent at shadows
  cases shadows with
  | same served _ _ => exact (not_served_host served).elim
  | ended rests _ => exact absurd forced rests.unforced
  | stopped _ _ => exact ⟨rfl, rfl⟩

/-! ## A new coroutine -/

theorem newCoroutine_rests (paired : s.processors.size = s.coroutines.size + 1)
    (unlimited : s.options.instructionLimit = none) (function : Value) :
    (s.newCoroutine function).2.Rests (s.newCoroutine function).1 := by
  have fresh : (s.newCoroutine function).2.processorOf (s.newCoroutine function).1 = {} := by
    simp [State.newCoroutine, State.processorOf]
  have state : (s.newCoroutine function).2.coroutineState (s.newCoroutine function).1 =
      .notStarted := by
    simp [State.newCoroutine, State.coroutineState, State.coroutine, paired]
  refine ⟨by simp [State.newCoroutine], ?_, ?_, unlimited, ?_, fun _ => ?_, fun r mark h => ?_⟩
  · rw [fresh]
  · rw [fresh]
  · simp [state]
  · rw [fresh]
    exact ⟨rfl, rfl, rfl⟩
  · rw [fresh] at h
    contradiction

/-- The share of a new coroutine is set. -/
theorem setAutoYield_newCoroutine (paired : s.processors.size = s.coroutines.size + 1)
    (function : Value) (n : Nat) :
    (Exec.setAutoYield (s.newCoroutine function).1 n (s.newCoroutine function).2).2 =
      (s.newCoroutine function).2.metered (s.newCoroutine function).1
        ⟨n, 0, s.instructionCount⟩ := by
  let s' := (s.newCoroutine function).2
  let c := (s.newCoroutine function).1
  have fresh : s'.processorOf c = {} := by simp [s', c, State.newCoroutine, State.processorOf]
  have idle : s'.coroutineState c ≠ .running := by
    simp [s', c, State.newCoroutine, State.coroutineState, State.coroutine, paired]
  have same : s'.modifyProcessorOf c (fun p => { p with autoYield := n }) =
      s'.modifyProcessorOf c (·.metered ⟨n, 0, s.instructionCount⟩) :=
    s'.modifyProcessorOf_congr (by rw [fresh]; rfl)
  calc (Exec.setAutoYield c n s').2
    _ = s'.modifyProcessorOf c fun p => { p with autoYield := n } := if_neg idle
    _ = s'.metered c ⟨n, 0, s.instructionCount⟩ := by
      rw [same]
      rfl

/-- **A share changes nothing that the host of a coroutine gets from it.** Its values, its faults and
what it does to the world are those without a share, if the host resumes it again after each forced
yield. A forced yield has no value, and comes after as many instructions of the coroutine's own loop
as its share. -/
theorem auto_yield_transparent (unaware : library.Unaware)
    (paired : s.processors.size = s.coroutines.size + 1)
    (unlimited : s.options.instructionLimit = none) (function : Value) {n : Nat} (on : 0 < n) :
    let c := (s.newCoroutine function).1
    let created := (s.newCoroutine function).2
    let shared := (Exec.setAutoYield c n created).2
    (∀ calls outcomes world,
      (∃ t, Session (Resumes library c) c calls created outcomes t ∧ t.world = world) ↔
        ∃ t, Session (Drives library c) c calls shared outcomes t ∧ t.world = world) ∧
    ∀ t arguments steps outcome t', Driven library c shared t →
      resumeRefusal (t.coroutineState c) arguments = none →
      perform? library steps (hostResume library .synchronous c arguments) t = (.done outcome, t') →
      t'.coroutineState c = .forceSuspended →
      outcome = .ok .void ∧ ownInstructions library c steps
        (ofMove (hostResume library .synchronous c arguments) t) = n := by
  intro c created shared
  have rests : created.Rests c := newCoroutine_rests paired unlimited function
  have metered : shared = created.metered c ⟨n, 0, s.instructionCount⟩ :=
    setAutoYield_newCoroutine paired function n
  rw [metered]
  refine ⟨fun calls outcomes world => ⟨?_, ?_⟩, ?_⟩
  · rintro ⟨t, session, rfl⟩
    obtain ⟨m, session⟩ := session_drives (m := ⟨n, 0, _⟩) unaware on rests session
    exact ⟨_, session, rfl⟩
  · rintro ⟨t, session, rfl⟩
    obtain ⟨s', m, rfl, resumed⟩ := session_resumes (m := ⟨n, 0, _⟩) unaware on rests session
    exact ⟨s', resumed, rfl⟩
  · intro t arguments steps outcome t' driven accepted performed forced
    have start : Between c n (created.metered c ⟨n, 0, s.instructionCount⟩) :=
      ⟨created.visit c, 0, .ok .void, _, rfl, .ended rests rfl⟩
    exact slice_exact unaware on (between_of_driven unaware on start driven) accepted
      (ending_eq_done.1 performed) forced

/-- The coroutine calls a routine that calls a function. It executes two instructions up to the
first forced yield. -/
theorem auto_yield_transparent_nested :
    let s := (Sample.loaded Sample.caller).state
    let c := (s.newCoroutine (.function ⟨0⟩)).1
    let shared := (Exec.setAutoYield c 2 (s.newCoroutine (.function ⟨0⟩)).2).2
    Library.Unaware Sample.library ∧ s.processors.size = s.coroutines.size + 1 ∧
    s.options.instructionLimit = none ∧
    (∃ v t, Session (Drives Sample.library c) c [[Sample.apply]] shared [(.ok v, .dead)] t) ∧
    ∃ t, perform? Sample.library 20 (hostResume Sample.library .synchronous c [Sample.apply]) shared =
        (.done (.ok .void), t) ∧ t.coroutineState c = .forceSuspended ∧
      ownInstructions Sample.library c 20
        (ofMove (hostResume Sample.library .synchronous c [Sample.apply]) shared) = 2 := by
  intro s c shared
  have unaware : Library.Unaware Sample.library := fun _ _ => .call fun _ => .finish _
  obtain ⟨sessions, slices⟩ := auto_yield_transparent (n := 2) (s := s) unaware rfl rfl
    (.function ⟨0⟩) (by decide)
  refine ⟨unaware, rfl, rfl, ?_, ?_⟩
  · have answered : (perform? Sample.library 60 (hostResume Sample.library .synchronous c
        [Sample.apply]) (s.newCoroutine (.function ⟨0⟩)).2).1 =
        .done (.ok (.number (.ofNat 7))) := by
      cbv
    have dead : (perform? Sample.library 60 (hostResume Sample.library .synchronous c
        [Sample.apply]) (s.newCoroutine (.function ⟨0⟩)).2).2.coroutineState c = .dead := by
      decide +kernel
    generalize performed : perform? Sample.library 60 (hostResume Sample.library .synchronous c
      [Sample.apply]) (s.newCoroutine (.function ⟨0⟩)).2 = result at answered dead
    obtain ⟨ended, t⟩ := result
    obtain rfl : ended = .done (.ok (.number (.ofNat 7))) := answered
    have alone : Session (Resumes Sample.library c) c [[Sample.apply]]
        (s.newCoroutine (.function ⟨0⟩)).2
        [(.ok (.number (.ofNat 7)), t.coroutineState c)] t :=
      .cons ⟨60, performed⟩ .nil
    obtain ⟨t', session, -⟩ := (sessions _ _ _).1 ⟨t, alone, rfl⟩
    rw [show t.coroutineState c = .dead from dead] at session
    exact ⟨_, t', session⟩
  · have stopped : (perform? Sample.library 20 (hostResume Sample.library .synchronous c
        [Sample.apply]) shared).1 = .done (.ok .void) := by cbv
    have forced : (perform? Sample.library 20 (hostResume Sample.library .synchronous c
        [Sample.apply]) shared).2.coroutineState c = .forceSuspended := by decide +kernel
    generalize performed : perform? Sample.library 20 (hostResume Sample.library .synchronous c
      [Sample.apply]) shared = result at stopped forced
    obtain ⟨ended, t⟩ := result
    obtain rfl : ended = .done (.ok .void) := stopped
    obtain ⟨-, executed⟩ := slices shared _ 20 _ t .start rfl performed forced
    exact ⟨t, rfl, forced, executed⟩

end Machine

end ScriptMachine
