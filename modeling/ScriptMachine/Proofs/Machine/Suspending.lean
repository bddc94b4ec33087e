import ScriptMachine.Proofs.Machine.Chain
import ScriptMachine.Proofs.Machine.Modes
import ScriptMachine.Proofs.Machine.Surfacing

/-!
# Calls that may be suspended

A call that blocks and a call that may be suspended end alike, as long as no error reaches those
whom a suspension has lost.

* `Machine.Sheltered`: none does.
* `Abreast`: the machines of the two calls. `Abreast.goes_on`: both take steps, and are abreast
  again.
* `suspended_call_agrees`: both calls end alike, or neither ends.
-/

namespace ScriptMachine

open Machine

variable {ν : Type} {library : Library ν}

/-- Nobody waits above `bottom` but an outermost loop, and guards of requested calls in front of
it. -/
inductive Kont.Bears (bottom : Kont ν .step) : Kont ν .step → Prop
  | loop (ip : Nat) : Bears bottom (.loop {} ip bottom)
  | protect {frame : Frame} {handler : NativeId} {mark : Mark} {k : Kont ν .step} :
      Bears bottom k → Bears bottom (.protect frame handler mark k)

namespace Machine

/-- The outermost loop of a call that blocks goes on. -/
def GoesOn (m : Machine ν) : Prop := ∃ ip mark, m.control = .execute ip mark (.nested (.exit .host))

/-- The outermost activation of a call that blocks waits for a task on behalf of a frame. -/
structure Awaits (m : Machine ν) (frame : Frame) (k : Kont ν .step) : Prop where
  current : m.state.current = .root
  nested : (m.state.processorOf .root).nestedCalls = 1
  control : ∃ task, m.control = .await task (.finish frame k)

/-- No script error is handed to these before the outermost loop goes on. -/
def Spares (library : Library ν) (k : Kont ν .step) (m : Machine ν) : Prop :=
  ∀ j e, (∀ l < j, ¬ ((step library)^[l] m).GoesOn) →
    ((step library)^[j] m).control ≠ .step (.error (.script e)) k

/-- A call that blocks does not need whom a suspension would lose. Whenever its outermost activation
waits for a task, a suspension leaves a loop at the address of the frame that waits; if another
waits there, or guards in front of it, no script error comes to them. -/
def Sheltered (library : Library ν) (m : Machine ν) : Prop :=
  ∀ i frame k, ((step library)^[i] m).Awaits frame k →
    k ≠ .loop {} (frame.returnAddress - 1) (.nested (.exit .host)) →
    Spares library k ((step library)^[i] m)

/-- The limit of nested calls is never reached at the root. -/
def Roomy (library : Library ν) (m : Machine ν) : Prop :=
  ∀ i, (((step library)^[i] m).state.processorOf .root).nestedCalls < maxNestedCalls

/-- No routine makes an asynchronous call of the root's where no frame stands for it. -/
def Engaged (library : Library ν) (m : Machine ν) : Prop :=
  ∀ i f args next k, ((step library)^[i] m).control = .run (.enterAsync f args next) k →
    ((step library)^[i] m).state.current = .root →
    1 < (((step library)^[i] m).state.processorOf .root).nestedCalls ∨
      0 < (((step library)^[i] m).state.processorOf .root).frames.size

/-- If routines ask for tasks, then `w` holds. -/
def Calm (library : Library ν) (w : Prop) (m : Machine ν) : Prop :=
  ∀ i r k, ((step library)^[i] m).control = .value (.ok (.await r)) k → w

/-- What is known of a call that blocks, at every moment. -/
structure Plain (library : Library ν) (m : Machine ν) : Prop where
  roomy : Roomy library m
  engaged : Engaged library m
  sheltered : Sheltered library m

theorem Plain.iterate {m : Machine ν} (plain : Plain library m) (n : Nat) :
    Plain library ((step library)^[n] m) where
  roomy i := by
    rw [← Function.iterate_add_apply]
    exact plain.roomy (i + n)
  engaged i f args next k := by
    rw [← Function.iterate_add_apply]
    exact plain.engaged (i + n) f args next k
  sheltered i frame k := by
    rw [← Function.iterate_add_apply]
    exact plain.sheltered (i + n) frame k

theorem Calm.iterate {w : Prop} {m : Machine ν} (calm : Calm library w m) (n : Nat) :
    Calm library w ((step library)^[n] m) := by
  intro i r k
  rw [← Function.iterate_add_apply]
  exact calm (i + n) r k

theorem Spares.step {k : Kont ν .step} {m : Machine ν} (spares : Spares library k m)
    (rests : ¬ m.GoesOn) : Spares library k (m.step library) := by
  intro j e before
  refine spares (j + 1) e fun l hl => ?_
  cases l with
  | zero => exact rests
  | succ l => exact before l (Nat.lt_of_succ_lt_succ hl)

end Machine

section Outermost

variable {G : Graft ν} {bottom k k' : Kont ν .step} {s : State ν}

/-- Nothing else waits where the outermost activation of the root runs. -/
theorem Kont.Grafts.borne (known : ∀ k ip, G = .cut k ip → Graft.whole.blocking.Bears k)
    {k k' : Kont ν .step} (grafts : k.Grafts G 0 .root true k') :
    Graft.whole.blocking.Bears k ∧ Graft.whole.suspending.Bears k' := by
  cases grafts with
  | base _ _ inLoop hk hk' =>
    subst hk hk'
    cases G with
    | whole => contradiction
    | cut k ip => exact ⟨known k ip rfl, .loop ip⟩
  | loop empty grafts =>
    obtain rfl := empty rfl rfl
    cases grafts with
    | base _ _ inLoop hk hk' =>
      subst hk hk'
      cases G with
      | whole => exact ⟨.loop _, .loop _⟩
      | cut => contradiction
    | nested depth => simp at depth
    | drive other => exact absurd rfl other
    | resumed other => exact absurd rfl other
  | protect grafts =>
    obtain ⟨blocking, suspending⟩ := grafts.borne known
    exact ⟨.protect blocking, .protect suspending⟩
termination_by k

variable (library) in
/-- What is not a script error passes all guards. -/
theorem Kont.Bears.reaches_loop (bears : bottom.Bears k) {r : Except Fault Step}
    (uncaught : ∀ e, r ≠ .error (.script e)) :
    ∃ j ip, (step library)^[j] ⟨.step r k, s⟩ = ⟨.step r (.loop {} ip bottom), s⟩ := by
  induction bears with
  | loop ip => exact ⟨0, ip, rfl⟩
  | @protect frame handler mark k _ ih =>
    obtain ⟨j, ip, reaches⟩ := ih
    refine ⟨j + 1, ip, ?_⟩
    have passed : Machine.step library ⟨.step r (.protect frame handler mark k), s⟩ =
        ⟨.step r k, s⟩ := by
      rcases r with (e | _) | _
      · exact absurd rfl (uncaught e)
      all_goals rfl
    rw [Function.iterate_succ_apply, passed, reaches]

variable (library) in
/-- A suspended call waits for its task on behalf of the host. -/
theorem Kont.Bears.reaches_drive (bears : Graft.whole.suspending.Bears k) (root : s.current = .root)
    (task : Task) :
    ∃ j, (step library)^[j] ⟨.step (.ok (.suspend (.await task))) k, s⟩ =
      ⟨.await task (.task .root Graft.whole.suspending), s⟩ := by
  obtain ⟨j, ip, reaches⟩ := bears.reaches_loop library (s := s)
    (r := .ok (.suspend (.await task))) fun _ => nofun
  refine ⟨2 + j, ?_⟩
  rw [Function.iterate_add_apply, reaches, ← root]
  rfl

end Outermost

namespace Machine

variable {w : Prop} {G : Graft ν} {s : State ν} {m m' : Machine ν}

theorem processorOf_blocking {n : Nat} (suspends : s.Suspends w n) :
    s.blocking.processorOf .root = (s.processorOf .root).guised .blocking :=
  s.processorOf_modifyProcessorOf (·.guised .blocking) suspends.inRange

theorem nestedCalls_blocking {n : Nat} (suspends : s.Suspends w n) :
    (s.blocking.processorOf .root).nestedCalls = n + 1 := by
  rw [processorOf_blocking suspends]
  exact congrArg (· + 1) suspends.nested

theorem Plain.room {control : Control ν} (plain : Plain library ⟨control, s.blocking⟩) {n : Nat}
    (suspends : s.Suspends w n) : n + 1 < maxNestedCalls :=
  nestedCalls_blocking suspends ▸ plain.roomy 0

theorem Plain.busy {control : Control ν} (plain : Plain library ⟨control, s.blocking⟩) {n : Nat}
    (suspends : s.Suspends w n) (f : Value) (args : List Value)
    (next : Except Fault Value → Program ν) (k : Kont ν .value)
    (enters : control = .run (.enterAsync f args next) k) (root : s.current = .root) :
    0 < n ∨ 0 < s.processor.frames.size := by
  have engaged : 1 < (s.blocking.processorOf .root).nestedCalls ∨
      0 < (s.blocking.processorOf .root).frames.size := plain.engaged 0 f args next k enters root
  rw [nestedCalls_blocking suspends, processorOf_blocking suspends] at engaged
  rw [State.processor, root]
  exact engaged.imp_left Nat.lt_of_succ_lt_succ

/-- The machines of a call that blocks, and of one that may be suspended. -/
inductive Abreast (library : Library ν) (w : Prop) : Machine ν → Machine ν → Prop
  /-- They do the same. -/
  | same {s : State ν} {n : Nat} {control control' : Control ν} : s.Suspends w n →
      control.Grafts .whole n s.current control' →
      Abreast library w ⟨control, s.blocking⟩ ⟨control', s⟩
  /-- They do the same above those whom a suspension has lost. No error comes to these. -/
  | spared {s : State ν} {n : Nat} {control control' : Control ν} {k : Kont ν .step} {ip : Nat} :
      s.Suspends w n → control.Grafts (.cut k ip) n s.current control' →
      Graft.whole.blocking.Bears k → Spares library k ⟨control, s.blocking⟩ →
      Abreast library w ⟨control, s.blocking⟩ ⟨control', s⟩
  /-- Both wait for a task, in place or suspended. -/
  | waits {s : State ν} {task : Task} {frame : Frame} {k : Kont ν .step} : w → s.Suspends w 0 →
      s.current = .root → Graft.whole.blocking.Bears k →
      Abreast library w ⟨.await task (.finish frame k), s.blocking⟩
        ⟨.await task (.task .root Graft.whole.suspending), s.parking frame⟩
  /-- There is no difference any more. -/
  | together (m : Machine ν) : Abreast library w m m

theorem twin_abreast {x y : Control ν × State ν} (twin : Twin w .whole x y) :
    Abreast library w ⟨x.1, x.2⟩ ⟨y.1, y.2⟩ := by
  obtain ⟨suspends, grafts⟩ := twin
  exact .same suspends grafts

variable (library) in
/-- The two calls are abreast after the steps in which one of them may be suspended. -/
theorem onward_abreast {x y : Control ν × State ν} (onward : Onward w G x y)
    (known : ∀ k ip, G = .cut k ip → Graft.whole.blocking.Bears k ∧ Spares library k ⟨x.1, x.2⟩) :
    ∃ j, Abreast library w ⟨x.1, x.2⟩ ((step library)^[j] ⟨y.1, y.2⟩) := by
  cases onward with
  | twin twin =>
    obtain ⟨suspends, grafts⟩ := twin
    refine ⟨0, ?_⟩
    cases G with
    | whole => exact .same suspends grafts
    | cut k ip => exact .spared suspends grafts (known k ip rfl).1 (known k ip rfl).2
  | @awaits s task frame k k' asked suspends root grafts =>
    obtain ⟨blocking, suspending⟩ := grafts.borne fun k ip hG => (known k ip hG).1
    obtain ⟨j, reaches⟩ := suspending.reaches_drive library (s := s.parking frame) root task
    refine ⟨j, ?_⟩
    rw [reaches]
    exact .waits asked suspends root blocking

/-- A suspended call goes on where it was. -/
theorem handValue_parking (asked : w) (suspends : s.Suspends w 0) (root : s.current = .root)
    (frame : Frame) (outcome : Except Fault Value) (k : Kont ν .step) :
    handValue library outcome (.task .root k) (s.parking frame) =
      handValue library outcome (.finish frame (.loop {} (frame.returnAddress - 1) k)) s := by
  have inRange : s.current.index < s.processors.size := root ▸ suspends.inRange
  have waiting : (s.parking frame).processor =
      { s.processor with pending := some (.deliver frame, {}) } :=
    s.processorOf_modifyProcessorOf _ inRange
  have back : (s.parking frame).modifyProcessor
      (fun p => { p with pending := none, sinceResume := 0 }) = s := by
    have idle : s.processor.pending = none ∧ s.processor.sinceResume = 0 := by
      rw [State.processor, root]
      exact ⟨suspends.waitless, suspends.unmetered asked⟩
    calc (s.parking frame).modifyProcessor fun p => { p with pending := none, sinceResume := 0 }
      _ = s.modifyProcessorOf s.current fun p => { p with pending := none, sinceResume := 0 } :=
        s.modifyProcessorOf_twice ..
      _ = s.modifyProcessorOf s.current id := by
        refine s.modifyProcessorOf_congr ?_
        change { s.processor with pending := none, sinceResume := 0 } = s.processor
        rw [← idle.1, ← idle.2]
      _ = s := by
        rw [State.modifyProcessorOf, show s.processors.modify s.current.index id = s.processors from
          Array.ext_getElem? fun i => by simp [Array.getElem?_modify]]
  have here : { s.parking frame with current := ThreadId.root } = s.parking frame := by
    rw [← root]
    rfl
  change resumePending library outcome true k { s.parking frame with current := .root } = _
  have pending : (s.parking frame).processor.pending = some (.deliver frame, {}) := by rw [waiting]
  rw [here, resumePending_deliver library outcome true k pending, back]
  cases outcome <;> rfl

/-- Where the calls end, what was different about them is undone. -/
theorem step_parted {control control' : Control ν} (parted : Parted .whole control control')
    (root : s.current = .root) :
    step library ⟨control, s.blocking⟩ = step library ⟨control', s⟩ := by
  obtain @⟨r, unsuspended⟩ := parted
  let pred (p : Processor) : Processor := { p with nestedCalls := p.nestedCalls - 1 }
  let left : State ν := s.modifyProcessor fun p => { p with asyncMode := false }
  have undone : s.blocking.modifyProcessor pred = left := by
    change s.blocking.modifyProcessorOf s.current pred = s.modifyProcessorOf s.current _
    rw [root]
    exact s.modifyProcessorOf_twice .root (·.guised .blocking) pred
  have ends : handStep library r Graft.whole.suspending s =
      (.value (expectReturn r) (.exit .host), left) := by
    rcases r with _ | (_ | _ | reason)
    · rfl
    · rfl
    · rfl
    · exact absurd rfl (unsuspended reason)
  have ends' : handStep library r Graft.whole.blocking s.blocking =
      (.value (expectReturn r) (.exit .host), left) := by
    rw [← undone]
    rfl
  change Machine.mk (handStep library r Graft.whole.blocking s.blocking).1
    (handStep library r Graft.whole.blocking s.blocking).2 =
    Machine.mk (handStep library r Graft.whole.suspending s).1
      (handStep library r Graft.whole.suspending s).2
  rw [ends, ends']

/-- A suspension leaves a loop at the address of the frame that waited. Where another waited, it is
lost. -/
theorem cut_off (k : Kont ν .step) (frame : Frame) :
    ∃ G : Graft ν,
      (∀ k' ip, G = .cut k' ip →
        k' = k ∧ k ≠ .loop {} (frame.returnAddress - 1) Graft.whole.blocking) ∧
      k.Grafts G 0 .root true (.loop {} (frame.returnAddress - 1) Graft.whole.suspending) := by
  by_cases same : k = .loop {} (frame.returnAddress - 1) Graft.whole.blocking
  · rw [same]
    exact ⟨.whole, nofun, .loop (fun _ _ => rfl) (.base rfl rfl rfl rfl rfl)⟩
  · refine ⟨.cut k (frame.returnAddress - 1), ?_, .base rfl rfl rfl rfl rfl⟩
    rintro k' ip ⟨⟩
    exact ⟨rfl, same⟩

/-- Above those whom a suspension lost, the outermost loop does not go on. -/
theorem cut_rests {control control' : Control ν} {n : Nat} {c : ThreadId} {k : Kont ν .step}
    {ip : Nat} (grafts : control.Grafts (.cut k ip) n c control') :
    ¬ GoesOn ⟨control, s⟩ := by
  rintro ⟨ip, mark, h⟩
  cases h
  obtain ⟨-, grafts⟩ := grafts
  cases grafts with
  | base _ _ inLoop => cases inLoop
  | nested _ grafts =>
    cases grafts with
    | exit grafts => cases grafts

section GoesOn

variable (modeless : library.Modeless) (suspends : s.Suspends w 0) (root : s.current = .root)

include modeless suspends root in
/-- What a suspension lost is not needed: the guards let the step pass, and both loops take it. -/
theorem spared_parted (ip : Nat) {k : Kont ν .step} {r : Except Fault Step}
    (bears : Graft.whole.blocking.Bears k) (room : 0 + 1 < maxNestedCalls)
    (spares : Spares library k ⟨.step r k, s.blocking⟩)
    (unsuspended : ∀ reason, r ≠ .ok (.suspend reason)) :
    ∃ i, 0 < i ∧ Abreast library w ((step library)^[i] ⟨.step r k, s.blocking⟩)
      (step library ⟨.step r (Graft.cut k ip).suspending, s⟩) := by
  have uncaught : ∀ e, r ≠ .error (.script e) := by
    rintro e rfl
    exact spares 0 e (fun _ => nofun) rfl
  obtain ⟨j, ip', reaches⟩ := bears.reaches_loop library (s := s.blocking) uncaught
  have base : (Graft.whole (ν := ν)).blocking.Grafts .whole 0 s.current false
      Graft.whole.suspending :=
    .base rfl root rfl rfl rfl
  refine ⟨1 + j, by omega, ?_⟩
  rw [Function.iterate_add_apply, reaches]
  suffices twin : Twin w .whole (handStep library r (.loop {} ip' Graft.whole.blocking) s.blocking)
      (handStep library r (.loop {} ip Graft.whole.suspending) s) from twin_abreast twin
  match r with
  | .ok (.proceed next) => exact .mk suspends (.execute (fun _ _ => rfl) base)
  | .ok (.return v) => exact twin_step suspends base fun _ => nofun
  | .ok (.suspend reason) => exact absurd rfl (unsuspended reason)
  | .error e =>
    have unwound : Twin w .whole (unwind library e ip {} Graft.whole.blocking s.blocking)
        (unwind library e ip {} Graft.whole.suspending s) :=
      unwind_twin modeless suspends base (fun _ => room) (fun _ _ => rfl) e ip
    -- a fault that cannot be caught is not attributed to an address
    cases e with
    | script e => exact absurd rfl (uncaught e)
    | _ => exact unwound

include modeless in
/-- **Both calls go on abreast.** -/
theorem Abreast.goes_on (abreast : Abreast library w m m') (plain : Plain library m)
    (calm : Calm library w m) :
    ∃ i j, 0 < i ∧ 0 < j ∧
      Abreast library w ((step library)^[i] m) ((step library)^[j] m') := by
  cases abreast with
  | together => exact ⟨1, 1, Nat.one_pos, Nat.one_pos, .together _⟩
  | @same s _ control control' suspends grafts =>
    obtain ⟨rfl, root, parted⟩ | onward := advance_onward modeless suspends
      (fun _ => plain.room suspends) grafts (plain.busy suspends) (calm 0)
    · refine ⟨1, 1, Nat.one_pos, Nat.one_pos, ?_⟩
      rw [Function.iterate_one, step_parted parted root]
      exact .together _
    · obtain ⟨j, abreast⟩ := onward_abreast library onward fun k ip => nofun
      exact ⟨1, j + 1, Nat.one_pos, Nat.succ_pos j, abreast⟩
  | @spared s _ control control' k ip suspends grafts bears spares =>
    have rests : ¬ GoesOn ⟨control, s.blocking⟩ := cut_rests grafts
    obtain ⟨rfl, root, ⟨unsuspended⟩⟩ | onward := advance_onward modeless suspends
      (fun _ => plain.room suspends) grafts (plain.busy suspends) (calm 0)
    · obtain ⟨i, pos, abreast⟩ := spared_parted modeless suspends root ip bears
        (plain.room suspends) spares unsuspended
      exact ⟨i, 1, pos, Nat.one_pos, abreast⟩
    · obtain ⟨j, abreast⟩ := onward_abreast library onward fun k ip h => by
        cases h
        exact ⟨bears, spares.step rests⟩
      exact ⟨1, j + 1, Nat.one_pos, Nat.succ_pos j, abreast⟩
  | @waits s task frame k asked suspends root bears =>
    match task with
    | .never => exact ⟨1, 1, Nat.one_pos, Nat.one_pos, .waits asked suspends root bears⟩
    | .settles outcome =>
      obtain ⟨G, known, grafts⟩ := cut_off k frame
      rw [← root] at grafts
      have settled : Onward w G (handValue library outcome (.finish frame k) s.blocking)
          (handValue library outcome (.task .root Graft.whole.suspending) (s.parking frame)) := by
        rw [handValue_parking asked suspends root]
        exact handValue_onward modeless suspends (fun _ => plain.room suspends)
          (.finish grafts) outcome fun _ _ => asked
      obtain ⟨j, abreast⟩ := onward_abreast library settled fun k' ip h => by
        obtain ⟨rfl, other⟩ := known k' ip h
        have awaits : Awaits ⟨.await (.settles outcome) (.finish frame k'), s.blocking⟩ frame k' :=
          ⟨root, nestedCalls_blocking suspends, _, rfl⟩
        exact ⟨bears, ((plain.sheltered 0 frame k' awaits other).step nofun).step nofun⟩
      exact ⟨2, j + 2, Nat.two_pos, Nat.succ_pos _, abreast⟩

end GoesOn

section Meets

theorem iterate_of_halted (halted : m.isHalted = true) (n : Nat) : (step library)^[n] m = m :=
  Function.iterate_fixed (step_of_halted halted) n

variable {R : Machine ν → Machine ν → Prop} (goes_on : ∀ m m', R m m' →
  ∃ i j, 0 < i ∧ 0 < j ∧ R ((step library)^[i] m) ((step library)^[j] m'))

include goes_on

/-- Where one of two machines has halted that go on abreast, the other gets abreast of it. -/
theorem meets (related : R m m') {n : Nat} (halted : ((step library)^[n] m).isHalted = true) :
    ∃ n', R ((step library)^[n] m) ((step library)^[n'] m') := by
  induction n using Nat.strongRecOn generalizing m m' with
  | ind n ih =>
    obtain ⟨i, j, pos, -, after⟩ := goes_on m m' related
    by_cases enough : i ≤ n
    · obtain ⟨rest, rfl⟩ := Nat.exists_eq_add_of_le' enough
      rw [Function.iterate_add_apply] at halted ⊢
      obtain ⟨n', meets⟩ := ih rest (Nat.lt_add_of_pos_right pos) after halted
      refine ⟨n' + j, ?_⟩
      rwa [Function.iterate_add_apply]
    · -- it halts before it takes those steps
      obtain ⟨rest, rfl⟩ := Nat.exists_eq_add_of_le' (Nat.le_of_not_le enough)
      rw [Function.iterate_add_apply, iterate_of_halted halted] at after
      exact ⟨j, after⟩

theorem met (related : R m m') {n : Nat} (halted : ((step library)^[n] m').isHalted = true) :
    ∃ n', R ((step library)^[n'] m) ((step library)^[n] m') := by
  refine meets (R := fun m' m => R m m') (fun a b h => ?_) related halted
  obtain ⟨i, j, pos, pos', after⟩ := goes_on b a h
  exact ⟨j, i, pos', pos, after⟩

end Meets

theorem ends_grafted {s' : State ν} {n : Nat} {c : ThreadId} {control control' : Control ν}
    (grafts : control.Grafts G n c control') :
    isHalted ⟨control, s⟩ = isHalted ⟨control', s'⟩ ∧ ending ⟨control, s⟩ = ending ⟨control', s'⟩ ∧
      ∀ outcome, ending ⟨control, s⟩ ≠ .done outcome := by
  have goes : ∀ outcome, Ending.exhausted ≠ .done outcome := fun _ => nofun
  have stalls : ∀ outcome, Ending.stalled ≠ .done outcome := fun _ => nofun
  cases grafts with
  | execute | run | step => exact ⟨rfl, rfl, goes⟩
  | value grafts => cases grafts <;> exact ⟨rfl, rfl, goes⟩
  | @await task =>
    cases task with
    | never => exact ⟨rfl, rfl, stalls⟩
    | settles => exact ⟨rfl, rfl, goes⟩

/-- Calls that are abreast have ended alike. -/
theorem Abreast.ends (abreast : Abreast library w m m') :
    m.isHalted = m'.isHalted ∧ m.ending = m'.ending ∧
      (m = m' ∨ ∀ outcome, m.ending ≠ .done outcome) := by
  have goes : ∀ outcome, Ending.exhausted ≠ .done outcome := fun _ => nofun
  have stalls : ∀ outcome, Ending.stalled ≠ .done outcome := fun _ => nofun
  cases abreast with
  | together => exact ⟨rfl, rfl, .inl rfl⟩
  | same _ grafts | spared _ grafts =>
    obtain ⟨halted, ends, unfinished⟩ := ends_grafted grafts
    exact ⟨halted, ends, .inr unfinished⟩
  | @waits s task =>
    cases task with
    | never => exact ⟨rfl, rfl, .inr stalls⟩
    | settles => exact ⟨rfl, rfl, .inr goes⟩

theorem Abreast.world (abreast : Abreast library w m m') : m.state.world = m'.state.world := by
  cases abreast <;> rfl

/-- What a host asks for, at its beginning. -/
def begun (request : Move ν (Control ν)) (s : State ν) : Machine ν := ⟨(request s).1, (request s).2⟩

theorem perform?_eq_iterate (request : Move ν (Control ν)) (s : State ν) (n : Nat) :
    perform? library n request s =
      (((step library)^[n] (begun request s)).ending,
        ((step library)^[n] (begun request s)).state) := by
  rw [← run_eq_iterate]
  rfl

theorem halted_of_ending {ended : Ending} (h : m.ending = ended) (some : ended ≠ .exhausted) :
    m.isHalted = true := by
  subst h
  unfold ending at some
  unfold isHalted
  split at some
  · simp only [*]
  · simp only [*]
  · exact absurd rfl some

section Ends

variable (modeless : library.Modeless) (abreast : Abreast library w m m') (plain : Plain library m)
  (calm : Calm library w m)

include modeless in
theorem together_goes_on (m m' : Machine ν)
    (h : Abreast library w m m' ∧ Plain library m ∧ Calm library w m) :
    ∃ i j, 0 < i ∧ 0 < j ∧ Abreast library w ((step library)^[i] m) ((step library)^[j] m') ∧
      Plain library ((step library)^[i] m) ∧ Calm library w ((step library)^[i] m) := by
  obtain ⟨abreast, plain, calm⟩ := h
  obtain ⟨i, j, pos, pos', after⟩ := abreast.goes_on modeless plain calm
  exact ⟨i, j, pos, pos', after, plain.iterate i, calm.iterate i⟩

include modeless abreast plain calm

theorem Abreast.meets {n : Nat} (halted : ((step library)^[n] m).isHalted = true) :
    ∃ n', Abreast library w ((step library)^[n] m) ((step library)^[n'] m') :=
  (Machine.meets (together_goes_on modeless) ⟨abreast, plain, calm⟩ halted).imp fun _ => And.left

theorem Abreast.met {n : Nat} (halted : ((step library)^[n] m').isHalted = true) :
    ∃ n', Abreast library w ((step library)^[n'] m) ((step library)^[n] m') :=
  (Machine.met (together_goes_on modeless) ⟨abreast, plain, calm⟩ halted).imp fun _ => And.left

end Ends

end Machine

/-- The root is ready for a call: it runs nothing, and nothing is left of earlier calls. -/
structure State.Vacant (s : State ν) : Prop where
  current : s.current = .root
  inRange : ThreadId.root.index < s.processors.size
  frames : (s.processorOf .root).frames = #[]
  stack : (s.processorOf .root).stack.size = 0
  nested : (s.processorOf .root).nestedCalls = 0
  async : (s.processorOf .root).asyncMode = false
  pending : (s.processorOf .root).pending = none

namespace Machine

variable {w : Prop} {s : State ν}

/-- A call of a vacant root is made in both modes. -/
theorem called_abreast (modeless : library.Modeless) (vacant : s.Vacant)
    (awaits : w → s.options.autoAwait = true)
    (unmetered : w → (s.processorOf .root).sinceResume = 0) (function : Value)
    (arguments : List Value) :
    Abreast library w (begun (callNested library function arguments (.exit .host)) s)
      (begun (driveAsync library function arguments (.exit .host)) s) := by
  let driven : State ν := s.modifyProcessor fun p => { p with asyncMode := true }
  have here : s.processor = s.processorOf .root := by rw [State.processor, vacant.current]
  have idle : s.processor.nestedCalls = 0 ∧ s.processor.asyncMode = false ∧
      s.processor.frames.size = 0 := by
    rw [here, vacant.frames]
    exact ⟨vacant.nested, vacant.async, rfl⟩
  have shown : driven.processorOf .root = { s.processorOf .root with asyncMode := true } := by
    rw [← vacant.current]
    exact s.processorOf_modifyProcessorOf _ (vacant.current ▸ vacant.inRange)
  have suspends : driven.Suspends w 0 := by
    refine ⟨?_, ?_, ?_, ?_, ?_, awaits⟩
    · simpa [driven, State.modifyProcessor, State.modifyProcessorOf] using vacant.inRange
    all_goals rw [shown]
    · exact vacant.nested
    · exact vacant.pending
    · exact unmetered
  have nested : driven.blocking =
      s.modifyProcessor fun p => { p with nestedCalls := p.nestedCalls + 1 } := by
    calc driven.blocking
      _ = s.modifyProcessorOf s.current fun p =>
          ({ p with asyncMode := true } : Processor).guised .blocking := by
        rw [State.blocking, State.guised, ← vacant.current]
        exact s.modifyProcessorOf_twice s.current (fun p => { p with asyncMode := true })
          (·.guised .blocking)
      _ = s.modifyProcessor fun p => { p with nestedCalls := p.nestedCalls + 1 } := by
        refine s.modifyProcessorOf_congr ?_
        change ({ s.processor with asyncMode := true } : Processor).guised .blocking =
          { s.processor with nestedCalls := s.processor.nestedCalls + 1 }
        simp only [Processor.guised, Guise.blocking, idle.2.1]
        rfl
  have called : callNested library function arguments (.exit .host) s =
      executeCall library function arguments {} none Graft.whole.blocking driven.blocking := by
    rw [nested]
    change (if maxNestedCalls ≤ s.processor.nestedCalls then _ else _ : Move ν (Control ν)) s = _
    rw [idle.1]
    rfl
  have calledAsync : driveAsync library function arguments (.exit .host) s =
      executeCall library function arguments {} none Graft.whole.suspending driven := by
    change (if (0 < s.processor.nestedCalls || 0 < s.processor.frames.size) = true then _ else
      (do
        setAsync true
        executeCall library function arguments {} none (.drive s.processor.asyncMode (.exit .host))
        : Move ν (Control ν)) : Move ν (Control ν)) s = _
    rw [idle.1, idle.2.1, idle.2.2]
    rfl
  have unmarked : mark driven = {} := by
    rw [mark, State.processor, show driven.current = .root from vacant.current, shown]
    simp only [vacant.frames, vacant.stack]
    rfl
  have twin : Twin w .whole (callNested library function arguments (.exit .host) s)
      (driveAsync library function arguments (.exit .host) s) := by
    rw [called, calledAsync]
    exact executeCall_twin modeless suspends (.base rfl vacant.current rfl rfl rfl)
      (fun _ _ => unmarked) ..
  exact twin_abreast twin

/-- **Calls that block and calls that may be suspended end alike.** No routine observes the mode,
tasks are awaited where a call blocks, and the root is vacant and unmetered. The call that blocks
stays below the limit of nested calls, makes no asynchronous call of the root where no frame stands
for it, and no error reaches those whom a suspension would lose. Then both calls end with the same
outcome in the same state, or both wait for a task that never settles, in the same world, or neither
ends. -/
theorem suspended_call_agrees (modeless : library.Modeless) (vacant : s.Vacant)
    (unmetered : (s.processorOf .root).sinceResume = 0) (awaits : s.options.autoAwait = true)
    (function : Value) (arguments : List Value)
    (plain : Plain library (begun (call library function arguments) s)) :
    (∀ outcome t,
      (∃ n, perform? library n (call library function arguments) s = (.done outcome, t)) ↔
        ∃ n, perform? library n (callAsync library function arguments) s = (.done outcome, t)) ∧
    ∀ world : World ν,
      (∃ n t, perform? library n (call library function arguments) s = (.stalled, t) ∧
          t.world = world) ↔
        ∃ n t, perform? library n (callAsync library function arguments) s = (.stalled, t) ∧
          t.world = world := by
  let entered : State ν := { s with entries := s.entries + 1 }
  have ready : entered.Vacant := ⟨vacant.current, vacant.inRange, vacant.frames, vacant.stack,
    vacant.nested, vacant.async, vacant.pending⟩
  have abreast : Abreast library True (begun (call library function arguments) s)
      (begun (callAsync library function arguments) s) :=
    called_abreast (s := entered) modeless ready (fun _ => awaits) (fun _ => unmetered) ..
  have calm : Calm library True (begun (call library function arguments) s) :=
    fun _ _ _ _ => trivial
  simp only [perform?_eq_iterate, Prod.mk.injEq]
  refine ⟨fun outcome t => ⟨?_, ?_⟩, fun world => ⟨?_, ?_⟩⟩
  · rintro ⟨n, ended, rfl⟩
    obtain ⟨n', met⟩ := abreast.meets modeless plain calm (halted_of_ending ended nofun)
    obtain ⟨-, ends, same | unfinished⟩ := met.ends
    · exact ⟨n', ends ▸ ended, same ▸ rfl⟩
    · exact absurd ended (unfinished outcome)
  · rintro ⟨n, ended, rfl⟩
    obtain ⟨n', met⟩ := abreast.met modeless plain calm (halted_of_ending ended nofun)
    obtain ⟨-, ends, same | unfinished⟩ := met.ends
    · exact ⟨n', ends ▸ ended, same ▸ rfl⟩
    · exact absurd (ends ▸ ended) (unfinished outcome)
  · rintro ⟨n, _, ⟨ended, rfl⟩, rfl⟩
    obtain ⟨n', met⟩ := abreast.meets modeless plain calm (halted_of_ending ended nofun)
    exact ⟨n', _, ⟨met.ends.2.1 ▸ ended, rfl⟩, met.world.symm⟩
  · rintro ⟨n, _, ⟨ended, rfl⟩, rfl⟩
    obtain ⟨n', met⟩ := abreast.met modeless plain calm (halted_of_ending ended nofun)
    exact ⟨n', _, ⟨met.ends.2.1 ▸ ended, rfl⟩, met.world⟩

end Machine

/-- Only the outermost loop waits, at the call that made the frame. -/
def Kont.isLoopOf (frame : Frame) : Kont ν .step → Bool
  | .loop mark ip (.nested (.exit .host)) =>
    decide (mark = {}) && decide (ip = frame.returnAddress - 1)
  | _ => false

theorem Kont.eq_of_isLoopOf {frame : Frame} {k : Kont ν .step} (h : k.isLoopOf frame = true) :
    k = .loop {} (frame.returnAddress - 1) (.nested (.exit .host)) := by
  unfold isLoopOf at h
  split at h
  · simp only [Bool.and_eq_true, decide_eq_true_eq] at h
    rw [h.1, h.2]
  · contradiction

namespace Machine

variable {m : Machine ν}

/-- What a plain call shows at one moment. Where its outermost activation waits, nobody is lost. -/
def showsPlain (m : Machine ν) : Bool :=
  let p := m.state.processorOf .root
  decide (p.nestedCalls < maxNestedCalls) &&
    match m.control with
    | .run (.enterAsync ..) _ =>
      decide (m.state.current = .root → 1 < p.nestedCalls ∨ 0 < p.frames.size)
    | .await _ (.finish frame k) =>
      decide (m.state.current = .root → p.nestedCalls = 1 → k.isLoopOf frame = true)
    | _ => true

/-- What holds until a machine has halted holds ever after. -/
theorem forall_of_halted {P : Machine ν → Prop} {n : Nat}
    (halted : ((step library)^[n] m).isHalted = true)
    (holds : ∀ i ≤ n, P ((step library)^[i] m)) (i : Nat) : P ((step library)^[i] m) := by
  obtain early | late := Nat.le_total i n
  · exact holds i early
  · obtain ⟨rest, rfl⟩ := Nat.exists_eq_add_of_le' late
    rw [Function.iterate_add_apply, iterate_of_halted halted]
    exact holds n (Nat.le_refl n)

/-- A call is plain if it shows so at every moment. -/
theorem plain_of_shows (shown : ∀ i, ((step library)^[i] m).showsPlain = true) :
    Plain library m := by
  refine ⟨fun i => ?_, fun i f args next k runs root => ?_, fun i frame k awaits other => ?_⟩
  · have now := shown i
    simp only [showsPlain, Bool.and_eq_true, decide_eq_true_eq] at now
    exact now.1
  · have now := shown i
    simp only [showsPlain, runs, Bool.and_eq_true, decide_eq_true_eq] at now
    exact now.2 root
  · have now := shown i
    obtain ⟨current, nested, task, control⟩ := awaits
    simp only [showsPlain, control, Bool.and_eq_true, decide_eq_true_eq] at now
    exact absurd (Kont.eq_of_isLoopOf (now.2 current nested)) other

end Machine

namespace Sample

open Machine

/-- The only routine waits for a task that has settled with its argument. -/
def patient : Library Unit := fun _ i =>
  .change (fun w =>
    let (v, heap) := w.heap.newAwait (.settles (.ok (i.arguments.get 0)))
    (.ok v, { w with heap })) .finish

theorem patient_modeless : patient.Modeless := fun _ _ => .change fun _ => .finish _

/-- A function is loaded that calls the routine. Tasks may be awaited. -/
def waiting : State Unit := { (loaded caller).state with options := { autoAwait := true } }

end Sample

namespace Machine

/-- A function waits for a task inside a call, and goes on. -/
theorem suspended_call_agrees_waiting :
    let s := Sample.waiting
    let arguments := [Sample.apply]
    s.Vacant ∧ Plain Sample.patient (begun (call Sample.patient (.function ⟨0⟩) arguments) s) ∧
    ∃ n t, perform? Sample.patient n (callAsync Sample.patient (.function ⟨0⟩) arguments) s =
      (.done (.ok (.function ⟨1⟩)), t) := by
  intro s arguments
  have vacant : s.Vacant := ⟨rfl, by decide, rfl, rfl, rfl, rfl, rfl⟩
  have plain : Plain Sample.patient (begun (call Sample.patient (.function ⟨0⟩) arguments) s) :=
    plain_of_shows (forall_of_halted (P := (·.showsPlain = true)) (n := 20) (by decide +kernel)
      (by decide +kernel))
  refine ⟨vacant, plain, ?_⟩
  obtain ⟨t, blocks⟩ : ∃ t, perform? Sample.patient 20
      (call Sample.patient (.function ⟨0⟩) arguments) s = (.done (.ok (.function ⟨1⟩)), t) := by
    have answered : (perform? Sample.patient 20 (call Sample.patient (.function ⟨0⟩)
        arguments) s).1 = .done (.ok (.function ⟨1⟩)) := by cbv
    exact ⟨_, Prod.ext answered rfl⟩
  obtain ⟨n, suspends⟩ := ((suspended_call_agrees Sample.patient_modeless vacant rfl rfl
    (.function ⟨0⟩) arguments plain).1 (.ok (.function ⟨1⟩)) t).1 ⟨20, blocks⟩
  exact ⟨n, t, suspends⟩

open Host in
/-- A protected call of a native whose task fails. Where the call blocks, the handler gets the
error; where it is suspended, nobody does. -/
theorem suspended_guard_lost :
    let arguments := [Builtin.global .afail, .string "x"]
    let s := Host.newState { autoAwait := true }
    (perform? Host.library 40 (call Host.library (Builtin.global .pcall) arguments) s).1 matches
      .done (.ok (.tuple [.boolean false, .string "x"])) ∧
    (perform? Host.library 40 (callAsync Host.library (Builtin.global .pcall) arguments) s).1
      matches .done (.error (.script _)) := by
  decide +kernel

end Machine

end ScriptMachine
