import ScriptMachine.Proofs.Machine.Driving
import ScriptMachine.Proofs.Machine.Requests
import ScriptMachine.Proofs.Machine.Trailing

/-!
# Tail calls are transparent

Whether a tail call takes over the frame that makes it cannot be told from what a program does.

* `exists_trails`: what a run is matched by that takes over every frame it can.
* `tail_calls_transparent`: two runs that take frames over at different depths call the same native
  functions and end alike.
-/

namespace ScriptMachine

variable {ν : Type} {library : Library ν} {s t : State ν}

namespace Machine

variable {M : Manner library} {m w : Machine ν} {n : Nat}

/-- What a run is matched by that takes over every frame it can. -/
theorem exists_trails {discreet : library.Discreet} (h : Trails (Manner.discreet discreet) m n w)
    (steady : Steady library m) (j : Nat) :
    ∃ k n', j ≤ k ∧
      Trails (Manner.discreet discreet) ((step library)^[k] m) n' ((step library)^[j] w) ∧
      invoked library k m = invoked library j w := by
  induction j with
  | zero => exact ⟨0, n, Nat.le_refl 0, h, rfl⟩
  | succ j ih =>
    obtain ⟨k, n', le, trails, same⟩ := ih
    have later := steady.later k
    have joined : ∀ i, (step library)^[k + i] m = (step library)^[i] ((step library)^[k] m) := fun i => by
      rw [Nat.add_comm, Function.iterate_add_apply]
    rw [invoked_add j 1, invoked_one, Function.iterate_succ_apply']
    by_cases tail : ((step library)^[j] w).AtTail
    · obtain ⟨call, n'', trails⟩ := trails_tail trails later tail
      refine ⟨k + 1, n'', Nat.succ_le_succ le, joined 1 ▸ trails, ?_⟩
      rw [invoked_add k 1, invoked_one, same, call]
    · obtain ⟨i, pos, trails, calls⟩ := trails_step discreet trails later tail
      refine ⟨k + i, n', by omega, joined i ▸ trails, ?_⟩
      rw [invoked_add, same, calls]

theorem step_of_ended {r : Except Fault Value} (ended : m.control = .value r .host)
    (library : Library ν) : m.step library = m :=
  step_of_halted (by unfold isHalted; rw [ended])

theorem iterate_of_ended {r : Except Fault Value} (ended : m.control = .value r .host) (n : Nat) :
    (step library)^[n] m = m :=
  Function.iterate_fixed (step_of_ended ended library) n

/-- A run that has ended stays where it is. -/
theorem iterate_of_le {r : Except Fault Value} {n j : Nat}
    (ended : ((step library)^[n] m).control = .value r .host) (le : n ≤ j) :
    (step library)^[j] m = (step library)^[n] m := by
  obtain ⟨i, rfl⟩ := Nat.exists_eq_add_of_le le
  rw [Nat.add_comm, Function.iterate_add_apply, iterate_of_ended ended]

/-- A run that has ended calls nothing. -/
theorem invoked_of_ended {r : Except Fault Value} (ended : m.control = .value r .host) (n : Nat) :
    invoked library n m = [] := by
  have none : m.invokes? = none := invokes?_eq_none fun library p k => by
    rw [step_of_ended ended, ended]
    exact nofun
  unfold invoked
  refine List.filterMap_eq_nil_iff.2 fun j _ => ?_
  rw [iterate_of_ended ended, none]

theorem invoked_prefix {a b : Nat} (le : a ≤ b) (m : Machine ν) :
    invoked library a m <+: invoked library b m := by
  obtain ⟨i, rfl⟩ := Nat.exists_eq_add_of_le le
  rw [invoked_add]
  exact List.prefix_append ..

/-- What a host can tell of two runs: the native functions they call, and how they end. -/
structure Akin (library : Library ν) (m w : Machine ν) : Prop where
  calls : ∀ n, ∃ n', invoked library n m <+: invoked library n' w
  ends : ∀ n r, ((step library)^[n] m).control = .value r .host →
    ∃ n' r', ((step library)^[n'] w).control = .value r' .host ∧ Concurs r r' ∧
      invoked library n m = invoked library n' w

/-- Two runs are alike that are matched by one that takes over every frame it can. -/
theorem akin_of_trails {discreet : library.Discreet} {m' : Machine ν} {n' : Nat}
    (h : Trails (Manner.discreet discreet) m n w) (h' : Trails (Manner.discreet discreet) m' n' w)
    (steady : Steady library m) (steady' : Steady library m') : Akin library m m' := by
  refine ⟨fun j => ?_, fun j r ended => ?_⟩
  all_goals
    obtain ⟨k, i, le, trails, same⟩ := exists_trails h steady j
    obtain ⟨k', i', -, trails', same'⟩ := exists_trails h' steady' j
  · exact ⟨k', same' ▸ same ▸ invoked_prefix le m⟩
  · rw [iterate_of_le ended le] at trails
    obtain ⟨d, rfl⟩ := Nat.exists_eq_add_of_le le
    rw [invoked_add, invoked_of_ended ended, List.append_nil] at same
    obtain ⟨r', ended', concurs⟩ :=
      (trails.endsWith.trans trails'.endsWith.symm).outcome ended
    exact ⟨k', r', ended', concurs, same.trans same'.symm⟩

end Machine

/-- The same state, where frames are taken over when there are more than so many. -/
def State.atThreshold (s : State ν) (n : Nat) : State ν :=
  { s with options := { s.options with tailCallThreshold := n } }

/-- No function has been entered, nothing counts instructions, and no thread has a share of them. -/
structure State.Unstarted (s : State ν) : Prop where
  root : s.AtRoot
  kept : s.Kept
  empty : ∀ c, s.framesOf c = []
  idle : ∀ c, ¬ s.Stopped c
  limit : s.options.instructionLimit = none
  shares : ∀ c, (s.processorOf c).autoYield = 0
  pending : ∀ c, (s.processorOf c).pending = none

namespace State.Unstarted

theorem atThreshold (h : s.Unstarted) (n : Nat) : (s.atThreshold n).Unstarted :=
  ⟨⟨h.root.size, h.root.current⟩, ⟨h.kept.own, h.kept.apart, h.kept.once, h.kept.listed⟩, h.empty,
    h.idle, h.limit, h.shares, h.pending⟩

theorem trims (h : s.Unstarted) (n : Nat) : (s.atThreshold n).Trims none (s.atThreshold 0) := by
  have eager : (s.atThreshold n).eager = s.atThreshold 0 := rfl
  rw [← eager]
  refine State.trims_eager h.limit h.shares fun c => ?_
  change PendingTrim (s.processorOf c).pending (s.processorOf c).pending
  rw [h.pending]
  exact .none

end State.Unstarted

namespace Machine

/-- A call of the host begins alike, whichever frames are taken over. -/
theorem lockstep_hostCall (discreet : library.Discreet) {move : Move ν (Control ν)}
    (request : HostCall library move) (h : Spared none .root 0 s t) : Lockstep none s t move move := by
  cases request with
  | call function arguments =>
    exact lockstep_modify (lockstep_callNested discreet (h.counting (· + 1)) _ _ (.exit .host))
  | thisCall object method arguments =>
    exact lockstep_modify (lockstep_indexNested discreet (h.counting (· + 1)) _ _
      (.method (.exit .host)))
  | callAsync function arguments =>
    exact lockstep_modify (lockstep_driveAsync discreet (h.counting (· + 1)) _ _ (.exit .host))
  | thisCallAsync object method arguments =>
    exact lockstep_modify (lockstep_indexNested discreet (h.counting (· + 1)) _ _
      (.asyncMethod (.exit .host)))

/-- A run trails itself with every frame taken over that can be. -/
theorem trails_begin (discreet : library.Discreet) {move : Move ν (Control ν)}
    (request : HostCall library move) (h : s.Unstarted) (n : Nat)
    (steady : Steady library (ofMove move (s.atThreshold n))) :
    Trails (Manner.discreet discreet) (ofMove move (s.atThreshold n)) 0
      (ofMove move (s.atThreshold 0)) := by
  have begun := h.atThreshold n
  have here : (s.atThreshold n).HasCurrent := begun.root.sound.hasCurrent
  have spared : Spared none .root 0 (s.atThreshold n) (s.atThreshold 0) :=
    ⟨begun.root.current, here, begun.kept, h.trims n, Nat.zero_le _⟩
  have order : Orderly (Manner.discreet discreet) (move (s.atThreshold n)) :=
    Orderly.begin begun.root begun.kept begun.empty begun.idle request
  have led : Tallies none (move (s.atThreshold n)) (move (s.atThreshold 0)) :=
    lockstep_hostCall discreet request spared
  cases led with
  | overflows full _ => exact absurd (full.symm.trans (steady.room 0)) nofun
  | same control state | gone control state => exact .last order ⟨control, state⟩

end Machine

instance State.decidableUnmetered (s : State ν) : Decidable s.Unmetered :=
  decidable_of_iff (s.options.instructionLimit = none ∧ s.processor.autoYield = 0 ∧
      s.world.debugger = none)
    ⟨fun ⟨limit, share, debugger⟩ => ⟨limit, share, debugger⟩,
      fun ⟨limit, share, debugger⟩ => ⟨limit, share, debugger⟩⟩

instance State.decidableSpans (s : State ν) (ip : Nat) : Decidable (s.Spans ip) :=
  match found : s.instructionAt ip with
  | .error _ => isTrue fun _ _ _ other => by cases found.symm.trans other
  | .ok ((_, scope), i) =>
    decidable_of_iff (scope.base + i.span ≤ s.processor.stack.size)
      ⟨fun le _ _ _ other => by cases found.symm.trans other; exact le, fun spans => spans _ _ _ found⟩

/-- The cell is no slot of the thread from that one on. -/
def Cell.Below (c : ThreadId) (n : Nat) (cell : Cell) : Prop := ∀ k, cell = .opened c k → k < n

instance Cell.decidableBelow (c : ThreadId) (n : Nat) (cell : Cell) : Decidable (cell.Below c n) :=
  match cell with
  | .closed _ => isTrue fun _ other => by cases other
  | .opened o i =>
    decidable_of_iff (o = c → i < n)
      ⟨fun h _ other => by cases other; exact h rfl, fun h same => h i (same ▸ rfl)⟩

instance State.decidableSettled (s : State ν) (ip : Nat) : Decidable (s.Settled ip) :=
  match found : s.instructionAt ip, frames : s.processor.frames.toList.reverse with
  | .error _, _ => isTrue fun _ _ _ _ _ other => by cases found.symm.trans other
  | .ok _, [] => isTrue fun _ _ _ _ _ _ _ other => by cases frames.symm.trans other
  | .ok ((p, _), i), f :: rest =>
    decidable_of_iff (i.op = .tailCall →
        (∃ j ∈ p.code[ip + 1]?, j.op = .ret ∧ j.a ≠ 0) ∧ 0 < f.base ∧
        (∀ y ∈ f.cells, (s.cell y).Below s.current (s.processor.stack.size - Exec.operand i.a - 1)) ∧
        ∀ q ∈ rest, ∀ y ∈ q.cells, (s.cell y).Below s.current f.activation.floor)
      ⟨fun h _ _ _ _ _ other tail frames' => by
        cases found.symm.trans other
        cases frames.symm.trans frames'
        exact h tail, fun h tail => h _ _ _ _ _ found tail frames⟩

namespace Machine

variable {m : Machine ν}

instance decidableModest (m : Machine ν) : Decidable m.Modest :=
  match executes : m.control with
  | .execute ip _ _ =>
    decidable_of_iff (m.state.Unmetered ∧ m.state.Spans ip)
      ⟨fun ⟨free, spans⟩ _ _ _ other => by cases executes.symm.trans other; exact ⟨free, spans⟩,
        fun h => ⟨(h _ _ _ executes).free, (h _ _ _ executes).spans⟩⟩
  | .run .. | .value .. | .await .. | .step .. =>
    isTrue fun _ _ _ other => by cases executes.symm.trans other

instance decidableSettled (m : Machine ν) : Decidable m.Settled :=
  match executes : m.control with
  | .execute ip _ _ =>
    decidable_of_iff (m.state.Settled ip)
      ⟨fun h _ _ _ other => by cases executes.symm.trans other; exact h, fun h => h _ _ _ executes⟩
  | .run .. | .value .. | .await .. | .step .. =>
    isTrue fun _ _ _ other => by cases executes.symm.trans other

/-- What holds until a run has ended holds for good. -/
theorem forall_of_ended {P : Machine ν → Prop} {n : Nat} {r : Except Fault Value}
    (ended : ((step library)^[n] m).control = .value r .host) (last : P ((step library)^[n] m))
    (before : ∀ j < n, P ((step library)^[j] m)) (j : Nat) : P ((step library)^[j] m) := by
  obtain early | late := Nat.lt_or_ge j n
  · exact before j early
  · exact iterate_of_le ended late ▸ last

/-- A run ends in one way. -/
theorem end_unique {n n' : Nat} {r r' : Except Fault Value}
    (ended : ((step library)^[n] m).control = .value r .host)
    (ended' : ((step library)^[n'] m).control = .value r' .host) : r = r' := by
  rw [← iterate_of_le ended (Nat.le_add_right n n')] at ended
  rw [← iterate_of_le ended' (Nat.le_add_left n' n)] at ended'
  cases ended.symm.trans ended'
  rfl

/-- A run that ends is steady if it is until then. -/
theorem steady_of_ended {n : Nat} {r : Except Fault Value}
    (ended : ((step library)^[n] m).control = .value r .host)
    (before : ∀ j < n, ((step library)^[j] m).Modest ∧ ((step library)^[j] m).Settled ∧
      ((step library)^[j] m).control.overflows = false) : Steady library m := by
  have last : ((step library)^[n] m).Modest ∧ ((step library)^[n] m).Settled ∧
      ((step library)^[n] m).control.overflows = false := by
    refine ⟨fun ip mark k other => ?_, fun ip mark k other => ?_, ?_⟩
    · cases ended.symm.trans other
    · cases ended.symm.trans other
    · rw [ended]
      rfl
  have always := forall_of_ended
    (P := fun m => m.Modest ∧ m.Settled ∧ m.control.overflows = false) ended last before
  exact ⟨fun j => (always j).1, fun j => (always j).2.1, fun j => (always j).2.2⟩

end Machine

namespace Sample

open Host Machine

/-- Calls its argument in tail position. -/
def passing : Proto :=
  { name := "pass", locals := [.slot 0 "f"], symbols := [.slot 0 "f"],
    code := #[⟨.beginFn, 1, 0⟩, ⟨.load, 0, 0⟩, ⟨.tailCall, 0, 0⟩, ⟨.ret, 1, 0⟩] }

/-- Returns a number. -/
def answering : Proto :=
  { name := "answer", numbers := [.ofNat 1],
    code := #[⟨.beginFn, 0, 0⟩, ⟨.pushNumber, 0, 0⟩, ⟨.ret, 1, 0⟩] }

def passer : HostState :=
  { Host.newState {} with closures := #[⟨passing, #[]⟩, ⟨answering, #[]⟩] }

/-- Returns what is in the slot below its own. -/
def peeping : Proto := { name := "peeper", code := #[⟨.beginFn, 0, 0⟩, ⟨.copy, 1, 0⟩, ⟨.ret, 1, 0⟩] }

/-- Calls that function in tail position, above a number. -/
def covering : Proto :=
  { name := "passer", numbers := [.ofNat 2], protos := [peeping],
    code := #[⟨.beginFn, 0, 0⟩, ⟨.pushNumber, 0, 0⟩, ⟨.closure, 0, 0⟩, ⟨.tailCall, 0, 0⟩,
      ⟨.ret, 1, 0⟩] }

/-- Calls that one above another number. -/
def outer : Proto :=
  { name := "main", numbers := [.ofNat 1], protos := [covering],
    code := #[⟨.beginFn, 0, 0⟩, ⟨.pushNumber, 0, 0⟩, ⟨.closure, 0, 0⟩, ⟨.call, 0, 0⟩, ⟨.ret, 1, 0⟩] }

def peeker : HostState := { Host.newState {} with closures := #[⟨outer, #[]⟩] }

def mute : Library HostRoutine := fun _ _ => .finish (.ok .void)

theorem discreet_mute : mute.Discreet := fun _ _ => .finish (.refl _)

/-- The host calls the first function of a machine with routines that answer with nothing. -/
def summoned (s : HostState) (arguments : List Value) (threshold : Nat) : Machine HostRoutine :=
  ofMove (call mute (.function ⟨0⟩) arguments) (s.atThreshold threshold)

def numeral? (m : Machine HostRoutine) : Option Number :=
  match m.control with
  | .value (.ok (.number v)) .host => some v
  | _ => none

theorem eq_of_numeral? {m : Machine HostRoutine} {v : Number} (answered : numeral? m = some v) :
    m.control = .value (.ok (.number v)) .host := by
  unfold numeral? at answered
  split at answered
  · rename_i control
    rw [control, Option.some.inj answered]
  · cases answered

/-- The host's machine with functions loaded has entered none. -/
theorem unstarted_loaded (closures : Array Closure) :
    ({ Host.newState {} with closures } : HostState).Unstarted := by
  have fresh : ∀ c, ({ Host.newState {} with closures } : HostState).processorOf c = {} := by
    rintro ⟨_ | n⟩ <;> rfl
  refine ⟨⟨rfl, rfl⟩, State.kept_of_bare (fun c i => ?_) rfl, fun c => ?_, fun c => ?_, rfl,
    fun c => ?_, fun c => ?_⟩
  · obtain ⟨_ | c⟩ := c <;> rfl
  · rw [State.framesOf, State.outlineOf, fresh]
    rfl
  · obtain ⟨_ | n⟩ := c <;> rintro (stopped | stopped) <;> cases stopped
  · rw [fresh]
  · rw [fresh]

end Sample

namespace Machine

open Sample

variable {n : Nat}

/-- **Tail calls are transparent.** Whatever the numbers of frames and slots above which frames are
taken over, a call of the host runs the same native functions, with the same arguments and in the
same order, and it ends with the same value or an error that differs in its trace at most. -/
theorem tail_calls_transparent (discreet : library.Discreet) {move : Move ν (Control ν)}
    (request : HostCall library move) (unstarted : s.Unstarted) (n n' : Nat)
    (steady : Steady library (ofMove move (s.atThreshold n)))
    (steady' : Steady library (ofMove move (s.atThreshold n'))) :
    Akin library (ofMove move (s.atThreshold n)) (ofMove move (s.atThreshold n')) ∧
      Akin library (ofMove move (s.atThreshold n')) (ofMove move (s.atThreshold n)) := by
  have trails := trails_begin discreet request unstarted n steady
  have trails' := trails_begin discreet request unstarted n' steady'
  exact ⟨akin_of_trails trails trails' steady steady', akin_of_trails trails' trails steady' steady⟩

/-- A function that calls its argument in tail position returns the same number, whether it is taken
over or not. -/
theorem tail_calls_transparent_sample :
    Akin mute (summoned passer [.function ⟨1⟩] 0) (summoned passer [.function ⟨1⟩] 65536) ∧
      Akin mute (summoned passer [.function ⟨1⟩] 65536) (summoned passer [.function ⟨1⟩] 0) := by
  have answered : numeral? ((step mute)^[11] (summoned passer [.function ⟨1⟩] 0)) =
      some (.ofNat 1) := by
    decide +kernel
  have answered' : numeral? ((step mute)^[13] (summoned passer [.function ⟨1⟩] 65536)) =
      some (.ofNat 1) := by
    decide +kernel
  exact tail_calls_transparent discreet_mute (.call ..) (unstarted_loaded _) 0 65536
    (steady_of_ended (eq_of_numeral? answered) (by decide +kernel))
    (steady_of_ended (eq_of_numeral? answered') (by decide +kernel))

/-- A function that reads a slot below those of its own frame gets a value of the function that
called it, or of the one before if that one's frame was taken over. -/
theorem tail_calls_told_apart :
    mute.Discreet ∧ peeker.Unstarted ∧ peeker.world.debugger = none ∧
      (∀ p ∈ [outer, covering, peeping], ∀ ip < p.code.size, ∀ i ∈ p.code[ip]?, i.op = .tailCall →
        p.code[ip + 1]? = some ⟨.ret, 1, 0⟩) ∧
      (∀ j, ((step mute)^[j] (summoned peeker [] 0)).control.overflows = false) ∧
      (∀ j, ((step mute)^[j] (summoned peeker [] 65536)).control.overflows = false) ∧
      ¬ Akin mute (summoned peeker [] 0) (summoned peeker [] 65536) := by
  have answered : numeral? ((step mute)^[19] (summoned peeker [] 0)) = some (.ofNat 1) := by
    decide +kernel
  have answered' : numeral? ((step mute)^[21] (summoned peeker [] 65536)) = some (.ofNat 2) := by
    decide +kernel
  have ended := eq_of_numeral? answered
  have ended' := eq_of_numeral? answered'
  refine ⟨discreet_mute, unstarted_loaded _, rfl, by decide +kernel, ?_, ?_, fun akin => ?_⟩
  · exact forall_of_ended (P := fun m => m.control.overflows = false) ended (by rw [ended]; rfl)
      (by decide +kernel)
  · exact forall_of_ended (P := fun m => m.control.overflows = false) ended' (by rw [ended']; rfl)
      (by decide +kernel)
  · obtain ⟨n, r, reached, concurs, -⟩ := akin.ends 19 _ ended
    obtain rfl := end_unique reached ended'
    have same : (Number.ofNat 1) = .ofNat 2 := by
      cases concurs
    exact absurd same (by decide +kernel)

end Machine

end ScriptMachine
