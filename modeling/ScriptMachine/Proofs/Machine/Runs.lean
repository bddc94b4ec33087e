import Mathlib.Logic.Function.Iterate
import ScriptMachine.Proofs.Machine.Confined
import ScriptMachine.Proofs.Machine.Steps

/-!
# Runs of a machine

What a host does with a machine, and what every run keeps.

* `Machine.Next`: the machine takes a step, or the host acts while the machine leaves it the turn.
* `Machine.Ordered`: the machine is in order, with its calls.
* `next_reaches`: whatever comes next, the machine stays in order.
* `Run`: a machine step after step, from its start.
-/

namespace ScriptMachine

open Place

namespace Machine

variable {ν : Type}

/-- A machine on which nothing has run. -/
def start (options : Options) : Machine ν := ⟨.value (.ok .nil) .host, .initial options⟩

/-- The machine after a move. -/
def after (m : Machine ν) (move : Move ν (Control ν)) : Machine ν :=
  ⟨(move m.state).1, (move m.state).2⟩

/-- The host may act: it has an outcome, or waits for the task of a suspended call. -/
def Idle (m : Machine ν) : Prop :=
  match m.control with
  | .value _ .host | .await _ (.task _ _) => True
  | _ => False

/-- No call of the root is suspended. -/
def Free (m : Machine ν) : Prop := (m.state.processorOf .root).pending = none

/-- The calls that a host may make on the root. -/
inductive HostCall (library : Library ν) : Move ν (Control ν) → Prop
  | call (function : Value) (arguments : List Value) :
      HostCall library (call library function arguments)
  | thisCall (object : Value) (method : String) (arguments : List Value) :
      HostCall library (thisCall library object method arguments)
  | callAsync (function : Value) (arguments : List Value) :
      HostCall library (callAsync library function arguments)
  | thisCallAsync (object : Value) (method : String) (arguments : List Value) :
      HostCall library (thisCallAsync library object method arguments)

inductive Next (library : Library ν) (m : Machine ν) : Machine ν → Prop
  | step : Next library m (m.step library)
  | call {move : Move ν (Control ν)} : m.Idle → m.Free → HostCall library move →
      Next library m (m.after move)
  /-- The host does what a routine may do. -/
  | act {p : Program ν} : m.Idle → m.Free → p.Confined → Next library m ⟨.run p .host, m.state⟩
  | resume (mode : ResumeMode) (c : ThreadId) (arguments : List Value) : m.Idle →
      Next library m (m.after (hostResume library mode c arguments))
  /-- The host turns to the suspended call of the root. -/
  | await (task : Task) : m.Idle → ¬ m.Free →
      Next library m ⟨.await task (.task .root (.drive false (.exit .host))), m.state⟩
  /-- The host turns to a coroutine that waits for a task. -/
  | awaitCoroutine (task : Task) (c : ThreadId) : m.Idle → m.state.coroutineState c = .running →
      Next library m ⟨.await task (.task c (.resumed .asynchronous c .root .host)), m.state⟩
  | timeOut (milliseconds : Nat) : m.Idle → ¬ m.Free →
      Next library m (m.after do return .value (← timeOut milliseconds) .host)
  /-- The host changes the world. -/
  | arrange (world : World ν) : m.Idle → Next library m ⟨m.control, { m.state with world }⟩
  | load {p : Proto} {v : Value} {s : State ν} : m.Idle → Exec.load p m.state = .ok v s →
      Next library m ⟨m.control, s⟩
  | autoYield (c : ThreadId) (budget : Nat) : m.Idle →
      Next library m ⟨m.control, (Exec.setAutoYield c budget m.state).2⟩

/-- Where the host has no turn, the machine takes a step. -/
theorem Next.eq_step {library : Library ν} {m m' : Machine ν} (next : Next library m m')
    (busy : ¬ m.Idle) : m' = m.step library := by
  cases next with
  | step => rfl
  | call idle | act idle | resume _ _ _ idle | await _ idle | awaitCoroutine _ _ idle
  | timeOut _ idle | arrange _ idle | load idle | autoYield _ _ idle => exact absurd idle busy

/-- The machine is in order, with the calls of its threads. -/
def Ordered (σ : Prop) (m : Machine ν) (V : ThreadId → List Place) : Prop :=
  ∃ ts, Stands σ m.state V ts ∧ Poised σ m.state m.control ts

variable {σ : Prop} {w : ThreadId → Nat → Prop} {allowed : Fault → Prop} {m m' : Machine ν}
  {V : ThreadId → List Place} {ts : List Thread} {library : Library ν}

/-- While the host may act, no thread runs but the root, which has nothing to do. -/
theorem grounded_of_idle {s : State ν} {control : Control ν} (poised : Poised σ s control ts)
    (idle : Idle ⟨control, s⟩) (turn : control.occupied = false) :
    s.current = .root ∧ Grounded ν σ ts := by
  cases poised with
  | @value r k t W current holds =>
    cases holds with
    | host root blank async => exact ⟨current.trans root, .idle (.host root blank async)⟩
    | _ => exact idle.elim
  | @blocked task k t W current holds => cases holds <;> exact idle.elim
  | idle current => exact ⟨current, .parked⟩
  | awaits tasked =>
    cases tasked with
    | drive current _ _ enters =>
      obtain ⟨-, -, root, rfl⟩ := root_of_undriven enters turn
      exact ⟨current.trans root, .parked⟩
    | resumed current _ _ grounded => exact ⟨current, grounded⟩
  | _ => exact idle.elim

/-- A free root is ready for a call. -/
theorem exists_root {s : State ν} (stands : Stands σ s V ts) (grounded : Grounded ν σ ts)
    (free : (s.processorOf .root).pending = none) :
    ∃ t, ts = [t] ∧ Holds (ν := ν) σ .host t [] := by
  cases grounded with
  | idle holds => exact ⟨_, rfl, holds⟩
  | parked =>
    obtain ⟨t, id, shown, resting⟩ := stands.resting .root (by simp)
    have pending : (s.processorOf .root).pending = t.pending := by
      have shape := shown.shape
      rw [id] at shape
      exact congrArg Shape.pending shape
    rw [free] at pending
    have phase : s.phase .root = .running := if_pos rfl
    rw [phase] at resting
    cases resting with
    | parked h =>
      rw [h.pending] at pending
      contradiction
    | stopped h =>
      rw [h.pending] at pending
      contradiction

theorem parked_of_not_free {s : State ν} (stands : Stands σ s V ts) (grounded : Grounded ν σ ts)
    (busy : (s.processorOf .root).pending ≠ none) : ts = [] := by
  cases grounded with
  | parked => rfl
  | @idle t holds =>
    cases holds with
    | host root blank _ =>
      have shown := (stands.busy t (List.mem_cons_self ..)).shape
      rw [root] at shown
      exact absurd ((congrArg Shape.pending shown).trans blank.pending) busy

/-- A call by the host. -/
theorem hostCall_reaches {s : State ν} (stands : Stands σ s V ts)
    (current : s.current = .root) (grounded : Grounded ν σ ts)
    (free : (s.processorOf .root).pending = none) {move : Move ν (Control ν)}
    (hm : HostCall library move) : Reaches σ w allowed s V (move s) := by
  obtain ⟨t, rfl, holds⟩ := exists_root stands grounded free
  let s' : State ν := { s with entries := s.entries + 1 }
  have stands' : Stands σ s' V [t] := stands.same rfl rfl
  have current' : s'.current = t.id := by
    cases holds with
    | host root _ _ => exact current.trans root.symm
  have left : Holds (ν := ν) σ (.exit .host) t [] := .exit holds
  refine .same s' (fun _ => rfl) ?_
  cases hm with
  | call function arguments => exact callNested_reaches stands' current' left ..
  | thisCall object method arguments =>
    exact indexNested_reaches stands' current' (.method left) ..
  | callAsync function arguments => exact driveAsync_reaches stands' current' left ..
  | thisCallAsync object method arguments =>
    exact indexNested_reaches stands' current' (.asyncMethod left) ..

/-- The calls of a suspended thread are in one loop. -/
theorem inLoop_of_resting {t : Thread} (resting : t.Resting σ .running) :
    InLoop σ [] 0 t.places ∧ (σ → ∀ p ∈ t.places.head?, p.activation.floor ≤ t.height) := by
  cases resting with
  | parked h =>
    rw [h.places]
    refine ⟨h.inLoop, ?_⟩
    rintro hσ p ⟨⟩
    exact Nat.le_of_eq (h.height (.inl hσ)).symm
  | @stopped _ g _ h =>
    rw [h.places]
    refine ⟨h.inLoop, ?_⟩
    rintro hσ p ⟨⟩
    exact Nat.le_trans g.floor_le_base (h.height hσ)

/-- A processor whose calls are dropped is made ready for others. -/
theorem cleared_local {s s' : State ν} (dropped : Dropped σ w s s' 0 []) (hc : s.HasCurrent) :
    let s'' := s'.modifyProcessor fun p =>
      { p with pending := none, asyncMode := false, nestedCalls := 0 }
    Local σ 0 w s s'' ∧ s''.shape s.current = ⟨[], 0, false, none⟩ ∧
      s''.heightOf s.current = s'.heightOf s.current := by
  intro s''
  have processor := State.processor_modifyProcessor (dropped.toLocal.hasCurrent hc) fun p =>
    { p with pending := none, asyncMode := false, nestedCalls := 0 }
  rw [dropped.toLocal.current] at processor
  have standing := congrArg Shape.standing dropped.shape
  have cleared : Local σ 0 w s' s'' := local_modifyProcessor _ fun _ _ _ _ _ => rfl
  refine ⟨dropped.toLocal.trans cleared, ?_, ?_⟩
  · change Processor.shape (s''.processorOf s.current) = _
    rw [processor]
    simp only [Processor.shape, Shape.mk.injEq, and_true]
    exact standing
  · change (s''.processorOf s.current).stack.size = _
    rw [processor]
    rfl

theorem exists_timeOut (milliseconds : Nat) (s : State ν) :
    ∃ s', timeOut milliseconds s =
        (.error (.raise (.timedOut milliseconds)), { s' with entries := s'.entries - 1 }) ∧
      s' = (abandon {} s).2.modifyProcessor fun p =>
        { p with pending := none, asyncMode := false, nestedCalls := 0 } :=
  ⟨_, rfl, rfl⟩

/-- A suspended call of the root is given up, and the root is ready for others. -/
theorem timeOut_stands {s s' : State ν} (stands : Stands σ s V []) (current : s.current = .root)
    {milliseconds : Nat} {outcome : Except Fault Value}
    (ended : timeOut milliseconds s = (outcome, s')) :
    ∃ root : Thread, ∃ V', s'.current = .root ∧ Stands σ s' V' [root] ∧
      Holds (ν := ν) σ .host root [] ∧ s'.entries = s.entries - 1 ∧ s'.active = s.active ∧
      ∀ control, Evolves σ w s V (control, s') V' := by
  obtain ⟨t, id, shown, resting⟩ := stands.resting s.current (by simp)
  have inRange : s.current.index < s.processors.size := by
    rw [current, stands.size]
    exact Nat.succ_pos _
  have phase : s.phase s.current = .running := if_pos current
  obtain ⟨hl, room⟩ := inLoop_of_resting (phase ▸ resting)
  obtain ⟨shape, places, height⟩ := shown
  rw [id] at shape places height
  obtain ⟨dropped, empty⟩ := abandon_dropped (w := w) (m := {}) hl rfl (fun _ => rfl)
    (fun _ => rfl) inRange (by rw [shape]; rfl) fun hσ p hp => by
      rw [height (.inl hσ)]
      exact room hσ p hp
  obtain ⟨hlocal, cleared, same⟩ := cleared_local dropped inRange
  obtain ⟨s'', run, hs⟩ := exists_timeOut milliseconds s
  obtain ⟨-, rfl⟩ := Prod.mk.inj (run.symm.trans ended)
  rw [← hs] at hlocal cleared same
  let root : Thread := ⟨s.current, [], 0, 0, false, none⟩
  have blank : root.Blank := ⟨rfl, rfl, rfl, rfl⟩
  have stands' := stands.wake (t := root) hlocal.beside (by simp) inRange rfl cleared
    (fun known => same.trans (empty known)) blank.fits ((hlocal.phase _).trans phase)
  have left : Keeps σ 0 t.places [] := keeps_leave hl (by simp)
  rw [← places] at left
  refine ⟨root, _, hlocal.current.trans current, stands'.same rfl rfl, .host current blank rfl,
    congrArg Nat.pred hlocal.entries, hlocal.active, fun control => ?_⟩
  exact (Local.evolves (x := (control, _)) hlocal left).same (fun _ => rfl) rfl

theorem timeOut_reaches {s : State ν} (stands : Stands σ s V []) (current : s.current = .root)
    (milliseconds : Nat) :
    Reaches σ w allowed s V
      ((do return .value (← timeOut milliseconds) .host : Move ν (Control ν)) s) := by
  obtain ⟨s', run, -⟩ := exists_timeOut milliseconds s
  obtain ⟨root, V', current', stands', holds, -, -, evolves⟩ :=
    timeOut_stands (w := w) stands current run
  rw [bind_of_eq run]
  refine ⟨⟨V', [root], stands', ?_, evolves _⟩, fails_value (by simp)⟩
  cases holds with
  | host id blank async => exact .value (current'.trans id.symm) (.host id blank async)

/-- What an idle machine waits for is not affected by what the host arranges. -/
theorem poised_of_idle {s s' : State ν} {control : Control ν} (poised : Poised σ s control ts)
    (idle : Idle ⟨control, s⟩) (current : s'.current = s.current)
    (coroutines : s'.coroutines = s.coroutines) : Poised σ s' control ts := by
  have states : ∀ c, s'.coroutineState c = s.coroutineState c := fun c => by
    simp only [State.coroutineState, State.coroutine, coroutines]
  cases poised with
  | value hc holds => exact .value (current.trans hc) holds
  | blocked hc holds => exact .blocked (current.trans hc) holds
  | idle hc => exact .idle (current.trans hc)
  | awaits tasked =>
    refine .awaits ?_
    cases tasked with
    | drive hc phase absent enters =>
      refine .drive (current.trans hc) ?_ absent enters
      rw [← phase]
      simp only [State.phase, states]
    | resumed hc other running grounded =>
      exact .resumed (current.trans hc) other ((states _).trans running) grounded
  | _ => exact idle.elim

/-- The host arranges what does not concern the threads. -/
theorem arrange_reaches {s' : State ν} (stands : Stands σ s' V ts)
    (poised : Poised σ m.state m.control ts) (idle : m.Idle)
    (current : s'.current = m.state.current) (coroutines : s'.coroutines = m.state.coroutines)
    (contents : ∀ c, s'.stackOf c = m.state.stackOf c) :
    Reaches σ w (fun x => m.control.fault? = some x ∨ m.control.brings? = some x) m.state V
      (m.control, s') :=
  .same s' contents (reaches_refl stands (poised_of_idle poised idle current coroutines)
    fun _ hx _ => .inl hx)

/-- **Whatever comes next**, the machine stays in order and its calls evolve. A stray fault was
there, or a routine or a task brings it in. -/
theorem next_reaches (next : Next library m m') (ordered : Ordered σ m V)
    (held : m.control.strands = false) (turn : m.control.occupied = true → m' = m.step library)
    (tame : σ → m.control.Tame m.state)
    (written : σ → ∀ c j, m.control.Writes m.state c j → w c j) :
    Reaches σ w (fun x => m.control.fault? = some x ∨ m.control.brings? = some x) m.state V
      (m'.control, m'.state) := by
  obtain ⟨ts, stands, poised⟩ := ordered
  have stepped : Reaches σ w (fun x => m.control.fault? = some x ∨ m.control.brings? = some x)
      m.state V ((m.step library).control, (m.step library).state) :=
    advance_reaches stands poised held tame written
  by_cases occupied : m.control.occupied = true
  · rw [turn occupied]
    exact stepped
  have occupied := Bool.eq_false_iff.2 occupied
  cases next with
  | step => exact stepped
  | call idle free hm =>
    obtain ⟨current, grounded⟩ := grounded_of_idle poised idle occupied
    exact hostCall_reaches stands current grounded free hm
  | act idle free _ =>
    obtain ⟨current, grounded⟩ := grounded_of_idle poised idle occupied
    obtain ⟨t, rfl, holds⟩ := exists_root stands grounded free
    refine reaches_refl stands ?_ (no_fault rfl)
    cases holds with
    | host root blank async =>
      exact .run (current.trans root.symm) (.host root blank async)
  | resume mode c arguments idle =>
    obtain ⟨current, grounded⟩ := grounded_of_idle poised idle occupied
    refine resume_reaches stands ?_ mode (fun _ => ⟨rfl, current⟩)
      (grounded.poised current) c arguments
    rw [current]
    exact grounded.waits
  | await task idle busy =>
    obtain ⟨current, grounded⟩ := grounded_of_idle poised idle occupied
    obtain rfl := parked_of_not_free stands grounded busy
    let e : Thread := ⟨.root, [], 0, 0, false, none⟩
    have blank : e.Blank := ⟨rfl, rfl, rfl, rfl⟩
    have lends : e.Lends σ false e := ⟨rfl, rfl, rfl, rfl, rfl, rfl, blank.fits⟩
    refine reaches_refl stands (.awaits ?_) (no_fault rfl)
    exact .drive (e := e) current (if_pos rfl) (by simp) (.drive blank lends (.exit (.host rfl blank rfl)))
  | awaitCoroutine task c idle running =>
    obtain ⟨current, grounded⟩ := grounded_of_idle poised idle occupied
    have alive : m.state.coroutineState c ≠ .dead := by
      rw [running]
      nofun
    have hc := (State.inRange_of_coroutineState alive).1
    exact reaches_refl stands (.awaits (.resumed current hc running grounded)) (no_fault rfl)
  | timeOut milliseconds idle busy =>
    obtain ⟨current, grounded⟩ := grounded_of_idle poised idle occupied
    obtain rfl := parked_of_not_free stands grounded busy
    exact timeOut_reaches stands current milliseconds
  | arrange world idle =>
    exact arrange_reaches (stands.same rfl rfl) poised idle rfl rfl fun _ => rfl
  | @load p v s idle loaded =>
    have aside := aside_load (s := m.state) p
    unfold WorksAside at aside
    rw [loaded] at aside
    refine arrange_reaches (stands.same aside.processors aside.coroutines) poised idle
      aside.current aside.coroutines fun c => ?_
    simp only [State.stackOf, State.processorOf, aside.processors]
  | autoYield c budget idle =>
    obtain ⟨stands', current, coroutines, contents⟩ := setAutoYield_stands stands c budget
    exact arrange_reaches stands' poised idle current coroutines contents

theorem confined_next (confined : library.Confined) (next : Next library m m')
    (h : m.control.Confined) : m'.control.Confined := by
  cases next with
  | step => exact (confines_advance confined h).confined _
  | @call move _ _ hm =>
    suffices Confines move from this.confined _
    cases hm with
    | call => exact confines_bind fun _ => confines_callNested confined (k := .exit .host) rfl ..
    | thisCall object method arguments =>
      have waits : (Kont.method object method arguments (.exit .host) : Kont ν .value).Confined := rfl
      exact confines_bind fun _ => confines_indexNested confined waits ..
    | callAsync => exact confines_bind fun _ => confines_driveAsync confined ..
    | thisCallAsync object method arguments =>
      have waits : (Kont.asyncMethod object arguments (.exit .host) : Kont ν .value).Confined := rfl
      exact confines_bind fun _ => confines_indexNested confined waits ..
  | act _ _ hp => exact ⟨hp, trivial⟩
  | resume => exact (confines_resume confined (k := .host) trivial ..).confined _
  | await => exact (rfl : Kont.exit .host = .exit .host)
  | awaitCoroutine => trivial
  | timeOut => trivial
  | arrange | load | autoYield => exact h

theorem undriven_of_confined {k : Kont ν .step} (h : k.Confined) : k.driven = false := by
  cases k with
  | drive previous k =>
    obtain rfl := h
    rfl
  | loop | protect | nested | resumed => rfl

theorem held_of_confined {control : Control ν} (h : control.Confined) :
    control.strands = false := by
  unfold Control.strands
  split
  · exact undriven_of_confined h
  · exact undriven_of_confined h
  · rfl

theorem unoccupied_of_confined {control : Control ν} (h : control.Confined) :
    control.occupied = false := by
  unfold Control.occupied
  split
  · exact undriven_of_confined h
  · rfl

theorem start_ordered (options : Options) :
    Ordered (ν := ν) σ (start options) fun _ => [] := by
  let root : Thread := ⟨.root, [], 0, 0, false, none⟩
  have blank : ∀ c : ThreadId, (⟨c, [], 0, 0, false, none⟩ : Thread).Blank := fun _ =>
    ⟨rfl, rfl, rfl, rfl⟩
  have processor : ∀ c, (start (ν := ν) options).state.processorOf c = {} := by
    rintro ⟨_ | n⟩ <;> rfl
  have shown : ∀ c, Shown σ (start (ν := ν) options).state (fun _ => [])
      ⟨c, [], 0, 0, false, none⟩ := fun c => by
    refine ⟨?_, rfl, fun _ => ?_⟩
    · rw [State.shape, processor]
      rfl
    · rw [State.heightOf, State.stackOf, processor]
      rfl
  refine ⟨[root], ⟨rfl, ?_, List.pairwise_singleton .., ?_⟩, .value rfl (.host rfl (blank .root) rfl)⟩
  · intro t ht
    obtain rfl := List.mem_singleton.1 ht
    exact ⟨shown .root, Nat.one_pos, rfl, (blank .root).fits, rfl⟩
  · intro c hc
    have other : c ≠ .root := fun e => hc root (List.mem_singleton_self _) e.symm
    refine ⟨_, rfl, shown c, ?_⟩
    have dead : (start (ν := ν) options).state.phase c = .dead := by
      rw [State.phase, if_neg other]
      obtain ⟨_ | n⟩ := c <;> rfl
    rw [dead]
    exact .dead (blank c)

end Machine

/-- A machine step after step, from its start. -/
structure Run {ν : Type} (library : Library ν) where
  machine : Nat → Machine ν
  start : ∃ options, machine 0 = .start options
  next : ∀ n, Machine.Next library (machine n) (machine (n + 1))

namespace Run

variable {ν : Type} {σ : Prop} {library : Library ν}

/-- Routines see the calls that they drive through: before the machine `n`, no coroutine stops in
such a call, and no host acts while a routine waits for a task. -/
structure Contained (r : Run library) (n : Nat) : Prop where
  held : ∀ i, i < n → (r.machine i).control.strands = false
  turn : ∀ i, i < n → (r.machine i).control.occupied = true →
    r.machine (i + 1) = (r.machine i).step library

theorem Contained.until {r : Run library} {n m : Nat} (h : r.Contained n) (hm : m ≤ n) :
    r.Contained m :=
  ⟨fun i hi => h.held i (Nat.lt_of_lt_of_le hi hm), fun i hi => h.turn i (Nat.lt_of_lt_of_le hi hm)⟩

/-- Only the host enters a machine with confined routines from outside. -/
theorem confined (confined : library.Confined) (r : Run library) (n : Nat) :
    (r.machine n).control.Confined := by
  induction n with
  | zero =>
    obtain ⟨options, start⟩ := r.start
    rw [start]
    trivial
  | succ n ih => exact Machine.confined_next confined (r.next n) ih

/-- Confined routines drive no calls. -/
theorem contained (confined : library.Confined) (r : Run library) (n : Nat) : r.Contained n where
  held i _ := Machine.held_of_confined (r.confined confined i)
  turn i _ occupied := by
    rw [Machine.unoccupied_of_confined (r.confined confined i)] at occupied
    contradiction

/-- The calls and the order of a machine are kept along a run. Where heights matter, every step so
far has to be tame. -/
theorem ordered (r : Run library) (n : Nat) (contained : r.Contained n)
    (tame : σ → ∀ i, i < n → (r.machine i).control.Tame (r.machine i).state) :
    ∃ V, (r.machine n).Ordered σ V := by
  induction n with
  | zero =>
    obtain ⟨options, start⟩ := r.start
    rw [start]
    exact ⟨_, Machine.start_ordered options⟩
  | succ n ih =>
    obtain ⟨V, ordered⟩ := ih (contained.until (Nat.le_succ n))
      fun hσ i hi => tame hσ i (Nat.lt_succ_of_lt hi)
    have last := Nat.lt_succ_self n
    obtain ⟨V', ts, stands, poised, -⟩ := (Machine.next_reaches (r.next n) ordered
      (contained.held n last) (contained.turn n last) (fun hσ => tame hσ n last)
      fun _ _ _ writes => writes).layout
    exact ⟨V', ts, stands, poised⟩

/-- The run in which a host does nothing. -/
def rest (library : Library ν) (options : Options) : Run library where
  machine _ := .start options
  start := ⟨options, rfl⟩
  next _ := .step

/-- The run that goes on from its machine `n` to another one, and takes steps from there. -/
def turn (r : Run library) (n : Nat) (m : Machine ν) (next : Machine.Next library (r.machine n) m) :
    Run library where
  machine i := if i ≤ n then r.machine i else (Machine.step library)^[i - (n + 1)] m
  start := r.start
  next i := by
    obtain before | rfl | after := Nat.lt_trichotomy i n
    · rw [if_pos (Nat.le_of_lt before), if_pos (Nat.succ_le_of_lt before)]
      exact r.next i
    · rw [if_pos (Nat.le_refl i), if_neg (Nat.not_succ_le_self i), Nat.sub_self]
      exact next
    · rw [if_neg (Nat.not_le_of_lt after), if_neg (Nat.not_le_of_lt (Nat.lt_succ_of_lt after)),
        Nat.sub_add_comm after, Function.iterate_succ_apply']
      exact .step

end Run

namespace Sample

/-- The only routine calls its argument. -/
def library : Library Unit := fun _ i => .call (i.arguments.get 0) [] .finish

theorem confined : library.Confined := fun _ _ _ => trivial

def started : Machine Unit := .start {}

/-- The world of the start, with the routine as its third native function. -/
def world : World Unit :=
  { started.state.world with
    natives := started.state.world.natives.push ⟨"apply", .host ()⟩ }

def apply : Value := .native ⟨2⟩

def arranged : Machine Unit := ⟨started.control, { started.state with world }⟩

def loaded (p : Proto) : Machine Unit :=
  ⟨arranged.control, { arranged.state with closures := #[⟨p, #[]⟩] }⟩

/-- The host calls a function. -/
def called (p : Proto) (arguments : List Value) : Machine Unit :=
  (loaded p).after (Machine.call library (.function ⟨0⟩) arguments)

theorem next_arranged : Machine.Next library started arranged := .arrange world trivial

theorem next_loaded {p : Proto} (h : p.upvalues = []) :
    Machine.Next library arranged (loaded p) := by
  refine .load (p := p) (v := .function ⟨0⟩) trivial ?_
  unfold Exec.load
  rw [h]
  rfl

theorem next_called (p : Proto) (arguments : List Value) :
    Machine.Next library (loaded p) (called p arguments) := .call trivial rfl (.call ..)

/-- The run in which the host loads a function that captures nothing, and calls it. -/
def run (p : Proto) (h : p.upvalues = []) (arguments : List Value) : Run library :=
  (((Run.rest library {}).turn 0 arranged next_arranged).turn 1 (loaded p) (next_loaded h)).turn 2
    (called p arguments) (next_called p arguments)

/-- Returns a number. -/
def callee : Proto :=
  { name := "callee", numbers := [.ofNat 7],
    code := #[⟨.beginFn, 0, 0⟩, ⟨.pushNumber, 0, 0⟩, ⟨.ret, 1, 0⟩] }

/-- Has its argument call the function inside it. -/
def caller : Proto :=
  { name := "caller", locals := [.slot 0 "apply"], symbols := [.slot 0 "apply"],
    protos := [callee],
    code := #[⟨.beginFn, 1, 0⟩, ⟨.load, 0, 0⟩, ⟨.closure, 0, 0⟩, ⟨.call, 1, 0⟩, ⟨.ret, 1, 0⟩] }

def nested : Run library := run caller rfl [apply]

end Sample

end ScriptMachine
