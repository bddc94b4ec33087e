import ScriptMachine.Proofs.Machine.Runs

/-!
# Calls are balanced

From the moment an instruction asks for a call until its frame goes on, whatever happens in
between: natives, handlers, tail calls, nested loops, switches to other threads.

* `Run.Begins`, `Run.Returns`: an instruction asks for a call, and its frame goes on.
* `Run.Tracked`: in between the call is under way, and the slots below it are untouched.
* `Run.call_balanced`: the frame goes on at the return address of the call, with its result in the
  place of its function.
-/

namespace ScriptMachine

open Place

variable {ν : Type} {σ : Prop} {s : State ν} {V : ThreadId → List Place} {ts : List Thread}

/-- The calls of a thread that have a frame are its frames. -/
theorem Stands.depth_eq (stands : Stands σ s V ts) (c : ThreadId) :
    depth (V c) = (s.processorOf c).frames.size := by
  have shown : ∃ t : Thread, t.id = c ∧ Shown σ s V t := by
    by_cases busy : ∃ t ∈ ts, t.id = c
    · obtain ⟨t, ht, id⟩ := busy
      exact ⟨t, id, (stands.busy t ht).toShown⟩
    · obtain ⟨t, id, shown, -⟩ := stands.resting c fun t ht id => busy ⟨t, ht, id⟩
      exact ⟨t, id, shown⟩
  obtain ⟨t, rfl, shown⟩ := shown
  have standing := congrArg (List.length ∘ Shape.standing) shown.shape
  simp only [Function.comp, State.shape, Processor.shape, Thread.shape, List.length_reverse,
    List.length_map, Array.length_toList] at standing
  rw [shown.places, depth, ← standing]

/-- The call that the next instruction asks for, and the state with its function and operands on
the stack. -/
def Machine.call? (m : Machine ν) : Option (CallSpec × State ν) :=
  match m.control with
  | .execute ip _ _ =>
    match Exec.executeAt ip m.state with
    | .ok (some (.call spec)) s => some (spec, s)
    | _ => none
  | _ => none

theorem Machine.call?_eq_some {m : Machine ν} {spec : CallSpec} (h : m.call? = some (spec, s)) :
    ∃ ip mark k, m.control = .execute ip mark k ∧
      Exec.executeAt ip m.state = .ok (some (.call spec)) s := by
  unfold call? at h
  split at h
  · rename_i ip mark k control
    refine ⟨ip, mark, k, control, ?_⟩
    split at h
    · rename_i asked
      cases h
      exact asked
    · contradiction
  · contradiction

/-- The machine is about to execute an instruction of the frame of a thread at a depth. -/
structure Machine.Executes (m : Machine ν) (c : ThreadId) (d : Nat) : Prop where
  control : m.control.address?.isSome = true
  current : m.state.current = c
  depth : m.state.callDepth = d

instance (m : Machine ν) (c : ThreadId) (d : Nat) : Decidable (m.Executes c d) :=
  decidable_of_iff
    (m.control.address?.isSome = true ∧ m.state.current = c ∧ m.state.callDepth = d)
    ⟨fun h => ⟨h.1, h.2.1, h.2.2⟩, fun h => ⟨h.control, h.current, h.depth⟩⟩

/-- A frame that executes is above all that its thread has under way. -/
theorem not_survives {m : Machine ν} {c : ThreadId} {w : ThreadId → Nat → Prop} {P : Place}
    {lo : List Place} (stands : Stands σ m.state V ts) (poised : Poised σ m.state m.control ts)
    (executes : m.Executes c (depth lo)) : ¬ Survives σ w s m.state c (V c) P lo := by
  rintro ⟨up, P', places, -, -⟩
  obtain ⟨control, rfl, deep⟩ := executes
  obtain ⟨ip, mark, k, control⟩ := m.control.exists_execute control
  have deep : depth (V m.state.current) = depth lo := (stands.depth_eq _).trans deep
  rw [control] at poised
  cases poised with
  | @execute _ _ _ g ps e h W current script hl base loops =>
    have top : V m.state.current = on g :: ps := by
      rw [current]
      exact (stands.busy _ (List.mem_cons_self ..)).places
    rw [top] at places deep
    rw [depth_on] at deep
    obtain ⟨rfl, head⟩ | ⟨up', rfl, tail⟩ := List.cons_eq_append_iff.1 places
    · obtain ⟨-, rfl⟩ := List.cons.inj head
      omega
    · have below := Nat.le_trans (depth_le_cons P' lo) (depth_le_append up' (P' :: lo))
      rw [tail] at deep
      omega

namespace Machine

variable {library : Library ν} {w : ThreadId → Nat → Prop}

/-- An instruction that asks for a call makes it in the same step. -/
theorem step_call {ip : Nat} {mark : Mark} {k : Kont ν .step} {t : State ν} {spec : CallSpec}
    (asked : Exec.executeAt ip t = .ok (some (.call spec)) s) :
    step library ⟨.execute ip mark k, t⟩ =
      ⟨(performCall library spec (.loop mark ip k) s).1,
       (performCall library spec (.loop mark ip k) s).2⟩ := by
  simp only [step, advance, Exec.andThen, asked, perform]
  rfl

/-- The call that an instruction asks for has a place right above the frame, which it keeps for its
first step. -/
theorem call_begun {ip : Nat} {mark : Mark} {k : Kont ν .step}
    {t : State ν} {spec : CallSpec} (ordered : Ordered True ⟨.execute ip mark k, t⟩ V)
    (tame : t.Tame ip) (asked : Exec.executeAt ip t = .ok (some (.call spec)) s)
    (own : s.callDepth = t.callDepth) :
    ∃ a lo, Serves True spec a.floor a ∧ a.isEntry = false ∧ depth lo = s.callDepth ∧
      s.heightOf s.current = a.floor + spec.argc + 1 ∧
      ∃ V' ts, let m := step library ⟨.execute ip mark k, t⟩
        Stands True m.state V' ts ∧ Poised True m.state m.control ts ∧
        Fate True w s (m.control, m.state) s.current (V' s.current) (off a) lo := by
  obtain ⟨ts, stands, poised⟩ := ordered
  cases poised with
  | @execute _ _ _ g ps e h W current script hl base loops =>
    have room : t.Room True g.base 0 :=
      ⟨stands.hasCurrent current, fun hσ => by
        rw [stands.height current (.inl hσ)]
        exact base hσ⟩
    have turned := Exec.executeAt_turned (w := t.Writes ip) room (stands.standing current) script
      (fun _ => tame) fun _ _ _ h => h
    have deep : t.callDepth = depth (on g :: ps) :=
      t.callDepth_eq.trans (congrArg _ (stands.standing current))
    rw [asked] at turned
    cases turned with
    | reused hlocal _ _ _ shape _ =>
      -- The frame is gone, but the call was to come back to it.
      have gone : s.callDepth = depth ps := by
        rw [s.callDepth_eq, hlocal.current, shape]
        rfl
      rw [deep, depth_on] at own
      omega
    | asked steady asks =>
      obtain ⟨a, serves, entry, height, hl', moves⟩ :=
        asked_call stands current script hl loops steady asks
      have reaches : Reaches True w (fun _ => True) s _
          (performCall library spec (.loop mark ip k) s) :=
        performCall_reaches (moves.stands stands) moves.runs hl'
          (loops.guards ip a (on g :: ps)) serves height
      obtain ⟨V', ts, stands', poised', evolves⟩ := reaches.layout
      have top : Function.update V e.id (off a :: on g :: ps) s.current = off a :: on g :: ps := by
        rw [show s.current = e.id from moves.runs]
        exact Function.update_self ..
      have serves : Serves True spec a.floor a :=
        ⟨serves.entry, serves.discards, serves.address, fun _ => rfl⟩
      refine ⟨a, on g :: ps, serves, entry, own.symm ▸ deep.symm, ?_, V', ts, ?_⟩
      · rw [steady.current]
        exact height (.inl trivial)
      · rw [step_call asked]
        exact ⟨stands', poised', evolves _ [] _ _ top entry⟩

end Machine

namespace Run

variable {library : Library ν}

/-- At `n` an instruction asks for a call, and its own frame is to go on afterwards. The function
and its operands are on the stack of `s`. -/
structure Begins (r : Run library) (n : Nat) (spec : CallSpec) (s : State ν) : Prop where
  asked : (r.machine n).call? = some (spec, s)
  own : s.callDepth = (r.machine n).state.callDepth

/-- After `n`, the frame of `c` at depth `d` goes on at `m` for the first time. -/
structure Returns (r : Run library) (n m : Nat) (c : ThreadId) (d : Nat) : Prop where
  later : n < m
  executes : (r.machine m).Executes c d
  first : ∀ i, n < i → i < m → ¬ (r.machine i).Executes c d
  kept : ∀ i, n < i → i ≤ m → d ≤ ((r.machine i).state.processorOf c).frames.size

/-- Some step after `n` and before `m` writes a slot through an open cell. -/
def WritesBetween (r : Run library) (n m : Nat) (c : ThreadId) (j : Nat) : Prop :=
  ∃ i, n < i ∧ i < m ∧ (r.machine i).control.Writes (r.machine i).state c j

/-- The call `P` above `lo` is under way at `i`, and since `s` the slots below it changed through
open cells only. -/
def Tracked (r : Run library) (w : ThreadId → Nat → Prop) (s : State ν) (c : ThreadId) (P : Place)
    (lo : List Place) (i : Nat) : Prop :=
  ∃ V, (r.machine i).Ordered True V ∧ Survives True w s (r.machine i).state c (V c) P lo

variable {r : Run library} {w : ThreadId → Nat → Prop} {n m i : Nat} {spec : CallSpec}
  {c : ThreadId} {P : Place} {lo : List Place}

/-- While the caller waits, the call is under way; once the caller goes on, it has the result. -/
theorem Returns.fate (returns : r.Returns n m c (depth lo)) (hn : n < i) (hi : i ≤ m)
    (stands : Stands True (r.machine i).state V ts)
    (poised : Poised True (r.machine i).state (r.machine i).control ts)
    (fate : Fate True w s ((r.machine i).control, (r.machine i).state) c (V c) P lo) :
    (i < m → r.Tracked w s c P lo i) ∧
      (i = m → Lands True w s ((r.machine m).control, (r.machine m).state) c lo P lo) := by
  obtain survives | dropped | lands := fate
  · refine ⟨fun _ => ⟨V, ⟨ts, stands, poised⟩, survives⟩, ?_⟩
    rintro rfl
    exact absurd survives (not_survives stands poised returns.executes)
  · have kept := returns.kept i hn hi
    rw [← stands.depth_eq] at kept
    exact absurd dropped (Nat.not_lt_of_le kept)
  · constructor
    · intro before
      obtain ⟨mark, k, control⟩ := lands.control
      have current : (r.machine i).state.current = c := lands.current
      refine absurd ⟨?_, current, ?_⟩ (returns.first i hn before)
      · rw [show (r.machine i).control = _ from control]
        rfl
      · rw [State.callDepth, State.processor, current, ← stands.depth_eq, lands.places]
    · rintro rfl
      exact { lands with places := rfl }

/-- One step takes a call that is under way further. -/
theorem Returns.step (contained : r.Contained m) (returns : r.Returns n m c (depth lo))
    (hP : P.activation.isEntry = false) (hn : n < i) (hi : i < m)
    (tame : (r.machine i).control.Tame (r.machine i).state)
    (tracked : r.Tracked (r.WritesBetween n m) s c P lo i) :
    (i + 1 < m → r.Tracked (r.WritesBetween n m) s c P lo (i + 1)) ∧
      (i + 1 = m → Lands True (r.WritesBetween n m) s
        ((r.machine m).control, (r.machine m).state) c lo P lo) := by
  obtain ⟨V, ordered, up, P', places, alike, slots⟩ := tracked
  obtain ⟨V', ts, stands, poised, evolves⟩ := (Machine.next_reaches (w := r.WritesBetween n m)
    (r.next i) ordered (contained.held i hi) (contained.turn i hi) (fun _ => tame)
    fun _ _ _ writes => ⟨i, hn, hi, writes⟩).layout
  have fate := (evolves c up P' lo places (alike.entry ▸ hP)).trans alike slots
  exact returns.fate (Nat.lt_succ_of_lt hn) hi stands poised fate

/-- A call that is under way after `n` has given its result at `m`. -/
theorem Returns.lands (contained : r.Contained m) (returns : r.Returns n m c (depth lo))
    (hP : P.activation.isEntry = false)
    (tame : ∀ i, i < m → (r.machine i).control.Tame (r.machine i).state)
    (begun : (n + 1 < m → r.Tracked (r.WritesBetween n m) s c P lo (n + 1)) ∧
      (n + 1 = m → Lands True (r.WritesBetween n m) s
        ((r.machine m).control, (r.machine m).state) c lo P lo)) :
    Lands True (r.WritesBetween n m) s ((r.machine m).control, (r.machine m).state) c lo P lo := by
  -- By induction along the run, from the step that made the call to the one that ends it.
  have later : ∀ i, (n + (i + 1) < m → r.Tracked (r.WritesBetween n m) s c P lo (n + (i + 1))) ∧
      (n + (i + 1) = m → Lands True (r.WritesBetween n m) s
        ((r.machine m).control, (r.machine m).state) c lo P lo) := by
    intro i
    induction i with
    | zero => exact begun
    | succ i ih =>
      by_cases before : n + (i + 1) < m
      · have hn : n < n + (i + 1) := Nat.lt_add_of_pos_right (Nat.succ_pos i)
        exact returns.step contained hP hn before (tame _ before) (ih.1 before)
      · constructor <;> intro h <;> omega
  have := returns.later
  exact (later (m - (n + 1))).2 (by omega)

/-- **Calls are balanced.** A frame whose instruction asked for a call, with the function in slot
`h`, goes on at the return address of the call. The result, if it is wanted, is then in slot `h`
and on top; the slots below are as they were, apart from writes through open cells. -/
theorem call_balanced (contained : r.Contained m) (begins : r.Begins n spec s)
    (returns : r.Returns n m s.current s.callDepth)
    (tame : ∀ i, i < m → (r.machine i).control.Tame (r.machine i).state) :
    ∃ h, s.heightOf s.current = h + spec.argc + 1 ∧
      (∃ mark k, (r.machine m).control = .execute spec.returnAddress mark k) ∧
      (r.machine m).state.heightOf s.current = (if spec.flags.discardResult then h else h + 1) ∧
      ∀ j, j < h → ¬ r.WritesBetween n m s.current j →
        (r.machine m).state.slot s.current j = s.slot s.current j := by
  have later := returns.later
  obtain ⟨asked, own⟩ := begins
  obtain ⟨ip, mark, k, control, asked⟩ := Machine.call?_eq_some asked
  obtain ⟨V, ordered⟩ := r.ordered (σ := True) n (contained.until (Nat.le_of_lt later))
    fun _ i hi => tame i (by omega)
  have tame_n : (r.machine n).state.Tame ip := by
    have := tame n later
    rwa [control] at this
  have before : r.machine n = ⟨.execute ip mark k, (r.machine n).state⟩ := by rw [← control]
  obtain ⟨a, lo, serves, entry, deep, height, V', ts, stands, poised, fate⟩ :=
    Machine.call_begun (w := r.WritesBetween n m) (before ▸ ordered) tame_n asked own
  have next : r.machine (n + 1) = Machine.step library (r.machine n) :=
    (r.next n).eq_step (by simp [Machine.Idle, control])
  rw [← before, ← next] at stands poised fate
  rw [← deep] at returns
  have lands := returns.lands (P := off a) contained entry tame
    (returns.fate (Nat.lt_succ_self n) later stands poised fate)
  refine ⟨a.floor, height, ?_, ?_, fun j hj hw => lands.slots trivial j hj hw⟩
  · rw [← serves.address]
    exact lands.control
  · rw [← serves.discards]
    exact lands.height trivial

/-- A function calls a routine, which calls another function. -/
theorem call_balanced_nested :
    ∃ spec s, Sample.nested.Begins 7 spec s ∧
      Sample.nested.Returns 7 19 s.current s.callDepth ∧
      ∃ h, s.heightOf s.current = h + spec.argc + 1 ∧
        (∃ mark k, (Sample.nested.machine 19).control = .execute spec.returnAddress mark k) ∧
        (Sample.nested.machine 19).state.heightOf s.current =
          (if spec.flags.discardResult then h else h + 1) ∧
        ∀ j, j < h → ¬ Sample.nested.WritesBetween 7 19 s.current j →
          (Sample.nested.machine 19).state.slot s.current j = s.slot s.current j := by
  obtain ⟨⟨spec, s⟩, asked⟩ := Option.isSome_iff_exists.1
    (show (Sample.nested.machine 7).call?.isSome = true by decide +kernel)
  have place : (Sample.nested.machine 7).call?.map (fun x => (x.2.current, x.2.callDepth)) =
      some (.root, 1) := by decide +kernel
  rw [asked] at place
  obtain ⟨current, depth⟩ := Prod.mk.inj (Option.some.inj place)
  have begins : Sample.nested.Begins 7 spec s := ⟨asked, by rw [depth]; decide +kernel⟩
  have returns : Sample.nested.Returns 7 19 s.current s.callDepth := by
    rw [current, depth]
    have waits : ∀ i, i < 19 → 7 < i → ¬ (Sample.nested.machine i).Executes .root 1 := by
      decide +kernel
    have kept : ∀ i, i < 20 → 7 < i →
        1 ≤ ((Sample.nested.machine i).state.processorOf .root).frames.size := by decide +kernel
    exact ⟨by decide, by decide +kernel, fun i hn hi => waits i hi hn,
      fun i hn hi => kept i (Nat.lt_succ_of_le hi) hn⟩
  exact ⟨spec, s, begins, returns,
    call_balanced (Sample.nested.contained Sample.confined 19) begins returns (by decide +kernel)⟩

end Run

/-! ## Calls out of balance -/

namespace Machine

/-- The next step drops slots below the base of the frame that executes, other than by a return, or
somebody may assign a variable by its name. -/
def drops (m : Machine ν) : Bool :=
  match m.control with
  | .execute ip _ _ =>
    match m.state.instruction? ip with
    | some (_, scope, i) =>
      m.state.world.debugger.isSome || i.op != .ret &&
        match Exec.executeAt ip m.state with
        | .ok _ s | .error _ s => s.heightOf m.state.current < scope.base
    | none => false
  | .run (.assign _ _ _) _ => true
  | _ => false

end Machine

namespace Run

/-- No instruction drops a slot below its frame and nobody assigns, and yet the call that begins at
`n` leaves another height at `m`, or another value below its function that no cell was given. -/
def Unbalanced {library : Library ν} (r : Run library) (n m : Nat) : Prop :=
  ∃ spec s, r.Begins n spec s ∧ r.Returns n m s.current s.callDepth ∧
    (∀ i, i < m → (r.machine i).drops = false) ∧
    ∃ h, s.heightOf s.current = h + spec.argc + 1 ∧
      ((r.machine m).state.heightOf s.current ≠ (if spec.flags.discardResult then h else h + 1) ∨
        ∃ j, j < h ∧ ¬ r.WritesBetween n m s.current j ∧
          (r.machine m).state.slot s.current j ≠ s.slot s.current j)

end Run

namespace Sample

/-- Returns what is two slots below its own, and leaves a number there. -/
def thief : Proto :=
  { name := "thief", numbers := [.ofNat 2],
    code := #[⟨.beginFn, 0, 0⟩, ⟨.pushNumber, 0, 0⟩, ⟨.swap, 0, 2⟩, ⟨.ret, 1, 0⟩] }

def victim : Proto :=
  { name := "victim", numbers := [.ofNat 1], protos := [thief],
    code := #[⟨.beginFn, 0, 0⟩, ⟨.pushNumber, 0, 0⟩, ⟨.closure, 0, 0⟩, ⟨.call, 0, 0⟩,
      ⟨.pop, 1, 0⟩, ⟨.ret, 1, 0⟩] }

def robbed : Run library := run victim rfl []

/-- What the routines of `escaping` do. -/
inductive Duty
  | reply
  | fail
  | yield
  | request (call : TailCall)
  | call (function : Value)
  /-- Drives a call, and goes on as its own duty is. -/
  | drive (function : Value) (arguments : List Value) (next : Option TailCall)

def Duty.ask (request : TailCall) : Program Duty :=
  .change (fun w =>
    let (v, heap) := w.heap.newTailCall request
    (.ok v, { w with heap })) .finish

def Duty.library : Library Duty
  | .fail, _ => .fail (.raiseText "failed")
  | .yield, _ => .change (fun w =>
      let (v, heap) := w.heap.newYield []
      (.ok v, { w with heap })) .finish
  | .request t, _ => ask t
  | .call function, _ => .call function [] .finish
  | .reply, _ => .reply .nil
  | .drive function arguments none, _ => .enterAsync function arguments .finish
  | .drive function arguments (some next), _ => .enterAsync function arguments fun _ => ask next

/-- The native with a number, after the two iterators. -/
def native (n : Nat) : NativeId := ⟨n + 2⟩

/-- The body of a coroutine has its continuation drive a call, whose continuation drives another,
in which the coroutine yields. The frames of the inner call stay. What fails after it is caught by
one of them, on an empty stack. -/
def duties : List Duty :=
  [.request { function := .native (native 8), arguments := [], continuation := some (native 1) },
   .drive (.native (native 2)) [] none,
   .request { function := .native (native 8), arguments := [], continuation := some (native 3) },
   .drive (.function ⟨0⟩) [.native (native 5)]
     (some { function := .native (native 4), arguments := [] }),
   .fail,
   .request { function := .function ⟨1⟩, arguments := [.native (native 7)],
              errorHandler := some (native 6) },
   .call (.function ⟨2⟩),
   .yield,
   .reply]

/-- Keeps a number in a variable that a closure captures, and calls its argument. -/
def saver : Proto :=
  { name := "saver", locals := [.slot 0 "f", .slot 1 "x"], numbers := [.ofNat 1],
    symbols := [.slot 0 "f", .slot 1 "x"],
    protos := [{ name := "getter", upvalues := [.slot 1 "x"], symbols := [.upvalue 0 "x"],
                 code := #[⟨.beginFn, 0, 0⟩, ⟨.load, 0, 0⟩, ⟨.ret, 1, 0⟩] }],
    code := #[⟨.beginFn, 1, 0⟩, ⟨.pushNumber, 0, 0⟩, ⟨.store, 1, 0⟩, ⟨.closure, 0, 0⟩,
      ⟨.load, 0, 0⟩, ⟨.call, 0, 0⟩, ⟨.ret, 1, 0⟩] }

/-- Calls its argument. -/
def forwarder : Proto :=
  { name := "forwarder", locals := [.slot 0 "f"], symbols := [.slot 0 "f"],
    code := #[⟨.beginFn, 1, 0⟩, ⟨.load, 0, 0⟩, ⟨.call, 0, 0⟩, ⟨.ret, 1, 0⟩] }

namespace Escape

def started : Machine Duty := .start {}

/-- The world of the start, with the routines. -/
def world : World Duty :=
  { started.state.world with
    natives := started.state.world.natives ++
      duties.toArray.map fun duty : Duty => (⟨"duty", .host duty⟩ : Native Duty) }

def arranged : Machine Duty := ⟨started.control, { started.state with world }⟩

def loaded (ps : List Proto) : Machine Duty :=
  ⟨arranged.control, { arranged.state with closures := (ps.map fun p => ⟨p, #[]⟩).toArray }⟩

/-- Makes a coroutine of the first routine and resumes it. -/
def launch : Program Duty := .spawn (.native (native 0)) fun _ => .resume ⟨1⟩ [] .finish

def launched : Machine Duty := ⟨.run launch .host, (loaded [saver, forwarder]).state⟩

end Escape

/-- The run in which a coroutine yields inside a call that a routine drives. -/
def escaping : Run Duty.library :=
  ((((Run.rest Duty.library {}).turn 0 Escape.arranged (.arrange Escape.world trivial)).turn 1
    (Escape.loaded [saver]) (.load (p := saver) (v := .function ⟨0⟩) trivial rfl)).turn 2
    (Escape.loaded [saver, forwarder])
    (.load (p := forwarder) (v := .function ⟨1⟩) trivial rfl)).turn 3
    Escape.launched (.act trivial rfl fun _ _ => trivial)

end Sample

namespace Run

/-- A function drops nothing, and yet it takes a slot of its caller with it. -/
theorem robbed_unbalanced : Sample.robbed.Unbalanced 7 14 := by
  obtain ⟨⟨spec, s⟩, asked⟩ := Option.isSome_iff_exists.1
    (show (Sample.robbed.machine 7).call?.isSome = true by decide +kernel)
  have seen : (Sample.robbed.machine 7).call?.map (fun x =>
      (x.2.current, x.2.callDepth, x.2.heightOf x.2.current, x.1.argc,
        (x.2.slot .root 1).bind Value.asNumber)) =
      some (.root, 1, 3, 0, some (.ofNat 1)) := by decide +kernel
  rw [asked] at seen
  simp only [Option.map_some, Option.some.injEq, Prod.mk.injEq] at seen
  obtain ⟨current, depth, height, argc, before⟩ := seen
  have after : ((Sample.robbed.machine 14).state.slot .root 1).bind Value.asNumber =
      some (.ofNat 2) := by decide +kernel
  have stores : ∀ i, i < 14 → 7 < i → ∀ ip ∈ (Sample.robbed.machine i).control.address?,
      ∀ x ∈ (Sample.robbed.machine i).state.instruction? ip, x.2.2.op ≠ .store := by
    decide +kernel
  have waits : ∀ i, i < 14 → 7 < i → ¬ (Sample.robbed.machine i).Executes .root 1 := by
    decide +kernel
  have kept : ∀ i, i < 15 → 7 < i →
      1 ≤ ((Sample.robbed.machine i).state.processorOf .root).frames.size := by decide +kernel
  refine ⟨spec, s, ⟨asked, by rw [depth]; decide +kernel⟩, ?_, by decide +kernel, 2, ?_,
    .inr ⟨1, by decide, ?_, ?_⟩⟩
  · rw [current, depth]
    exact ⟨by decide, by decide +kernel, fun i hn hi => waits i hi hn,
      fun i hn hi => kept i (Nat.lt_succ_of_le hi) hn⟩
  · rw [height, argc]
  · rintro ⟨i, hn, hi, writes⟩
    have stores := stores i hi hn
    generalize Sample.robbed.machine i = m at *
    obtain ⟨control, state⟩ := m
    cases control with
    | execute ip mark k =>
      obtain ⟨p, scope, j, index, name, cell, at_, store, -⟩ := writes
      exact stores ip rfl _ at_ store
    | run | step | value | await => exact writes
  · rw [current]
    intro same
    rw [same, before] at after
    exact absurd after (by decide)

/-- A coroutine yields in a call that a routine drives, and a function goes on without its
slots. -/
theorem escaping_unbalanced : Sample.escaping.Unbalanced 24 63 := by
  obtain ⟨⟨spec, s⟩, asked⟩ := Option.isSome_iff_exists.1
    (show (Sample.escaping.machine 24).call?.isSome = true by decide +kernel)
  have seen : (Sample.escaping.machine 24).call?.map (fun x =>
      (x.2.current, x.2.callDepth, x.2.heightOf x.2.current, x.1.argc,
        x.1.flags.discardResult)) =
      some (⟨1⟩, 1, 5, 0, false) := by decide +kernel
  rw [asked] at seen
  simp only [Option.map_some, Option.some.injEq, Prod.mk.injEq] at seen
  obtain ⟨current, depth, height, argc, kept⟩ := seen
  have waits : ∀ i, i < 63 → 24 < i → ¬ (Sample.escaping.machine i).Executes ⟨1⟩ 1 := by
    decide +kernel
  have stays : ∀ i, i < 64 → 24 < i →
      1 ≤ ((Sample.escaping.machine i).state.processorOf ⟨1⟩).frames.size := by decide +kernel
  refine ⟨spec, s, ⟨asked, by rw [depth]; decide +kernel⟩, ?_, by decide +kernel, 4, ?_, .inl ?_⟩
  · rw [current, depth]
    exact ⟨by decide, by decide +kernel, fun i hn hi => waits i hi hn,
      fun i hn hi => stays i (Nat.lt_succ_of_le hi) hn⟩
  · rw [height, argc]
  · rw [current, kept]
    decide +kernel

/-- Calls may be out of balance though no instruction drops a slot below its frame: where a function
exchanges its result for a slot of its caller, and where a coroutine yields in a call that a routine
drives. -/
theorem call_unbalanced : Sample.robbed.Unbalanced 7 14 ∧ Sample.escaping.Unbalanced 24 63 :=
  ⟨robbed_unbalanced, escaping_unbalanced⟩

end Run

end ScriptMachine
