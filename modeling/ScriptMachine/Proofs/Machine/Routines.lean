import ScriptMachine.Proofs.Machine.Switching
import ScriptMachine.Proofs.Machine.Turn

/-!
# What routines do

Each operation of a program reaches a state in order.

* `spawn_stands`: a new coroutine is at rest.
* `runProgram_reaches`: one operation of a program. To assign a variable is allowed only where
  heights do not matter.
-/

namespace ScriptMachine

open Place

namespace Machine

variable {ν : Type} {σ : Prop} {w : ThreadId → Nat → Prop} {allowed : Fault → Prop}
  {s s' : State ν} {V : ThreadId → List Place} {t : Thread} {W ts : List Thread}
  {library : Library ν}

/-- From a state, the work leaves the threads alone, whether it succeeds or not. -/
def WorksAside {α : Type} (s : State ν) (work : Exec ν α) : Prop :=
  match work s with
  | .ok _ s' => Aside s s'
  | .error _ s' => Aside s s'

theorem aside_bind {α β : Type} {x : Exec ν α} {f : α → Exec ν β} (hx : WorksAside s x)
    (hf : ∀ a s', x s = .ok a s' → WorksAside s' (f a)) : WorksAside s (x >>= f) := by
  unfold WorksAside at hx ⊢
  simp only [bind, EStateM.bind]
  cases hs : x s with
  | error e s' =>
    rw [hs] at hx
    exact hx
  | ok a s' =>
    rw [hs] at hx
    have second := hf a s' hs
    unfold WorksAside at second
    cases ht : f a s' with
    | ok b s'' | error b s'' =>
      simp only [ht] at second ⊢
      exact hx.trans second

theorem aside_captureAll (scope : Scope) (n : Nat) :
    WorksAside s (Exec.captureAll scope (List.replicate n .defaultEnv)) := by
  induction n generalizing s with
  | zero => exact ⟨rfl, rfl, rfl, rfl, rfl⟩
  | succ n ih =>
    refine aside_bind (x := Exec.captureSymbol scope .defaultEnv) ⟨rfl, rfl, rfl, rfl, rfl⟩ fun c s' _ => ?_
    exact aside_bind ih fun cs s'' _ => ⟨rfl, rfl, rfl, rfl, rfl⟩

theorem aside_load (p : Proto) : WorksAside s (Exec.load p) := by
  unfold Exec.load
  split
  · exact ⟨rfl, rfl, rfl, rfl, rfl⟩
  · rw [show (p.upvalues.map fun _ => Symbol.defaultEnv) =
      List.replicate p.upvalues.length .defaultEnv from List.map_const' ..]
    exact aside_bind (aside_captureAll default _) fun cells s' _ => ⟨rfl, rfl, rfl, rfl, rfl⟩

theorem aside_undump (bytes : List UInt8) : WorksAside s (Exec.undump bytes) := by
  refine aside_bind (x := get) ⟨rfl, rfl, rfl, rfl, rfl⟩ ?_
  rintro _ _ ⟨⟩
  cases Chunk.undump s.heap bytes with
  | error x => exact ⟨rfl, rfl, rfl, rfl, rfl⟩
  | ok result =>
    obtain ⟨p, heap⟩ := result
    refine aside_bind (x := Exec.ofExcept (.ok (p, heap))) ⟨rfl, rfl, rfl, rfl, rfl⟩ ?_
    rintro _ _ ⟨⟩
    refine aside_bind (x := set (s.setHeap heap)) ⟨rfl, rfl, rfl, rfl, rfl⟩ ?_
    rintro _ _ ⟨⟩
    exact aside_load p

theorem processorOf_newCoroutine (s : State ν) (function : Value) (c : ThreadId) :
    (s.newCoroutine function).2.processorOf c = s.processorOf c := by
  simp only [State.newCoroutine, State.processorOf, Array.getElem?_push]
  split
  · rename_i last
    simp [last]
  · rfl

/-- Only the new coroutine has another state. -/
theorem phase_newCoroutine (s : State ν) (function : Value) (size : s.processors.size =
    s.coroutines.size + 1) (c : ThreadId) :
    (s.newCoroutine function).2.phase c =
      if c.index = s.processors.size then .notStarted else s.phase c := by
  obtain ⟨_ | n⟩ := c
  · simp [State.phase, ThreadId.root, size]
  · simp only [State.phase, ThreadId.root, State.newCoroutine, State.coroutineState,
      State.coroutine, Array.getElem?_push, size]
    by_cases last : n = s.coroutines.size
    · simp [last]
    · simp [last]

/-- A new coroutine is at rest. -/
theorem spawn_stands (stands : Stands σ s V ts) (function : Value) :
    Stands σ (s.newCoroutine function).2 V ts := by
  have processor := processorOf_newCoroutine s function
  have phase := phase_newCoroutine s function stands.size
  have shown : ∀ t, Shown σ s V t → Shown σ (s.newCoroutine function).2 V t := fun t h =>
    ⟨(congrArg _ (processor t.id)).trans h.shape, h.places, fun hσ => by
      simp only [State.heightOf, State.stackOf, processor]
      exact h.height hσ⟩
  refine ⟨?_, fun t ht => ?_, stands.distinct, fun c hc => ?_⟩
  · simp [State.newCoroutine, stands.size]
  · have busy := stands.busy t ht
    refine ⟨shown t busy.toShown, ?_, busy.pending, busy.fits, ?_⟩
    · simp only [State.newCoroutine, Array.size_push]
      exact Nat.lt_succ_of_lt busy.inRange
    · rw [phase, if_neg (Nat.ne_of_lt busy.inRange)]
      exact busy.phase
  · obtain ⟨t, rfl, ht, resting⟩ := stands.resting c hc
    refine ⟨t, rfl, shown t ht, ?_⟩
    rw [phase]
    split
    · rename_i last
      have dead : s.phase t.id = .dead := by
        obtain ⟨c, _⟩ := t
        obtain ⟨_ | n⟩ := c
        · simp [stands.size] at last
        · simp_all [State.phase, ThreadId.root, State.coroutineState, State.coroutine, stands.size]
      have async : t.async = false := by
        have shape := congrArg Shape.async ht.shape
        simp only [State.shape, State.processorOf, last, Array.getElem?_eq_none (Nat.le_refl _)]
          at shape
        exact shape.symm
      rw [dead] at resting
      cases resting with
      | dead blank => exact .notStarted blank async
    · exact resting

/-- The share of a coroutine is no matter of its calls. -/
theorem setAutoYield_stands (stands : Stands σ s V ts) (c : ThreadId) (budget : Nat) :
    Stands σ (Exec.setAutoYield c budget s).2 V ts ∧
      (Exec.setAutoYield c budget s).2.current = s.current ∧
      (Exec.setAutoYield c budget s).2.coroutines = s.coroutines ∧
      ∀ d, (Exec.setAutoYield c budget s).2.stackOf d = s.stackOf d := by
  have run : (Exec.setAutoYield c budget s).2 = if s.coroutineState c = .running then s
      else s.modifyProcessorOf c fun p => { p with autoYield := budget } := rfl
  rw [run]
  split
  · exact ⟨stands, rfl, rfl, fun _ => rfl⟩
  · have contents := fun d => State.view_modifyProcessorOf s
      (fun p => { p with autoYield := budget }) c d Processor.stack fun _ => rfl
    refine ⟨stands.congr ?_ ?_ contents rfl, rfl, rfl, contents⟩
    · simp [State.modifyProcessorOf]
    · exact fun d => State.view_modifyProcessorOf s _ c d Processor.shape fun _ => rfl

/-- The thread that runs is where it was, and so are its calls. -/
structure Stayed (σ : Prop) (w : ThreadId → Nat → Prop) (s : State ν) (V : ThreadId → List Place)
    (t : Thread) (W : List Thread) (s' : State ν) : Prop where
  current : s'.current = t.id
  stands : ∃ V', Stands σ s' V' (t :: W) ∧ Extends σ w s V s' V'

theorem stayed_of_aside (h : Aside s s') (stands : Stands σ s V (t :: W))
    (current : s.current = t.id) : Stayed σ w s V t W s' := by
  refine ⟨h.current.trans current, V, stands.same h.processors h.coroutines, ?_⟩
  intro c up P lo hV _
  refine ⟨up, P, hV, .refl _, fun _ j _ _ => ?_⟩
  simp only [State.slot, State.stackOf, State.processorOf, h.processors]

theorem Stayed.reaches {control : Control ν} (h : Stayed σ w s V t W s')
    (poised : s'.current = t.id → Poised σ s' control (t :: W)) (no : control.fault? = none) :
    Reaches σ w allowed s V (control, s') := by
  obtain ⟨current, V', stands, extended⟩ := h
  exact .after extended (reaches_refl stands (poised current) (no_fault no))

/-- Work on the spot, whose outcome goes to the rest of the program. -/
theorem direct_reaches {k : Kont ν .value} (holds : Holds σ k t W)
    {next : Except Fault Value → Program ν} {work : Exec ν Value}
    (ok : ∀ v s', work s = .ok v s' → Stayed σ w s V t W s')
    (error : ∀ e s', work s = .error e s' → Stayed σ w s V t W s') :
    Reaches σ w allowed s V (runProgram.direct k work next s) := by
  unfold runProgram.direct Exec.andThen
  cases run : work s with
  | ok v s' => exact (ok v s' run).reaches (fun current => .run current holds) rfl
  | error e s' => exact (error e s' run).reaches (fun current => .run current holds) rfl

theorem spawn_stayed (stands : Stands σ s V (t :: W)) (current : s.current = t.id)
    (function : Value) :
    match Exec.spawn function s with
    | .ok _ s' => Stayed σ w s V t W s'
    | .error _ s' => Stayed σ w s V t W s' := by
  by_cases callable : function.isFunction = true
  · have run : Exec.spawn function s =
        .ok (.thread (s.newCoroutine function).1) (s.newCoroutine function).2 := by
      simp only [Exec.spawn, callable]
      rfl
    rw [run]
    refine ⟨current, V, spawn_stands stands function, fun c up P lo hV _ => ?_⟩
    refine ⟨up, P, hV, .refl _, fun _ j _ _ => ?_⟩
    simp only [State.slot, State.stackOf, processorOf_newCoroutine]
  · have run : Exec.spawn function s =
        .error (.raise (.badArgument 1 "create" "function" function.foundName)) s := by
      simp only [Exec.spawn, callable]
      rfl
    rw [run]
    exact stayed_of_aside (.refl s) stands current

theorem autoYield_stayed (stands : Stands σ s V (t :: W)) (current : s.current = t.id)
    (c : ThreadId) (budget : Nat) : Stayed σ w s V t W (Exec.setAutoYield c budget s).2 := by
  obtain ⟨stands', current', -, contents⟩ := setAutoYield_stands stands c budget
  refine ⟨current'.trans current, V, stands', fun d up P lo hV _ => ?_⟩
  refine ⟨up, P, hV, .refl _, fun _ j _ _ => ?_⟩
  simp only [State.slot, contents]

/-- Where heights do not matter, variables may be assigned. -/
theorem assign_stayed (stands : Stands σ s V (t :: W)) (current : s.current = t.id)
    (steady : Steady σ t.height w s s') (height : s'.heightOf s.current = s.heightOf s.current) :
    Stayed σ w s V t W s' := by
  have busy := stands.busy t (List.mem_cons_self ..)
  have m : Moves σ t.height w s s' t t :=
    ⟨steady.toLocal, current, rfl, busy.pending,
      by rw [← current, steady.shape]; exact stands.shape current,
      fun known => by rw [← current, height]; exact stands.height current known, busy.fits⟩
  exact ⟨m.runs, _, m.stands stands, m.extends stands (retains_refl busy.fits.low)⟩

/-- **One operation of a program.** -/
theorem runProgram_reaches (stands : Stands σ s V (t :: W))
    (current : s.current = t.id) {k : Kont ν .value} (holds : Holds σ k t W) {p : Program ν}
    (quiet : σ → ∀ name v next, p ≠ .assign name v next)
    (faults : ∀ x, p = .finish (.error x) → x.isStray = true → allowed x) :
    Reaches σ w allowed s V (runProgram library k p s) := by
  have aside : ∀ (s' : State ν) {p' : Program ν}, Aside s s' →
      Reaches σ w allowed s V (.run p' k, s') := fun _ _ h =>
    (stayed_of_aside h stands current).reaches (fun current => .run current holds) rfl
  let s' : State ν := { s with entries := s.entries + 1 }
  have entered : Stands σ s' V (t :: W) := stands.same rfl rfl
  cases p with
  | finish outcome =>
    cases outcome with
    | ok v => exact reaches_refl stands (.value current holds) (no_fault rfl)
    | error x => exact reaches_refl stands (.value current holds) (fails_value (faults x rfl))
  | change action next =>
    exact aside { s with world := (action s.world).2 } ⟨rfl, rfl, rfl, rfl, rfl⟩
  | ask query next => exact aside s ⟨rfl, rfl, rfl, rfl, rfl⟩
  | print values next =>
    exact aside (s.record (.printed (Snapshot.ofValues s.scene values))) ⟨rfl, rfl, rfl, rfl, rfl⟩
  | spawn function next =>
    have spawned := spawn_stayed (w := w) stands current function
    refine direct_reaches holds (fun v s' run => ?_) fun e s' run => ?_
    · simp only [run] at spawned
      exact spawned
    · simp only [run] at spawned
      exact spawned
  | autoYield c budget next =>
    have set := autoYield_stayed (w := w) stands current c budget
    exact set.reaches (fun current => .run current holds) rfl
  | undump bytes next =>
    have work := aside_undump (s := s) bytes
    unfold WorksAside at work
    refine direct_reaches holds (fun v s' run => ?_) fun e s' run => ?_
    · rw [run] at work
      exact stayed_of_aside work stands current
    · rw [run] at work
      exact stayed_of_aside work stands current
  | assign name v next =>
    have hσ : ¬ σ := fun hσ => quiet hσ name v next rfl
    cases assigned : s.assignSymbol (s.findSymbol name) v with
    | ok s' =>
      have run : (do Exec.assignAll [(name, v)]; return Value.void : Exec ν Value) s =
          .ok .void s' := by
        simp only [Exec.assignAll, bind, EStateM.bind, get, getThe, MonadStateOf.get, EStateM.get,
          assigned]
        rfl
      obtain ⟨steady, height⟩ := Exec.assignSymbol_ok (w := w) (b := t.height) hσ assigned
      refine direct_reaches holds (fun u s'' same => ?_) fun x s'' same => ?_
      · obtain ⟨-, rfl⟩ := EStateM.Result.ok.inj (run.symm.trans same)
        exact assign_stayed stands current steady height
      · cases run.symm.trans same
    | error x =>
      have run : (do Exec.assignAll [(name, v)]; return Value.void : Exec ν Value) s =
          .error x s := by
        simp only [Exec.assignAll, bind, EStateM.bind, get, getThe, MonadStateOf.get, EStateM.get,
          assigned]
        rfl
      refine direct_reaches holds (fun u s'' same => ?_) fun x s'' same => ?_
      · cases run.symm.trans same
      · obtain ⟨-, rfl⟩ := EStateM.Result.error.inj (run.symm.trans same)
        exact assign_stayed stands current (.refl s) rfl
  | call function arguments next =>
    exact callNested_reaches stands current (.routine holds) ..
  | index object key next =>
    exact indexNested_reaches stands current (.routine holds) ..
  | resume c arguments next =>
    have holds : Holds σ (.routine next k) t W := .routine holds
    refine resume_reaches stands ?_ .synchronous nofun (fun r => .value current holds) c arguments
    rw [current]
    exact .busy holds
  | enter function arguments next =>
    refine .same s' (fun _ => rfl) ?_
    exact callNested_reaches entered current (.exit (.routine holds)) ..
  | enterMethod object method arguments next =>
    refine .same s' (fun _ => rfl) ?_
    exact indexNested_reaches entered current (.method (.exit (.routine holds))) ..
  | enterAsync function arguments next =>
    refine .same s' (fun _ => rfl) ?_
    exact driveAsync_reaches entered current (.exit (.routine holds)) ..

end Machine

end ScriptMachine
