import ScriptMachine.Proofs.Machine.Ledger

/-!
# Calls of the host

A call of the host leaves the root as it found it, whatever code runs and however the call ends: no
frames, an empty stack, nothing nested, suspended or asynchronous, and the active coroutines and
entries from before.

* `Underway`: the call runs with its books in order, or is over and the root is restored.
* `run_underway`: so it stays, step after step.
-/

namespace ScriptMachine

open Place

variable {ν : Type}

/-- The root is ready for a call, and the books are as they were. -/
structure State.Restores (before after : State ν) : Prop where
  frames : (after.processorOf .root).frames = #[]
  stack : (after.processorOf .root).stack.values = #[]
  nested : (after.processorOf .root).nestedCalls = 0
  pending : (after.processorOf .root).pending = none
  async : (after.processorOf .root).asyncMode = false
  active : after.active = before.active
  entries : after.entries = before.entries

namespace Machine

variable {σ : Prop} {s s' : State ν} {V : ThreadId → List Place} {t : Thread} {W : List Thread}
  {library : Library ν} {m : Machine ν}

/-- Where the host has the turn, the root has nothing to do. -/
theorem restores_of_host (stands : Stands σ s' V (t :: W)) (holds : Holds (ν := ν) σ .host t W)
    (active : s'.active = s.active) (entries : s'.entries = s.entries) : s.Restores s' := by
  have busy := stands.busy t (List.mem_cons_self ..)
  cases holds with
  | host root blank async =>
    have shape := busy.shape
    have height := busy.height (.inr (by rw [blank.places]; rfl))
    simp only [State.shape, Processor.shape, Thread.shape, Shape.mk.injEq, root, blank.places,
      blank.nested, blank.pending, async] at shape
    rw [root, blank.height] at height
    obtain ⟨frames, nested, async, pending⟩ := shape
    exact ⟨by simpa using frames, Array.eq_empty_of_size_eq_zero height, nested, pending, async,
      active, entries⟩

/-- A call that the host made in the state `s` is under way, or it is over. -/
inductive Underway (s : State ν) (m : Machine ν) : Prop
  | busy {V : ThreadId → List Place} : m.Ordered False V → m.control.Confined →
      Owes s.entries s.active (m.control, m.state) → Underway s m
  | ended {outcome : Except Fault Value} : m.control = .value outcome .host → s.Restores m.state →
      Underway s m

/-- The host makes a call. -/
theorem underway_after (confined : library.Confined) (ordered : m.Ordered False V)
    (quiet : m.control.Confined) (idle : m.Idle) (free : m.Free) {move : Move ν (Control ν)}
    (hm : HostCall library move) : Underway m.state (m.after move) := by
  have turn := unoccupied_of_confined quiet
  have next : Next library m (m.after move) := .call idle free hm
  obtain ⟨V', ts', stands', poised', -⟩ := (next_reaches (w := fun _ _ => True) next ordered
    (held_of_confined quiet) (fun occupied => by rw [turn] at occupied; contradiction) nofun
    nofun).layout
  refine .busy ⟨ts', stands', poised'⟩ (confined_next confined next quiet) ?_
  obtain ⟨ts, stands, poised⟩ := ordered
  obtain ⟨current, grounded⟩ := grounded_of_idle poised idle turn
  obtain ⟨t, rfl, holds⟩ := exists_root stands grounded free
  have runs : m.state.HasCurrent := by
    cases holds with
    | host root _ _ => exact stands.hasCurrent (current.trans root.symm)
  let s : State ν := { m.state with entries := m.state.entries + 1 }
  have owed : Owed m.state.entries m.state.active [.call] s := ⟨rfl, rfl, List.mem_singleton_self _⟩
  cases hm with
  | call function arguments => exact callNested_owes (s := s) (k := .exit .host) runs owed ..
  | thisCall object method arguments =>
    exact indexNested_owes (s := s) (k := .method object method arguments (.exit .host)) runs owed ..
  | callAsync function arguments =>
    exact driveAsync_owes (s := s) (k := .exit .host) runs owed ..
  | thisCallAsync object method arguments =>
    exact indexNested_owes (s := s) (k := .asyncMethod object arguments (.exit .host)) runs owed ..

theorem step_underway (confined : library.Confined) (underway : Underway s m)
    (going : m.isHalted = false) : Underway s (m.step library) := by
  obtain ⟨control, state⟩ := m
  cases underway with
  | ended done _ =>
    subst done
    contradiction
  | busy ordered quiet owes =>
    obtain ⟨V', ts', stands', poised', -⟩ := (next_reaches (w := fun _ _ => True) .step ordered
      (held_of_confined quiet) (fun _ => rfl) nofun nofun).layout
    obtain ⟨ts, stands, poised⟩ := ordered
    obtain ⟨r, rfl⟩ | owes' := advance_owes library stands poised quiet owes
    · -- the host is about to get its outcome, and the root has nothing left to do
      refine .ended rfl ?_
      cases poised with
      | value _ holds =>
        cases holds with
        | exit holds =>
          refine restores_of_host (stands.same rfl rfl) holds owes.active ?_
          exact congrArg Nat.pred owes.entries
    · exact .busy ⟨ts', stands', poised'⟩ ((confines_advance confined quiet).confined _) owes'

theorem run_underway (confined : library.Confined) (underway : Underway s m) (steps : Nat) :
    Underway s (run library steps m) := by
  induction steps generalizing m with
  | zero => exact underway
  | succ steps ih =>
    rw [run]
    split
    · exact underway
    · rename_i going
      exact ih (step_underway confined underway (Bool.eq_false_iff.2 going))

theorem Underway.restores {outcome : Except Fault Value}
    (underway : Underway s ⟨.value outcome .host, s'⟩) : s.Restores s' := by
  cases underway with
  | ended _ restores => exact restores
  | busy _ _ owes => exact absurd owes.call List.not_mem_nil

/-- A call that waits for a task is given up. -/
theorem Underway.timeOut_restores {task : Task} {c : ThreadId} {k : Kont ν .step}
    (underway : Underway s ⟨.await task (.task c k), s'⟩) (milliseconds : Nat) :
    s.Restores (timeOut milliseconds s').2 := by
  cases underway with
  | ended done _ => contradiction
  | busy ordered quiet owes =>
    obtain ⟨ts, stands, poised⟩ := ordered
    cases poised with
    | blocked _ holds => cases holds
    | awaits tasked =>
      cases tasked with
      | resumed _ _ _ _ =>
        obtain ⟨⟩ | ⟨_, call⟩ := owes.call
        contradiction
      | drive current _ _ enters =>
        obtain ⟨rfl, -, root, rfl⟩ := root_of_undriven enters (undriven_of_confined quiet)
        obtain ⟨s'', ended⟩ : ∃ s'', timeOut milliseconds s' = (_, s'') := ⟨_, rfl⟩
        obtain ⟨root, V', -, stands', holds, entries, active, -⟩ :=
          timeOut_stands (w := fun _ _ => True) stands (current.trans root) ended
        rw [ended]
        refine restores_of_host stands' holds (active.trans owes.active) ?_
        exact entries.trans (congrArg Nat.pred owes.entries)

end Machine

namespace Run

variable {library : Library ν} {r : Run library} {n : Nat}

open Machine

/-- **A call of the host leaves an idle root idle.** The host has the turn and no call of the root
is suspended. Whatever it calls, and however the call ends, the root is restored: with an outcome,
or given up while it waits for a task. -/
theorem host_calls_restore (confined : library.Confined) (idle : (r.machine n).Idle)
    (free : (r.machine n).Free) {move : Move ν (Control ν)} (hm : HostCall library move)
    (steps : Nat) :
    (∀ outcome s', perform? library steps move (r.machine n).state = (.done outcome, s') →
      (r.machine n).state.Restores s') ∧
    ∀ task c k s', run library steps ((r.machine n).after move) = ⟨.await task (.task c k), s'⟩ →
      ∀ milliseconds, (r.machine n).state.Restores (timeOut milliseconds s').2 := by
  obtain ⟨V, ordered⟩ := r.ordered (σ := False) n (r.contained confined n) nofun
  have begun := underway_after confined ordered (r.confined confined n) idle free hm
  have underway := run_underway confined begun steps
  constructor
  · intro outcome s' performed
    change (ending (run library steps ((r.machine n).after move)),
      (run library steps ((r.machine n).after move)).state) = _ at performed
    generalize run library steps ((r.machine n).after move) = m at *
    obtain ⟨control, state⟩ := m
    obtain ⟨ended, rfl⟩ := Prod.mk.inj performed
    unfold ending at ended
    split at ended
    · rename_i control
      dsimp only at control
      subst control
      exact underway.restores
    · contradiction
    · contradiction
  · intro task c k s' waiting milliseconds
    rw [waiting] at underway
    exact underway.timeOut_restores milliseconds

/-- The host calls a function, which calls a routine, which calls another function. -/
theorem host_calls_restore_nested :
    (Sample.nested.machine 2).Idle ∧ (Sample.nested.machine 2).Free ∧
    ∃ outcome s', perform? Sample.library 40
        (call Sample.library (.function ⟨0⟩) [Sample.apply]) (Sample.nested.machine 2).state =
        (.done outcome, s') ∧ (Sample.nested.machine 2).state.Restores s' := by
  have idle : (Sample.nested.machine 2).Idle := trivial
  have free : (Sample.nested.machine 2).Free := rfl
  have performed : (perform? Sample.library 40
      (call Sample.library (.function ⟨0⟩) [Sample.apply]) (Sample.nested.machine 2).state).1 matches
      .done _ := by decide +kernel
  obtain ⟨restores, -⟩ := host_calls_restore Sample.confined idle free
    (.call (.function ⟨0⟩) [Sample.apply]) 40
  generalize perform? Sample.library 40 (call Sample.library (.function ⟨0⟩) [Sample.apply])
    (Sample.nested.machine 2).state = result at performed restores
  obtain ⟨outcome | _ | _, s'⟩ := result
  · exact ⟨idle, free, outcome, s', rfl, restores outcome s' rfl⟩
  · contradiction
  · contradiction

end Run

end ScriptMachine
