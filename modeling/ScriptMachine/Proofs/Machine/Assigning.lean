import ScriptMachine.Proofs.Machine.Recovering

/-!
# Routines uphold variables

Host routines and the debugger write variables by name. Nothing else that a routine does changes
a variable.

* `State.assigned`: what assignments by name write.
* `runProgram_upholds`: one operation of a routine.
-/

namespace ScriptMachine

variable {ν α β : Type} {L : Locals} {ws ws' : List Write} {s s' : State ν} {n m b : Nat}

/-- What assignments by name write, until one of them is refused. -/
def State.assigned (s : State ν) : List (String × Value) → List Write
  | [] => []
  | (name, v) :: rest =>
    match s.assignSymbol (s.findSymbol name) v with
    | .error _ => []
    | .ok s' =>
      (s.scope?.elim [] fun scope => s.writesOf scope v (s.findSymbol name)) ++ s'.assigned rest

def Program.writes (s : State ν) : Program ν → List Write
  | .assign name v _ => s.assigned [(name, v)]
  | _ => []

theorem carries_assignSymbol (tidy : s.Tidy L) {sym : Symbol} {v : Value}
    (h : s.assignSymbol sym v = .ok s') :
    Carries L (s.scope?.elim [] fun scope => s.writesOf scope v sym)
      (s.callsOf s.current).length s s' := by
  unfold State.assignSymbol at h
  cases found : s.scope? with
  | some scope =>
    rw [found] at h
    exact carries_writeSymbol tidy h
  | none =>
    rw [found] at h
    have level : Level s s' := by
      dsimp only at h
      split at h
      · cases h
        exact .of_world _
      · cases h
    have current : s'.current = s.current := by
      dsimp only at h
      split at h
      · cases h
        rfl
      · cases h
    exact level.carries current tidy

namespace Exec

/-- Assignments write what they say. -/
theorem assignAll_within (tidy : s.Tidy L) (deep : n ≤ (s.callsOf s.current).length)
    (assignments : List (String × Value)) :
    Within (Carries L (s.assigned assignments) n) s (assignAll assignments) := by
  induction assignments generalizing s with
  | nil => exact Carries.refl tidy deep
  | cons assignment rest ih =>
    obtain ⟨name, v⟩ := assignment
    cases assigned : s.assignSymbol (s.findSymbol name) v with
    | error e =>
      have run : assignAll ((name, v) :: rest) s = .error e s := by
        simp only [assignAll, bind, EStateM.bind, get, getThe, MonadStateOf.get, EStateM.get,
          assigned]
        rfl
      unfold Within
      simp only [run, State.assigned, assigned]
      exact .refl tidy deep
    | ok s' =>
      have run : assignAll ((name, v) :: rest) s = assignAll rest s' := by
        simp only [assignAll, bind, EStateM.bind, get, getThe, MonadStateOf.get, EStateM.get,
          assigned]
        rfl
      have carries := (carries_assignSymbol tidy assigned).mono deep
      have later := ih carries.tidy (carries.current ▸ carries.deep)
      unfold Within at later ⊢
      simp only [run, State.assigned, assigned]
      cases next : assignAll rest s' with
      | ok _ t =>
        rw [next] at later
        exact carries.trans later
      | error _ t =>
        rw [next] at later
        exact carries.trans later

/-- Environments are captured in cells of their own. -/
theorem captureEnvironments_leads (tidy : s.Tidy L) (deep : n ≤ (s.callsOf s.current).length)
    (syms : List Symbol) :
    Leads (Carries L [] n) s (captureAll default (syms.map fun _ => .defaultEnv)) fun xs t =>
      ∀ x ∈ xs, x.index < t.cells.size := by
  induction syms generalizing s with
  | nil => exact leads_of_ok [] s rfl (.refl tidy deep) nofun
  | cons sym syms ih =>
    have first : Leads (Carries L [] n) s (captureSymbol default .defaultEnv) fun x t =>
        x.index < t.cells.size := by
      obtain ⟨carries, -⟩ := carries_newCell tidy (.table s.world.globals)
      exact leads_of_ok ⟨s.cells.size⟩ _ rfl (carries.mono deep) (by simp)
    refine leads_bind first (fun _ _ => Carries.trans) fun x t _ carries known => ?_
    have others := ih carries.tidy (carries.current ▸ carries.deep)
    refine leads_bind others (fun _ _ => Carries.trans) fun xs u _ carries' all => ?_
    refine leads_of_ok (x :: xs) u rfl (.refl carries'.tidy (carries'.current ▸ carries'.deep)) ?_
    intro y hy
    obtain rfl | hy := List.mem_cons.1 hy
    · exact Nat.lt_of_lt_of_le known carries'.faithful.size
    · exact all y hy

theorem load_leads (tidy : s.Tidy L) (deep : n ≤ (s.callsOf s.current).length) (p : Proto) :
    Leads (Carries L [] n) s (load p) fun _ _ => True := by
  unfold load
  split
  · exact leads_of_error _ s rfl (.refl tidy deep)
  · refine leads_bind (captureEnvironments_leads tidy deep p.upvalues)
      (fun _ _ => Carries.trans) fun xs t _ carries known => ?_
    have closed := carries_newClosure carries.tidy ⟨p, xs.toArray⟩ fun x hx =>
      known x (List.mem_toArray.1 hx)
    exact leads_of_ok _ _ rfl (closed.mono (carries.current ▸ carries.deep)) trivial

theorem undump_leads (tidy : s.Tidy L) (deep : n ≤ (s.callsOf s.current).length)
    (bytes : List UInt8) : Leads (Carries L [] n) s (undump bytes) fun _ _ => True := by
  unfold undump
  refine leads_get ?_
  cases Chunk.undump s.heap bytes with
  | error e => exact leads_of_error e s rfl (.refl tidy deep)
  | ok read =>
    obtain ⟨p, heap⟩ := read
    have carries := ((Level.of_world { s.world with heap }).carries rfl tidy).mono deep
    have loaded := load_leads carries.tidy carries.deep p
    exact ⟨fun v t run => ⟨carries.trans (loaded.ok v t run).1, trivial⟩,
      fun e t run => carries.trans (loaded.error e t run)⟩

theorem spawn_leads (tidy : s.Tidy L) (deep : n ≤ (s.callsOf s.current).length)
    (function : Value) : Leads (Carries L [] n) s (spawn function) fun _ _ => True := by
  unfold spawn
  split
  · exact leads_of_ok _ _ rfl (((Level.of_newCoroutine function).carries rfl tidy).mono deep)
      trivial
  · exact leads_of_error _ s rfl (.refl tidy deep)

end Exec

namespace Machine

open Exec

variable {library : Library ν} {k : Kont ν .step} {l : Kont ν .value}

theorem level_setAutoYield (c : ThreadId) (budget : Nat) :
    Level s (setAutoYield c budget s).2 := by
  change Level s (if _ then _ else _)
  split
  · exact .refl s
  · exact level_modifyProcessorOf s c _ fun _ => ⟨rfl, rfl⟩

theorem direct_upholds {work : Exec ν Value} {next : Except Fault Value → Program ν}
    (ready : l.Ready L s n)
    (leads : Exec.Leads (Carries L [] (s.callsOf s.current).length) s work fun _ _ => True) :
    Upholds L [] s (runProgram.direct l work next s) := by
  unfold runProgram.direct Exec.andThen
  cases run : work s with
  | ok v t =>
    have carries := (leads.ok v t run).1
    exact .after carries (.run (ready.high.carry carries) _)
  | error e t =>
    have carries := leads.error e t run
    exact .after carries (.run (ready.high.carry carries) _)

/-- **One operation of a routine.** -/
theorem runProgram_upholds (ready : l.Ready L s n) (resumables : Resumables s l) (p : Program ν) :
    Upholds L (p.writes s) s (runProgram library l p s) := by
  have entering : Level s { s with entries := s.entries + 1 } := .of_processors rfl rfl rfl
  have deep := Nat.le_refl (s.callsOf s.current).length
  have routine : ∀ next, (Kont.routine next l).Ready L s n := fun next => { ready with }
  cases p with
  | finish outcome => exact .value ready _
  | change action next =>
    have level : Level s { s with world := (action s.world).2 } := .of_world _
    exact .level level (.run (ready.level level rfl) _)
  | ask query next => exact .run ready _
  | print values next =>
    have level : Level s (s.record (.printed (Snapshot.ofValues s.scene values))) := .of_world _
    exact .level level (.run (ready.level level rfl) _)
  | spawn function next => exact direct_upholds ready (spawn_leads ready.tidy deep function)
  | autoYield c budget next =>
    have level := level_setAutoYield (s := s) c budget
    have current : (setAutoYield c budget s).2.current = s.current := by
      change (if _ then _ else _ : State ν).current = _
      split <;> rfl
    exact .level level (.run (ready.level level current) _)
  | undump bytes next => exact direct_upholds ready (undump_leads ready.tidy deep bytes)
  | assign name v next =>
    have within := assignAll_within ready.tidy deep [(name, v)]
    have run : runProgram library l (.assign name v next) s = (match assignAll [(name, v)] s with
      | .ok _ t => (.run (next (.ok .void)) l, t)
      | .error e t => (.run (next (.error e)) l, t)) := by
      simp only [runProgram, runProgram.direct, Exec.andThen, bind, EStateM.bind]
      cases assignAll [(name, v)] s <;> rfl
    rw [run]
    unfold Within at within
    cases assigned : assignAll [(name, v)] s with
    | ok _ t =>
      rw [assigned] at within
      have ready := ready.high.carry within
      exact ⟨within.faithful, within.tidy, within.followed, ready.high.clears⟩
    | error e t =>
      rw [assigned] at within
      have ready := ready.high.carry within
      exact ⟨within.faithful, within.tidy, within.followed, ready.high.clears⟩
  | call function arguments next => exact callNested_upholds (routine next) ..
  | index object key next => exact indexNested_upholds (routine next) ..
  | resume c arguments next =>
    exact resume_upholds (routine next) (fun c alive dead => { resumables c alive dead with })
      .synchronous c arguments
  | enter function arguments next =>
    have waits : (Kont.exit (.routine next l)).Ready L s n := { ready with }
    exact .level entering (callNested_upholds (waits.level entering rfl) ..)
  | enterMethod object method arguments next =>
    have waits : (Kont.method object method arguments (.exit (.routine next l))).Ready L s n :=
      { ready with }
    exact .level entering (indexNested_upholds (waits.level entering rfl) ..)
  | enterAsync function arguments next =>
    have waits : (Kont.exit (.routine next l)).Ready L s n := { ready with }
    exact .level entering (driveAsync_upholds (waits.level entering rfl) ..)

end Machine

end ScriptMachine
