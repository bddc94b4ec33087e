import Mathlib.Logic.Relation
import ScriptMachine.Proofs.Machine.Chain
import ScriptMachine.Proofs.Machine.Ledger

/-!
# The life of a coroutine

The states of coroutines, the list of active ones and what their processors wait for stay in step,
whatever the routines do, as long as the host waits for each resumption before it turns to another
one.

* `Machine.Serial`: what comes next where resumptions are nested.
* `State.Orderly`: which coroutines are active, and what a suspended one waits for.
* `Stirs`: what a function of the machine does on the thread that runs.
* `serial_alive`: whatever comes next keeps the order, and no coroutine goes back in its life.
-/

namespace ScriptMachine

variable {ν : Type}

namespace State

def Halted (s : State ν) (c : ThreadId) : Prop :=
  ∃ ip mark, (s.outlineOf c).pending = some (.instruction ip, mark)

/-- The states of coroutines agree with the list of active ones and with their processors. -/
structure Orderly (s : State ν) : Prop where
  running : ∀ c, s.coroutineState c = .running ↔ c ∈ s.active
  once : s.active.Nodup
  suspended : ∀ c, s.coroutineState c = .suspended → s.Parked c
  forceSuspended : ∀ c, s.coroutineState c = .forceSuspended → s.Halted c

/-- The coroutine exists. -/
def Knows (s : State ν) (c : ThreadId) : Prop := c ≠ .root ∧ c.index ≤ s.coroutines.size

/-- Coroutines have stayed or come, and none has gone back in its life. -/
structure Ages (s s' : State ν) : Prop where
  known : ∀ c, s.Knows c → s'.Knows c
  started : ∀ c, s.Knows c → s'.coroutineState c = .notStarted → s.coroutineState c = .notStarted
  dead : ∀ c, s.Knows c → s.coroutineState c = .dead → s'.coroutineState c = .dead

theorem Ages.refl (s : State ν) : s.Ages s := ⟨fun _ h => h, fun _ _ h => h, fun _ _ h => h⟩

theorem Ages.trans {s s' s'' : State ν} (h : s.Ages s') (h' : s'.Ages s'') : s.Ages s'' where
  known c hc := h'.known c (h.known c hc)
  started c hc fresh := h.started c hc (h'.started c (h.known c hc) fresh)
  dead c hc gone := h'.dead c (h.known c hc) (h.dead c hc gone)

end State

/-- Another thread runs. -/
theorem State.Orderly.turn {s : State ν} (h : s.Orderly) (c : ThreadId) :
    State.Orderly { s with current := c } :=
  ⟨h.running, h.once, h.suspended, h.forceSuspended⟩

theorem State.Ages.turn (s : State ν) (c : ThreadId) : s.Ages { s with current := c } :=
  ⟨fun _ h => h, fun _ _ h => h, fun _ _ h => h⟩

theorem State.knows_of_active {s : State ν} (orderly : s.Orderly) {c : ThreadId}
    (active : c ∈ s.active) : s.Knows c := by
  have running := (orderly.running c).2 active
  exact State.inRange_of_coroutineState (by rw [running]; nofun)

/-- What a step says about the thread that stops with it: what it waits for, and that a call that
is driven waits on the thread that runs. -/
def Posed (s : State ν) : Control ν → Prop
  | .step (.ok (.suspend (.yield _))) _ => s.Parked s.current
  | .step (.ok (.suspend .forced)) _ => s.Halted s.current
  | .await _ (.task c (.drive _ _)) => c = s.current
  | _ => True

namespace Machine

/-- The states, the list and those who wait agree. -/
structure Lives (x : Control ν × State ν) : Prop where
  orderly : x.2.Orderly
  stack : x.2.active = Debt.active x.1.debts
  posed : Posed x.2 x.1

/-- Nothing changes but the thread that runs, and those who wait are on the same threads. -/
structure Stirs (s : State ν) (threads : List ThreadId) (x : Control ν × State ν) : Prop where
  coroutines : x.2.coroutines = s.coroutines
  active : x.2.active = s.active
  current : x.2.current = s.current
  others : ∀ c, c ≠ s.current → x.2.outlineOf c = s.outlineOf c
  stack : Debt.active x.1.debts = threads
  posed : Posed x.2 x.1

variable {library : Library ν} {s s' : State ν} {x : Control ν × State ν}
  {ts threads : List ThreadId}

namespace Stirs

theorem of_shifted {o : Outline} (shifted : Shifted o s s') (h : Stirs s' debts x) :
    Stirs s debts x where
  coroutines := h.coroutines.trans shifted.coroutines
  active := h.active.trans shifted.active
  current := h.current.trans shifted.current
  others c hc := (h.others c (shifted.current ▸ hc)).trans (shifted.others c hc)
  stack := h.stack
  posed := h.posed

theorem of_rigid (rigid : Rigid s s') (h : Stirs s' threads x) : Stirs s threads x :=
  h.of_shifted rigid.shifted

/-- Only the count of entries is another. -/
theorem of_entries {n : Nat} (h : Stirs { s with entries := n } threads x) : Stirs s threads x :=
  ⟨h.coroutines, h.active, h.current, h.others, h.stack, h.posed⟩

/-- The state is as it was. -/
theorem here {control : Control ν} (stack : Debt.active control.debts = threads)
    (posed : Posed s control) : Stirs s threads (control, s) :=
  ⟨rfl, rfl, rfl, fun _ _ => rfl, stack, posed⟩

end Stirs

theorem calls_stirs {spec : CallSpec} {k : Kont ν .step} (calls : Calls library spec k s x) :
    Stirs s (Debt.active k.debts) x := by
  cases calls with
  | refused rigid => exact .of_rigid rigid (.here rfl trivial)
  | script _ _ shifted | native _ _ shifted => exact .of_shifted shifted (.here rfl trivial)

theorem nests_stirs {k : Kont ν .value} (nests : Nests library k s x) :
    Stirs s (Debt.active k.debts) x := by
  cases nests with
  | refused => exact .here rfl trivial
  | entered _ _ shifted calls => exact .of_shifted shifted (calls_stirs calls)

theorem drives_stirs {k : Kont ν .value} (drives : Drives library k s x) :
    Stirs s (Debt.active k.debts) x := by
  cases drives with
  | refused => exact .here rfl trivial
  | entered _ _ _ shifted calls => exact .of_shifted shifted (calls_stirs calls)

theorem guarded_debts (handlers : Handlers) (frame : Frame) (mark : Mark) (k : Kont ν .step) :
    (guarded handlers frame mark k).debts = k.debts := by
  unfold guarded
  split <;> rfl

theorem finishes_stirs {frame : Frame} {v : Value} {fromNative : Bool} {k : Kont ν .step}
    (finishes : Finishes library frame v fromNative k s x) : Stirs s (Debt.active k.debts) x := by
  cases finishes with
  | continued | returned => exact .here rfl trivial
  | delivered _ rigid | awaited rigid | failed rigid => exact .of_rigid rigid (.here rfl trivial)
  | @suspended reason s' _ yields shifted =>
    refine .of_shifted shifted (.here rfl ?_)
    have pending := congrArg Outline.pending shifted.outline
    cases reason with
    | yield v => exact ⟨frame, {}, pending⟩
    | forced => exact absurd rfl yields
    | await task => trivial
  | requested _ _ requests =>
    cases requests with
    | refused => exact .here rfl trivial
    | performed _ _ _ _ rigid calls =>
      have stirs := calls_stirs calls
      rw [guarded_debts] at stirs
      exact .of_rigid rigid stirs

theorem unwinds_stirs {e : ScriptError} {mark : Mark} {k : Kont ν .step} {count : Nat}
    (unwinds : Unwinds library e mark k count s x) : Stirs s (Debt.active k.debts) x := by
  cases unwinds with
  | caught _ _ _ _ _ shifted | lost _ _ _ _ _ shifted =>
    exact .of_shifted shifted (.here rfl trivial)

theorem decorates_stirs {e : ScriptError} {caught : Bool} {mark : Mark} {k : Kont ν .step}
    {decorators : List Value} (decorates : Decorates library e caught mark k s decorators x) :
    Stirs s (Debt.active k.debts) x := by
  cases decorates with
  | last unwinds => exact unwinds_stirs unwinds
  | next nests => exact nests_stirs nests

theorem fails_stirs {fault : Fault} {ip : Nat} {mark : Mark} {k : Kont ν .step}
    (fails : Fails library ip mark k s fault x) : Stirs s (Debt.active k.debts) x := by
  cases fails with
  | dropped _ _ _ shifted => exact .of_shifted shifted (.here rfl trivial)
  | settled _ unwinds => exact unwinds_stirs unwinds
  | decorated _ decorates => exact decorates_stirs decorates

theorem picks_stirs {input : Except Fault Value} {fromTask : Bool} {k : Kont ν .step}
    (picks : Picks library input fromTask k s x) : Stirs s (Debt.active k.debts) x := by
  cases picks with
  | nothing => exact .here rfl trivial
  | instruction _ shifted | failed _ _ shifted => exact .of_shifted shifted (.here rfl trivial)
  | delivered _ _ shifted _ finishes =>
    have stirs := finishes_stirs finishes
    exact .of_shifted shifted stirs

/-- While only a thread in the middle of a call changes, coroutines stay in order. -/
theorem Stirs.lives (stirs : Stirs s threads x) (orderly : s.Orderly)
    (stack : s.active = threads) (busy : ¬ s.Stopped s.current) :
    Lives x ∧ s.Ages x.2 := by
  have states : ∀ c, x.2.coroutineState c = s.coroutineState c := fun c => by
    simp only [State.coroutineState, State.coroutine, stirs.coroutines]
  have outline : ∀ c, s.Stopped c → x.2.outlineOf c = s.outlineOf c := fun c rests =>
    stirs.others c fun own => busy (own ▸ rests)
  refine ⟨⟨⟨fun c => ?_, ?_, fun c rests => ?_, fun c rests => ?_⟩, ?_, stirs.posed⟩,
    ⟨fun c hc => ?_, fun c _ fresh => ?_, fun c _ gone => ?_⟩⟩
  · rw [states, stirs.active]
    exact orderly.running c
  · rw [stirs.active]
    exact orderly.once
  · rw [states] at rests
    unfold State.Parked
    rw [outline c (.inl rests)]
    exact orderly.suspended c rests
  · rw [states] at rests
    unfold State.Halted
    rw [outline c (.inr rests)]
    exact orderly.forceSuspended c rests
  · rw [stirs.active, stack, stirs.stack]
  · exact ⟨hc.1, by rw [stirs.coroutines]; exact hc.2⟩
  · exact (states c).symm.trans fresh
  · exact (states c).trans gone

/-- Another thread runs, and one coroutine is in another state, which its processor and the list
of active coroutines bear out. -/
theorem orderly_switch {next c : ThreadId} {state : CoroutineState} {active : List ThreadId}
    (switches : Switches next c state active s s') (orderly : s.Orderly) (known : s.Knows c)
    (others : ∀ d, d ≠ c → (d ∈ active ↔ d ∈ s.active)) (own : c ∈ active ↔ state = .running)
    (once : active.Nodup) (delivers : state = .suspended → s.Parked c)
    (halted : state = .forceSuspended → s.Halted c) : s'.Orderly := by
  obtain ⟨branch, inRange⟩ := known
  have changed := switches.own branch inRange
  refine ⟨fun d => ?_, ?_, fun d rests => ?_, fun d rests => ?_⟩
  · rw [switches.active]
    by_cases same : d = c
    · subst same
      rw [changed]
      exact own.symm
    · rw [switches.others branch d same, others d same]
      exact orderly.running d
  · rw [switches.active]
    exact once
  · unfold State.Parked
    rw [switches.pending]
    by_cases same : d = c
    · subst same
      exact delivers (changed.symm.trans rests)
    · rw [switches.others branch d same] at rests
      exact orderly.suspended d rests
  · unfold State.Halted
    rw [switches.pending]
    by_cases same : d = c
    · subst same
      exact halted (changed.symm.trans rests)
    · rw [switches.others branch d same] at rests
      exact orderly.forceSuspended d rests

theorem ages_switch {next c : ThreadId} {state : CoroutineState} {active : List ThreadId}
    (switches : Switches next c state active s s') (known : s.Knows c)
    (alive : s.coroutineState c ≠ .dead) (begun : state ≠ .notStarted) : s.Ages s' := by
  obtain ⟨branch, inRange⟩ := known
  have changed := switches.own branch inRange
  refine ⟨fun d hd => ⟨hd.1, by rw [switches.count]; exact hd.2⟩, fun d _ fresh => ?_,
    fun d _ gone => ?_⟩
  · by_cases same : d = c
    · subst same
      exact absurd (changed.symm.trans fresh) begun
    · rw [switches.others branch d same] at fresh
      exact fresh
  · by_cases same : d = c
    · subst same
      exact absurd gone alive
    · rw [switches.others branch d same]
      exact gone

/-- A coroutine at rest joins the active ones. -/
theorem orderly_awake {c : ThreadId} (orderly : s.Orderly) (alive : s.coroutineState c ≠ .dead)
    (rests : s.coroutineState c ≠ .running)
    (switches : Switches c c .running (c :: s.active) s s') :
    s'.Orderly ∧ s.Ages s' := by
  have known : s.Knows c := State.inRange_of_coroutineState alive
  have absent : c ∉ s.active := fun active => rests ((orderly.running c).2 active)
  refine ⟨?_, ages_switch switches known alive nofun⟩
  refine orderly_switch switches orderly known (fun d other => ?_) ?_ ?_ nofun nofun
  · exact ⟨fun active => (List.mem_cons.1 active).resolve_left other, List.mem_cons_of_mem c⟩
  · exact ⟨fun _ => rfl, fun _ => List.mem_cons_self ..⟩
  · exact List.nodup_cons.2 ⟨absent, orderly.once⟩

/-- The innermost active coroutine leaves the list, with what it waits for. -/
theorem orderly_asleep {previous c : ThreadId} {r : Except Fault Step} {below : List ThreadId}
    (orderly : s.Orderly) (stack : s.active = c :: below)
    (switches : Switches previous c (resumeOutcome r).1 s.active.tail s s')
    (delivers : (resumeOutcome r).1 = .suspended → s.Parked c)
    (halted : (resumeOutcome r).1 = .forceSuspended → s.Halted c) : s'.Orderly ∧ s.Ages s' := by
  have active : c ∈ s.active := stack ▸ List.mem_cons_self ..
  have known := State.knows_of_active orderly active
  have once := orderly.once
  rw [stack] at switches once
  obtain ⟨absent, distinct⟩ := List.nodup_cons.1 once
  have ends : (resumeOutcome r).1 ≠ .running ∧ (resumeOutcome r).1 ≠ .notStarted := by
    match r with
    | .error _ | .ok (.proceed _) | .ok (.return _) | .ok (.suspend (.yield _))
    | .ok (.suspend .forced) | .ok (.suspend (.await _)) => exact ⟨nofun, nofun⟩
  constructor
  · refine orderly_switch switches orderly known (fun d other => ?_) ?_ distinct delivers halted
    · rw [stack]
      exact ⟨List.mem_cons_of_mem c, fun active => (List.mem_cons.1 active).resolve_left other⟩
    · exact ⟨fun active => absurd active absent, fun running => absurd running ends.1⟩
  · refine ages_switch switches known ?_ ends.2
    rw [(orderly.running c).2 active]
    nofun

theorem orderly_newCoroutine (orderly : s.Orderly) (function : Value) :
    (s.newCoroutine function).2.Orderly ∧ s.Ages (s.newCoroutine function).2 := by
  -- a state other than that of a new coroutine is the one from before
  have before : ∀ c state, state ≠ .notStarted →
      ((s.newCoroutine function).2.coroutineState c = state → s.coroutineState c = state) := by
    intro c state begun now
    obtain same | ⟨fresh, -⟩ := s.coroutineState_newCoroutine function c
    · exact same.symm.trans now
    · exact absurd (now.symm.trans fresh) begun
  have known : ∀ c, s.Knows c →
      (s.newCoroutine function).2.coroutineState c = s.coroutineState c := by
    intro c hc
    obtain same | ⟨-, new⟩ := s.coroutineState_newCoroutine function c
    · exact same
    · have := hc.2
      omega
  refine ⟨⟨fun c => ⟨fun running => ?_, fun active => ?_⟩, orderly.once, fun c rests => ?_,
    fun c rests => ?_⟩, ⟨fun c hc => ⟨hc.1, ?_⟩, fun c hc fresh => ?_, fun c hc gone => ?_⟩⟩
  · exact (orderly.running c).1 (before c _ nofun running)
  · exact (known c (State.knows_of_active orderly active)).trans ((orderly.running c).2 active)
  · unfold State.Parked
    rw [s.outlineOf_newCoroutine]
    exact orderly.suspended c (before c _ nofun rests)
  · unfold State.Halted
    rw [s.outlineOf_newCoroutine]
    exact orderly.forceSuspended c (before c _ nofun rests)
  · have := hc.2
    simp only [State.newCoroutine, Array.size_push]
    omega
  · exact (known c hc).symm.trans fresh
  · exact (known c hc).trans gone

theorem resumes_lives {mode : ResumeMode} {c : ThreadId} {k : Kont ν .value}
    (resumes : Resumes library mode c k s x) (sound : Sound s (s.current :: ts))
    (orderly : s.Orderly) (stack : s.active = Debt.active k.debts) :
    Lives x ∧ s.Ages x.2 := by
  cases resumes with
  | refused => exact Stirs.lives (.here rfl trivial) orderly stack sound.busy
  | @started _ _ s' _ fresh switches _ _ calls =>
    obtain rfl := switches.current
    have alive : s.coroutineState s'.current ≠ .dead := by rw [fresh]; exact nofun
    have rests : s.coroutineState s'.current ≠ .running := by rw [fresh]; exact nofun
    obtain ⟨orderly', ages⟩ := orderly_awake orderly alive rests switches
    obtain ⟨lives, ages'⟩ := (calls_stirs calls).lives orderly'
      (switches.active.trans (congrArg _ stack)) (sound_awake sound alive rests switches).busy
    exact ⟨lives, ages.trans ages'⟩
  | @continued v s' _ stopped switches picks =>
    obtain rfl := switches.current
    have alive : s.coroutineState s'.current ≠ .dead := by
      obtain stopped | stopped := stopped <;> rw [stopped] <;> exact nofun
    have rests : s.coroutineState s'.current ≠ .running := by
      obtain stopped | stopped := stopped <;> rw [stopped] <;> exact nofun
    obtain ⟨orderly', ages⟩ := orderly_awake orderly alive rests switches
    obtain ⟨lives, ages'⟩ := (picks_stirs picks).lives orderly'
      (switches.active.trans (congrArg _ stack)) (sound_awake sound alive rests switches).busy
    exact ⟨lives, ages.trans ages'⟩

/-- A resumption ends, and its resumer gets the outcome. -/
theorem resumed_lives {r : Except Fault Step} {mode : ResumeMode} {previous c : ThreadId}
    {k : Kont ν .value} (own : c = s.current)
    (lives : Lives (.step r (.resumed mode c previous k), s))
    (switches : Switches previous c (resumeOutcome r).1 s.active.tail s s') :
    Lives (.value (resumeOutcome r).2 k, s') ∧ s.Ages s' := by
  have stack : s.active = c :: Debt.active k.debts := lives.stack
  have posed := lives.posed
  obtain ⟨orderly, ages⟩ := orderly_asleep lives.orderly stack switches
    (fun rests => by
      match r with
      | .error _ | .ok (.proceed _) | .ok (.return _) | .ok (.suspend .forced)
      | .ok (.suspend (.await _)) => cases rests
      | .ok (.suspend (.yield _)) => exact own ▸ posed)
    (fun rests => by
      match r with
      | .error _ | .ok (.proceed _) | .ok (.return _) | .ok (.suspend (.yield _))
      | .ok (.suspend (.await _)) => cases rests
      | .ok (.suspend .forced) => exact own ▸ posed)
  refine ⟨⟨orderly, ?_, trivial⟩, ages⟩
  rw [switches.active, stack]
  rfl

/-- A step is handed on. -/
theorem stirs_pass {r : Except Fault Step} {k l : Kont ν .step} (debts : l.debts = k.debts)
    (posed : Posed s (.step r k)) : Stirs s (Debt.active k.debts) (.step r l, s) := by
  refine .here (congrArg _ debts) ?_
  match r with
  | .error _ | .ok (.proceed _) | .ok (.return _) | .ok (.suspend (.await _)) => trivial
  | .ok (.suspend (.yield _)) | .ok (.suspend .forced) => exact posed

theorem execute_lives {ip : Nat} {mark : Mark} {k : Kont ν .step}
    (sound : Sound s (s.current :: ts)) (lives : Lives (.execute ip mark k, s))
    (advances : Advances library s (.execute ip mark k) x) : Lives x ∧ s.Ages x.2 := by
  obtain ⟨orderly, stack, -⟩ := lives
  suffices stirs : Stirs s (Debt.active (Control.debts (.execute _ _ _))) x from
    stirs.lives orderly stack sound.busy
  cases advances with
  | failed _ rigid fails => exact .of_rigid rigid (fails_stirs fails)
  | forced _ _ shifted =>
    exact .of_shifted shifted (.here rfl ⟨_, _, congrArg Outline.pending shifted.outline⟩)
  | moved _ rigid => exact .of_rigid rigid (.here rfl trivial)
  | called _ rigid _ calls =>
    have stirs := calls_stirs calls
    exact .of_rigid rigid stirs
  | nested _ rigid nests =>
    have stirs := nests_stirs nests
    exact .of_rigid rigid stirs
  | left _ _ shifted finishes =>
    have stirs := finishes_stirs finishes
    exact .of_shifted shifted stirs
  | reused _ _ _ shifted _ _ _ calls =>
    have stirs := calls_stirs calls
    exact .of_shifted shifted stirs

theorem program_lives {p : Program ν} {k : Kont ν .value} (sound : Sound s (s.current :: ts))
    (lives : Lives (.run p k, s)) (advances : Advances library s (.run p k) x) :
    Lives x ∧ s.Ages x.2 := by
  obtain ⟨orderly, stack, -⟩ := lives
  have stirred := fun stirs : Stirs s (Debt.active (Control.debts (.run _ _))) x =>
    stirs.lives orderly stack sound.busy
  cases advances with
  | finished | looked => exact stirred (.here rfl trivial)
  | did _ rigid => exact stirred (.of_rigid rigid (.here rfl trivial))
  | @spawned _ _ _ function _ =>
    obtain ⟨orderly', ages⟩ := orderly_newCoroutine orderly function
    exact ⟨⟨orderly', stack, trivial⟩, ages⟩
  | waits _ nests | looks _ nests =>
    have stirs := nests_stirs nests
    exact stirred stirs
  | resumes _ resumes => exact resumes_lives resumes sound orderly stack
  | enters _ nests | finds _ nests =>
    have stirs := nests_stirs nests
    exact stirred (.of_entries stirs)
  | found => exact stirred (.of_entries (.here rfl trivial))
  | drives _ drives =>
    have stirs := drives_stirs drives
    exact stirred (.of_entries stirs)

theorem step_lives {r : Except Fault Step} {k : Kont ν .step} (sound : Sound s (s.current :: ts))
    (chain : k.Chain (Manner.any library) (s.current :: ts)) (lives : Lives (.step r k, s))
    (advances : Advances library s (.step r k) x) : Lives x ∧ s.Ages x.2 := by
  obtain ⟨orderly, stack, posed⟩ := id lives
  have stirred := fun stirs : Stirs s (Debt.active (Control.debts (.step _ _))) x =>
    stirs.lives orderly stack sound.busy
  cases advances with
  | loopFailed fails =>
    have stirs := fails_stirs fails
    exact stirred stirs
  | proceeds => exact stirred (.here rfl trivial)
  | loopLeft | guardPassed => exact stirred (stirs_pass rfl posed)
  | guardFires _ rigid => exact stirred (.of_rigid rigid (.here rfl trivial))
  | nestedEnded shifted | driveEnded _ shifted =>
    exact stirred (.of_shifted shifted (.here rfl trivial))
  | driveAwaits => exact stirred (.here rfl rfl)
  | resumedAwaits => exact ⟨⟨orderly.turn _, stack, trivial⟩, .turn s _⟩
  | resumedEnded switches =>
    cases chain with
    | resumed chain => exact resumed_lives rfl lives switches

theorem value_lives {r : Except Fault Value} {k : Kont ν .value}
    (sound : Sound s (s.current :: ts)) (chain : k.Chain (Manner.any library) (s.current :: ts))
    (lives : Lives (.value r k, s)) (advances : Advances library s (.value r k) x) :
    Lives x ∧ s.Ages x.2 := by
  obtain ⟨orderly, stack, -⟩ := lives
  have stirred := fun stirs : Stirs s (Debt.active (Control.debts (.value _ _))) x =>
    stirs.lives orderly stack sound.busy
  cases advances with
  | host | routine | nativeFailed | finishFailed | collapse | methodFailed | asyncMethodFailed =>
    exact stirred (.here rfl trivial)
  | native _ shifted _ finishes =>
    have stirs := finishes_stirs finishes
    exact stirred (.of_shifted shifted stirs)
  | finish finishes =>
    have stirs := finishes_stirs finishes
    exact stirred stirs
  | instructionFailed rigid | instruction rigid =>
    exact stirred (.of_rigid rigid (.here rfl trivial))
  | decorator decorates =>
    have stirs := decorates_stirs decorates
    exact stirred stirs
  | method nests =>
    have stirs := nests_stirs nests
    exact stirred stirs
  | asyncMethod drives =>
    have stirs := drives_stirs drives
    exact stirred stirs
  | exit => exact stirred (.of_entries (.here rfl trivial))
  | task => cases chain

/-- **One step keeps coroutines in order.** -/
theorem advance_lives {control : Control ν} (sound : Sound s ts)
    (linked : Linked (Manner.any library) s control ts) (lives : Lives (control, s)) :
    Lives (advance library control s) ∧ s.Ages (advance library control s).2 := by
  have advances : Advances library s control (advance library control s) :=
    advance_advances (linked.ready sound) sound.size
  generalize advance library control s = x at advances
  cases linked with
  | execute _ => exact execute_lives sound lives advances
  | run _ _ => exact program_lives sound lives advances
  | step _ chain => exact step_lives sound chain lives advances
  | value chain => exact value_lives sound chain lives advances
  | await chain =>
    cases advances with
    | settles => exact ⟨⟨lives.orderly, lives.stack, trivial⟩, .refl s⟩
    | stalls => exact ⟨lives, .refl s⟩
  | @settled r c k us _ chain =>
    cases advances with
    | task picks =>
      have sound' : Sound { s with current := c } (c :: us) := sound.congr rfl rfl
      obtain ⟨lives, ages⟩ := (picks_stirs picks).lives (lives.orderly.turn c) lives.stack sound'.busy
      exact ⟨lives, (State.Ages.turn s c).trans ages⟩
  | tasked _ chain =>
    cases advances with
    | settles => exact ⟨⟨lives.orderly, lives.stack, trivial⟩, .refl s⟩
    | stalls => exact ⟨lives, .refl s⟩

/-- The host has the turn: it has an outcome, or it waits for a task of its own call. -/
def AtHost (m : Machine ν) : Prop :=
  match m.control with
  | .value _ .host => True
  | .await _ (.task c (.drive _ (.exit .host))) => c = .root
  | _ => False

/-- What comes next where the host waits for each resumption before it does anything else. A
suspended call of its own may wait meanwhile. -/
inductive Serial (library : Library ν) (m : Machine ν) : Machine ν → Prop
  | step : Serial library m (m.step library)
  | begins {move : Move ν (Control ν)} : m.AtHost → Begins library move →
      Serial library m (m.after move)
  /-- The host does what a routine may do. -/
  | act (p : Program ν) : m.AtHost → Serial library m ⟨.run p .host, m.state⟩
  | load {p : Proto} {v : Value} {s : State ν} : m.AtHost → Exec.load p m.state = .ok v s →
      Serial library m ⟨.value (.ok v) .host, s⟩
  /-- The host turns back to its suspended call. -/
  | await (task : Task) (previous : Bool) : m.AtHost → m.state.Parked .root →
      Serial library m ⟨.await task (.task .root (.drive previous (.exit .host))), m.state⟩

/-- A machine whose coroutines are in order, and whose chain of threads is. -/
def Alive (library : Library ν) (m : Machine ν) : Prop :=
  Links (Manner.any library) (m.control, m.state) ∧ Lives (m.control, m.state)

variable {m m' : Machine ν}

/-- Where the host has the turn, the root runs and no coroutine is active. -/
theorem atRoot_of_atHost (turn : m.AtHost) (alive : m.Alive library) :
    m.state.AtRoot ∧ m.state.active = [] := by
  obtain ⟨control, s⟩ := m
  obtain ⟨⟨ts, sound, linked⟩, -, stack, posed⟩ := alive
  dsimp only at *
  unfold AtHost at turn
  split at turn
  · rename_i r host
    dsimp only at host
    subst host
    cases linked with
    | value chain =>
      cases chain with
      | host root => exact ⟨⟨sound.size, root⟩, stack⟩
  · rename_i task c previous waits
    dsimp only at waits
    subst waits turn
    exact ⟨⟨sound.size, posed.symm⟩, stack⟩
  · exact turn.elim

/-- A call of the host begins. -/
theorem begins_lives {move : Move ν (Control ν)} (root : s.AtRoot) (orderly : s.Orderly)
    (idle : s.active = []) (begins : Begins library move) :
    Lives (move s) ∧ s.Ages (move s).2 := by
  have sound := root.sound
  have here : s.entered.HasCurrent := sound.hasCurrent
  -- indexing for a method calls a handler, or is done at once
  have indexed : ∀ (object key : Value) (k : Kont ν .value), Debt.active k.debts = [] →
      Stirs s [] (indexNested library object key k s.entered) := by
    intro object key k none
    obtain ⟨r, done⟩ | nests := indexNested_cases library object key k here
    · exact done ▸ .of_entries (.here none trivial)
    · have stirs := nests_stirs nests
      exact .of_entries (none ▸ stirs)
  obtain call | ⟨mode, c, arguments, rfl⟩ := begins
  · suffices stirs : Stirs s [] (move s) from stirs.lives orderly idle sound.busy
    cases call with
    | call function arguments =>
      have nests : Nests library (.exit .host) { s with entries := s.entries + 1 } _ :=
        callNested_nests function arguments _ here
      exact .of_entries (nests_stirs nests)
    | thisCall object method arguments => exact indexed _ _ _ rfl
    | callAsync function arguments =>
      have drives : Drives library (.exit .host) { s with entries := s.entries + 1 } _ :=
        driveAsync_drives function arguments _ here
      exact .of_entries (drives_stirs drives)
    | thisCallAsync object method arguments => exact indexed _ _ _ rfl
  · exact resumes_lives (resume_resumes mode c arguments .host root.size) sound orderly idle

/-- **Whatever comes next**, coroutines stay in order, and none goes back in its life. -/
theorem serial_alive (next : Serial library m m') (alive : m.Alive library) :
    m'.Alive library ∧ m.state.Ages m'.state := by
  cases next with
  | step =>
    obtain ⟨⟨ts, sound, linked⟩, lives⟩ := alive
    obtain ⟨lives', ages⟩ := advance_lives sound linked lives
    exact ⟨⟨advance_linked sound linked, lives'⟩, ages⟩
  | begins turn begins =>
    obtain ⟨root, idle⟩ := atRoot_of_atHost turn alive
    obtain ⟨lives, ages⟩ := begins_lives root alive.2.orderly idle begins
    have linked : Links (Manner.any library) _ := begins_linked root begins
    exact ⟨⟨linked, lives⟩, ages⟩
  | act p turn =>
    obtain ⟨root, idle⟩ := atRoot_of_atHost turn alive
    have linked : Links (Manner.any library) (.run p .host, m.state) :=
      links_run root.sound (.host root.current) rfl trivial
    exact ⟨⟨linked, alive.2.orderly, idle, trivial⟩, .refl _⟩
  | @load p v s' turn loaded =>
    obtain ⟨root, idle⟩ := atRoot_of_atHost turn alive
    have rigid : Rigid m.state s' := (Exec.keeps_load p).ok loaded
    have linked : Links (Manner.any library) (.value (.ok v) .host, s') :=
      links_value (root.sound.rigid rigid) (.host root.current) rigid.current
    have stirs : Stirs m.state [] (.value (.ok v) .host, s') := .of_rigid rigid (.here rfl trivial)
    obtain ⟨lives, ages⟩ := stirs.lives alive.2.orderly idle root.sound.busy
    exact ⟨⟨linked, lives⟩, ages⟩
  | await task previous turn parked =>
    obtain ⟨root, idle⟩ := atRoot_of_atHost turn alive
    have sound := root.sound
    rw [root.current] at sound
    have linked : Links (Manner.any library)
        (.await task (.task .root (.drive previous (.exit .host))), m.state) :=
      ⟨_, sound, .tasked parked (.drive (.exit (.host rfl)))⟩
    exact ⟨⟨linked, alive.2.orderly, idle, root.current.symm⟩, .refl _⟩

theorem start_alive (options : Options) : (start (ν := ν) options).Alive library := by
  have root : (start (ν := ν) options).state.AtRoot := ⟨rfl, rfl⟩
  have dead : ∀ c, (start (ν := ν) options).state.coroutineState c = .dead := by
    rintro ⟨_ | n⟩ <;> rfl
  refine ⟨links_value (s := (start options).state) root.sound (.host root.current) rfl,
    ⟨fun c => ?_, List.nodup_nil, fun c rests => ?_, fun c rests => ?_⟩, rfl, trivial⟩
  · rw [dead]
    exact ⟨nofun, nofun⟩
  · rw [dead] at rests
    cases rests
  · rw [dead] at rests
    cases rests

theorem run_alive (run : Relation.ReflTransGen (Serial library) m m') (alive : m.Alive library) :
    m'.Alive library ∧ m.state.Ages m'.state := by
  induction run with
  | refl => exact ⟨alive, .refl _⟩
  | tail _ next ih =>
    obtain ⟨alive', ages⟩ := ih
    obtain ⟨alive'', ages'⟩ := serial_alive next alive'
    exact ⟨alive'', ages.trans ages'⟩

/-- A coroutine that is dead, that runs, or that was made to yield and is given values. -/
def Refused (s : State ν) (c : ThreadId) (arguments : List Value) : Prop :=
  s.coroutineState c = .dead ∨ s.coroutineState c = .running ∨
    s.coroutineState c = .forceSuspended ∧ arguments ≠ []

theorem refusal_of_refused {c : ThreadId} {arguments : List Value}
    (refused : Refused s c arguments) :
    ∃ cause, resumeRefusal (s.coroutineState c) arguments = some cause := by
  obtain dead | running | ⟨forced, given⟩ := refused
  · exact ⟨_, by rw [dead]; rfl⟩
  · exact ⟨_, by rw [running]; rfl⟩
  · exact ⟨.valuesAfterForcedYield, by rw [forced]; simp [resumeRefusal, given]⟩

/-- **The life of a coroutine**, along every run in which the host waits for each resumption before
it does anything else, whatever the routines resume meanwhile. The coroutines that run are the
active ones, once each; what was made to yield waits at an instruction, and what yielded for the
result of a frame. None goes back to where it has not started, and none comes back from death. A
resumption that is refused changes nothing. -/
theorem coroutine_life_cycle {options : Options}
    (run : Relation.ReflTransGen (Serial library) (.start options) m) :
    m.state.Orderly ∧
    (∀ m', Relation.ReflTransGen (Serial library) m m' → m.state.Ages m'.state) ∧
    ∀ c arguments, Refused m.state c arguments → ∀ mode k, ∃ cause,
      resume library mode c arguments k m.state = (.value (.error (.raise cause)) k, m.state) := by
  obtain ⟨alive, -⟩ := run_alive run (start_alive options)
  refine ⟨alive.2.orderly, fun m' goes => (run_alive goes alive).2, ?_⟩
  intro c arguments refused mode k
  obtain ⟨cause, refusal⟩ := refusal_of_refused refused
  exact ⟨cause, resume_refused refusal k⟩

end Machine

namespace Sample

open Machine

def resuming : Program Unit :=
  .spawn (.native ⟨0⟩) fun
    | .ok (.thread c) => .resume c [] .finish
    | r => .finish r

def resumed : Machine Unit := Machine.run library 2 ⟨.run resuming .host, started.state⟩

theorem serial_resumed : Relation.ReflTransGen (Serial library) started resumed := by
  have steps : ∀ n (m : Machine Unit),
      Relation.ReflTransGen (Serial library) m ((step library)^[n] m) := by
    intro n m
    induction n with
    | zero => exact .refl
    | succ n ih =>
      rw [Function.iterate_succ_apply']
      exact ih.tail .step
  refine (Relation.ReflTransGen.single (.act resuming trivial)).trans ?_
  unfold resumed
  rw [run_eq_iterate]
  exact steps 2 _

end Sample

namespace Machine

/-- While its first resumption lasts, a coroutine is active and cannot be resumed. -/
theorem coroutine_life_cycle_resumed :
    Sample.resumed.state.coroutineState ⟨1⟩ = .running ∧ ⟨1⟩ ∈ Sample.resumed.state.active ∧
    ∃ cause, resume Sample.library .synchronous ⟨1⟩ [] .host Sample.resumed.state =
      (.value (.error (.raise cause)) .host, Sample.resumed.state) := by
  have running : Sample.resumed.state.coroutineState ⟨1⟩ = .running := by decide +kernel
  obtain ⟨orderly, -, refuses⟩ := coroutine_life_cycle Sample.serial_resumed
  exact ⟨running, (orderly.running _).1 running,
    refuses ⟨1⟩ [] (.inr (.inl running)) .synchronous .host⟩

end Machine

end ScriptMachine
