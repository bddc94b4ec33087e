import Mathlib.Data.Nat.Count
import ScriptMachine.Proofs.Machine.Catching
import ScriptMachine.Proofs.Machine.Surfacing

/-!
# Error handlers run at most once

What one step does to the books of an error handler, and what a run does.

* `advance_spends`, `iterate_owns`: one step keeps the books, and so does a run.
* `error_handlers_run_once`: a handler runs no more often than requests bring it.
-/

namespace ScriptMachine

variable {ν : Type}

namespace Machine

variable {library : Library ν} {h : NativeId} {U : List Spot} {n : Nat} {s s' : State ν}
  {x : Control ν × State ν} {M : Manner library} {ts : List ThreadId}

/-- What a step spends is a run of the handler, and what it earns is a request that brings it, or a
guard that comes to wait above another one. -/
def Spends (h : NativeId) (n : Nat) (control : Control ν) (s : State ν)
    (x : Control ν × State ν) : Prop :=
  ∃ n', n' + tick h (control.catches? s) ≤ n + control.earns h s ∧ Owns h n' x

/-- No error handler runs. -/
theorem spends_of_owns {control : Control ν} (none : control.catches? s = none)
    (owns : Owns h (n + control.earns h s) x) : Spends h n control s x :=
  ⟨_, by rw [none]; exact Nat.le_refl _, owns⟩

/-- Nothing is spent or earned. -/
theorem spends_nothing {control : Control ν} (none : control.catches? s = none)
    (owns : Owns h n x) : Spends h n control s x :=
  spends_of_owns none (owns_mono (Nat.le_add_right ..) owns)

/-- Nothing is earned. -/
theorem spends_run {control : Control ν} {handler : Option NativeId}
    (catches : control.catches? s = handler)
    (owns : ∃ n', n' + tick h handler ≤ n ∧ Owns h n' x) : Spends h n control s x := by
  obtain ⟨n', spent, owns⟩ := owns
  exact ⟨n', by rw [catches]; exact Nat.le_trans spent (Nat.le_add_right ..), owns⟩

theorem execute_spends {ip : Nat} {mark : Mark} {k : Kont ν .step}
    (busy : ¬ s.Stopped s.current) (backs : (Kont.loop mark ip k).Backs h U s)
    (within : k.dues h + U.length ≤ n)
    (advances : Advances library s (.execute ip mark k) x) :
    Spends h n (.execute ip mark k) s x := by
  -- no error handler runs unless the instruction fails
  have none : ∀ {e s'}, Exec.executeAt ip s = .ok e s' →
      (Control.execute ip mark k).catches? s = none := fun run => by
    rw [Control.catches?, run]
  cases advances with
  | @failed _ _ _ e s' _ run rigid fails =>
    refine spends_run ?_ (fails_owns (State.busy_congr rigid.coroutines rigid.current busy)
      (backs.rigid rigid) within fails)
    rw [Control.catches?, run]
  | forced run _ shifted =>
    refine spends_nothing (none run) ?_
    have backs' := backs.of_loop.shifted shifted ⟨[], rfl⟩ busy
    refine ⟨U, within, .step backs' ?_⟩
    rintro _ _ ⟨f, mark, pending, -⟩
    rw [shifted.outline] at pending
    cases pending
  | moved run rigid =>
    exact spends_nothing (none run) (owns_execute (backs.rigid rigid) within)
  | called run rigid bare calls =>
    refine spends_nothing (none run) ?_
    refine calls_owns (State.busy_congr rigid.coroutines rigid.current busy) (backs.rigid rigid)
      within ?_ calls
    rw [bare.2.2]
    exact nofun
  | nested run rigid nests =>
    refine spends_nothing (none run) ?_
    have backs' := backs.rigid rigid
    exact nests_owns (State.busy_congr rigid.coroutines rigid.current busy)
      (backs'.same (fun _ _ => rfl) backs'.disarmed) within nests
  | @left _ _ _ f v rest s' _ run frames shifted finishes =>
    refine spends_nothing (none run) ?_
    have backs' := backs.shifted shifted ⟨[f.outline], frames⟩ busy
    refine finishes_owns (State.busy_congr shifted.coroutines shifted.current busy) backs' within
      (fun has => ?_) finishes
    -- the frame that is popped stood where the next one would stand
    have top : s'.top s'.current = (s.current, rest.length) :=
      Prod.ext shifted.current (congrArg List.length shifted.frames)
    rw [top, shifted.current]
    exact backs.standing _ ⟨[], f.outline, rest, frames, rfl, has⟩
  | @reused _ _ _ f spec rest s' _ run frames _ shifted handlers _ _ calls =>
    refine spends_nothing (none run) ?_
    have backs' := backs.shifted shifted ⟨[f.outline], frames⟩ busy
    refine calls_owns (State.busy_congr shifted.coroutines shifted.current busy) backs' within ?_
      calls
    rw [handlers]
    exact nofun

theorem backs_newCoroutine {k : Kont ν .value} (backs : k.Backs h U s) (function : Value) :
    k.Backs h U (s.newCoroutine function).2 := by
  have frames : ∀ c, (s.newCoroutine function).2.framesOf c = s.framesOf c :=
    fun c => congrArg Outline.frames (s.outlineOf_newCoroutine function c)
  refine backs.evolve rfl (fun p => (State.bears_congr (frames _)).1) fun c stopped delays => ?_
  unfold State.Delays at delays
  rw [State.outlineOf_newCoroutine] at delays
  exact ⟨State.stopped_newCoroutine stopped, delays, by rw [State.top, State.top, frames]⟩

theorem run_spends {p : Program ν} {k : Kont ν .value} (sound : Sound s (s.current :: ts))
    (chain : k.Chain M (s.current :: ts)) (backs : k.Backs h U s)
    (within : k.dues h + U.length ≤ n) (hp : M.program p)
    (advances : Advances library s (.run p k) x) : Spends h n (.run p k) s x := by
  refine spends_nothing rfl ?_
  have busy := sound.busy
  have entered : ∀ {a} {l : Kont ν a}, l.Backs h U s → l.Backs h U s.entered :=
    fun backs => ⟨backs.standing, backs.resting, backs.disarmed⟩
  have routine : ∀ next, (Kont.routine next k).Backs h U s :=
    fun _ => backs.same (fun _ _ => rfl) backs.disarmed
  have exit : ∀ next, (Kont.exit (.routine next k)).Backs h U s.entered :=
    fun _ => entered (backs.same (fun _ _ => rfl) backs.disarmed)
  cases advances with
  | finished => exact owns_value backs within
  | did _ rigid => exact owns_run (backs.rigid rigid) within
  | spawned _ => exact owns_run (backs_newCoroutine backs _) within
  | @waits _ next _ _ _ nests => exact nests_owns busy (routine next) within nests
  | @looked _ next => exact owns_value (routine next) within
  | @looks _ next _ _ _ nests =>
    have backs' : (Kont.collapse (.routine next k)).Backs h U s :=
      (routine next).same (fun _ _ => rfl) backs.disarmed
    exact nests_owns busy backs' within nests
  | @resumes _ next _ _ _ waits resumes =>
    exact resumes_owns sound (.routine (M.waits hp waits) chain) (routine next) within resumes
  | @enters _ next _ _ _ nests =>
    exact nests_owns (s := s.entered) busy (exit next) within nests
  | @found _ next =>
    exact owns_value (s := s.entered) ((exit next).same (fun _ _ => rfl) backs.disarmed) within
  | @finds _ next _ object name arguments _ _ nests =>
    have backs' : Kont.Backs
        (.collapse (.method object name arguments (.exit (.routine next k)))) h U s.entered :=
      (exit next).same (fun _ _ => rfl) backs.disarmed
    exact nests_owns (s := s.entered) busy backs' within nests
  | @drives _ next _ _ _ drives =>
    exact drives_owns (s := s.entered) busy (exit next) within drives

/-- No error handler runs unless there is an error. -/
theorem catches_step_none {r : Except Fault Step} {k : Kont ν .step}
    (failed : ∀ e, r = .error e → (Control.step (.error e) k).catches? s = none) :
    (Control.step r k).catches? s = none := by
  cases r with
  | ok _ => rfl
  | error e => exact failed e rfl

theorem guard_spends {r : Except Fault Step} {frame : Frame} {handler : NativeId} {mark : Mark}
    {k : Kont ν .step} (busy : ¬ s.Stopped s.current)
    (backs : (Kont.protect frame handler mark k).Backs h U s)
    (within : (Kont.protect frame handler mark k).dues h + U.length ≤ n)
    (waiting : ∀ reason, r = .ok (.suspend reason) → s.Delays h s.current →
      s.top s.current ∈ U ∨
        (Kont.protect frame handler mark k).shields h s.current (s.top s.current) = true)
    (advances : Advances library s (.step r (.protect frame handler mark k)) x) :
    Spends h n (.step r (.protect frame handler mark k)) s x := by
  rw [Kont.dues] at within
  cases advances with
  | @guardFires e _ _ _ _ s' depth rigid =>
    -- no frame stands at the place of the guard
    have kept : k.Backs h U s := backs.mono backs.disarmed.2 fun p there shielded => by
      obtain ⟨-, rfl⟩ | shielded := Kont.shields_protect.1 shielded
      · obtain bears | stopped := there
        · have := bears.lt
          rw [← State.callDepth_eq_length, depth] at this
          exact absurd this (Nat.lt_irrefl _)
        · exact absurd stopped busy
      · exact shielded
    have finish : (Kont.finish frame k).Backs h U s := kept.same (fun _ _ => rfl) backs.disarmed
    have backs' := finish.rigid rigid
    have catches : (Control.step (.error (.script e)) (.protect frame handler mark k)).catches? s =
        some handler := if_pos depth
    refine spends_run catches ?_
    by_cases same : handler = h
    · subst same
      rw [if_pos rfl] at within
      refine ⟨n - 1, by rw [tick_self]; omega, owns_run backs' ?_⟩
      change k.dues handler + _ ≤ _
      omega
    · rw [if_neg same, Nat.zero_add] at within
      exact ⟨n, by rw [tick_of_ne same]; exact Nat.le_refl n, owns_run backs' within⟩
  | guardPassed stands =>
    have none : (Control.step r (.protect frame handler mark k)).catches? s = none :=
      catches_step_none fun e same => by
        cases e with
        | script e => exact if_neg (stands e same)
        | _ => rfl
    refine spends_nothing none ?_
    by_cases same : handler = h
    · -- the frame that the guard waited for is on its own
      rw [if_pos same] at within
      have listed : ∀ p, p ∈ U ∨ (Kont.protect frame handler mark k).shields h s.current p = true →
          p ∈ (s.current, mark.frames) :: U ∨ k.shields h s.current p = true := by
        rintro p (member | shielded)
        · exact .inl (List.mem_cons_of_mem _ member)
        · obtain ⟨-, rfl⟩ | shielded := Kont.shields_protect.1 shielded
          · exact .inl (List.mem_cons_self ..)
          · exact .inr shielded
      have backs' : k.Backs h ((s.current, mark.frames) :: U) s :=
        ⟨fun p bears => listed p (backs.standing p bears),
          fun c stopped delays => listed _ (backs.resting c stopped delays), backs.disarmed.2⟩
      refine ⟨(s.current, mark.frames) :: U, ?_, .step backs' ?_⟩
      · rw [List.length_cons]
        change k.dues h + _ ≤ _
        omega
      · exact fun reason suspended delays => listed _ (waiting reason suspended delays)
    · rw [if_neg same, Nat.zero_add] at within
      have shields : ∀ p, (Kont.protect frame handler mark k).shields h s.current p = true →
          k.shields h s.current p = true := fun p shielded =>
        (Kont.shields_protect.1 shielded).resolve_left fun both => same both.1
      refine ⟨U, within, .step (backs.mono backs.disarmed.2 fun p _ => shields p) ?_⟩
      exact fun reason suspended delays => (waiting reason suspended delays).imp_right (shields _)

/-- Only a coroutine that yields can be resumed. -/
theorem suspend_of_resumeOutcome {r : Except Fault Step}
    (stops : (resumeOutcome r).1 = .suspended ∨ (resumeOutcome r).1 = .forceSuspended) :
    ∃ reason, r = .ok (.suspend reason) := by
  match r, stops with
  | .ok (.suspend reason), _ => exact ⟨reason, rfl⟩
  | .ok (.return _), stops | .ok (.proceed _), stops | .error _, stops =>
    obtain stops | stops := stops <;> cases stops

/-- A coroutine yields or ends. -/
theorem backs_asleep {r : Except Fault Step} {mode : ResumeMode} {previous : ThreadId}
    {k : Kont ν .value} (sound : Sound s (s.current :: previous :: ts))
    (chain : k.Chain M (previous :: ts))
    (backs : (Kont.resumed mode s.current previous k).Backs h U s)
    (waiting : ∀ reason, r = .ok (.suspend reason) → s.Delays h s.current →
      s.top s.current ∈ U ∨
        (Kont.resumed mode s.current previous k).shields h s.current (s.top s.current) = true)
    (switches : Switches previous s.current (resumeOutcome r).1 s.active.tail s s') :
    k.Backs h U s' := by
  have absent := (List.nodup_cons.1 sound.distinct).1
  have branch : s.current ≠ .root := fun root => absent (root ▸ chain.root_mem)
  have inRange : s.current.index ≤ s.coroutines.size := by
    have := sound.hasCurrent
    rw [State.HasCurrent, sound.size] at this
    omega
  have listed : ∀ p, p ∈ U ∨
      (Kont.resumed mode s.current previous k).shields h s.current p = true →
      p ∈ U ∨ k.shields h s'.current p = true := by
    intro p listed
    rw [switches.current]
    exact listed.imp_right fun shielded => (Kont.shields_resumed.1 shielded).2
  refine ⟨fun p bears => ?_, fun d stopped delays => ?_, backs.disarmed⟩
  · exact listed p (backs.standing p ((State.bears_congr (switches.frames _)).1 bears))
  · unfold State.Delays at delays
    rw [switches.pending] at delays
    rw [State.top, switches.frames]
    unfold State.Stopped at stopped
    by_cases own : d = s.current
    · subst own
      rw [switches.own branch inRange] at stopped
      obtain ⟨reason, suspended⟩ := suspend_of_resumeOutcome stopped
      exact listed _ (waiting reason suspended delays)
    · rw [switches.others branch d own] at stopped
      exact listed _ (backs.resting d stopped delays)

theorem step_spends {r : Except Fault Step} {k : Kont ν .step} (sound : Sound s (s.current :: ts))
    (chain : k.Chain M (s.current :: ts)) (backs : k.Backs h U s)
    (within : k.dues h + U.length ≤ n)
    (waiting : ∀ reason, r = .ok (.suspend reason) → s.Delays h s.current →
      s.top s.current ∈ U ∨ k.shields h s.current (s.top s.current) = true)
    (advances : Advances library s (.step r k) x) : Spends h n (.step r k) s x := by
  have busy := sound.busy
  cases k with
  | loop mark ip k =>
    cases advances with
    | loopFailed fails => exact spends_run rfl (fails_owns busy backs within fails)
    | proceeds => exact spends_nothing rfl (owns_execute backs within)
    | loopLeft fine _ =>
      refine spends_nothing (catches_step_none fun e same => absurd same (fine e)) ⟨U, within, ?_⟩
      exact .step backs.of_loop fun reason suspended delays =>
        (waiting reason suspended delays).imp_right fun shielded => (Kont.shields_loop.1 shielded).2
  | protect frame handler mark k =>
    exact guard_spends busy backs within waiting advances
  | nested k =>
    refine spends_nothing (catches_step_none fun e _ => by cases e <;> rfl) ?_
    cases advances with
    | nestedEnded shifted =>
      have backs' := backs.shifted shifted ⟨[], rfl⟩ busy
      exact owns_value (backs'.same (fun _ _ => rfl) backs'.disarmed) within
  | drive previous k =>
    refine spends_nothing (catches_step_none fun e _ => by cases e <;> rfl) ?_
    cases advances with
    | driveAwaits =>
      have clear : ∀ p, p.1 = s.current → ¬ (Kont.drive previous k).shields h s.current p = true :=
        fun p own shielded => (Kont.shields_drive.1 shielded).1 own
      exact ⟨U, within, .tasked ⟨backs, clear, fun delays =>
        (waiting _ rfl delays).resolve_right (clear _ rfl)⟩⟩
    | driveEnded _ shifted =>
      exact owns_value (backs.of_drive.shifted shifted ⟨[], rfl⟩ busy) within
  | resumed mode c previous k =>
    refine spends_nothing (catches_step_none fun e _ => by cases e <;> rfl) ?_
    cases chain with
    | resumed chain =>
      cases advances with
      | resumedAwaits =>
        have clear : ∀ p, p.1 = s.current →
            ¬ (Kont.resumed .asynchronous s.current previous k).shields h s.current p = true :=
          fun p own shielded => (Kont.shields_resumed.1 shielded).1 own
        exact ⟨U, within, .tasked ⟨backs, clear, fun delays =>
          (waiting _ rfl delays).resolve_right (clear _ rfl)⟩⟩
      | resumedEnded switches =>
        exact ⟨U, within, .value (backs_asleep sound chain backs waiting switches)⟩

/-- A frame that was popped has its result, or a failure. -/
theorem finish_spends {r : Except Fault Value} {frame : Frame} {k : Kont ν .step}
    (busy : ¬ s.Stopped s.current) (backs : k.Backs h U s)
    (within : k.dues h + U.length ≤ n)
    (held : frame.handlers.errorHandler = some h →
      s.top s.current ∈ U ∨ k.shields h s.current (s.top s.current) = true)
    (advances : Advances library s (.value r (.finish frame k)) x) :
    Spends h n (.value r (.finish frame k)) s x := by
  cases advances with
  | finishFailed => exact spends_nothing rfl (owns_step backs within fun _ => nofun)
  | finish finishes => exact spends_of_owns rfl (finishes_owns busy backs within held finishes)

theorem native_spends {r : Except Fault Value} {k : Kont ν .step} (busy : ¬ s.Stopped s.current)
    (backs : k.Backs h U s) (within : k.dues h + U.length ≤ n)
    (advances : Advances library s (.value r (.native k)) x) :
    Spends h n (.value r (.native k)) s x := by
  cases advances with
  | nativeFailed => exact spends_nothing rfl (owns_step backs within fun _ => nofun)
  | @native v f rest _ s' _ frames shifted world finishes =>
    refine spends_of_owns rfl ?_
    have top : s'.top s'.current = (s.current, rest.length) :=
      Prod.ext shifted.current (congrArg List.length shifted.frames)
    have earns : (Control.value (.ok v) (.native k)).earns h s =
        f.earns h s' k (s'.top s'.current) v := by
      rw [Control.earns, Control.installs?, Control.doubles?, frames, Frame.earns, top,
        brings_congr world, doubles_congr world]
      rfl
    rw [earns]
    have backs' := backs.shifted shifted ⟨[f.outline], frames⟩ busy
    refine finishes_owns (State.busy_congr shifted.coroutines shifted.current busy) backs' within
      (fun has => ?_) finishes
    rw [top, shifted.current]
    exact backs.standing _ ⟨[], f.outline, rest, frames, rfl, has⟩

theorem decorator_spends {r : Except Fault Value} {e : ScriptError} {others : List Value}
    {caught : Bool} {mark : Mark} {k : Kont ν .step} (busy : ¬ s.Stopped s.current)
    (backs : (Kont.decorator e others caught mark k).Backs h U s)
    (within : k.dues h + U.length ≤ n)
    (advances : Advances library s (.value r (.decorator e others caught mark k)) x) :
    Spends h n (.value r (.decorator e others caught mark k)) s x := by
  have loop : (Kont.loop mark 0 k).Backs h U s := backs.same (fun _ _ => rfl) backs.disarmed
  cases advances with
  | decorator decorates =>
    refine spends_run ?_ (decorates_owns busy loop within decorates)
    cases others <;> rfl

theorem value_spends {r : Except Fault Value} {k : Kont ν .value}
    (sound : Sound s (s.current :: ts)) (chain : k.Chain M (s.current :: ts))
    (backs : k.Backs h U s) (within : k.dues h + U.length ≤ n)
    (advances : Advances library s (.value r k) x) : Spends h n (.value r k) s x := by
  have busy := sound.busy
  -- those who hand the value on wait with the rest
  have drops : ∀ {l : Kont ν .value}, (∀ t p, l.shields h t p = k.shields h t p) →
      l.Disarmed h → l.Backs h U s := fun shields disarmed => backs.same shields disarmed
  have dropped : ∀ {l : Kont ν .step}, (∀ t p, l.shields h t p = k.shields h t p) →
      l.Disarmed h → l.Backs h U s := fun shields disarmed => backs.same shields disarmed
  cases k with
  | host => cases advances with
    | host => exact spends_nothing rfl ⟨U, within, .value backs⟩
  | routine next k => cases advances with
    | routine =>
      exact spends_nothing rfl (owns_run (drops (fun _ _ => rfl) backs.disarmed) within)
  | native k =>
    exact native_spends busy (dropped (fun _ _ => rfl) backs.disarmed) within advances
  | finish frame k =>
    exact finish_spends busy (dropped (fun _ _ => rfl) backs.disarmed.2) within
      (fun has => absurd has backs.disarmed.1) advances
  | instruction after ip k =>
    have backs' : k.Backs h U s := dropped (fun _ _ => rfl) backs.disarmed
    cases advances with
    | instructionFailed rigid | instruction rigid =>
      exact spends_nothing rfl
        (owns_step (backs'.rigid rigid) within fun _ => nofun)
  | decorator e others caught mark k => exact decorator_spends busy backs within advances
  | collapse k => cases advances with
    | collapse =>
      exact spends_nothing rfl (owns_value (drops (fun _ _ => rfl) backs.disarmed) within)
  | method object name arguments k =>
    have backs' : k.Backs h U s := drops (fun _ _ => rfl) backs.disarmed
    cases advances with
    | methodFailed => exact spends_nothing rfl (owns_value backs' within)
    | method nests => exact spends_nothing rfl (nests_owns busy backs' within nests)
  | asyncMethod object arguments k =>
    have backs' : k.Backs h U s := drops (fun _ _ => rfl) backs.disarmed
    cases advances with
    | asyncMethodFailed => exact spends_nothing rfl (owns_value backs' within)
    | asyncMethod drives => exact spends_nothing rfl (drives_owns busy backs' within drives)
  | exit k => cases advances with
    | exit =>
      have backs' : k.Backs h U s := drops (fun _ _ => rfl) backs.disarmed
      have left : k.Backs h U { s with entries := s.entries - 1 } :=
        ⟨backs'.standing, backs'.resting, backs'.disarmed⟩
      exact spends_nothing rfl (owns_value left within)
  | task c k => cases chain

/-- A task has its outcome, and its thread goes on. -/
theorem task_spends {r : Except Fault Value} {c : ThreadId} {k : Kont ν .step}
    (sound : Sound s (c :: ts)) (parks : Parks h U s c k) (within : k.dues h + U.length ≤ n)
    (advances : Advances library s (.value r (.task c k)) x) :
    Spends h n (.value r (.task c k)) s x := by
  have sound' : Sound { s with current := c } (c :: ts) := sound.congr rfl rfl
  refine spends_of_owns rfl ?_
  cases advances with
  | task picks =>
    refine picks_owns (s := { s with current := c }) (Sound.busy sound') parks.backs within
      parks.clear parks.delayed (Nat.le_add_right ..) (fun _ v done => ?_) picks
    subst done
    exact Nat.le_refl _

/-- **What one step spends of the handler.** -/
theorem advance_spends {control : Control ν} (sound : Sound s ts) (linked : Linked M s control ts)
    (owns : Owns h n (control, s)) : Spends h n control s (advance library control s) := by
  have advances : Advances library s control (advance library control s) :=
    advance_advances (linked.ready sound) sound.size
  generalize advance library control s = x at advances
  obtain ⟨U, within, owned⟩ := owns
  cases linked with
  | execute chain => cases owned with
    | execute backs => exact execute_spends sound.busy backs within advances
  | run hp chain => cases owned with
    | run backs => exact run_spends sound chain backs within hp advances
  | step _ chain => cases owned with
    | step backs waiting => exact step_spends sound chain backs within waiting advances
  | value chain => cases owned with
    | value backs => exact value_spends sound chain backs within advances
    | held backs held => exact finish_spends sound.busy backs within held advances
    | settled => cases chain
  | await chain => cases owned with
    | awaited backs held =>
      cases advances with
      | settles => exact spends_nothing rfl ⟨U, within, .held backs held⟩
      | stalls => exact spends_nothing rfl ⟨U, within, .awaited backs held⟩
    | tasked => cases chain
  | settled parked chain => cases owned with
    | value backs => exact backs.disarmed.elim
    | settled parks => exact task_spends sound parks within advances
  | tasked parked chain => cases owned with
    | tasked parks =>
      cases advances with
      | settles => exact spends_nothing rfl ⟨U, within, .settled parks⟩
      | stalls => exact spends_nothing rfl ⟨U, within, .tasked parks⟩

/-! ## Runs -/

/-- A frame that catches the error gives its handler the message. -/
theorem unwinds_handling {e : ScriptError} {mark : Mark} {k : Kont ν .step} {count : Nat}
    (catches : catcherOf ((s.framesOf s.current).take count) = some h)
    (unwinds : Unwinds library e mark k count s x) :
    ∃ e frame k, x.1 = .run (handling library x.2 h e) (.finish frame k) := by
  cases unwinds with
  | caught _ _ _ _ catcher _ =>
    obtain rfl := Option.some.inj (catcher.symm.trans catches)
    exact ⟨_, _, _, rfl⟩
  | lost _ _ _ _ none _ => cases none.symm.trans catches

theorem fails_handling {e : Fault} {ip : Nat} {mark : Mark} {k : Kont ν .step}
    (catches : s.catcher? e ip mark = some h) (fails : Fails library ip mark k s e x) :
    ∃ e frame k, x.1 = .run (handling library x.2 h e) (.finish frame k) := by
  unfold State.catcher? at catches
  cases fails with
  | dropped uncatchable =>
    cases e with
    | script e => cases uncatchable
    | _ => cases catches
  | settled _ unwinds =>
    dsimp only at catches
    split at catches
    · exact unwinds_handling catches unwinds
    · cases catches
  | decorated open_ decorates =>
    dsimp only at catches
    split at catches
    · rename_i last
      rw [open_] at last
      rw [last.resolve_left nofun] at decorates
      cases decorates with
      | last unwinds => exact unwinds_handling catches unwinds
    · cases catches

/-- **The handler that is predicted is the one that runs**, with the message of the error. -/
theorem advances_handling {control : Control ν} (catches : control.catches? s = some h)
    (advances : Advances library s control x) :
    ∃ e frame k, x.1 = .run (handling library x.2 h e) (.finish frame k) := by
  cases advances with
  | failed run _ fails =>
    rw [Control.catches?, run] at catches
    exact fails_handling catches fails
  | forced run | moved run | called run | nested run | left run | reused run =>
    rw [Control.catches?, run] at catches
    cases catches
  | loopFailed fails => exact fails_handling catches fails
  | @guardFires e frame handler mark k s' depth =>
    have same : (if s.callDepth = mark.frames then some handler else none) = some h := catches
    rw [if_pos depth] at same
    obtain rfl := Option.some.inj same
    exact ⟨e, frame, k, rfl⟩
  | decorator decorates =>
    cases decorates with
    | last unwinds => exact unwinds_handling catches unwinds
    | next => cases catches
  | @loopLeft r _ _ _ fine _ =>
    cases r with
    | error e => exact absurd rfl (fine e)
    | ok _ => cases catches
  | @guardPassed r _ _ mark _ stands =>
    rw [catches_step_none] at catches
    · cases catches
    · rintro e rfl
      cases e with
      | script e => exact if_neg (stands e rfl)
      | _ => rfl
  | @nestedEnded r | @driveEnded r | @resumedEnded r =>
    rw [catches_step_none fun e _ => by cases e <;> rfl] at catches
    cases catches
  | _ => cases catches

/-- How often something happens with the handler, in that many steps. -/
def tally (library : Library ν) (event : State ν → Control ν → Option NativeId) (h : NativeId)
    (m : Machine ν) (steps : Nat) : Nat :=
  Nat.count (fun i => event ((step library)^[i] m).state ((step library)^[i] m).control = some h)
    steps

theorem tally_succ (event : State ν → Control ν → Option NativeId) (m : Machine ν) (steps : Nat) :
    tally library event h m (steps + 1) = tally library event h m steps +
      tick h (event ((step library)^[steps] m).state ((step library)^[steps] m).control) :=
  Nat.count_succ ..

/-- **What a run spends of the handler.** -/
theorem iterate_owns {m : Machine ν} (linked : Links M (m.control, m.state))
    (owns : Owns h n (m.control, m.state)) (steps : Nat) :
    ∃ n', n' + tally library Control.catches? h m steps ≤
        n + tally library Control.installs? h m steps +
          tally library Control.doubles? h m steps ∧
      Owns h n' (((step library)^[steps] m).control, ((step library)^[steps] m).state) := by
  induction steps with
  | zero => exact ⟨n, Nat.le_refl n, owns⟩
  | succ steps ih =>
    obtain ⟨n', within, owns⟩ := ih
    obtain ⟨ts, sound, linked⟩ := iterate_linked linked steps
    obtain ⟨n'', spent, owns⟩ := advance_spends sound linked owns
    refine ⟨n'', ?_, ?_⟩
    · simp only [tally_succ, Control.earns] at *
      omega
    · rw [Function.iterate_succ_apply']
      exact owns

variable {move : Move ν (Control ν)}

theorem indexNested_owns (sound : Sound s (s.current :: ts)) {k : Kont ν .value}
    (backs : k.Backs h U s) (within : k.dues h + U.length ≤ n) (object key : Value) :
    Owns h n (indexNested library object key k s) := by
  obtain ⟨r, done⟩ | nests := indexNested_cases library object key k sound.hasCurrent
  · exact done ▸ owns_value backs within
  · have backs' : (Kont.collapse k).Backs h U s := backs.same (fun _ _ => rfl) backs.disarmed
    exact nests_owns sound.busy backs' within nests

theorem begins_owns (root : s.AtRoot) (lists : s.Lists h U) (begins : Begins library move) :
    Owns h U.length (move s) := by
  have sound : Sound s.entered [s.entered.current] := root.sound.entered
  have lists' : s.entered.Lists h U := ⟨lists.standing, lists.resting⟩
  have backs : ∀ {k : Kont ν .value}, k.Disarmed h → k.Backs h U s.entered :=
    fun disarmed => lists'.backs disarmed
  have none : 0 + U.length ≤ U.length := Nat.le_of_eq (Nat.zero_add _)
  obtain call | ⟨mode, c, arguments, rfl⟩ := begins
  · cases call with
    | call function arguments =>
      exact nests_owns sound.busy (backs (k := .exit .host) trivial) none
        (callNested_nests _ _ _ sound.hasCurrent)
    | thisCall object method arguments =>
      exact indexNested_owns sound (backs (k := .method object method arguments (.exit .host))
        trivial) none ..
    | callAsync function arguments =>
      exact drives_owns sound.busy (backs (k := .exit .host) trivial) none
        (driveAsync_drives _ _ _ sound.hasCurrent)
    | thisCallAsync object method arguments =>
      exact indexNested_owns sound (backs (k := .asyncMethod object arguments (.exit .host))
        trivial) none ..
  · exact resumes_owns (M := Manner.any library) root.sound (.host root.current)
      (lists.backs (k := .host) trivial) none (resume_resumes _ _ _ _ root.size)

/-- **An error handler runs at most once for each request that brings it.** The host makes a call or
resumes a coroutine. After any number of steps, the handler has run no more often than requests have
brought it, counting the frames that had it at the start, and the times that a frame with it asked
for a call without handlers while a guard of the frame still waited. When the host has its outcome,
the frames that are left with the handler count as runs as well. Each run is one of the routine
of the handler, and a fault of that routine goes to those who wait for the call. -/
theorem error_handlers_run_once (root : s.AtRoot) (begins : Begins library move)
    (lists : s.Lists h U) (steps : Nat) :
    let m : Machine ν := ⟨(move s).1, (move s).2⟩
    let m' := (step library)^[steps] m
    (∃ V : List Spot,
      tally library Control.catches? h m steps + V.length ≤
        tally library Control.installs? h m steps + U.length +
          tally library Control.doubles? h m steps ∧
      ∀ r, m'.control = .value r .host → m'.state.Lists h V) ∧
    (m'.control.catches? m'.state = some h →
      ∃ e frame k, (m'.step library).control =
          .run (handling library (m'.step library).state h e) (.finish frame k) ∧
        ∀ fault t, advance library (.value (.error fault) (.finish frame k)) t =
          (.step (.error fault) k, t)) := by
  intro m m'
  have linked : Links (Manner.any library) (move s) := begins_linked root begins
  have owns : Owns h U.length (move s) := begins_owns root lists begins
  constructor
  · obtain ⟨n', within, V, left, owned⟩ := iterate_owns (m := m) linked owns steps
    refine ⟨V, by omega, fun r ended => ?_⟩
    rw [ended] at owned
    cases owned with
    | value backs =>
      exact ⟨fun p bears => (backs.standing p bears).resolve_right nofun,
        fun c stopped delays => (backs.resting c stopped delays).resolve_right nofun⟩
  · intro catches
    obtain ⟨ts, sound, linked⟩ := iterate_linked (m := m) linked steps
    obtain ⟨e, frame, k, runs⟩ := advances_handling catches
      (advance_advances (linked.ready sound) sound.size)
    exact ⟨e, frame, k, runs, fun _ _ => rfl⟩

end Machine

namespace Sample

open Host Machine

def rethrow (arguments : List Value) : Machine HostRoutine :=
  ⟨(call Host.library (Builtin.global .rethrow) arguments (Host.newState {})).1,
    (call Host.library (Builtin.global .rethrow) arguments (Host.newState {})).2⟩

/-- The first handler that is made. -/
def handler : NativeId := ⟨2 + Builtin.all.length⟩

def failing : List Value := [Builtin.global .error, .string "x"]

theorem lists_newState (h : NativeId) : (Host.newState {}).Lists h [] := by
  have fresh : ∀ c, ((Host.newState {}).processorOf c) = {} := by
    rintro ⟨_ | n⟩ <;> rfl
  refine State.lists_nil (fun c => ?_) fun c => ?_
  · rw [State.framesOf, State.outlineOf, fresh]
    rfl
  · rw [State.outlineOf, fresh]
    rfl

end Sample

namespace Machine

open Host

/-- The handler of a call that fails has run once, and so it fails for good. -/
theorem error_handlers_run_once_rethrow :
    let m := Sample.rethrow Sample.failing
    tally Host.library Control.installs? Sample.handler m 20 = 1 ∧
    tally Host.library Control.doubles? Sample.handler m 20 = 0 ∧
    tally Host.library Control.catches? Sample.handler m 20 ≤ 1 := by
  intro m
  have installs : tally Host.library Control.installs? Sample.handler m 20 = 1 := by
    decide +kernel
  have doubles : tally Host.library Control.doubles? Sample.handler m 20 = 0 := by
    decide +kernel
  have begins : Begins Host.library (call Host.library (Builtin.global .rethrow) Sample.failing) :=
    .inl (.call ..)
  obtain ⟨⟨V, within, -⟩, -⟩ := error_handlers_run_once (s := Host.newState {}) ⟨rfl, rfl⟩ begins
    (Sample.lists_newState Sample.handler) 20
  refine ⟨installs, doubles, ?_⟩
  have within : tally Host.library Control.catches? Sample.handler m 20 + V.length ≤
      tally Host.library Control.installs? Sample.handler m 20 + 0 +
        tally Host.library Control.doubles? Sample.handler m 20 := within
  omega

/-- One request brings a handler, for a routine that asks for a call without handlers. The call
fails, the handler runs, and it is given its own error again. -/
theorem handler_catches_own_error :
    let m := Sample.rethrow [Builtin.global .tail, .nil]
    tally Host.library Control.installs? Sample.handler m 20 = 1 ∧
    tally Host.library Control.catches? Sample.handler m 20 = 2 ∧
    (match (run Host.library 20 m).ending with
      | .done (.error (.script e)) => some e.rawMessage
      | _ => none) = some "rethrown: rethrown: attempt to call a nil value" :=
  ⟨by decide +kernel, by decide +kernel, by decide +kernel⟩

end Machine

end ScriptMachine
