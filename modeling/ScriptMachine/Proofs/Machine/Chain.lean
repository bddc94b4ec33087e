import Mathlib.Logic.Function.Iterate
import ScriptMachine.Proofs.Machine.Advance
import ScriptMachine.Proofs.Machine.Runs

/-!
# The chain of threads

Those who wait for an outcome wait on threads, each of which was resumed by the next. This holds
of every machine, whatever its routines do.

* `Kont.Chain`: the threads of those who wait, the innermost first.
* `Linked`: the control belongs to the thread that runs, or to one that waits for a task and can be
  picked up.
* `Manner`: what is known of the routines, which a step hands on.
* `advance_linked`, `run_linked`: one step keeps the chain, and so does a run.
-/

namespace ScriptMachine

variable {ν : Type}

/-- What is known of routines and of those that wait for an outcome, closed under what they do
next. -/
structure Manner (library : Library ν) where
  program : Program ν → Prop
  next : (Except Fault Value → Program ν) → Prop
  invoked : ∀ r i, program (.ofRoutine library r i)
  goes : ∀ {n}, next n → ∀ r, program (n r)
  does : ∀ {p p'}, program p → p.Does p' → program p'
  waits : ∀ {p n}, program p → p.Waits n → next n

/-- Nothing is known of the routines. -/
def Manner.any (library : Library ν) : Manner library where
  program _ := True
  next _ := True
  invoked _ _ := trivial
  goes _ _ := trivial
  does _ _ := trivial
  waits _ _ := trivial

variable {library : Library ν}

/-- Those who wait, on these threads: the innermost first, each resumed by the next. -/
inductive Kont.Chain (M : Manner library) : {a : Awaited} → Kont ν a → List ThreadId → Prop
  | host {c : ThreadId} : c = .root → Chain M .host [c]
  | routine {next : Except Fault Value → Program ν} {k : Kont ν .value} {ts : List ThreadId} :
      M.next next → Chain M k ts → Chain M (.routine next k) ts
  | native {k : Kont ν .step} {ts : List ThreadId} : Chain M k ts → Chain M (.native k) ts
  | finish {frame : Frame} {k : Kont ν .step} {ts : List ThreadId} :
      Chain M k ts → Chain M (.finish frame k) ts
  | instruction {after : After} {ip : Nat} {k : Kont ν .step} {ts : List ThreadId} :
      Chain M k ts → Chain M (.instruction after ip k) ts
  | decorator {error : ScriptError} {others : List Value} {caught : Bool} {mark : Mark}
      {k : Kont ν .step} {ts : List ThreadId} :
      Chain M k ts → Chain M (.decorator error others caught mark k) ts
  | collapse {k : Kont ν .value} {ts : List ThreadId} : Chain M k ts → Chain M (.collapse k) ts
  | method {object : Value} {name : String} {arguments : List Value} {k : Kont ν .value}
      {ts : List ThreadId} : Chain M k ts → Chain M (.method object name arguments k) ts
  | asyncMethod {object : Value} {arguments : List Value} {k : Kont ν .value}
      {ts : List ThreadId} : Chain M k ts → Chain M (.asyncMethod object arguments k) ts
  | exit {k : Kont ν .value} {ts : List ThreadId} : Chain M k ts → Chain M (.exit k) ts
  | loop {mark : Mark} {ip : Nat} {k : Kont ν .step} {ts : List ThreadId} :
      Chain M k ts → Chain M (.loop mark ip k) ts
  | protect {frame : Frame} {handler : NativeId} {mark : Mark} {k : Kont ν .step}
      {ts : List ThreadId} : Chain M k ts → Chain M (.protect frame handler mark k) ts
  | nested {k : Kont ν .value} {ts : List ThreadId} : Chain M k ts → Chain M (.nested k) ts
  | drive {previous : Bool} {k : Kont ν .value} {ts : List ThreadId} :
      Chain M k ts → Chain M (.drive previous k) ts
  | resumed {mode : ResumeMode} {c previous : ThreadId} {k : Kont ν .value}
      {ts : List ThreadId} : Chain M k (previous :: ts) →
      Chain M (.resumed mode c previous k) (c :: previous :: ts)

/-- The root is on every chain. -/
theorem Kont.Chain.root_mem {M : Manner library} {a : Awaited} {k : Kont ν a} {ts : List ThreadId}
    (h : k.Chain M ts) : .root ∈ ts := by
  induction h with
  | host root => exact root ▸ List.mem_singleton_self _
  | resumed _ ih => exact List.mem_cons_of_mem _ ih
  | _ => assumption

/-- The threads of the chain are in the middle of calls. -/
structure Sound (s : State ν) (ts : List ThreadId) : Prop where
  size : s.processors.size = s.coroutines.size + 1
  distinct : ts.Nodup
  running : ∀ c ∈ ts, c = .root ∨ s.coroutineState c = .running

/-- No coroutine is resumed, and every coroutine has its processor. -/
structure State.AtRoot (s : State ν) : Prop where
  size : s.processors.size = s.coroutines.size + 1
  current : s.current = .root

/-- A frame, by its thread and the number of frames below it. -/
abbrev Spot := ThreadId × Nat

def State.Stopped (s : State ν) (c : ThreadId) : Prop :=
  s.coroutineState c = .suspended ∨ s.coroutineState c = .forceSuspended

/-- A thread waits for the result of a frame that is already popped. -/
def State.Parked (s : State ν) (c : ThreadId) : Prop :=
  ∃ frame mark, (s.outlineOf c).pending = some (.deliver frame, mark)

/-- The control belongs to the first thread of the chain, which runs or waits for a task. -/
inductive Linked (M : Manner library) (s : State ν) : Control ν → List ThreadId → Prop
  | execute {ip : Nat} {mark : Mark} {k : Kont ν .step} {ts : List ThreadId} :
      k.Chain M (s.current :: ts) → Linked M s (.execute ip mark k) (s.current :: ts)
  | run {p : Program ν} {k : Kont ν .value} {ts : List ThreadId} : M.program p →
      k.Chain M (s.current :: ts) → Linked M s (.run p k) (s.current :: ts)
  | step {r : Except Fault Step} {k : Kont ν .step} {ts : List ThreadId} :
      (∀ task, r = .ok (.suspend (.await task)) → s.Parked s.current) →
      k.Chain M (s.current :: ts) → Linked M s (.step r k) (s.current :: ts)
  | value {r : Except Fault Value} {k : Kont ν .value} {ts : List ThreadId} :
      k.Chain M (s.current :: ts) → Linked M s (.value r k) (s.current :: ts)
  | await {task : Task} {k : Kont ν .value} {ts : List ThreadId} :
      k.Chain M (s.current :: ts) → Linked M s (.await task k) (s.current :: ts)
  | settled {r : Except Fault Value} {c : ThreadId} {k : Kont ν .step} {ts : List ThreadId} :
      s.Parked c → k.Chain M (c :: ts) → Linked M s (.value r (.task c k)) (c :: ts)
  | tasked {task : Task} {c : ThreadId} {k : Kont ν .step} {ts : List ThreadId} :
      s.Parked c → k.Chain M (c :: ts) → Linked M s (.await task (.task c k)) (c :: ts)

namespace Sound

variable {s s' : State ν} {c : ThreadId} {ts : List ThreadId}

theorem inRange (h : Sound s ts) (hc : c ∈ ts) : c.index < s.processors.size := by
  rw [h.size]
  obtain rfl | running := h.running c hc
  · exact Nat.succ_pos _
  · have alive : s.coroutineState c ≠ .dead := by
      rw [running]
      nofun
    exact Nat.lt_succ_of_le (State.inRange_of_coroutineState alive).2

theorem hasCurrent (h : Sound s (s.current :: ts)) : s.HasCurrent :=
  h.inRange (List.mem_cons_self ..)

/-- Neither threads nor coroutines come or go. -/
theorem congr (h : Sound s ts) (size : s'.processors.size = s.processors.size)
    (coroutines : s'.coroutines = s.coroutines) : Sound s' ts := by
  refine ⟨by rw [size, coroutines]; exact h.size, h.distinct, fun c hc => ?_⟩
  simp only [State.coroutineState, State.coroutine, coroutines]
  exact h.running c hc

theorem rigid (h : Sound s ts) (rigid : Rigid s s') : Sound s' ts :=
  h.congr rigid.size rigid.coroutines

theorem shifted {o : Outline} (h : Sound s ts) (shifted : Shifted o s s') : Sound s' ts :=
  h.congr shifted.size shifted.coroutines

/-- A coroutine at rest is not on the chain. -/
theorem absent (h : Sound s ts) (alive : s.coroutineState c ≠ .dead)
    (rests : s.coroutineState c ≠ .running) : c ∉ ts := fun member => by
  obtain rfl | running := h.running c member
  · exact (State.inRange_of_coroutineState alive).1 rfl
  · exact rests running

/-- The machine enters once more. -/
theorem entered (h : Sound s ts) : Sound s.entered ts := h.congr rfl rfl

end Sound

/-- A thread runs on. -/
theorem State.busy_congr {s s' : State ν} (coroutines : s'.coroutines = s.coroutines)
    (current : s'.current = s.current) (busy : ¬ s.Stopped s.current) :
    ¬ s'.Stopped s'.current := by
  unfold State.Stopped State.coroutineState State.coroutine at *
  rw [coroutines, current]
  exact busy

theorem State.outlineOf_newCoroutine (s : State ν) (function : Value) (c : ThreadId) :
    (s.newCoroutine function).2.outlineOf c = s.outlineOf c := by
  have same : (s.newCoroutine function).2.processorOf c = s.processorOf c := by
    simp only [State.newCoroutine, State.processorOf, Array.getElem?_push]
    split
    · rename_i new
      rw [new, Array.getElem?_eq_none (Nat.le_refl _)]
      rfl
    · rfl
  exact congrArg Processor.outline same

/-- A coroutine that is new has not started, and had no processor. -/
theorem State.coroutineState_newCoroutine (s : State ν) (function : Value) (c : ThreadId) :
    (s.newCoroutine function).2.coroutineState c = s.coroutineState c ∨
      (s.newCoroutine function).2.coroutineState c = .notStarted ∧
        c.index = s.coroutines.size + 1 := by
  obtain ⟨_ | m⟩ := c
  · exact .inl rfl
  · simp only [State.coroutineState, State.coroutine, State.newCoroutine, Array.getElem?_push]
    split
    · rename_i new
      exact .inr ⟨rfl, congrArg Nat.succ new⟩
    · exact .inl rfl

theorem State.stopped_newCoroutine {s : State ν} {function : Value} {c : ThreadId}
    (stopped : (s.newCoroutine function).2.Stopped c) : s.Stopped c := by
  unfold State.Stopped at stopped
  obtain same | ⟨fresh, -⟩ := s.coroutineState_newCoroutine function c
  · rw [same] at stopped
    exact stopped
  · rw [fresh] at stopped
    obtain new | new := stopped <;> cases new

/-- The host finds the root alone. -/
theorem State.AtRoot.sound {s : State ν} (root : s.AtRoot) : Sound s [s.current] :=
  ⟨root.size, List.pairwise_singleton .., fun _ hc =>
    .inl ((List.mem_singleton.1 hc).trans root.current)⟩

theorem Sound.busy {s : State ν} {ts : List ThreadId} (sound : Sound s (s.current :: ts)) :
    ¬ s.Stopped s.current := by
  obtain root | running := sound.running _ (List.mem_cons_self ..)
  · rw [root]
    rintro (suspended | suspended) <;> cases suspended
  · rintro (suspended | suspended) <;> rw [running] at suspended <;> cases suspended

theorem Linked.ready {M : Manner library} {s : State ν} {control : Control ν} {ts : List ThreadId}
    (linked : Linked M s control ts) (sound : Sound s ts) : control.Ready s := by
  cases linked with
  | execute | run | step => exact sound.hasCurrent
  | value chain => cases chain <;> exact sound.hasCurrent
  | await | tasked => trivial
  | settled => exact sound.inRange (List.mem_cons_self ..)

namespace Machine

variable {M : Manner library} {s s' : State ν} {ts : List ThreadId} {x : Control ν × State ν}

/-- The control that is reached is linked to a chain. -/
def Links (M : Manner library) (x : Control ν × State ν) : Prop :=
  ∃ ts, Sound x.2 ts ∧ Linked M x.2 x.1 ts

/-- A step is handed to those who wait on the thread that runs. -/
theorem links_step {r : Except Fault Step} {k : Kont ν .step} (sound : Sound s' (s.current :: ts))
    (chain : k.Chain M (s.current :: ts)) (current : s'.current = s.current)
    (parked : ∀ task, r = .ok (.suspend (.await task)) → s'.Parked s'.current) :
    Links M (.step r k, s') := by
  rw [← current] at sound chain
  exact ⟨_, sound, .step parked chain⟩

theorem links_run {p : Program ν} {k : Kont ν .value} (sound : Sound s' (s.current :: ts))
    (chain : k.Chain M (s.current :: ts)) (current : s'.current = s.current) (hp : M.program p) :
    Links M (.run p k, s') := by
  rw [← current] at sound chain
  exact ⟨_, sound, .run hp chain⟩

theorem links_value {r : Except Fault Value} {k : Kont ν .value}
    (sound : Sound s' (s.current :: ts)) (chain : k.Chain M (s.current :: ts))
    (current : s'.current = s.current) : Links M (.value r k, s') := by
  rw [← current] at sound chain
  exact ⟨_, sound, .value chain⟩

section Functions

variable (sound : Sound s (s.current :: ts))

include sound

theorem calls_linked {spec : CallSpec} {k : Kont ν .step} (chain : k.Chain M (s.current :: ts))
    (calls : Calls library spec k s x) : Links M x := by
  cases calls with
  | refused rigid => exact links_step (sound.rigid rigid) chain rigid.current fun _ => nofun
  | script _ _ shifted =>
    exact links_step (sound.shifted shifted) chain shifted.current fun _ => nofun
  | native _ _ shifted =>
    exact links_run (sound.shifted shifted) (.native chain) shifted.current (M.invoked ..)

theorem nests_linked {k : Kont ν .value} (chain : k.Chain M (s.current :: ts))
    (nests : Nests library k s x) : Links M x := by
  cases nests with
  | refused => exact links_value sound chain rfl
  | entered _ _ shifted calls =>
    have sound := sound.shifted shifted
    rw [← shifted.current] at sound chain
    exact calls_linked sound (.loop (.nested chain)) calls

theorem drives_linked {k : Kont ν .value} (chain : k.Chain M (s.current :: ts))
    (drives : Drives library k s x) : Links M x := by
  cases drives with
  | refused => exact links_value sound chain rfl
  | entered _ _ _ shifted calls =>
    have sound := sound.shifted shifted
    rw [← shifted.current] at sound chain
    exact calls_linked sound (.loop (.drive chain)) calls

omit sound in
theorem chain_guarded {handlers : Handlers} {frame : Frame} {mark : Mark} {k : Kont ν .step}
    (chain : k.Chain M ts) : (guarded handlers frame mark k).Chain M ts := by
  unfold guarded
  split
  · exact .protect chain
  · exact chain

theorem finishes_linked {frame : Frame} {v : Value} {fromNative : Bool} {k : Kont ν .step}
    (chain : k.Chain M (s.current :: ts)) (finishes : Finishes library frame v fromNative k s x) :
    Links M x := by
  cases finishes with
  | continued _ => exact links_run sound (.finish chain) rfl (M.invoked ..)
  | returned _ => exact links_step sound chain rfl fun _ => nofun
  | delivered _ rigid => exact links_step (sound.rigid rigid) chain rigid.current fun _ => nofun
  | requested _ _ requests =>
    cases requests with
    | refused _ _ => exact links_step sound chain rfl fun _ => nofun
    | performed _ _ _ _ rigid calls =>
      have sound := sound.rigid rigid
      rw [← rigid.current] at sound chain
      exact calls_linked sound (chain_guarded chain) calls
  | suspended _ _ shifted =>
    refine links_step (sound.shifted shifted) chain shifted.current fun _ _ => ?_
    exact ⟨frame, {}, by rw [shifted.outline]; rfl⟩
  | awaited rigid =>
    have sound := sound.rigid rigid
    rw [← rigid.current] at sound chain
    exact ⟨_, sound, .await (.finish chain)⟩
  | failed rigid => exact links_step (sound.rigid rigid) chain rigid.current fun _ => nofun

theorem unwinds_linked {e : ScriptError} {mark : Mark} {k : Kont ν .step} {count : Nat}
    (chain : k.Chain M (s.current :: ts)) (unwinds : Unwinds library e mark k count s x) :
    Links M x := by
  cases unwinds with
  | caught _ _ _ _ _ shifted =>
    exact links_run (sound.shifted shifted) (.finish (.loop chain)) shifted.current (M.invoked ..)
  | lost _ _ _ _ _ shifted =>
    exact links_step (sound.shifted shifted) chain shifted.current fun _ => nofun

theorem decorates_linked {e : ScriptError} {caught : Bool} {mark : Mark} {k : Kont ν .step}
    {decorators : List Value} (chain : k.Chain M (s.current :: ts))
    (decorates : Decorates library e caught mark k s decorators x) : Links M x := by
  cases decorates with
  | last unwinds => exact unwinds_linked sound chain unwinds
  | next nests => exact nests_linked sound (.decorator chain) nests

theorem fails_linked {fault : Fault} {ip : Nat} {mark : Mark} {k : Kont ν .step}
    (chain : k.Chain M (s.current :: ts)) (fails : Fails library ip mark k s fault x) :
    Links M x := by
  cases fails with
  | dropped _ _ _ shifted =>
    exact links_step (sound.shifted shifted) chain shifted.current fun _ => nofun
  | settled _ unwinds => exact unwinds_linked sound chain unwinds
  | decorated _ decorates => exact decorates_linked sound chain decorates

theorem picks_linked {input : Except Fault Value} {fromTask : Bool} {k : Kont ν .step}
    (chain : k.Chain M (s.current :: ts)) (picks : Picks library input fromTask k s x) :
    Links M x := by
  cases picks with
  | nothing _ => exact links_step sound chain rfl fun _ => nofun
  | instruction _ shifted =>
    have sound := sound.shifted shifted
    rw [← shifted.current] at sound chain
    exact ⟨_, sound, .execute chain⟩
  | delivered _ _ shifted _ finishes =>
    have sound := sound.shifted shifted
    rw [← shifted.current] at sound chain
    exact finishes_linked sound (.loop chain) finishes
  | failed _ _ shifted =>
    exact links_step (sound.shifted shifted) (.loop chain) shifted.current fun _ => nofun

/-- A coroutine that is resumed joins the chain. -/
theorem sound_awake {c : ThreadId} (alive : s.coroutineState c ≠ .dead)
    (rests : s.coroutineState c ≠ .running) (switches : Switches c c .running (c :: s.active) s s') :
    Sound s' (s'.current :: s.current :: ts) := by
  obtain ⟨hc, inRange⟩ := State.inRange_of_coroutineState alive
  have absent := sound.absent alive rests
  rw [switches.current]
  refine ⟨?_, List.nodup_cons.2 ⟨absent, sound.distinct⟩, fun d member => ?_⟩
  · rw [switches.size, switches.count]
    exact sound.size
  · obtain rfl | member := List.mem_cons.1 member
    · exact .inr (switches.own hc inRange)
    · rw [switches.others hc d fun e => absent (e ▸ member)]
      exact sound.running d member

theorem resumes_linked {mode : ResumeMode} {c : ThreadId} {k : Kont ν .value}
    (chain : k.Chain M (s.current :: ts)) (resumes : Resumes library mode c k s x) :
    Links M x := by
  cases resumes with
  | refused => exact links_value sound chain rfl
  | @started _ _ s' _ fresh switches _ _ calls =>
    obtain rfl := switches.current
    have alive : s.coroutineState s'.current ≠ .dead := by rw [fresh]; exact nofun
    have rests : s.coroutineState s'.current ≠ .running := by rw [fresh]; exact nofun
    exact calls_linked (sound_awake sound alive rests switches) (.loop (.resumed chain)) calls
  | @continued v s' _ stopped switches picks =>
    obtain rfl := switches.current
    have alive : s.coroutineState s'.current ≠ .dead := by
      obtain stopped | stopped := stopped <;> rw [stopped] <;> exact nofun
    have rests : s.coroutineState s'.current ≠ .running := by
      obtain stopped | stopped := stopped <;> rw [stopped] <;> exact nofun
    exact picks_linked (sound_awake sound alive rests switches) (.resumed chain) picks

/-- A coroutine joins those at rest. -/
theorem sound_newCoroutine (function : Value) :
    Sound (s.newCoroutine function).2 (s.current :: ts) := by
  refine ⟨by simp [State.newCoroutine, sound.size], sound.distinct, fun c member => ?_⟩
  obtain rfl | running := sound.running c member
  · exact .inl rfl
  · refine .inr ?_
    have alive : s.coroutineState c ≠ .dead := by
      rw [running]
      decide
    obtain ⟨-, inRange⟩ := State.inRange_of_coroutineState alive
    rw [← running]
    obtain ⟨_ | n⟩ := c
    · rfl
    · have other : n ≠ s.coroutines.size := Nat.ne_of_lt inRange
      simp [State.coroutineState, State.coroutine, State.newCoroutine, Array.getElem?_push, other]

/-- A resumption ends, and the thread that resumed goes on. -/
theorem sound_asleep {previous : ThreadId} {us active : List ThreadId} {state : CoroutineState}
    {k : Kont ν .value} (rest : ts = previous :: us) (chain : k.Chain M (previous :: us))
    (switches : Switches previous s.current state active s s') : Sound s' (previous :: us) := by
  subst rest
  obtain ⟨absent, distinct⟩ := List.nodup_cons.1 sound.distinct
  refine ⟨?_, distinct, fun d member => ?_⟩
  · rw [switches.size, switches.count]
    exact sound.size
  · have hc : s.current ≠ .root := fun root => absent (root ▸ chain.root_mem)
    rw [switches.others hc d fun e => absent (e ▸ member)]
    exact sound.running d (List.mem_cons_of_mem _ member)

end Functions

theorem execute_linked {ip : Nat} {mark : Mark} {k : Kont ν .step}
    (sound : Sound s (s.current :: ts)) (chain : k.Chain M (s.current :: ts))
    (advances : Advances library s (.execute ip mark k) x) : Links M x := by
  cases advances with
  | failed _ rigid fails =>
    have sound := sound.rigid rigid
    rw [← rigid.current] at sound chain
    exact fails_linked sound chain fails
  | forced _ _ shifted =>
    exact links_step (sound.shifted shifted) chain shifted.current fun _ => nofun
  | moved _ rigid =>
    have sound := sound.rigid rigid
    rw [← rigid.current] at sound chain
    exact ⟨_, sound, .execute chain⟩
  | called _ rigid _ calls =>
    have sound := sound.rigid rigid
    rw [← rigid.current] at sound chain
    exact calls_linked sound (.loop chain) calls
  | nested _ rigid nests =>
    have sound := sound.rigid rigid
    rw [← rigid.current] at sound chain
    exact nests_linked sound (.instruction (.loop chain)) nests
  | left _ _ shifted finishes =>
    have sound := sound.shifted shifted
    rw [← shifted.current] at sound chain
    exact finishes_linked sound (.loop chain) finishes
  | reused _ _ _ shifted _ _ _ calls =>
    have sound := sound.shifted shifted
    rw [← shifted.current] at sound chain
    exact calls_linked sound (.loop chain) calls

theorem program_linked {p : Program ν} {k : Kont ν .value} (sound : Sound s (s.current :: ts))
    (hp : M.program p) (chain : k.Chain M (s.current :: ts))
    (advances : Advances library s (.run p k) x) : Links M x := by
  cases advances with
  | finished => exact links_value sound chain rfl
  | did does rigid => exact links_run (sound.rigid rigid) chain rigid.current (M.does hp does)
  | spawned does => exact links_run (sound_newCoroutine sound _) chain rfl (M.does hp does)
  | waits waits nests => exact nests_linked sound (.routine (M.waits hp waits) chain) nests
  | looked waits => exact links_value sound (.routine (M.waits hp waits) chain) rfl
  | looks waits nests =>
    exact nests_linked sound (.collapse (.routine (M.waits hp waits) chain)) nests
  | resumes waits resumes =>
    exact resumes_linked sound (.routine (M.waits hp waits) chain) resumes
  | enters waits nests =>
    exact nests_linked sound.entered (.exit (.routine (M.waits hp waits) chain)) nests
  | found waits =>
    exact links_value sound.entered (.method (.exit (.routine (M.waits hp waits) chain))) rfl
  | finds waits nests =>
    exact nests_linked sound.entered
      (.collapse (.method (.exit (.routine (M.waits hp waits) chain)))) nests
  | drives waits drives =>
    exact drives_linked sound.entered (.exit (.routine (M.waits hp waits) chain)) drives

theorem step_linked {r : Except Fault Step} {k : Kont ν .step}
    (sound : Sound s (s.current :: ts))
    (parked : ∀ task, r = .ok (.suspend (.await task)) → s.Parked s.current)
    (chain : k.Chain M (s.current :: ts)) (advances : Advances library s (.step r k) x) :
    Links M x := by
  cases advances with
  | loopFailed fails =>
    cases chain with
    | loop chain => exact fails_linked sound chain fails
  | proceeds =>
    cases chain with
    | loop chain => exact ⟨_, sound, .execute chain⟩
  | loopLeft =>
    cases chain with
    | loop chain => exact links_step sound chain rfl parked
  | guardFires _ rigid =>
    cases chain with
    | protect chain =>
      exact links_run (sound.rigid rigid) (.finish chain) rigid.current (M.invoked ..)
  | guardPassed =>
    cases chain with
    | protect chain => exact links_step sound chain rfl parked
  | nestedEnded shifted =>
    cases chain with
    | nested chain => exact links_value (sound.shifted shifted) chain shifted.current
  | driveAwaits => exact ⟨_, sound, .tasked (parked _ rfl) chain⟩
  | driveEnded _ shifted =>
    cases chain with
    | drive chain => exact links_value (sound.shifted shifted) chain shifted.current
  | resumedAwaits =>
    cases chain with
    | resumed chain =>
      exact ⟨_, sound.congr rfl rfl, .tasked (parked _ rfl) (.resumed chain)⟩
  | resumedEnded switches =>
    cases chain with
    | resumed chain =>
      have sound := sound_asleep sound rfl chain switches
      rw [← switches.current] at sound chain
      exact ⟨_, sound, .value chain⟩

theorem value_linked {r : Except Fault Value} {k : Kont ν .value}
    (sound : Sound s (s.current :: ts)) (chain : k.Chain M (s.current :: ts))
    (advances : Advances library s (.value r k) x) : Links M x := by
  cases advances with
  | host => exact ⟨_, sound, .value chain⟩
  | routine =>
    cases chain with
    | routine hn chain => exact links_run sound chain rfl (M.goes hn _)
  | nativeFailed =>
    cases chain with
    | native chain => exact links_step sound chain rfl fun _ => nofun
  | native _ shifted _ finishes =>
    cases chain with
    | native chain =>
      have sound := sound.shifted shifted
      rw [← shifted.current] at sound chain
      exact finishes_linked sound chain finishes
  | finishFailed =>
    cases chain with
    | finish chain => exact links_step sound chain rfl fun _ => nofun
  | finish finishes =>
    cases chain with
    | finish chain => exact finishes_linked sound chain finishes
  | instructionFailed rigid | instruction rigid =>
    cases chain with
    | instruction chain =>
      exact links_step (sound.rigid rigid) chain rigid.current fun _ => nofun
  | decorator decorates =>
    cases chain with
    | decorator chain => exact decorates_linked sound chain decorates
  | collapse =>
    cases chain with
    | collapse chain => exact links_value sound chain rfl
  | methodFailed =>
    cases chain with
    | method chain => exact links_value sound chain rfl
  | method nests =>
    cases chain with
    | method chain => exact nests_linked sound chain nests
  | asyncMethodFailed =>
    cases chain with
    | asyncMethod chain => exact links_value sound chain rfl
  | asyncMethod drives =>
    cases chain with
    | asyncMethod chain => exact drives_linked sound chain drives
  | exit =>
    cases chain with
    | exit chain =>
      have sound' : Sound { s with entries := s.entries - 1 } _ := sound.congr rfl rfl
      exact links_value sound' chain rfl
  | task => cases chain

/-- **One step keeps the chain.** -/
theorem advance_linked {control : Control ν} (sound : Sound s ts) (linked : Linked M s control ts) :
    Links M (advance library control s) := by
  have advances : Advances library s control (advance library control s) :=
    advance_advances (linked.ready sound) sound.size
  generalize advance library control s = x at advances
  cases linked with
  | execute chain => exact execute_linked sound chain advances
  | run hp chain => exact program_linked sound hp chain advances
  | step parked chain => exact step_linked sound parked chain advances
  | value chain => exact value_linked sound chain advances
  | await chain =>
    cases advances with
    | settles => exact links_value sound chain rfl
    | stalls => exact ⟨_, sound, .await chain⟩
  | @settled r c k us parked chain =>
    cases advances with
    | task picks =>
      have sound' : Sound { s with current := c } (c :: us) := sound.congr rfl rfl
      exact picks_linked (s := { s with current := c }) sound' chain picks
  | tasked parked chain =>
    cases advances with
    | settles => exact ⟨_, sound, .settled parked chain⟩
    | stalls => exact ⟨_, sound, .tasked parked chain⟩

theorem indexNested_linked (sound : Sound s (s.current :: ts)) {k : Kont ν .value}
    (chain : k.Chain M (s.current :: ts)) (object key : Value) :
    Links M (indexNested library object key k s) := by
  obtain ⟨r, done⟩ | nests := indexNested_cases library object key k sound.hasCurrent
  · exact done ▸ links_value sound chain rfl
  · exact nests_linked sound (.collapse chain) nests

theorem hostCall_linked (root : s.AtRoot) {move : Move ν (Control ν)}
    (hm : HostCall library move) : Links M (move s) := by
  have sound : Sound s.entered [s.entered.current] :=
    ⟨root.size, List.pairwise_singleton .., fun c hc =>
      .inl ((List.mem_singleton.1 hc).trans root.current)⟩
  have left : (Kont.exit .host).Chain M [s.entered.current] := .exit (.host root.current)
  have here := sound.hasCurrent
  cases hm with
  | call function arguments => exact nests_linked sound left (callNested_nests _ _ _ here)
  | thisCall object method arguments =>
    exact indexNested_linked sound (.method left) ..
  | callAsync function arguments => exact drives_linked sound left (driveAsync_drives _ _ _ here)
  | thisCallAsync object method arguments =>
    exact indexNested_linked sound (.asyncMethod left) ..

/-- **A run keeps the chain.** -/
theorem run_linked {x : Control ν × State ν} (linked : Links M x) (steps : Nat) :
    Links M ((run library steps ⟨x.1, x.2⟩).control, (run library steps ⟨x.1, x.2⟩).state) := by
  induction steps generalizing x with
  | zero => exact linked
  | succ steps ih =>
    rw [run]
    split
    · exact linked
    · obtain ⟨ts, sound, linked⟩ := linked
      exact ih (advance_linked sound linked)

/-- The host calls a function or a method, or resumes a coroutine. -/
def Begins (library : Library ν) (move : Move ν (Control ν)) : Prop :=
  HostCall library move ∨ ∃ mode c arguments, move = hostResume library mode c arguments

theorem begins_linked {move : Move ν (Control ν)} (root : s.AtRoot)
    (begins : Begins library move) : Links M (move s) := by
  obtain call | ⟨mode, c, arguments, rfl⟩ := begins
  · exact hostCall_linked root call
  · exact resumes_linked root.sound (.host root.current)
      (resume_resumes _ _ _ _ root.size)

theorem step_of_halted {m : Machine ν} (halted : m.isHalted = true) : m.step library = m := by
  obtain ⟨control, s⟩ := m
  unfold isHalted at halted
  split at halted
  · rename_i h
    dsimp only at h
    subst h
    rfl
  · rename_i h
    dsimp only at h
    subst h
    rfl
  · contradiction

theorem run_eq_iterate (n : Nat) (m : Machine ν) : run library n m = (step library)^[n] m := by
  induction n generalizing m with
  | zero => rfl
  | succ n ih =>
    rw [run, Function.iterate_succ_apply]
    split
    · rename_i halted
      rw [step_of_halted halted, ← ih]
      cases n with
      | zero => rfl
      | succ n => rw [run, if_pos halted]
    · exact ih _

theorem iterate_linked {m : Machine ν} (linked : Links M (m.control, m.state)) (steps : Nat) :
    Links M (((step library)^[steps] m).control, ((step library)^[steps] m).state) := by
  rw [← run_eq_iterate]
  exact run_linked linked steps

end Machine

end ScriptMachine
