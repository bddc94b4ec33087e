import ScriptMachine.Proofs.Machine.Chain

/-!
# Guards of requested calls

A requested call has its error handler in two places: its frame has it, and a guard has it as long
as the call may fail without a frame. Both stand for one run of the handler.

* `Kont.shields`: a guard with the handler waits for the frame at a place.
* `Kont.dues`: the guards with the handler.
* `Kont.Backs`: each frame with the handler, standing or suspended, is listed or shielded.
* `Owns`: the guards and the frames that are listed are no more than that.
-/

namespace ScriptMachine

variable {ν : Type}

namespace State

def Bears (s : State ν) (h : NativeId) (p : Spot) : Prop :=
  ∃ up f rest, s.framesOf p.1 = up ++ f :: rest ∧ rest.length = p.2 ∧
    f.handlers.errorHandler = some h

/-- A frame with the error handler was popped, and waits for its result. -/
def Delays (s : State ν) (h : NativeId) (c : ThreadId) : Prop :=
  ∃ f mark, (s.outlineOf c).pending = some (.deliver f, mark) ∧ f.handlers.errorHandler = some h

/-- The place of the next frame of a thread. -/
def top (s : State ν) (c : ThreadId) : Spot := (c, (s.framesOf c).length)

theorem Bears.lt {s : State ν} {h : NativeId} {p : Spot} (bears : s.Bears h p) :
    p.2 < (s.framesOf p.1).length := by
  obtain ⟨up, f, rest, frames, height, -⟩ := bears
  rw [frames, ← height, List.length_append, List.length_cons]
  omega

/-- Frames below one that is popped were there before. -/
theorem bears_of_suffix {s s' : State ν} {h : NativeId} {p : Spot} {up : List Frame}
    (frames : s.framesOf p.1 = up ++ s'.framesOf p.1) (bears : s'.Bears h p) : s.Bears h p := by
  obtain ⟨up', f, rest, frames', height, has⟩ := bears
  exact ⟨up ++ up', f, rest, by rw [frames, frames', List.append_assoc], height, has⟩

theorem bears_congr {s s' : State ν} {h : NativeId} {p : Spot}
    (frames : s'.framesOf p.1 = s.framesOf p.1) : s'.Bears h p ↔ s.Bears h p := by
  unfold Bears
  rw [frames]

/-- A frame that is pushed is the only new one. -/
theorem bears_push {s s' : State ν} {h : NativeId} {p : Spot} {f : Frame}
    (frames : s'.framesOf p.1 = f :: s.framesOf p.1) (bears : s'.Bears h p) :
    s.Bears h p ∨ p = s.top p.1 ∧ f.handlers.errorHandler = some h := by
  obtain ⟨up, g, rest, frames', height, has⟩ := bears
  rw [frames] at frames'
  cases up with
  | nil =>
    obtain ⟨rfl, rfl⟩ := List.cons.inj frames'
    exact .inr ⟨Prod.ext rfl height.symm, has⟩
  | cons _ up => exact .inl ⟨up, g, rest, (List.cons.inj frames').2, height, has⟩

end State

theorem Rigid.top {s s' : State ν} (rigid : Rigid s s') (c : ThreadId) : s'.top c = s.top c :=
  Prod.ext rfl (congrArg List.length (rigid.frames c))

theorem Shifted.top {o : Outline} {s s' : State ν} (shifted : Shifted o s s')
    (frames : o.frames = s.framesOf s.current) : s'.top s.current = s.top s.current := by
  refine Prod.ext rfl (congrArg List.length ?_)
  exact (congrArg Outline.frames shifted.own).trans frames

namespace Kont

variable (h : NativeId)

/-- A guard with the handler waits for the frame at a place, and no loop before it unwinds the
frame. The second argument is the thread that runs. -/
def shields : {a : Awaited} → Kont ν a → ThreadId → Spot → Bool
  | _, .host, _, _ => false
  | _, .routine _ k, t, p | _, .collapse k, t, p | _, .method _ _ _ k, t, p
  | _, .asyncMethod _ _ k, t, p | _, .exit k, t, p | _, .nested k, t, p => k.shields t p
  | _, .native k, t, p | _, .finish _ k, t, p | _, .instruction _ _ k, t, p => k.shields t p
  | _, .decorator _ _ _ mark k, t, p | _, .loop mark _ k, t, p =>
    decide (¬ (p.1 = t ∧ mark.frames ≤ p.2)) && k.shields t p
  | _, .protect _ g mark k, t, p => decide (g = h ∧ p = (t, mark.frames)) || k.shields t p
  | _, .drive _ k, t, p => decide (p.1 ≠ t) && k.shields t p
  | _, .resumed _ c previous k, _, p => decide (p.1 ≠ c) && k.shields previous p
  | _, .task _ _, _, _ => false

/-- The guards with the handler. -/
def dues : {a : Awaited} → Kont ν a → Nat
  | _, .host => 0
  | _, .routine _ k | _, .collapse k | _, .method _ _ _ k | _, .asyncMethod _ _ k | _, .exit k
  | _, .nested k | _, .drive _ k | _, .resumed _ _ _ k => k.dues
  | _, .native k | _, .finish _ k | _, .instruction _ _ k | _, .decorator _ _ _ _ k
  | _, .loop _ _ k | _, .task _ k => k.dues
  | _, .protect _ g _ k => (if g = h then 1 else 0) + k.dues

/-- Whoever waits to finish a frame has its handlers taken away. -/
def Disarmed : {a : Awaited} → Kont ν a → Prop
  | _, .host => True
  | _, .routine _ k | _, .collapse k | _, .method _ _ _ k | _, .asyncMethod _ _ k | _, .exit k
  | _, .nested k | _, .drive _ k | _, .resumed _ _ _ k => k.Disarmed
  | _, .native k | _, .instruction _ _ k | _, .decorator _ _ _ _ k | _, .loop _ _ k => k.Disarmed
  | _, .finish frame k | _, .protect frame _ _ k =>
    frame.handlers.errorHandler ≠ some h ∧ k.Disarmed
  | _, .task _ _ => False

variable {h} {k : Kont ν .step} {l : Kont ν .value} {t : ThreadId} {p : Spot} {mark : Mark}

theorem shields_loop {ip : Nat} : (loop mark ip k).shields h t p = true ↔
    ¬ (p.1 = t ∧ mark.frames ≤ p.2) ∧ k.shields h t p = true := by
  rw [shields, Bool.and_eq_true, decide_eq_true_iff]

theorem shields_decorator {e : ScriptError} {others : List Value} {caught : Bool} :
    (decorator e others caught mark k).shields h t p = true ↔
      ¬ (p.1 = t ∧ mark.frames ≤ p.2) ∧ k.shields h t p = true := by
  rw [shields, Bool.and_eq_true, decide_eq_true_iff]

theorem shields_protect {frame : Frame} {g : NativeId} :
    (protect frame g mark k).shields h t p = true ↔
      g = h ∧ p = (t, mark.frames) ∨ k.shields h t p = true := by
  simp [shields]

theorem shields_drive {previous : Bool} : (drive previous l).shields h t p = true ↔
    p.1 ≠ t ∧ l.shields h t p = true := by
  simp [shields]

theorem shields_resumed {mode : ResumeMode} {c previous : ThreadId} :
    (resumed mode c previous l).shields h t p = true ↔
      p.1 ≠ c ∧ l.shields h previous p = true := by
  simp [shields]

/-- Only frames of threads that wait are shielded. -/
theorem Chain.mem_of_shields {library : Library ν} {M : Manner library} {a : Awaited}
    {k : Kont ν a} {ts : List ThreadId} (chain : k.Chain M (t :: ts))
    (shielded : k.shields h t p = true) : p.1 ∈ t :: ts := by
  generalize threads : t :: ts = all at chain
  induction chain generalizing t ts with
  | host => cases shielded
  | protect _ ih =>
    obtain ⟨-, rfl⟩ | shielded := shields_protect.1 shielded
    · exact threads ▸ List.mem_cons_self ..
    · exact ih shielded threads
  | loop _ ih => exact ih (shields_loop.1 shielded).2 threads
  | decorator _ ih => exact ih (shields_decorator.1 shielded).2 threads
  | drive _ ih => exact ih (shields_drive.1 shielded).2 threads
  | resumed _ ih => exact List.mem_cons_of_mem _ (ih (shields_resumed.1 shielded).2 rfl)
  | _ => rename_i ih; exact ih shielded threads

end Kont

/-- Each frame with the handler is listed, or shielded by those who wait. -/
structure Kont.Backs {a : Awaited} (k : Kont ν a) (h : NativeId) (U : List Spot) (s : State ν) :
    Prop where
  standing : ∀ p, s.Bears h p → p ∈ U ∨ k.shields h s.current p = true
  resting : ∀ c, s.Stopped c → s.Delays h c → s.top c ∈ U ∨ k.shields h s.current (s.top c) = true
  disarmed : k.Disarmed h

/-- The frame that a parked thread has popped is listed. -/
structure Parks (h : NativeId) (U : List Spot) (s : State ν) (c : ThreadId) (k : Kont ν .step) :
    Prop where
  backs : k.Backs h U { s with current := c }
  clear : ∀ p, p.1 = c → ¬ k.shields h c p = true
  delayed : s.Delays h c → s.top c ∈ U

/-- The control and the state, with the frames that are listed. -/
inductive Owned (h : NativeId) (U : List Spot) (s : State ν) : Control ν → Prop
  | execute {ip : Nat} {mark : Mark} {k : Kont ν .step} : (Kont.loop mark ip k).Backs h U s →
      Owned h U s (.execute ip mark k)
  | run {p : Program ν} {k : Kont ν .value} : k.Backs h U s → Owned h U s (.run p k)
  | step {r : Except Fault Step} {k : Kont ν .step} : k.Backs h U s →
      (∀ reason, r = .ok (.suspend reason) → s.Delays h s.current →
        s.top s.current ∈ U ∨ k.shields h s.current (s.top s.current) = true) →
      Owned h U s (.step r k)
  | value {r : Except Fault Value} {k : Kont ν .value} : k.Backs h U s → Owned h U s (.value r k)
  | held {r : Except Fault Value} {frame : Frame} {k : Kont ν .step} : k.Backs h U s →
      (frame.handlers.errorHandler = some h →
        s.top s.current ∈ U ∨ k.shields h s.current (s.top s.current) = true) →
      Owned h U s (.value r (.finish frame k))
  | awaited {task : Task} {frame : Frame} {k : Kont ν .step} : k.Backs h U s →
      (frame.handlers.errorHandler = some h →
        s.top s.current ∈ U ∨ k.shields h s.current (s.top s.current) = true) →
      Owned h U s (.await task (.finish frame k))
  | settled {r : Except Fault Value} {c : ThreadId} {k : Kont ν .step} : Parks h U s c k →
      Owned h U s (.value r (.task c k))
  | tasked {task : Task} {c : ThreadId} {k : Kont ν .step} : Parks h U s c k →
      Owned h U s (.await task (.task c k))

def Control.dues (h : NativeId) : Control ν → Nat
  | .execute _ _ k | .step _ k => k.dues h
  | .run _ k | .value _ k | .await _ k => k.dues h

/-- The handler is owed no more runs than that. -/
def Owns (h : NativeId) (n : Nat) (x : Control ν × State ν) : Prop :=
  ∃ U : List Spot, x.1.dues h + U.length ≤ n ∧ Owned h U x.2 x.1

namespace Kont.Backs

variable {a : Awaited} {k : Kont ν a} {h : NativeId} {U : List Spot} {s s' : State ν}

/-- No frame with the handler comes to stand or to wait. -/
theorem evolve (backs : k.Backs h U s) (current : s'.current = s.current)
    (standing : ∀ p, s'.Bears h p → s.Bears h p)
    (resting : ∀ c, s'.Stopped c → s'.Delays h c →
      s.Stopped c ∧ s.Delays h c ∧ s'.top c = s.top c) :
    k.Backs h U s' := by
  refine ⟨fun p bears => ?_, fun c rests delays => ?_, backs.disarmed⟩
  · rw [current]
    exact backs.standing p (standing p bears)
  · obtain ⟨rests, delays, top⟩ := resting c rests delays
    rw [current, top]
    exact backs.resting c rests delays

theorem rigid (backs : k.Backs h U s) (rigid : Rigid s s') : k.Backs h U s' := by
  refine backs.evolve rigid.current (fun p => (State.bears_congr (rigid.frames _)).1) ?_
  intro c rests delays
  have state : s'.coroutineState c = s.coroutineState c := by
    simp only [State.coroutineState, State.coroutine, rigid.coroutines]
  unfold State.Stopped at rests
  unfold State.Delays at delays
  rw [state] at rests
  rw [rigid.outline] at delays
  exact ⟨rests, delays, by rw [State.top, State.top, rigid.frames]⟩

/-- The thread that runs pops frames. -/
theorem shifted {o : Outline} (backs : k.Backs h U s) (shifted : Shifted o s s')
    (frames : ∃ up, s.framesOf s.current = up ++ o.frames) (busy : ¬ s.Stopped s.current) :
    k.Backs h U s' := by
  obtain ⟨up, frames⟩ := frames
  refine backs.evolve shifted.current (fun p bears => ?_) fun c rests delays => ?_
  · by_cases own : p.1 = s.current
    · have suffix : s.framesOf p.1 = up ++ s'.framesOf p.1 := by
        rw [own, frames, ← shifted.frames, shifted.current]
      exact State.bears_of_suffix suffix bears
    · exact (State.bears_congr (shifted.frames_ne own)).1 bears
  · have state : s'.coroutineState c = s.coroutineState c := by
      simp only [State.coroutineState, State.coroutine, shifted.coroutines]
    unfold State.Stopped at rests
    rw [state] at rests
    have other : c ≠ s.current := fun own => busy (own ▸ rests)
    unfold State.Delays at delays
    rw [shifted.others c other] at delays
    exact ⟨rests, delays, by rw [State.top, State.top, shifted.frames_ne other]⟩

/-- The thread that runs pushes a frame. -/
theorem push {f : Frame} (backs : k.Backs h U s)
    (shifted : Shifted ((s.outlineOf s.current).push f) s s') (busy : ¬ s.Stopped s.current)
    (covers : f.handlers.errorHandler = some h → k.shields h s.current (s.top s.current) = true) :
    k.Backs h U s' := by
  have coroutines : ∀ c, s'.coroutineState c = s.coroutineState c := fun c => by
    simp only [State.coroutineState, State.coroutine, shifted.coroutines]
  refine ⟨fun p bears => ?_, fun c rests delays => ?_, backs.disarmed⟩
  · rw [shifted.current]
    by_cases own : p.1 = s.current
    · have frames : s'.framesOf p.1 = f.outline :: s.framesOf p.1 := by
        rw [own]
        exact congrArg Outline.frames shifted.own
      obtain bears | ⟨place, has⟩ := State.bears_push frames bears
      · exact backs.standing p bears
      · rw [place, own]
        exact .inr (covers has)
    · exact backs.standing p ((State.bears_congr (shifted.frames_ne own)).1 bears)
  · unfold State.Stopped at rests
    rw [coroutines] at rests
    have other : c ≠ s.current := fun own => busy (own ▸ rests)
    unfold State.Delays at delays
    rw [shifted.others c other] at delays
    rw [shifted.current, State.top, shifted.frames_ne other]
    exact backs.resting c rests delays

/-- Others wait in front, who neither shield nor finish frames. -/
theorem same {b : Awaited} {l : Kont ν b} (backs : k.Backs h U s)
    (shields : ∀ t p, l.shields h t p = k.shields h t p) (disarmed : l.Disarmed h) :
    l.Backs h U s :=
  ⟨fun p bears => by rw [shields]; exact backs.standing p bears,
   fun c rests delays => by rw [shields]; exact backs.resting c rests delays, disarmed⟩

/-- Others wait, who shield what was shielded. -/
theorem mono {b : Awaited} {l : Kont ν b} (backs : k.Backs h U s) (disarmed : l.Disarmed h)
    (shields : ∀ p, s.Bears h p ∨ s.Stopped p.1 → k.shields h s.current p = true →
      l.shields h s.current p = true) : l.Backs h U s :=
  ⟨fun p bears => (backs.standing p bears).imp_right (shields p (.inl bears)),
   fun c rests delays => (backs.resting c rests delays).imp_right (shields _ (.inr rests)),
   disarmed⟩

end Kont.Backs

namespace Kont

variable {k : Kont ν .step} {l : Kont ν .value} {h : NativeId} {U : List Spot} {s : State ν}
  {mark : Mark}

theorem Backs.of_loop {ip : Nat} (backs : (loop mark ip k).Backs h U s) : k.Backs h U s :=
  backs.mono backs.disarmed fun _ _ shielded => (shields_loop.1 shielded).2

theorem Backs.of_drive {previous : Bool} (backs : (drive previous l).Backs h U s) : l.Backs h U s :=
  backs.mono backs.disarmed fun _ _ shielded => (shields_drive.1 shielded).2

/-- A loop that begins above all frames unwinds none of them. -/
theorem Backs.loop (backs : k.Backs h U s) (busy : ¬ s.Stopped s.current)
    (high : (s.framesOf s.current).length ≤ mark.frames) (ip : Nat) :
    (loop mark ip k).Backs h U s := by
  refine backs.mono backs.disarmed fun p there shielded => shields_loop.2 ⟨?_, shielded⟩
  rintro ⟨own, low⟩
  obtain bears | rests := there
  · have := bears.lt
    rw [own] at this
    omega
  · exact busy (own ▸ rests)

end Kont

/-- Each frame with the handler, standing or suspended, is among these. -/
structure State.Lists (s : State ν) (h : NativeId) (U : List Spot) : Prop where
  standing : ∀ p, s.Bears h p → p ∈ U
  resting : ∀ c, s.Stopped c → s.Delays h c → s.top c ∈ U

theorem State.Lists.backs {s : State ν} {h : NativeId} {U : List Spot} (lists : s.Lists h U)
    {a : Awaited} {k : Kont ν a} (disarmed : k.Disarmed h) : k.Backs h U s :=
  ⟨fun p bears => .inl (lists.standing p bears),
    fun c stopped delays => .inl (lists.resting c stopped delays), disarmed⟩

theorem State.lists_nil {s : State ν} {h : NativeId} (idle : ∀ c, s.framesOf c = [])
    (free : ∀ c, (s.outlineOf c).pending = none) : s.Lists h [] := by
  constructor
  · rintro p ⟨up, f, rest, frames, -⟩
    rw [idle] at frames
    cases up <;> cases frames
  · rintro c - ⟨f, mark, pending, -⟩
    rw [free] at pending
    cases pending

end ScriptMachine
