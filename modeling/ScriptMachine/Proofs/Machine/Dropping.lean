import ScriptMachine.Proofs.Machine.Lockstep
import ScriptMachine.Proofs.Machine.Unwinding

/-!
# Unwinding in lockstep

What an error does with and without a frame that can be spared.

* `Dropping`: a frame is popped on both sides, or the frame that can be spared is popped after the
  one that it called.
* `lockstep_popToHandler`: frames are popped down to a handler, or down to where the loop was
  entered. `lockstep_unwind`: an error is attributed, and frames are popped.
-/

namespace ScriptMachine

variable {ν α : Type} {x : Option Spare} {s t : State ν} {c : ThreadId} {n : Nat}

theorem Handlers.eq_empty {h : Handlers} (empty : h.isEmpty = true) : h = {} := by
  obtain ⟨_ | _, _ | _, _ | _⟩ := h <;> first | rfl | cases empty

namespace Spare

variable {z : Spare} {f : Frame}

/-- The frame that was called is no entry. -/
theorem Calls.inner (calls : z.Calls f) : f.flags.entryPoint = false := by
  rw [← FrameFlags.entryPoint_inherited, calls.flags]

theorem entryPoint_taken (z : Spare) (f : Frame) :
    (z.taken f).flags.entryPoint = z.frame.flags.entryPoint := by
  simp [taken, FrameFlags.union]

end Spare

/-- What frames a loop has does not depend on their cells. -/
theorem rises_outline {m : Nat} {fs : List Frame} :
    Rises m (fs.map Frame.outline) ↔ Rises m fs := by
  induction fs with
  | nil => exact Iff.rfl
  | cons f fs ih =>
    simp only [List.map_cons, Seat.rises_cons, Seat.On, Frame.seat_outline, List.length_map, ih]

namespace Machine

/-- Where no frame is, none is popped. -/
theorem dropFrame_nil (empty : s.processor.frames.toList.reverse = []) :
    dropFrame s = (none, s) := by
  have none : s.processor.frames.back? = none := by
    rw [List.reverse_eq_nil_iff, Array.toList_eq_nil_iff] at empty
    rw [empty]
    rfl
  simp [dropFrame, Exec.popFrame, Exec.topFrame?, bind, EStateM.bind, get, getThe,
    MonadStateOf.get, EStateM.get, pure, EStateM.pure, none, Exec.defect, throw, throwThe,
    MonadExceptOf.throw, EStateM.throw]

theorem dropFrame_of_popFrame {f : Frame} {s' : State ν} (run : Exec.popFrame s = .ok f s') :
    dropFrame s = (some f, s') := by
  unfold dropFrame
  rw [run]

inductive Dropping (x : Option Spare) (c : ThreadId) (s t : State ν) : Prop
  | none : dropFrame s = (none, s) → dropFrame t = (none, t) →
      s.processor.frames.toList.reverse = [] → Dropping x c s t
  | above {f : Frame} {s' t' : State ν} (base : Nat) : dropFrame s = (some f, s') →
      dropFrame t = (some { f with base }, t') → Spared x c 0 s' t' →
      (∃ cells, s.processor.frames.toList.reverse =
        { f with cells } :: s'.processor.frames.toList.reverse) → Dropping x c s t
  | called {z : Spare} {f g h : Frame} {s' s'' t' : State ν} : x = some z → c = z.thread →
      dropFrame s = (some f, s') → dropFrame s' = (some g, s'') → dropFrame t = (some h, t') →
      f.handlers = {} → g.handlers = {} → h.handlers = {} → f.flags.entryPoint = false →
      h.flags.entryPoint = g.flags.entryPoint → Spared Option.none c 0 s'' t' →
      s.processor.frames.size = z.depth + 2 → s''.processor.frames.size = z.depth →
      Dropping x c s t

/-- The frame that can be spared is popped, and the one that it called before. -/
theorem Dropping.of_called {z : Spare} (h : Spared (some z) z.thread n s t) {f : Frame}
    (calls : z.Calls f) (frames : s.processor.frames.toList.reverse = f :: z.frame :: z.rest)
    (frames' : t.processor.frames.toList.reverse = z.taken f :: z.rest) :
    Dropping (some z) z.thread s t := by
  have top := back?_of_reverse frames
  have kept₁ : (s.popTop f).Kept := State.wanes_popTop top h.kept
  have here₁ := (s.likewise_popTop f).hasCurrent h.here
  have frames₁ : (s.popTop f).processor.frames.toList.reverse = z.frame :: z.rest := by
    rw [State.frames_popTop h.here]
    exact reverse_pop frames
  have top₁ := back?_of_reverse frames₁
  have rest : ((s.popTop f).popTop z.frame).processor.frames.toList.reverse = z.rest := by
    rw [State.frames_popTop here₁]
    exact reverse_pop frames₁
  have own : z.thread = s.current := h.current.symm
  refine .called rfl rfl (dropFrame_of_popFrame (Exec.popFrame_eq top (h.kept.owner top)))
    (dropFrame_of_popFrame (Exec.popFrame_eq top₁ (kept₁.owner top₁)))
    (dropFrame_of_popFrame (Exec.popFrame_eq (back?_of_reverse frames')
      (h.trims.owner_taken h.kept own calls frames)))
    (Handlers.eq_empty calls.bare) (Handlers.eq_empty z.bare) (Handlers.eq_empty calls.bare)
    calls.inner (z.entryPoint_taken f)
    ⟨?_, ((s.popTop f).likewise_popTop _).hasCurrent here₁, State.wanes_popTop top₁ kept₁,
      h.trims.popTop_called h.kept h.here own calls frames frames', Nat.zero_le _⟩ ?_ ?_
  · rw [State.current_popTop, State.current_popTop, own]
  · rw [← Array.length_toList, ← List.length_reverse, frames]
    rfl
  · rw [← Array.length_toList, ← List.length_reverse, rest]
    rfl

end Machine

/-- Both sides have a frame to pop, or none. -/
theorem Spared.dropping (h : Spared x c n s t) : Machine.Dropping x c s t := by
  have trim := h.trims.frames
  rw [h.current] at trim
  cases frames : s.processor.frames.toList.reverse with
  | nil =>
    rw [frames] at trim
    exact .none (Machine.dropFrame_nil frames) (Machine.dropFrame_nil (trim.nil_iff.1 rfl)) frames
  | cons f fs =>
    rw [frames] at trim
    obtain ⟨fs', frames', below, floor⟩ | ⟨z, own, calls, rfl, frames'⟩ := trim.tail
    · obtain ⟨run, run', popped⟩ := Exec.popFrame_above h frames frames' below floor
      refine .above _ (Machine.dropFrame_of_popFrame run) (Machine.dropFrame_of_popFrame run')
        popped ⟨f.cells, ?_⟩
      rw [frames, State.frames_popTop h.here, reverse_pop frames]
    · obtain ⟨rfl, rfl⟩ := Spare.mem_on own
      exact .of_called h calls frames frames'

/-- The loop was entered above the slots that are taken out, and one frame lower without them. -/
structure MarkHigh (y : Option Spare) (m m' : Mark) : Prop where
  deep : ∀ z ∈ y, z.depth + 2 ≤ m.frames
  frames : m'.frames = m.frames - (y.elim 0 fun _ => 1)
  high : (y.elim {} Spare.cut).high ≤ m.stack
  stack : m'.stack = m.stack - (y.elim {} Spare.cut).gap

/-- The loop was entered above the frame that can be spared, or below it. -/
theorem MarkTrims.cases {y : Option Spare} {m m' : Mark} (h : MarkTrims y m m') :
    MarkHigh y m m' ∨ ∃ z, y = some z ∧ m' = m ∧ m.frames ≤ z.depth := by
  cases h with
  | low low =>
    cases y with
    | none => exact .inl ⟨fun z hz => absurd hz (Option.not_mem_none z), rfl, Nat.zero_le _, rfl⟩
    | some z => exact .inr ⟨z, rfl, rfl, low z rfl⟩
  | high deep high =>
    exact .inl ⟨fun z hz => Option.some.inj hz ▸ deep, rfl, high, rfl⟩

theorem Tallies.of_none {a b : Control ν × State ν} (h : Tallies none a b) : Tallies x a b := by
  cases h with
  | overflows h other => exact .overflows h other
  | same control state | gone control state => exact .gone control state

namespace Machine

variable {library : Library ν}

theorem size_frames_cons {f : Frame} {s' : State ν}
    (frames : s.processor.frames.toList.reverse = f :: s'.processor.frames.toList.reverse) :
    s.processor.frames.size = s'.processor.frames.size + 1 := by
  have length := congrArg List.length frames
  simpa using length

theorem dropFrames_succ {f : Option Frame} {s' : State ν} (run : dropFrame s = (f, s'))
    (count : Nat) : dropFrames (count + 1) s = dropFrames count s' :=
  bind_of_eq run _

/-- Frames are dropped above the one that can be spared. -/
theorem dropFrames_high (h : Spared x c n s t) {count : Nat}
    (deep : ∀ z ∈ Spare.on x c, count + (z.depth + 2) ≤ s.processor.frames.size) :
    Spared x c 0 (dropFrames count s).2 (dropFrames count t).2 := by
  induction count generalizing n s t with
  | zero => exact h.weaken
  | succ count ih =>
    cases h.dropping with
    | none run run' empty =>
      rw [dropFrames_succ run, dropFrames_succ run']
      refine ih h fun z own => Nat.le_trans ?_ (deep z own)
      omega
    | above base run run' popped frames =>
      obtain ⟨cells, frames⟩ := frames
      have size := size_frames_cons frames
      rw [dropFrames_succ run, dropFrames_succ run']
      refine ih popped fun z own => ?_
      have := deep z own
      omega
    | called own thread _ _ _ _ _ _ _ _ _ size =>
      have := deep _ (by rw [own, thread, Spare.on_self]; rfl)
      omega

/-- The frame that can be spared is dropped as well. -/
theorem dropFrames_low {z : Spare} (h : Spared (some z) z.thread n s t) {count : Nat}
    (deep : z.depth + 2 ≤ s.processor.frames.size)
    (low : s.processor.frames.size ≤ count + 1 + z.depth) :
    Spared none z.thread 0 (dropFrames (count + 1) s).2 (dropFrames count t).2 := by
  induction count generalizing n s t with
  | zero => omega
  | succ count ih =>
    cases h.dropping with
    | none run run' empty =>
      rw [List.reverse_eq_nil_iff, Array.toList_eq_nil_iff] at empty
      rw [empty] at deep
      cases deep
    | @above f s' t' base run run' popped frames =>
      obtain ⟨cells, frames⟩ := frames
      have size := size_frames_cons frames
      rw [dropFrames_succ run, dropFrames_succ run']
      have deep' := (popped.trims.frames.length.2 z (by
        rw [popped.current, Spare.on_self]; rfl)).1
      rw [List.length_reverse, Array.length_toList] at deep'
      exact ih popped deep' (by omega)
    | called own thread run run₁ run' _ _ _ _ _ popped size =>
      cases own
      rw [dropFrames_succ run, dropFrames_succ run₁, dropFrames_succ run']
      exact dropFrames_high popped fun y hy => absurd hy (Option.not_mem_none y)

section Popping

variable (discreet : library.Discreet)

theorem lockstep_giveUp (h : Spared x c n s t) {e : ScriptError} (trace : List TraceEntry)
    {mark mark' : Mark} {k k' : Kont ν .step} (high : MarkHigh (Spare.on x c) mark mark')
    (hk : Kont.Trims x c k k') :
    Lockstep x s t (popToHandler.giveUp e mark k)
      (popToHandler.giveUp { e with trace } mark' k') := by
  have cut := h.truncate high.high
  have stack : mark'.stack = mark.stack - (Spare.part x c).gap := high.stack
  rw [← stack] at cut
  exact lockstep_modify (lockstep_error cut rfl hk)

theorem popToHandler_none (library : Library ν) (e : ScriptError) (mark : Mark) (k : Kont ν .step)
    (count : Nat) (run : dropFrame s = (none, s)) :
    popToHandler library e mark k (count + 1) s = popToHandler.giveUp e mark k s := by
  rw [popToHandler]
  exact bind_of_eq run _

include discreet

/-- Frames are popped above the one that can be spared. -/
theorem lockstep_popToHandler (h : Spared x c n s t) {e : ScriptError} (trace : List TraceEntry)
    {mark mark' : Mark} {k k' : Kont ν .step} (high : MarkHigh (Spare.on x c) mark mark')
    (marks : MarkTrims (Spare.on x c) mark mark') (hk : Kont.Trims x c k k') {count : Nat}
    (deep : ∀ z ∈ Spare.on x c, count + (z.depth + 2) ≤ s.processor.frames.size) :
    Lockstep x s t (popToHandler library e mark k count)
      (popToHandler library { e with trace } mark' k' count) := by
  induction count generalizing n s t with
  | zero => exact lockstep_giveUp h trace high hk
  | succ count ih =>
    unfold Lockstep
    cases h.dropping with
    | none run run' empty =>
      rw [popToHandler_none _ _ _ _ _ run, popToHandler_none _ _ _ _ _ run']
      exact lockstep_giveUp h trace high hk
    | @above f s' t' base run run' popped frames =>
      obtain ⟨cells, frames⟩ := frames
      have size := size_frames_cons frames
      rw [popToHandler_succ _ _ _ run, popToHandler_succ _ _ _ run']
      dsimp only
      cases f.handlers.errorHandler with
      | some handler =>
        exact lockstep_invoke discreet popped handler _ _ (.finish base (.loop marks hk))
      | none =>
        dsimp only
        split
        · exact lockstep_giveUp popped trace high hk
        · refine ih popped fun z own => ?_
          have := deep z own
          omega
    | called own thread _ _ _ _ _ _ _ _ _ size =>
      have := deep _ (by rw [own, thread, Spare.on_self]; rfl)
      omega

/-- Frames are popped with the one that can be spared. -/
theorem lockstep_popToHandler_low {z : Spare} (h : Spared (some z) z.thread n s t)
    {e : ScriptError} (trace : List TraceEntry) {mark : Mark} {k k' : Kont ν .step}
    (low : mark.frames ≤ z.depth)
    (rises : Rises mark.frames s.processor.frames.toList.reverse)
    (hk : Kont.Trims (some z) z.thread k k') (hk' : Kont.Trims none z.thread k k') {count : Nat}
    (all : s.processor.frames.size = count + 1 + mark.frames) :
    Lockstep (some z) s t (popToHandler library e mark k (count + 1))
      (popToHandler library { e with trace } mark k' count) := by
  induction count generalizing n s t with
  | zero =>
    have deep := (h.trims.frames.length.2 z (by rw [h.current, Spare.on_self]; rfl)).1
    rw [List.length_reverse, Array.length_toList] at deep
    omega
  | succ count ih =>
    unfold Lockstep
    cases h.dropping with
    | none run run' empty =>
      rw [empty] at rises
      cases rises
    | @above f s' t' base run run' popped frames =>
      obtain ⟨cells, frames⟩ := frames
      have size := size_frames_cons frames
      have deep := (popped.trims.frames.length.2 z (by rw [popped.current, Spare.on_self]; rfl)).1
      rw [frames] at rises
      rw [popToHandler_succ _ _ _ run, popToHandler_succ _ _ _ run']
      dsimp only
      cases f.handlers.errorHandler with
      | some handler =>
        refine lockstep_invoke discreet popped handler _ _ (.finish base (.loop (.low ?_) hk))
        exact fun y hy => Option.some.inj ((Spare.mem_on hy).1) ▸ low
      | none =>
        cases rises with
        | entry _ length => omega
        | above inner rises =>
          rw [if_neg (by rw [inner]; nofun), if_neg (by rw [inner]; nofun)]
          exact ih popped rises (by omega)
    | @called y f g h' s' s'' t' own thread run run₁ run' plain plain₁ plain' inner same popped size size' =>
      cases own
      have high : MarkHigh (Spare.on none z.thread) mark mark :=
        ⟨fun y hy => absurd hy (Option.not_mem_none y), rfl, Nat.zero_le _, rfl⟩
      rw [popToHandler_succ _ _ _ run, popToHandler_succ _ _ _ run', plain, plain', same]
      dsimp only
      rw [if_neg (by rw [inner]; nofun), popToHandler_succ _ _ _ run₁, plain₁]
      dsimp only
      refine Tallies.of_none ?_
      split
      · exact lockstep_giveUp popped trace high hk'
      · exact lockstep_popToHandler discreet popped trace high (.none mark) hk'
          fun y hy => absurd hy (Option.not_mem_none y)

end Popping

end Machine

namespace FramesTrim

variable {y : Option Spare} {fs gs : List Frame} {m m' : Mark}

/-- The frames above a loop that was entered above the frame that can be spared have the same
decorators. -/
theorem decoratorsOf_high (h : FramesTrim y fs gs) {count : Nat}
    (deep : ∀ z ∈ y, count + (z.depth + 2) ≤ fs.length) :
    State.decoratorsOf (gs.take count) = State.decoratorsOf (fs.take count) := by
  induction h generalizing count with
  | same => rfl
  | @called z f calls =>
    have := deep z rfl
    have none : count = 0 := by
      simp only [List.length_cons, Spare.depth] at this
      omega
    rw [none]
    rfl
  | @above z f fs gs below high ih =>
    cases count with
    | zero => rfl
    | succ count =>
      have rest : State.decoratorsOf (gs.take count) = State.decoratorsOf (fs.take count) :=
        ih fun z hz => by
          have := deep z hz
          rw [List.length_cons] at this
          omega
      rw [List.take_succ_cons, List.take_succ_cons, State.decoratorsOf, State.decoratorsOf, rest]
      rfl

/-- The frame that can be spared has no decorator, and neither has the one that it called. -/
theorem decoratorsOf_low {z : Spare} (h : FramesTrim (some z) fs gs) {count : Nat}
    (low : fs.length ≤ count + 1 + z.depth) :
    State.decoratorsOf (gs.take count) = State.decoratorsOf (fs.take (count + 1)) := by
  generalize hy : some z = y at h
  induction h generalizing count with
  | same => cases hy
  | @called z f calls =>
    cases hy
    obtain ⟨count, rfl⟩ : ∃ m, count = m + 1 := by
      simp only [List.length_cons, Spare.depth] at low
      exact ⟨count - 1, by omega⟩
    have plain := Handlers.eq_empty calls.bare
    have plain' : (z.taken f).handlers = {} := plain
    rw [List.take_succ_cons, List.take_succ_cons, List.take_succ_cons, State.decoratorsOf,
      State.decoratorsOf, State.decoratorsOf, plain, plain', Handlers.eq_empty z.bare,
      calls.inner, z.entryPoint_taken f]
    rfl
  | @above z' f fs gs below high ih =>
    cases hy
    obtain ⟨count, rfl⟩ : ∃ m, count = m + 1 := by
      have := (below.length.2 z rfl).1
      rw [List.length_cons] at low
      exact ⟨count - 1, by omega⟩
    have rest : State.decoratorsOf (gs.take count) = State.decoratorsOf (fs.take (count + 1)) :=
      ih (by rw [List.length_cons] at low; omega) rfl
    rw [List.take_succ_cons, List.take_succ_cons, State.decoratorsOf, State.decoratorsOf, rest]
    rfl

/-- The innermost script frame is at the same address. -/
theorem innermost (h : FramesTrim y fs gs) (ip : Nat) :
    ((gs.zip (State.frameAddresses ip gs)).find? fun p => !p.1.isNative).map
        (fun p => (p.1.closure?, p.2)) =
      ((fs.zip (State.frameAddresses ip fs)).find? fun p => !p.1.isNative).map
        fun p => (p.1.closure?, p.2) := by
  induction h generalizing ip with
  | same => rfl
  | @called z f calls =>
    have script := calls.script
    have script' : (z.taken f).isNative = false := script
    simp only [State.frameAddresses, List.zip_cons_cons]
    rw [List.find?_cons_of_pos (by simpa using script'),
      List.find?_cons_of_pos (by simpa using script)]
    rfl
  | @above z f fs gs below high ih =>
    have same : (f.lowered z.slots).isNative = f.isNative := rfl
    simp only [State.frameAddresses, List.zip_cons_cons]
    cases native : f.isNative with
    | true =>
      rw [List.find?_cons_of_neg (by simpa using same.trans native),
        List.find?_cons_of_neg (by simpa using native)]
      exact ih _
    | false =>
      rw [List.find?_cons_of_pos (by simpa using same.trans native),
        List.find?_cons_of_pos (by simpa using native)]
      rfl

end FramesTrim

theorem State.framesAbove_eq (s : State ν) (mark : Mark) : s.framesAbove mark =
    s.processor.frames.toList.reverse.take (s.callDepth - mark.frames) := by
  rw [framesAbove, List.reverse_drop]
  rfl

namespace State.Trims

/-- The same decorators are asked. -/
theorem decoratorsOf (h : s.Trims x t) {mark mark' : Mark}
    (marks : MarkTrims (Spare.on x s.current) mark mark') :
    State.decoratorsOf (t.framesAbove mark') = State.decoratorsOf (s.framesAbove mark) := by
  have length := h.frames.length
  simp only [List.length_reverse, Array.length_toList] at length
  rw [State.framesAbove_eq, State.framesAbove_eq, State.callDepth, State.callDepth]
  obtain high | ⟨z, own, rfl, low⟩ := marks.cases
  · cases hy : Spare.on x s.current with
    | none =>
      rw [hy] at high
      have frames : mark'.frames = mark.frames := high.frames
      rw [length.1 hy, frames]
      exact h.frames.decoratorsOf_high fun z hz => absurd (hy ▸ hz) (Option.not_mem_none z)
    | some z =>
      rw [hy] at high
      have deep := high.deep z rfl
      have frames : mark'.frames = mark.frames - 1 := high.frames
      obtain ⟨deep', fewer⟩ := length.2 z hy
      rw [show t.processor.frames.size - mark'.frames = s.processor.frames.size - mark.frames by
        omega]
      refine h.frames.decoratorsOf_high fun w hw => ?_
      obtain rfl := Option.some.inj (hy.symm.trans hw)
      rw [List.length_reverse, Array.length_toList]
      omega
  · have fewer := (length.2 z own).2
    have deep := (length.2 z own).1
    have frames := h.frames
    rw [own] at frames
    rw [show s.processor.frames.size - mark'.frames =
      t.processor.frames.size - mark'.frames + 1 by omega]
    refine frames.decoratorsOf_low ?_
    rw [List.length_reverse, Array.length_toList]
    omega

/-- An error is attributed to the same instruction. -/
theorem decorate (h : s.Trims x t) (e : ScriptError) (trace : List TraceEntry) (ip : Nat) :
    t.decorate { e with trace } ip =
      { s.decorate e ip with trace := (t.decorate { e with trace } ip).trace } := by
  have innermost := h.frames.innermost ip
  have place : ∀ (f g : Frame) (at_ : Nat), g.closure? = f.closure? →
      t.locationOf g at_ = s.locationOf f at_ := fun f g at_ same => by
    unfold State.locationOf State.sourceName
    rw [same, h.options, h.world]
    simp only [h.closure]
  unfold State.decorate State.frameTrail
  dsimp only
  generalize t.processor.frames.toList.reverse = gs at innermost
  generalize s.processor.frames.toList.reverse = fs at innermost
  generalize hu : (gs.zip (State.frameAddresses ip gs)).find? (fun p => !p.1.isNative) = u
    at innermost
  generalize hv : (fs.zip (State.frameAddresses ip fs)).find? (fun p => !p.1.isNative) = v
    at innermost
  cases u <;> cases v <;> simp only [Option.map_some, Option.map_none, Option.some.injEq,
    Prod.mk.injEq, reduceCtorEq] at innermost ⊢
  obtain ⟨same, at_⟩ := innermost
  rw [place _ _ _ same, at_]
  rfl

end State.Trims

/-- What is known of a loop when its frames are dropped: where it was entered below a frame that can
be spared, its frames are those above, and all other loops were entered below as well. -/
structure Undercut (x : Option Spare) (s : State ν) (mark : Mark) (k : Kont ν .step) : Prop where
  rises : ∀ z ∈ Spare.on x s.current, mark.frames ≤ z.depth →
    Rises mark.frames (s.framesOf s.current)
  low : ∀ z ∈ Spare.on x s.current, mark.frames ≤ z.depth → k.Low z.thread z.depth s.current

/-- Only cells of the frames have changed. -/
theorem Undercut.rigid {s' : State ν} {mark : Mark} {k : Kont ν .step} (cut : Undercut x s mark k)
    (rigid : Rigid s s') : Undercut x s' mark k := by
  obtain ⟨rises, low⟩ := cut
  refine ⟨?_, ?_⟩ <;> rw [rigid.current]
  · rw [rigid.frames]
    exact rises
  · exact low

/-- The loops that were entered below the frame are the same without it. -/
theorem Undercut.exchange {z : Spare} {mark : Mark} {k k' : Kont ν .step}
    (cut : Undercut (some z) s mark k) (own : s.current = z.thread) (low : mark.frames ≤ z.depth)
    (hk : Kont.Trims (some z) z.thread k k') : Kont.Trims none z.thread k k' := by
  have low := cut.low z (by rw [own, Spare.on_self]; rfl) low
  rw [own] at low
  exact hk.exchange (fun y hy => Option.some.inj hy ▸ low)
    fun y hy => absurd hy (Option.not_mem_none y)

namespace Machine

variable {library : Library ν} {mark mark' : Mark} {k k' : Kont ν .step}

/-- There are as many frames to pop above the frame that can be spared, or one more with it. -/
theorem count_frames (h : Spared x c n s t) (marks : MarkTrims (Spare.on x c) mark mark') :
    (MarkHigh (Spare.on x c) mark mark' ∧
      t.callDepth - mark'.frames = s.callDepth - mark.frames ∧
      ∀ z ∈ Spare.on x c,
        s.callDepth - mark.frames + (z.depth + 2) ≤ s.processor.frames.size) ∨
    ∃ z, x = some z ∧ c = z.thread ∧ mark' = mark ∧ mark.frames ≤ z.depth ∧
      z.depth + 2 ≤ s.callDepth ∧ s.callDepth = t.callDepth - mark.frames + 1 + mark.frames := by
  obtain rfl := h.current
  have length := h.trims.frames.length
  simp only [List.length_reverse, Array.length_toList] at length
  unfold State.callDepth
  obtain high | ⟨z, own, rfl, low⟩ := marks.cases
  · refine .inl ⟨high, ?_, fun z hz => ?_⟩
    · cases hy : Spare.on x s.current with
      | none =>
        rw [hy] at high
        have frames : mark'.frames = mark.frames := high.frames
        rw [length.1 hy, frames]
      | some z =>
        rw [hy] at high
        have deep := high.deep z rfl
        have frames : mark'.frames = mark.frames - 1 := high.frames
        obtain ⟨deep', fewer⟩ := length.2 z hy
        omega
    · have deep := high.deep z hz
      have deep' := (length.2 z hz).1
      omega
  · obtain ⟨deep, fewer⟩ := length.2 z own
    obtain ⟨rfl, thread⟩ := Spare.mem_on own
    exact .inr ⟨z, rfl, thread, rfl, low, deep, by omega⟩

/-- All that is above a mark is dropped. -/
theorem lockstep_abandon (h : Spared x c n s t) (marks : MarkTrims (Spare.on x c) mark mark')
    (cut : Undercut x s mark k) (hk : Kont.Trims x c k k') (e : Fault) :
    Lockstep x s t (do abandon mark; return .step (.error e) k)
      (do abandon mark'; return .step (.error e) k') := by
  change Lockstep x (dropFrames (s.callDepth - mark.frames) s).2
    (dropFrames (t.callDepth - mark'.frames) t).2
    (do modify fun s => s.modifyStack (·.truncate mark.stack); return .step (.error e) k)
    (do modify fun s => s.modifyStack (·.truncate mark'.stack); return .step (.error e) k')
  obtain ⟨high, count, deep⟩ | ⟨z, rfl, rfl, rfl, low, deep, count⟩ := count_frames h marks
  · rw [count]
    have truncated := (dropFrames_high h deep).truncate high.high
    have stack : mark'.stack = mark.stack - (Spare.part x c).gap := high.stack
    rw [← stack] at truncated
    exact lockstep_modify (lockstep_error truncated rfl hk)
  · have count' : s.callDepth - mark'.frames = t.callDepth - mark'.frames + 1 := by omega
    rw [count']
    have dropped : Spared none z.thread 0
        (dropFrames (t.callDepth - mark'.frames + 1) s).2
        (dropFrames (t.callDepth - mark'.frames) t).2 :=
      dropFrames_low h deep (Nat.le_trans (Nat.le_of_eq count) (Nat.add_le_add_left low _))
    have truncated := dropped.truncate (m := mark'.stack) (Nat.zero_le _)
    exact .of_none (lockstep_modify (lockstep_error truncated rfl (cut.exchange h.current low hk)))

section Unwinding

variable (discreet : library.Discreet)

include discreet

/-- The frames of a loop are popped. -/
theorem lockstep_popLoop (h : Spared x c n s t)
    (marks : MarkTrims (Spare.on x c) mark mark') (cut : Undercut x s mark k)
    (hk : Kont.Trims x c k k') (e : ScriptError) (trace : List TraceEntry) :
    Lockstep x s t (popToHandler library e mark k (s.callDepth - mark.frames))
      (popToHandler library { e with trace } mark' k' (t.callDepth - mark'.frames)) := by
  obtain ⟨high, count, deep⟩ | ⟨z, rfl, rfl, rfl, low, deep, count⟩ := count_frames h marks
  · rw [count]
    exact lockstep_popToHandler discreet h trace high marks hk deep
  · have count' : s.callDepth - mark'.frames = t.callDepth - mark'.frames + 1 := by omega
    have rises := cut.rises z (by rw [h.current, Spare.on_self]; rfl) low
    rw [count']
    exact lockstep_popToHandler_low discreet h trace low (rises_outline.1 rises) hk
      (cut.exchange h.current low hk) count

/-- Decorators that are left are called, and then frames are popped. -/
theorem lockstep_runDecorators (h : Spared x c n s t)
    (marks : MarkTrims (Spare.on x c) mark mark') (cut : Undercut x s mark k)
    (hk : Kont.Trims x c k k') (e : ScriptError) (trace : List TraceEntry) (caught : Bool)
    (decorators : List Value) :
    Lockstep x s t (runDecorators library e caught mark k decorators)
      (runDecorators library { e with trace } caught mark' k' decorators) := by
  cases decorators with
  | nil => exact lockstep_get (lockstep_popLoop discreet h marks cut hk { e with settled := caught } trace)
  | cons decorator others =>
    exact lockstep_callNested discreet h decorator _ (.decorator trace marks hk)

/-- **An error** is attributed to the same instruction, and the same frames are popped. -/
theorem lockstep_unwind {e e' : Fault} (h : Spared x c n s t) (same : e.untraced = e'.untraced)
    (ip : Nat) (marks : MarkTrims (Spare.on x c) mark mark') (cut : Undercut x s mark k)
    (hk : Kont.Trims x c k k') :
    Lockstep x s t (unwind library e ip mark k) (unwind library e' ip mark' k') := by
  cases e with
  | script e =>
    obtain ⟨trace, rfl⟩ := Fault.untraced_script same
    have marks' := marks
    rw [← h.current] at marks'
    have decorators := h.trims.decoratorsOf marks'
    have go : ∀ (e : ScriptError) (trace : List TraceEntry),
        Lockstep x s t
          (if e.settled then popToHandler library e mark k (s.callDepth - mark.frames) else
            runDecorators library e (State.decoratorsOf (s.framesAbove mark)).2 mark k
              (State.decoratorsOf (s.framesAbove mark)).1)
          (if e.settled then
            popToHandler library { e with trace } mark' k' (t.callDepth - mark'.frames) else
            runDecorators library { e with trace } (State.decoratorsOf (t.framesAbove mark')).2
              mark' k' (State.decoratorsOf (t.framesAbove mark')).1) := fun e trace => by
      rw [decorators]
      split
      · exact lockstep_popLoop discreet h marks cut hk e trace
      · exact lockstep_runDecorators discreet h marks cut hk e trace _ _
    refine lockstep_get ?_
    have decorated : ({ e with trace } : ScriptError).isDecorated = e.isDecorated := rfl
    rw [decorated]
    cases e.isDecorated with
    | true => exact go e trace
    | false =>
      have same := h.trims.decorate e trace ip
      have next := go (s.decorate e ip) (t.decorate { e with trace } ip).trace
      rw [← same] at next
      have settled : (t.decorate { e with trace } ip).settled = (s.decorate e ip).settled := by
        rw [same]
      rw [← settled] at next
      exact next
  | _ =>
    obtain rfl := Fault.untraced_other (fun e other => by cases other) same
    exact lockstep_abandon h marks cut hk _

end Unwinding

end Machine

end ScriptMachine
