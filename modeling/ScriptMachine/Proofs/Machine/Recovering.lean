import ScriptMachine.Proofs.Machine.Upholding

/-!
# Unwinding and switching uphold variables

Frames that are dropped close their cells, and those who wait cut the stack no further than to what
is pinned. A switch between coroutines changes no stack.

* `popToHandler_upholds`, `unwind_upholds`: an error, on its way to a handler or out of a loop.
* `resume_upholds`, `endResume_upholds`: into a coroutine and back.
-/

namespace ScriptMachine

variable {ν α β : Type} {L : Locals} {ws ws' : List Write} {s s' : State ν} {n m b : Nat}

/-- Of the frames above the `n` lowest, only the lowest may have been entered from outside. -/
def EntryAt (n : Nat) (fs : List Frame) : Prop :=
  ∀ up f rest, fs = up ++ f :: rest → n ≤ rest.length → f.flags.entryPoint = true →
    rest.length = n

theorem EntryAt.tail {f : Frame} {rest : List Frame} (h : EntryAt n (f :: rest)) :
    EntryAt n rest :=
  fun up g below calls => h (f :: up) g below (by rw [calls]; rfl)

/-- It depends on the outlines of frames only. -/
theorem EntryAt.congr {fs gs : List Frame} (h : EntryAt n fs)
    (same : gs.map Frame.outline = fs.map Frame.outline) : EntryAt n gs := by
  intro up f rest calls high entered
  rw [calls, List.map_append, List.map_cons] at same
  obtain ⟨up', below, rfl, -, tail⟩ := List.map_eq_append_iff.1 same.symm
  obtain ⟨f', rest', rfl, outline, others⟩ := List.map_eq_cons_iff.1 tail
  have length : rest'.length = rest.length := by simpa using congrArg List.length others
  rw [← length] at high ⊢
  exact h up' f' rest' rfl high ((congrArg (·.flags.entryPoint) outline).trans entered)

theorem State.framesOf_eq (s : State ν) (c : ThreadId) :
    s.framesOf c = (s.callsOf c).map Frame.outline := rfl

theorem State.length_framesOf (s : State ν) (c : ThreadId) :
    (s.framesOf c).length = (s.callsOf c).length := by
  rw [s.framesOf_eq, List.length_map]

namespace Machine

open Exec

variable {library : Library ν} {k : Kont ν .step} {l : Kont ν .value}

/-- A frame with nothing that is followed is dropped. -/
theorem dropFrame_carries {f : Frame} {rest : List Frame} (tidy : s.Tidy L) (here : s.HasCurrent)
    (calls : s.callsOf s.current = f :: rest)
    (spared : ∀ d j, L s.current d j → d ≤ rest.length) :
    Carries L [] rest.length s (dropFrame s).2 ∧
      (dropFrame s).2.callsOf (dropFrame s).2.current = rest := by
  obtain ⟨g, t, run, carries, own, -⟩ := popFrame_carries tidy here calls fun j hj =>
    absurd (spared _ j hj) (Nat.not_succ_le_self _)
  simp only [dropFrame, run]
  exact ⟨carries, carries.current ▸ own⟩

/-- What is dropped is the frame on top. -/
theorem dropFrame_top {f : Frame} {rest : List Frame} (calls : s.callsOf s.current = f :: rest) :
    ∃ g t, dropFrame s = (some g, t) ∧ g.outline = f.outline ∧ t.current = s.current ∧
      (t.callsOf s.current).length = rest.length := by
  obtain ⟨empty, -⟩ | ⟨g, t, below, run, frames, shifted⟩ := dropFrame_cases s
  · rw [s.framesOf_eq, calls] at empty
    cases empty
  · rw [s.framesOf_eq, calls] at frames
    obtain ⟨same, rfl⟩ := List.cons.inj frames
    refine ⟨g, t, run, same.symm, shifted.current, ?_⟩
    rw [← t.length_framesOf, ← shifted.current, shifted.frames]
    exact List.length_map _

/-- Frames are popped, and none is pushed. -/
theorem depth_popToHandler (e : ScriptError) (mark : Mark) (k : Kont ν .step) (count : Nat) :
    ((popToHandler library e mark k count s).2.callsOf s.current).length ≤
      (s.callsOf s.current).length := by
  have unwinds : Unwinds library e mark k count s _ := popToHandler_unwinds e mark k count
  rw [← State.length_framesOf, ← State.length_framesOf]
  generalize popToHandler library e mark k count s = x at unwinds
  cases unwinds with
  | caught up frames _ _ _ shifted =>
    rw [frames, ← shifted.current, shifted.frames]
    simp only [List.length_append, List.length_cons, Outline.cut]
    omega
  | lost up frames _ _ _ shifted =>
    rw [frames, ← shifted.current, shifted.frames]
    simp only [List.length_append, Outline.cut]
    omega

/-- The error leaves the loop, all of whose frames are gone. -/
theorem giveUp_upholds {mark : Mark} {ip : Nat} (ready : (Kont.loop mark ip k).Ready L s n)
    (deep : (s.callsOf s.current).length = mark.frames) (e : ScriptError) :
    Upholds L [] s (popToHandler.giveUp e mark k s) := by
  have pinned := ready.pinned_of_loop
  rw [bottom_self deep] at pinned
  have carries := carries_truncate ready.tidy ready.here pinned
  exact .after carries (.step ((Kont.Ready.of_loop ready).high.carry carries) _)

/-- **An error pops frames** until one catches it, or all frames of the loop are gone. -/
theorem popToHandler_upholds {mark : Mark} {ip : Nat} {count : Nat}
    (ready : (Kont.loop mark ip k).Ready L s mark.frames)
    (deep : (s.callsOf s.current).length = mark.frames + count)
    (entry : EntryAt mark.frames (s.callsOf s.current)) (e : ScriptError)
    (spared : ∀ d j, L s.current d j →
      d ≤ ((popToHandler library e mark k count s).2.callsOf s.current).length) :
    Upholds L [] s (popToHandler library e mark k count s) := by
  induction count generalizing s with
  | zero => exact giveUp_upholds ready deep e
  | succ count ih =>
    obtain ⟨f, rest, calls⟩ : ∃ f rest, s.callsOf s.current = f :: rest :=
      List.exists_cons_of_length_pos (by omega)
    rw [calls] at deep entry
    have below : rest.length = mark.frames + count := Nat.succ.inj deep
    obtain ⟨g, t, run, outline, current, length⟩ := dropFrame_top calls
    rw [popToHandler_succ library e count run] at spared ⊢
    -- each way on leaves at most the frames below
    have dropped : (∀ d j, L s.current d j → d ≤ (t.callsOf s.current).length) →
        Carries L [] mark.frames s t ∧ t.callsOf t.current = rest := fun spared => by
      have carries := dropFrame_carries ready.tidy ready.here calls fun d j hj =>
        length ▸ spared d j hj
      rw [run] at carries
      exact ⟨carries.1.mono (by omega), carries.2⟩
    have flags : g.outline.flags = f.outline.flags := congrArg Frame.flags outline
    cases handles : g.handlers.errorHandler with
    | some handler =>
      rw [handles] at spared
      obtain ⟨carries, -⟩ := dropped spared
      exact .after carries (invoke_upholds (((ready.carry carries).relabel _).finish _) ..)
    | none =>
      rw [handles] at spared
      dsimp only at spared ⊢
      split at spared
      · rename_i entered
        have same := (Shallow.of_stack (s := t) (·.truncate mark.stack)).calls s.current
        obtain ⟨carries, own⟩ := dropped fun d j hj => same ▸ spared d j hj
        have last := entry [] f rest rfl (by omega)
          ((congrArg FrameFlags.entryPoint flags).symm.trans entered)
        rw [if_pos entered]
        exact .after carries (giveUp_upholds (ready.carry carries) (by rw [own, last]) e)
      · rename_i inner
        obtain ⟨carries, own⟩ := dropped fun d j hj =>
          Nat.le_trans (spared d j hj) (current ▸ depth_popToHandler e mark k count)
        rw [if_neg inner]
        refine .after carries (ih (ready.carry carries) (by rw [own, below]) ?_ ?_)
        · rw [own]
          exact entry.tail
        · rw [current]
          exact spared

/-- Frames are dropped down to a depth. -/
theorem dropFrames_carries (count : Nat) (tidy : s.Tidy L) (here : s.HasCurrent)
    (deep : (s.callsOf s.current).length = m + count)
    (spared : ∀ d j, L s.current d j → d ≤ m) :
    Carries L [] m s (dropFrames count s).2 ∧
      ((dropFrames count s).2.callsOf s.current).length = m := by
  induction count generalizing s with
  | zero => exact ⟨.refl tidy (Nat.le_of_eq deep.symm), deep⟩
  | succ count ih =>
    obtain ⟨f, rest, calls⟩ : ∃ f rest, s.callsOf s.current = f :: rest :=
      List.exists_cons_of_length_pos (by omega)
    rw [calls] at deep
    have below : rest.length = m + count := Nat.succ.inj deep
    obtain ⟨carries, own⟩ := dropFrame_carries tidy here calls fun d j hj =>
      Nat.le_trans (spared d j hj) (by omega)
    have next : dropFrames (count + 1) s = dropFrames count (dropFrame s).2 := rfl
    rw [next]
    have carries := carries.mono (show m ≤ rest.length by omega)
    obtain ⟨carries', own'⟩ := ih carries.tidy (carries.hasCurrent here) (by rw [own, below])
      fun d j hj => spared d j (carries.current ▸ hj)
    exact ⟨carries.trans carries', carries.current ▸ own'⟩

/-- Everything above a mark is dropped. -/
theorem abandon_carries {mark : Mark} {ip : Nat} (ready : (Kont.loop mark ip k).Ready L s n)
    (spared : ∀ d j, L s.current d j → d ≤ mark.frames) :
    Carries L [] mark.frames s (abandon mark s).2 ∧
      ((abandon mark s).2.callsOf s.current).length = mark.frames := by
  have depth := s.callDepth_eq_calls
  have low := Nat.le_trans ready.clears.1 ready.deep
  obtain ⟨carries, deep⟩ := dropFrames_carries (s.callDepth - mark.frames) ready.tidy ready.here
    (by omega) spared
  have next : (abandon mark s).2 =
    (dropFrames (s.callDepth - mark.frames) s).2.modifyStack (·.truncate mark.stack) := rfl
  rw [next]
  generalize (dropFrames (s.callDepth - mark.frames) s).2 = t at *
  have pinned := (ready.low.carry carries).pinned_of_loop
  rw [bottom_self (by rw [carries.current, deep])] at pinned
  have cut := carries_truncate carries.tidy (carries.hasCurrent ready.here) pinned
  rw [carries.current, deep] at cut
  refine ⟨carries.trans cut, ?_⟩
  rw [(Shallow.of_stack (s := t) (·.truncate mark.stack)).calls, deep]

/-- Everything above the mark is gone after all. -/
theorem depth_abandon {mark : Mark} (low : mark.frames ≤ (s.callsOf s.current).length) :
    ((abandon mark s).2.callsOf s.current).length = mark.frames := by
  obtain ⟨up, rest, frames, length, shifted⟩ := abandon_cut (s := s) mark
  have all := congrArg List.length frames
  rw [List.length_append, s.length_framesOf] at all
  rw [s.length_framesOf] at length
  rw [← State.length_framesOf, ← shifted.current, shifted.frames]
  change rest.length = mark.frames
  omega

theorem runDecorators_upholds {mark : Mark} {ip : Nat} (ready : (Kont.loop mark ip k).Ready L s n)
    (entry : EntryAt mark.frames (s.callsOf s.current)) (e : ScriptError) (caught : Bool)
    (decorators : List Value)
    (spared : ∀ d j, L s.current d j →
      d ≤ ((runDecorators library e caught mark k decorators s).2.callsOf s.current).length) :
    Upholds L [] s (runDecorators library e caught mark k decorators s) := by
  have depth := s.callDepth_eq_calls
  have low := Nat.le_trans ready.clears.1 ready.deep
  cases decorators with
  | nil => exact popToHandler_upholds ready.low (by omega) entry _ spared
  | cons decorator others =>
    have waits : (Kont.decorator e others caught mark k).Ready L s n := { ready with }
    exact callNested_upholds waits ..

/-- **A fault** in the frames of a loop. -/
theorem unwind_upholds {mark : Mark} {ip : Nat} (ready : (Kont.loop mark ip k).Ready L s n)
    (entry : EntryAt mark.frames (s.callsOf s.current)) (fault : Fault)
    (spared : ∀ d j, L s.current d j →
      d ≤ ((unwind library fault ip mark k s).2.callsOf s.current).length) :
    Upholds L [] s (unwind library fault ip mark k s) := by
  have depth := s.callDepth_eq_calls
  have low := Nat.le_trans ready.clears.1 ready.deep
  have uncaught : ∀ {fault : Fault}, (∀ d j, L s.current d j → d ≤ ((abandon mark s).2.callsOf
      s.current).length) → Upholds L [] s (.step (.error fault) k, (abandon mark s).2) := by
    intro fault spared
    obtain ⟨carries, -⟩ := abandon_carries ready fun d j hj =>
      Nat.le_trans (spared d j hj) (Nat.le_of_eq (depth_abandon low))
    exact .after carries (.step (ready.of_loop.carry carries) _)
  cases fault with
  | script e =>
    have run : unwind library (.script e) ip mark k s = (if (attributed s e ip).settled then
      popToHandler library (attributed s e ip) mark k (s.callDepth - mark.frames)
      else runDecorators library (attributed s e ip) (State.decoratorsOf (s.framesAbove mark)).2
        mark k (State.decoratorsOf (s.framesAbove mark)).1 : Move ν (Control ν)) s := rfl
    rw [run] at spared ⊢
    split at spared
    · rename_i settled
      rw [if_pos settled]
      exact popToHandler_upholds ready.low (by omega) entry _ spared
    · rename_i unsettled
      rw [if_neg unsettled]
      exact runDecorators_upholds ready entry _ _ _ spared
  | _ => exact uncaught spared

/-- No stack and no frame changes, but another thread runs. -/
theorem upholds_of_level {control : Control ν} (level : Level s s') (tidy : s.Tidy L)
    (clears : control.Clears L s') : Upholds L [] s (control, s') :=
  ⟨level.faithful, level.tidy tidy, fun c _ j _ => level.remains c j, clears⟩

theorem resumeFrom_upholds (ready : k.Ready L s 0)
    (blank : ∀ r mark, s.processor.pending = some (r, mark) → mark = {}) (function : Value)
    (state : CoroutineState) (arguments : List Value) :
    Upholds L [] s (resumeFrom library function state arguments k s) := by
  have level := level_modifyProcessor s (fun p => { p with sinceResume := 0 }) fun _ => ⟨rfl, rfl⟩
  have ready := ready.level level rfl
  refine .level level ?_
  have pending : (s.modifyProcessor fun p => { p with sinceResume := 0 }).processor.pending =
      s.processor.pending := State.view_modifyProcessorOf s _ _ _ Processor.pending fun _ => rfl
  rw [← pending] at blank
  cases state with
  | notStarted => exact executeCall_upholds ready ..
  | suspended => exact resumePending_upholds ready blank (.ok (Value.ofList arguments)) false
  | forceSuspended => exact resumePending_upholds ready blank (.ok .void) false
  | running | dead => exact .step ready _

def switched (s : State ν) (c : ThreadId) : State ν :=
  { s.setCoroutineState c .running with active := c :: s.active, current := c }

/-- A coroutine is none of the threads that run or wait. It goes on in a loop of its own. -/
structure Resumable (s : State ν) (l : Kont ν .value) (c : ThreadId) : Prop where
  inRange : c.index < s.processors.size
  other : c ≠ s.current
  absent : c ∉ l.threads
  blank : ∀ r mark, (s.processorOf c).pending = some (r, mark) → mark = {}

/-- Whatever is neither running nor dead can be resumed. -/
def Resumables (s : State ν) (l : Kont ν .value) : Prop :=
  ∀ c, s.coroutineState c ≠ .running → s.coroutineState c ≠ .dead → Resumable s l c

/-- **A coroutine is resumed.** -/
theorem resume_upholds (ready : l.Ready L s n) (resumables : Resumables s l) (mode : ResumeMode)
    (c : ThreadId) (arguments : List Value) :
    Upholds L [] s (resume library mode c arguments l s) := by
  have begun : Resumable s l c → ∀ {t : State ν}, Level s t → t.current = c →
      t.processor.pending = (s.processorOf c).pending → ∀ function state, Upholds L [] s
        (resumeFrom library function state arguments (.resumed mode c s.current l) t) := by
    intro resumable t level current pending function state
    have waits : (Kont.resumed mode c s.current l).Ready L t 0 := {
      tidy := level.tidy ready.tidy
      here := by
        unfold State.HasCurrent
        exact current ▸ Nat.lt_of_lt_of_le resumable.inRange level.size
      absent := by simp [current, Kont.threads, resumable.other, resumable.absent]
      clears := level.clears ready.high.clears
      deep := Nat.zero_le _ }
    exact .level level (resumeFrom_upholds waits (pending ▸ resumable.blank) ..)
  unfold resume
  refine (bind_of_eq (x := get) rfl _).symm ▸ ?_
  dsimp only
  cases refusal : resumeRefusal (s.coroutine c).state arguments with
  | some cause => exact .value ready _
  | none =>
    have resumable := resumables c
      (fun running => by
        rw [show (s.coroutine c).state = .running from running] at refusal
        simp [resumeRefusal] at refusal)
      fun dead => by
        rw [show (s.coroutine c).state = .dead from dead] at refusal
        simp [resumeRefusal] at refusal
    have next : Level s (switched s c) := .of_processors rfl rfl rfl
    cases mode with
    | synchronous =>
      exact begun resumable (t := { switched s c with entries := s.entries + 1 })
        (next.trans (.of_processors rfl rfl rfl)) rfl rfl ..
    | asynchronous =>
      have level := level_modifyProcessor (switched s c) (fun p => { p with asyncMode := true })
        fun _ => ⟨rfl, rfl⟩
      exact begun resumable (next.trans level) rfl
        (State.view_modifyProcessorOf (switched s c) _ _ _ Processor.pending fun _ => rfl) ..

/-- **A resumption ends**, and the thread before it runs again. -/
theorem endResume_upholds {mode : ResumeMode} {c previous : ThreadId}
    (ready : (Kont.resumed mode c previous l).Ready L s n) (outcome : Except Fault Step) :
    Upholds L [] s (endResume mode c previous outcome l s) := by
  have ended : ∀ {t : State ν}, Level s t → Upholds L [] s
      (.value (resumeOutcome outcome).2 l,
        { t.setCoroutineState c (resumeOutcome outcome).1 with
          active := t.active.tail, current := previous }) := fun {t} level => by
    have next := level.trans (.of_processors rfl rfl rfl : Level t
      { t.setCoroutineState c (resumeOutcome outcome).1 with
        active := t.active.tail, current := previous })
    refine upholds_of_level next ready.tidy ?_
    change Kont.Clears L _ l previous _
    rw [next.shallow.calls]
    exact next.clears ready.clears
  cases mode with
  | synchronous => exact ended (.of_processors rfl rfl rfl)
  | asynchronous =>
    exact ended (level_modifyProcessor s (fun p => { p with asyncMode := false })
      fun _ => ⟨rfl, rfl⟩)

end Machine

end ScriptMachine
