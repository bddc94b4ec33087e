import ScriptMachine.Proofs.Machine.Attribution
import ScriptMachine.Proofs.Machine.Decorating
import ScriptMachine.Proofs.Machine.Dropping
import ScriptMachine.Proofs.Machine.Inlining

/-!
# Errors of an inlined handler

An error that nothing catches above the handler's frames leaves the handler's own loop. Where the
handler runs in the loop of an instruction, the frames below are asked next.

* `Ends`: where the two ways part, with the same value or an error of the same cause.
* `popToHandler_base`, `runDecorators_carriesOn`, `unwind_carriesOn`: an error is caught alike, or
  nothing above the handler's frames catches it.
-/

namespace ScriptMachine

variable {ν α : Type} {x : Site ν} {c : ThreadId} {n : Nat} {up : List Frame} {s s' : State ν}
  {v : Veil}

/-- The second error has the cause of the first; and where a script function is among the frames, its
message and its place as well. -/
def ScriptError.Restates (up : List Frame) (e e' : ScriptError) : Prop :=
  e'.cause = e.cause ∧ ((∃ f ∈ up, f.isNative = false) →
    e'.decoration = e.decoration ∧ e'.address = e.address)

/-- Where the two ways part: the handler has its result, which is the instruction's and the result
of the handler's own loop; or it has failed, and the loop of the instruction goes on to ask the
frames below. -/
inductive Ends (library : Library ν) (x : Site ν) (a b : Control ν × State ν) : Prop
  | value {v : Veil} {s : State ν} {w : Value} : x.Shows v 0 [] s → s.current = x.thread →
      a = (.execute x.address x.mark x.waits, s.modifyStack (·.push w.scalar)) →
      b = (.step (.ok (.return w)) (.nested x.outer), s.veiled v) → Ends library x a b
  /-- None of the handler's frames catches the error, and their decorators have been called. -/
  | raised {e e' : ScriptError} {up : List Frame} {s t : State ν} : ScriptError.Restates up e e' →
      t.world = s.world → s.current = x.thread → s.framesOf x.thread = up ++ x.low →
      (∀ f ∈ up, f.handlers.errorHandler = none ∧ f.flags.entryPoint = false) →
      a = Machine.runDecorators library e (State.decoratorsOf x.callers).2 x.mark x.waits
        (State.decoratorsOf x.callers).1 s →
      b = (.step (.error (.script e')) (.nested x.outer), t) → Ends library x a b
  /-- None of the handler's frames catches an error whose decorators have been called before. -/
  | settled {e : ScriptError} {trace : List TraceEntry} {s t : State ν} : t.world = s.world →
      s.current = x.thread → s.framesOf x.thread = x.low →
      a = Machine.popToHandler library e x.mark x.waits (x.depth - x.mark.frames) s →
      b = (.step (.error (.script { e with trace })) (.nested x.outer), t) → Ends library x a b
  | failed {fault : Fault} {s t : State ν} : fault.isCatchable = false → t.world = s.world →
      a = (.step (.error fault) x.waits, s) →
      b = (.step (.error fault) (.nested x.outer), t) → Ends library x a b

/-- The two ways go on alike, or part. -/
def CarriesOn (library : Library ν) (x : Site ν) (a b : Control ν × State ν) : Prop :=
  Tandem x a b ∨ Ends library x a b

/-- The frames of a loop, of which the lowest was entered from outside. -/
inductive Rolled : List Frame → Prop
  | nil : Rolled []
  | cons {f : Frame} {fs : List Frame} : (f.flags.entryPoint = true ↔ fs = []) → Rolled fs →
      Rolled (f :: fs)

theorem Rolled.split {f : Frame} {fs : List Frame} (rolled : Rolled (f :: fs)) :
    ∃ js e, f :: fs = js ++ [e] ∧ (∀ j ∈ js, j.flags.entryPoint = false) ∧
      e.flags.entryPoint = true := by
  induction fs generalizing f with
  | nil =>
    cases rolled with
    | cons entry _ => exact ⟨[], f, rfl, fun _ => nofun, entry.2 rfl⟩
  | cons g fs ih =>
    cases rolled with
    | cons entry rolled =>
      obtain ⟨js, e, frames, inner, last⟩ := ih rolled
      refine ⟨f :: js, e, congrArg (f :: ·) frames, fun j member => ?_, last⟩
      obtain rfl | member := List.mem_cons.1 member
      · exact Bool.eq_false_of_not_eq_true fun first => nomatch entry.1 first
      · exact inner j member

theorem Rolled.of_split {js : List Frame} {e : Frame}
    (inner : ∀ j ∈ js, j.flags.entryPoint = false) (entry : e.flags.entryPoint = true) :
    Rolled (js ++ [e]) := by
  induction js with
  | nil => exact .cons ⟨fun _ => rfl, fun _ => entry⟩ .nil
  | cons j js ih =>
    refine .cons ⟨fun first => ?_, fun none => ?_⟩
      (ih fun i member => inner i (List.mem_cons_of_mem _ member))
    · cases (inner j (List.mem_cons_self ..)).symm.trans first
    · exact absurd none (by simp)

/-- A loop of the handler's thread, with the frames above those below the handler. -/
inductive Kont.Unrolls (x : Site ν) (c : ThreadId) (n : Nat) (up : List Frame) :
    Mark → Kont ν .step → Mark → Kont ν .step → Prop
  | within {m : Nat} {fs ws : List Frame} {mark : Mark} {k k' : Kont ν .value} : n = m + 1 →
      up = fs ++ ws → Rolled fs → mark.frames = ws.length + x.depth → k.Joins x c m ws k' →
      Unrolls x c n up mark (.nested k) mark (.nested k')
  | base {mark mark' : Mark} {k k' : Kont ν .step} : n = 0 → mark = x.mark → mark' = x.inner →
      k = x.waits → k' = .nested x.outer → (∀ j ∈ up, j.flags.entryPoint = false) →
      (∀ us b, up = us ++ [b] → x.Takes b) → Unrolls x c n up mark k mark' k'

namespace Kont.Joins

variable {mark mark' : Mark} {ip ip' : Nat} {k k' : Kont ν .step} {vs : List Frame}

/-- The frames of a loop, with that of the call or without it. -/
theorem unrolls (h : (Kont.loop mark ip k).Joins x c n vs (.loop mark' ip' k'))
    (own : c = x.thread) (frames : vs = up ∨ ∃ f, vs = f :: up) :
    Unrolls x c n up mark k mark' k' := by
  cases h with
  | away other => exact absurd own other
  | @within _ _ m _ js ws e _ _ k k' _ count split inner entry depth joins =>
    have rolled := Rolled.of_split inner entry
    obtain rfl | ⟨f, rfl⟩ := frames
    · exact .within count (split.trans (List.append_cons ..)) rolled depth joins
    · cases js with
      | nil =>
        obtain ⟨rfl, rfl⟩ := List.cons.inj split
        exact .within count rfl .nil depth joins
      | cons j js =>
        obtain ⟨rfl, rfl⟩ := List.cons.inj split
        cases rolled with
        | cons _ rolled => exact .within count (List.append_cons ..) rolled depth joins
  | @base _ _ _ us b _ _ _ _ _ _ _ zero hm hm' hk hk' split inner takes same =>
    subst split
    have last : ∀ ts b' us', us ++ [b] = ts ++ us' ++ [b'] → x.Takes b' := fun ts b' us' same => by
      obtain ⟨-, rfl⟩ := List.append_inj' same rfl |>.imp_right List.cons.inj |>.imp_right And.left
      exact takes
    obtain frames | ⟨f, frames⟩ := frames
    · refine .base zero hm hm' hk hk' (frames ▸ inner) fun us' b' same => ?_
      exact last [] b' us' (frames.trans same)
    · refine .base zero hm hm' hk hk' (fun j member => inner j ?_) fun us' b' same => ?_
      · rw [frames]
        exact List.mem_cons_of_mem _ member
      · exact last [f] b' us' (frames.trans (congrArg (f :: ·) same))

end Kont.Joins

namespace Machine

variable {library : Library ν}

theorem dropFrame_veiled (s : State ν) (v : Veil) :
    (dropFrame s = (none, s) ∧ dropFrame (s.veiled v) = (none, s.veiled v)) ∨
    ∃ f s', dropFrame s = (some f, s') ∧
      dropFrame (s.veiled v) = (some (s'.dressed v f), s'.veiled v) := by
  obtain ⟨run, run'⟩ | ⟨f, s', run, run'⟩ := Exec.popFrame_veiled s v
  · exact .inl ⟨by simp only [dropFrame, run], by simp only [dropFrame, run']⟩
  · exact .inr ⟨f, s', by simp only [dropFrame, run], by simp only [dropFrame, run']⟩

structure Popped (x : Site ν) (v : Veil) (n : Nat) (up : List Frame) (s : State ν) (f : Frame)
    (s' : State ν) : Prop where
  run : dropFrame s = (some f, s')
  veiled : dropFrame (s.veiled v) = (some (s'.dressed v f), s'.veiled v)
  shows : x.Shows v n up s'
  current : s'.current = s.current
  world : s'.world = s.world
  here : s'.HasCurrent

/-- A frame of the handler's thread is popped. -/
theorem popped_own (shows : x.Shows v n up s) (own : s.current = x.thread) {f : Frame}
    {us : List Frame} (frames : up = f :: us) : ∃ g s', g.outline = f ∧ Popped x v n us s g s' := by
  have stands : s.framesOf s.current = f :: (us ++ x.low) := by
    rw [own, shows.frames, frames]
    rfl
  obtain ⟨empty, -⟩ | ⟨g, s', rest, run, split, shifted, world⟩ := Exec.popFrame_cases s
  · exact absurd (stands.symm.trans empty) (List.cons_ne_nil _ _)
  · obtain ⟨same, rfl⟩ := List.cons.inj (split.symm.trans stands)
    have dropped : dropFrame s = (some g, s') := by simp only [dropFrame, run]
    obtain ⟨none, -⟩ | ⟨g', t, run', veiled⟩ := dropFrame_veiled s v
    · cases dropped.symm.trans none
    · cases dropped.symm.trans run'
      have nested := shows.nested
      rw [← own] at nested
      have here : s.HasCurrent := by
        unfold State.HasCurrent
        rw [own, ← shows.thread]
        exact shows.inRange
      exact ⟨g, s', same, dropped, veiled, shows.shift shifted (fun _ => ⟨rfl, nested⟩)
        fun other => absurd own other, shifted.current, world, shifted.hasCurrent here⟩

/-- A frame of another thread is popped, or there is none. -/
theorem popped_other (shows : x.Shows v n up s) (other : s.current ≠ x.thread) :
    (dropFrame s = (none, s) ∧ dropFrame (s.veiled v) = (none, s.veiled v)) ∨
      ∃ f s', Popped x v n up s f s' := by
  obtain none | ⟨f, s', run, veiled⟩ := dropFrame_veiled s v
  · exact .inl none
  · obtain ⟨-, run'⟩ | ⟨f', s'', rest, run', frames, shifted, world⟩ := Exec.popFrame_cases s
    · have none : dropFrame s = (none, s) := by simp only [dropFrame, run']
      cases run.symm.trans none
    · have dropped : dropFrame s = (some f', s'') := by simp only [dropFrame, run']
      cases run.symm.trans dropped
      have here : s.HasCurrent := by
        refine Nat.lt_of_not_le fun new => ?_
        rw [s.framesOf_of_le new] at frames
        cases frames
      exact .inr ⟨f, s', run, veiled, shows.shift shifted (fun own => absurd own other)
        fun _ => ⟨rfl, rfl⟩, shifted.current, world, shifted.hasCurrent here⟩

section Handlers

variable (heedless : library.Heedless)

/-- The error leaves a loop of another thread. -/
theorem giveUp_away (shows : x.Shows v n up s) (other : s.current ≠ x.thread) {k k' : Kont ν .step}
    (joins : k.Joins x s.current n up k') (e : ScriptError) (trace : List TraceEntry)
    (mark : Mark) :
    Tandem x (popToHandler.giveUp e mark k s)
      (popToHandler.giveUp { e with trace } mark k' (s.veiled v)) :=
  modify_veiled (s.modifyStack_disguised ..)
    (.mk (shows.rigid (rigid_modifyStack ..)) (.away other (.error rfl) joins))

/-- The error leaves a loop that was entered above the handler. -/
theorem giveUp_within {m : Nat} (shows : x.Shows v n up s) (own : s.current = x.thread)
    (count : n = m + 1) {k k' : Kont ν .value} (joins : k.Joins x s.current m up k')
    (e : ScriptError) (trace : List TraceEntry) (mark : Mark) :
    Tandem x (popToHandler.giveUp e mark (.nested k) s)
      (popToHandler.giveUp { e with trace } mark (.nested k') (s.veiled v)) :=
  modify_veiled (s.modifyStack_disguised ..)
    (.mk (shows.rigid (rigid_modifyStack ..)) (.left own count (.error rfl) joins))

include heedless

/-- Frames of another thread are popped alike. -/
theorem popToHandler_away (shows : x.Shows v n up s) (other : s.current ≠ x.thread)
    {k k' : Kont ν .step} (joins : k.Joins x s.current n up k') (e : ScriptError)
    (trace : List TraceEntry) (mark : Mark) (count : Nat) :
    Tandem x (popToHandler library e mark k count s)
      (popToHandler library { e with trace } mark k' count (s.veiled v)) := by
  induction count generalizing s with
  | zero => exact giveUp_away shows other joins e trace mark
  | succ count ih =>
    obtain ⟨run, run'⟩ | ⟨f, s', popped⟩ := popped_other shows other
    · rw [popToHandler_none _ _ _ _ _ run, popToHandler_none _ _ _ _ _ run']
      exact giveUp_away shows other joins e trace mark
    · have same : s'.dressed v f = f :=
        if_neg fun own => other (popped.current ▸ own.trans shows.thread)
      have run' := popped.veiled
      rw [same] at run'
      rw [popToHandler_succ _ _ _ popped.run, popToHandler_succ _ _ _ run']
      rw [← popped.current] at other joins
      cases f.handlers.errorHandler with
      | some handler =>
        have garbs : x.Garbs s'.current up (disarmed f) (disarmed f) := by
          unfold Site.Garbs
          rw [if_neg fun both => other both.1]
        refine invoke_tandem heedless popped.shows (.finish garbs ?_) ..
        rw [Site.atop_other other]
        exact .away other joins
      | none =>
        dsimp only
        split
        · exact giveUp_away popped.shows other joins e trace mark
        · exact ih popped.shows other joins

/-- Frames above the handler are popped alike. -/
theorem popToHandler_within {m : Nat} {fs ws : List Frame} (shows : x.Shows v n (fs ++ ws) s)
    (own : s.current = x.thread) (count : n = m + 1) (rolled : Rolled fs) {mark : Mark}
    (depth : mark.frames = ws.length + x.depth) {k k' : Kont ν .value}
    (joins : k.Joins x s.current m ws k') (e : ScriptError) (trace : List TraceEntry) :
    Tandem x (popToHandler library e mark (.nested k) fs.length s)
      (popToHandler library { e with trace } mark (.nested k') fs.length (s.veiled v)) := by
  induction rolled generalizing s with
  | nil => exact giveUp_within shows own count joins e trace mark
  | @cons f fs entry rolled ih =>
    obtain ⟨g, s', rfl, popped⟩ := popped_own shows own (List.cons_append ..)
    have garbs := popped.shows.garbs g
    rw [List.length_cons, popToHandler_succ _ _ _ popped.run, popToHandler_succ _ _ _ popped.veiled]
    rw [← popped.current] at own joins
    -- the frame looks other only if it is the handler's, which is no frame of this loop
    have same : s'.dressed v g = g := by
      unfold Site.Garbs at garbs
      split at garbs
      · rename_i bare
        obtain ⟨name, garbs⟩ := garbs
        rw [garbs]
        exact if_pos (entry.2 (List.append_eq_nil_iff.1 bare.2).1)
      · exact garbs
    rw [same] at garbs ⊢
    cases g.handlers.errorHandler with
    | some handler =>
      refine invoke_tandem heedless popped.shows (.finish (Garbs.disarmed garbs) ?_) ..
      rw [Site.atop_own own]
      obtain ⟨js, last, split, inner, first⟩ := (Rolled.cons entry rolled).split
      have loop : (Kont.loop mark (g.returnAddress - 1) (.nested k)).Joins x s'.current n
          (g.outline :: (fs ++ ws)) (.loop mark (g.returnAddress - 1) (.nested k')) := by
        refine .within own count ?_ inner first depth joins
        rw [← List.cons_append, split, List.append_assoc]
        rfl
      have likens : g.outline.Likens (disarmed g) := ⟨rfl, rfl, rfl, rfl⟩
      exact loop.retop_own rfl own likens rfl
    | none =>
      dsimp only
      split
      · rename_i first
        obtain rfl := entry.1 first
        exact giveUp_within popped.shows own count joins e trace mark
      · exact ih popped.shows own joins

/-- **The handler's frames are popped alike**, and if none of them catches the error, it leaves the
handler's own loop. -/
theorem popToHandler_base (shows : x.Shows v n up s) (own : s.current = x.thread) (zero : n = 0)
    (inner : ∀ j ∈ up, j.flags.entryPoint = false)
    (takes : ∀ us b, up = us ++ [b] → x.Takes b) (e : ScriptError) (trace : List TraceEntry) :
    CarriesOn library x
      (popToHandler library e x.mark x.waits (up.length + (x.depth - x.mark.frames)) s)
      (popToHandler library { e with trace } x.inner (.nested x.outer) up.length
        (s.veiled v)) := by
  induction up generalizing s with
  | nil =>
    rw [List.length_nil, Nat.zero_add]
    refine .inr (.settled ?_ own shows.frames rfl rfl)
    rfl
  | cons f us ih =>
    obtain ⟨g, s', rfl, popped⟩ := popped_own shows own rfl
    have garbs := popped.shows.garbs g
    have first : g.flags.entryPoint = false := inner g.outline (List.mem_cons_self ..)
    have inner' : ∀ j ∈ us, j.flags.entryPoint = false := fun j member =>
      inner j (List.mem_cons_of_mem _ member)
    rw [List.length_cons, Nat.succ_add, popToHandler_succ _ _ _ popped.run,
      popToHandler_succ _ _ _ popped.veiled, Garbs.handlers garbs]
    rw [← popped.current] at own
    cases g.handlers.errorHandler with
    | some handler =>
      refine .inl (invoke_tandem heedless popped.shows (.finish (Garbs.disarmed garbs) ?_) ..)
      rw [Site.atop_own own]
      obtain rfl | ⟨ts, b, rfl⟩ := us.eq_nil_or_concat'
      · have last := takes [] g.outline rfl
        refine .base (l := []) own zero rfl rfl rfl rfl rfl ?_
          ⟨last.address, last.scalar, last.keeps⟩
          (.inr rfl)
        rintro j (_ | _)
        · exact first
        · contradiction
      · have same : s'.dressed v g = g := by
          unfold Site.Garbs at garbs
          have some := List.append_ne_nil_of_right_ne_nil ts (List.cons_ne_nil b [])
          rwa [if_neg fun both => some both.2] at garbs
        refine .base (l := disarmed g :: ts) own zero rfl rfl rfl rfl rfl ?_
          (takes (g.outline :: ts) b rfl) (.inl (by rw [same]))
        intro j member
        obtain rfl | member := List.mem_cons.1 member
        · exact first
        · exact inner' j member
    | none =>
      dsimp only
      rw [if_neg (Bool.eq_false_iff.1 first)]
      by_cases bare : us = []
      · subst bare
        have entered : (s'.dressed v g).flags.entryPoint = true := by
          unfold Site.Garbs at garbs
          rw [if_pos ⟨own, rfl⟩] at garbs
          obtain ⟨name, garbs⟩ := garbs
          rw [garbs, Frame.asEntry, if_neg (Bool.eq_false_iff.1 first)]
          rfl
        rw [if_pos entered, List.length_nil, Nat.zero_add]
        refine .inr (.settled ?_ own popped.shows.frames rfl rfl)
        rfl
      · have same : s'.dressed v g = g := by
          unfold Site.Garbs at garbs
          rwa [if_neg fun both => bare both.2] at garbs
        rw [same, if_neg (Bool.eq_false_iff.1 first)]
        refine ih popped.shows own inner' fun ts b frames => ?_
        exact takes (g.outline :: ts) b (congrArg (g.outline :: ·) frames)

omit heedless in
variable (library) in
/-- The error leaves the handler's own loop, if none of the frames catches it. -/
theorem popToHandler_lost (shows : x.Shows v n up s) (own : s.current = x.thread)
    (quiet : ∀ j ∈ up, j.handlers.errorHandler = none ∧ j.flags.entryPoint = false)
    (e : ScriptError) :
    ∃ t, popToHandler library e x.inner (.nested x.outer) up.length (s.veiled v) =
      (.step (.error (.script e)) (.nested x.outer), t) ∧ t.world = s.world := by
  induction up generalizing s with
  | nil => exact ⟨_, rfl, rfl⟩
  | cons f us ih =>
    obtain ⟨g, s', rfl, popped⟩ := popped_own shows own rfl
    have garbs := popped.shows.garbs g
    obtain ⟨none, first⟩ := quiet g.outline (List.mem_cons_self ..)
    rw [List.length_cons, popToHandler_succ _ _ _ popped.veiled, Garbs.handlers garbs,
      show g.handlers.errorHandler = Option.none from none]
    dsimp only
    split
    · exact ⟨_, rfl, popped.world⟩
    · obtain ⟨t, run, world⟩ := ih popped.shows (popped.current.trans own) fun j member =>
        quiet j (List.mem_cons_of_mem _ member)
      exact ⟨t, run, world.trans popped.world⟩

omit heedless in
variable (library) in
theorem runDecorators_lost (shows : x.Shows v n up s) (own : s.current = x.thread)
    (quiet : ∀ j ∈ up, j.handlers.errorHandler = none ∧ j.flags.entryPoint = false)
    (e : ScriptError) (caught : Bool) :
    ∃ t, runDecorators library e caught x.inner (.nested x.outer) [] (s.veiled v) =
      (.step (.error (.script { e with settled := caught })) (.nested x.outer), t) ∧
      t.world = s.world := by
  obtain ⟨t, run, world⟩ := popToHandler_lost library shows own quiet { e with settled := caught }
  have count : (s.veiled v).callDepth - x.inner.frames = up.length := by
    rw [State.callDepth_disguised, shows.callDepth_eq own]
    exact Nat.add_sub_cancel ..
  refine ⟨t, ?_, world⟩
  rw [← run, ← count]
  rfl

/-- An error that has been through its decorators is caught alike, or leaves the handler's loop. -/
theorem popToHandler_carriesOn (shows : x.Shows v n up s) {mark mark' : Mark} {ip ip' : Nat}
    {k k' : Kont ν .step} {vs : List Frame}
    (joins : (Kont.loop mark ip k).Joins x s.current n vs (.loop mark' ip' k'))
    (frames : vs = up ∨ s.current = x.thread ∧ ∃ f, vs = f :: up) (e : ScriptError)
    (trace : List TraceEntry) :
    CarriesOn library x (popToHandler library e mark k (s.callDepth - mark.frames) s)
      (popToHandler library { e with trace } mark' k' ((s.veiled v).callDepth - mark'.frames)
        (s.veiled v)) := by
  rw [State.callDepth_disguised]
  by_cases own : s.current = x.thread
  · rw [shows.callDepth_eq own]
    have unrolls := joins.unrolls own (frames.imp_right And.right)
    cases unrolls with
    | @within m fs ws _ _ _ count split rolled depth waits =>
      subst split
      rw [depth, List.length_append, show fs.length + ws.length + x.depth - (ws.length + x.depth) =
        fs.length by omega]
      exact .inl (popToHandler_within heedless shows own count rolled depth waits e trace)
    | base zero hm hm' hk hk' inner takes =>
      subst hm hm' hk hk'
      have low : x.mark.frames ≤ x.depth := Nat.le_of_lt x.above
      rw [Nat.add_sub_assoc low, show up.length + x.depth - x.inner.frames = up.length from
        Nat.add_sub_cancel ..]
      exact popToHandler_base heedless shows own zero inner takes e trace
  · obtain rfl : vs = up := frames.resolve_right fun both => own both.1
    cases joins with
    | away _ joins => exact .inl (popToHandler_away heedless shows own joins e trace mark _)
    | within here => exact absurd here own
    | base here => exact absurd here own

/-- **Decorators are called alike**; if none of the handler's frames catches the error, those of the
frames below are called next in the loop of the instruction. -/
theorem runDecorators_carriesOn (here : s.HasCurrent) (shows : x.Shows v n up s)
    (room : s.current = x.thread → s.processor.nestedCalls + 1 < maxNestedCalls)
    {mark mark' : Mark} {ip ip' : Nat} {k k' : Kont ν .step} {vs : List Frame}
    (joins : (Kont.loop mark ip k).Joins x s.current n vs (.loop mark' ip' k'))
    (frames : vs = up ∨ s.current = x.thread ∧ ∃ f, vs = f :: up) (e : ScriptError)
    (trace : List TraceEntry) {others others' : List Value} {caught caught' : Bool}
    (polls : x.Polls s.current up mark others caught others' caught') :
    CarriesOn library x (runDecorators library e caught mark k others s)
      (runDecorators library { e with trace } caught' mark' k' others' (s.veiled v)) := by
  have next : ∀ {others others' : List Value} {caught caught' : Bool} (decorator : Value),
      x.Polls s.current up mark others caught others' caught' →
      CarriesOn library x (runDecorators library e caught mark k (decorator :: others) s)
        (runDecorators library { e with trace } caught' mark' k' (decorator :: others')
          (s.veiled v)) := by
    intro others others' caught caught' decorator polls
    have waits : (Kont.decorator e others caught mark k).Joins x s.current n up
        (.decorator { e with trace } others' caught' mark' k') :=
      .decorator rfl frames polls (joins.proceed ip)
    exact .inl (callNested_tandem heedless shows here waits room decorator [messageValue e])
  cases polls with
  | same =>
    cases others with
    | nil =>
      exact popToHandler_carriesOn heedless shows joins frames { e with settled := caught } trace
    | cons decorator others => exact next decorator (.same others caught)
  | beyond _ own outer none =>
    cases others' with
    | nil =>
      refine .inr ?_
      have unrolls := joins.unrolls own (frames.imp_right And.right)
      cases unrolls with
      | within _ _ _ depth =>
        have above := x.above
        rw [outer] at depth
        unfold Site.depth at depth
        omega
      | base zero hm hm' hk hk' inner takes =>
        subst hm hm' hk hk'
        have quiet : ∀ j ∈ up, j.handlers.errorHandler = Option.none ∧ j.flags.entryPoint = false :=
          fun j member => ⟨none j member, inner j member⟩
        obtain ⟨t, runs, world⟩ := runDecorators_lost library shows own quiet { e with trace } false
        rw [runs, List.nil_append]
        refine .raised ?_ world own shows.frames quiet rfl rfl
        exact ⟨rfl, fun _ => ⟨rfl, rfl⟩⟩
    | cons decorator others => exact next decorator (.beyond others own outer none)

end Handlers

end Machine

end ScriptMachine
