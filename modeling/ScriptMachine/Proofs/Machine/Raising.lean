import ScriptMachine.Proofs.Machine.Parting

/-!
# Where an inlined handler's errors are

An error is attributed to the innermost script frame. Where that is one of the handler's frames, the
handler's own loop attributes it alike, and where none of them catches errors it does not matter.

* `Garbed`: the handler's frames as they look in its own loop.
* `Site.Places`: what is known of an error that has no place yet.
* `unwind_carriesOn`: a fault is unwound alike, or it ends the handler.
-/

namespace ScriptMachine

variable {ν α : Type} {x : Site ν} {n : Nat} {up : List Frame} {s s' : State ν} {v : Veil}

/-- The lowest of the frames looks entered. -/
inductive Garbed (name : Option String) : List Frame → List Frame → Prop
  | nil : Garbed name [] []
  | last (f : Frame) : Garbed name [f] [f.asEntry name]
  | cons (f : Frame) {g : Frame} {fs gs : List Frame} : Garbed name (g :: fs) gs →
      Garbed name (f :: g :: fs) (f :: gs)

namespace Garbed

variable {name : Option String} {fs gs ws : List Frame}

theorem of_append (us : List Frame) (b : Frame) :
    Garbed name (us ++ [b]) (us ++ [b.asEntry name]) := by
  induction us with
  | nil => exact .last b
  | cons u us ih =>
    cases us with
    | nil => exact .cons u ih
    | cons w us => exact .cons u ih

theorem length (h : Garbed name fs gs) : gs.length = fs.length := by
  induction h with
  | nil | last => rfl
  | cons _ _ ih => simpa using ih

/-- The frames of a loop that was entered above the handler look as they are. -/
theorem take {us : List Frame} (h : Garbed name fs gs) (split : fs = us ++ ws)
    (rolled : Rolled us) : gs.take us.length = us := by
  induction h generalizing us with
  | nil =>
    obtain ⟨rfl, -⟩ := List.append_eq_nil_iff.1 split.symm
    rfl
  | last f =>
    cases us with
    | nil => rfl
    | cons u us =>
      obtain ⟨rfl, rest⟩ := List.cons.inj split
      obtain ⟨rfl, -⟩ := List.append_eq_nil_iff.1 rest.symm
      cases rolled with
      | cons entry _ => rw [Frame.asEntry, if_pos (entry.2 rfl)]; rfl
  | cons f _ ih =>
    cases us with
    | nil => rfl
    | cons u us =>
      obtain ⟨rfl, rest⟩ := List.cons.inj split
      cases rolled with
      | cons _ rolled => rw [List.length_cons, List.take_succ_cons, ih rest rolled]

/-- The innermost script frame, with the native frames above it. -/
theorem script {natives below : List Frame} {g : Frame} (h : Garbed name fs gs)
    (split : fs = natives ++ g :: below) :
    ∃ g' below', gs = natives ++ g' :: below' ∧ g'.callee = g.callee ∧
      g'.isNative = g.isNative := by
  have alike : (g.asEntry name).callee = g.callee := by
    unfold Frame.asEntry
    split <;> rfl
  have native : (g.asEntry name).isNative = g.isNative := by
    rw [Frame.isNative, alike, Frame.isNative]
  induction h generalizing natives with
  | nil => cases natives <;> cases split
  | last f =>
    cases natives with
    | nil =>
      obtain ⟨rfl, -⟩ := List.cons.inj split
      exact ⟨_, _, rfl, alike, native⟩
    | cons u us => cases us <;> cases (List.cons.inj split).2
  | cons f _ ih =>
    cases natives with
    | nil =>
      obtain ⟨rfl, -⟩ := List.cons.inj split
      exact ⟨_, _, rfl, rfl, rfl⟩
    | cons u us =>
      obtain ⟨rfl, rest⟩ := List.cons.inj split
      obtain ⟨g', below', rfl, same⟩ := ih rest
      exact ⟨g', below', rfl, same⟩

/-- The decorators of the handler's frames. Below them comes the frame with which the loop looks
entered, or the frames of the loop of the instruction. -/
theorem decorators (h : Garbed name fs gs) (inner : ∀ f ∈ fs, f.flags.entryPoint = false)
    (some : fs ≠ []) (ws : List Frame) :
    (State.decoratorsOf gs = State.decoratorsOf (fs ++ ws)) ∨
    (∀ f ∈ fs, f.handlers.errorHandler = none) ∧ ∃ ds, State.decoratorsOf gs = (ds, false) ∧
      State.decoratorsOf (fs ++ ws) =
        (ds ++ (State.decoratorsOf ws).1, (State.decoratorsOf ws).2) := by
  induction h with
  | nil => exact absurd rfl some
  | last f =>
    have first := inner f (List.mem_singleton_self f)
    have entered : (f.asEntry name).flags.entryPoint = true := by
      simp [Frame.asEntry, first, FrameFlags.asEntry]
    have handlers : (f.asEntry name).handlers = f.handlers := by
      unfold Frame.asEntry
      split <;> rfl
    cases handles : f.handlers.errorHandler with
    | some handler =>
      refine .inl ?_
      simp [State.decoratorsOf, handlers, handles]
    | none =>
      refine .inr ⟨fun g member => List.mem_singleton.1 member ▸ handles,
        f.handlers.decorator.toList, ?_, ?_⟩
      · simp [State.decoratorsOf, handlers, handles, entered]
      · simp [State.decoratorsOf, handles, first]
  | @cons f g fs gs _ ih =>
    have first := inner f (List.mem_cons_self ..)
    have ih := ih (fun j member => inner j (List.mem_cons_of_mem _ member)) (List.cons_ne_nil _ _)
    cases handles : f.handlers.errorHandler with
    | some handler =>
      refine .inl ?_
      simp [State.decoratorsOf, handles]
    | none =>
      obtain same | ⟨none, ds, few, all⟩ := ih
      · refine .inl ?_
        rw [List.cons_append, State.decoratorsOf, State.decoratorsOf, same]
      · refine .inr ⟨fun j member => ?_, f.handlers.decorator.toList ++ ds, ?_, ?_⟩
        · obtain rfl | member := List.mem_cons.1 member
          · exact handles
          · exact none j member
        · simp [State.decoratorsOf, handles, first, few]
        · rw [List.cons_append, State.decoratorsOf, all]
          simp [handles, first]

/-- Frames without handlers. -/
theorem quiet (h : Garbed name fs gs)
    (quiet : ∀ f ∈ fs, f.handlers.errorHandler = none ∧ f.handlers.decorator = none) :
    State.decoratorsOf gs = ([], false) := by
  induction h with
  | nil => rfl
  | last f =>
    obtain ⟨none, undecorated⟩ := quiet f (List.mem_singleton_self f)
    have handlers : (f.asEntry name).handlers = f.handlers := by
      unfold Frame.asEntry
      split <;> rfl
    simp [State.decoratorsOf, handlers, none, undecorated]
  | cons f _ ih =>
    obtain ⟨none, undecorated⟩ := quiet f (List.mem_cons_self ..)
    have below := ih fun j member => quiet j (List.mem_cons_of_mem _ member)
    simp [State.decoratorsOf, below, none, undecorated]

end Garbed

/-- Frames without handlers do not decorate. -/
theorem State.decoratorsOf_quiet {up : List Frame} (rest : List Frame)
    (quiet : ∀ f ∈ up, f.handlers.errorHandler = none ∧ f.handlers.decorator = none)
    (inner : ∀ f ∈ up, f.flags.entryPoint = false) :
    decoratorsOf (up ++ rest) = decoratorsOf rest := by
  induction up with
  | nil => rfl
  | cons f fs ih =>
    obtain ⟨none, undecorated⟩ := quiet f (List.mem_cons_self ..)
    have below := ih (fun j member => quiet j (List.mem_cons_of_mem _ member))
      fun j member => inner j (List.mem_cons_of_mem _ member)
    have first := inner f (List.mem_cons_self ..)
    rw [List.cons_append, decoratorsOf, below]
    simp [none, undecorated, first]

namespace Site.Shows

variable (shows : x.Shows v n up s)

include shows

/-- The handler's frames look as in its own loop. -/
theorem garbed : ∃ gs, (s.veiled v).framesOf x.thread = gs ++ x.low ∧ Garbed v.name up gs := by
  have frames := shows.frames
  rw [← shows.thread] at frames ⊢
  obtain rfl | ⟨us, b, rfl⟩ := up.eq_nil_or_concat'
  · have bare : (s.processorOf v.thread).frames.size ≤ v.depth := by
      have length := congrArg List.length frames
      simp only [State.framesOf, State.outlineOf, Processor.outline, List.length_map,
        List.length_reverse, Array.length_toList, List.nil_append] at length
      rw [length, shows.depth]
      exact Nat.le_refl _
    refine ⟨[], ?_, .nil⟩
    have looks := s.framesAt_veiled v v.thread
    rw [if_pos rfl, v.frames_of_size_le bare] at looks
    refine Eq.trans ?_ frames
    simp only [State.framesOf, State.outlineOf, Processor.outline, looks]
  · rw [List.append_assoc, List.singleton_append] at frames
    refine ⟨us ++ [b.asEntry v.name], ?_, .of_append us b⟩
    rw [s.framesOf_veiled v frames shows.depth.symm, List.append_assoc]
    rfl

end Site.Shows

/-- An error that has no place yet has a script frame of the handler below it, or goes straight to
the loop of the instruction. -/
inductive Site.Places (x : Site ν) (e : ScriptError) (up : List Frame) (mark : Mark)
    (ip ip' : Nat) : Prop
  | script {natives below : List Frame} {g : Frame} : up = natives ++ g :: below →
      (∀ f ∈ natives, f.isNative = true) → g.isNative = false → (ip = ip' ∨ natives ≠ []) →
      Places x e up mark ip ip'
  | plain : mark = x.mark → e.settled = false → (∀ f ∈ up, f.isNative = true) →
      (∀ f ∈ up, f.handlers.errorHandler = none ∧ f.handlers.decorator = none) →
      Places x e up mark ip ip'

namespace Machine

variable {library : Library ν} {e e' : ScriptError} {mark mark' : Mark} {ip ip' : Nat}
  {k k' : Kont ν .step}

/-- The errors have the same place. -/
theorem attributed_congr {t : State ν} (trace : List TraceEntry)
    (address : (t.decorate { e with trace } ip').address = (s.decorate e ip).address)
    (decoration : (t.decorate { e with trace } ip').decoration = (s.decorate e ip).decoration) :
    ∃ trace', attributed t { e with trace } ip' = { attributed s e ip with trace := trace' } := by
  unfold attributed
  change ∃ trace', (if e.isDecorated then _ else _) = _
  by_cases placed : e.isDecorated = true
  · rw [if_pos placed, if_pos placed]
    exact ⟨trace, rfl⟩
  · rw [if_neg placed, if_neg placed]
    refine ⟨(t.decorate { e with trace } ip').trace, ?_⟩
    have same : ∀ a b : ScriptError, a.cause = b.cause → a.decoration = b.decoration →
        a.address = b.address → a.settled = b.settled → a = { b with trace := a.trace } := by
      rintro ⟨⟩ ⟨⟩ rfl rfl rfl rfl
      rfl
    exact same _ _ rfl decoration address rfl

/-- On another thread an error is attributed alike. -/
theorem attributed_away (shows : x.Shows v n up s) (other : s.current ≠ x.thread) (e : ScriptError)
    (trace : List TraceEntry) (ip : Nat) :
    ∃ trace', attributed (s.veiled v) { e with trace } ip =
      { attributed s e ip with trace := trace' } := by
  have same : (s.veiled v).frameTrail ip = s.frameTrail ip := by
    have looks : (s.veiled v).processor = s.processor :=
      s.processorOf_veiled v (shows.thread.symm ▸ other)
    rw [State.frameTrail, looks, State.frameTrail]
  refine attributed_congr trace ?_ ?_ <;> simp only [State.decorate, same] <;> rfl

/-- An error is attributed alike to a script frame of the handler. -/
theorem attributed_script (shows : x.Shows v n up s) (own : s.current = x.thread)
    {natives below : List Frame} {g : Frame} (frames : up = natives ++ g :: below)
    (native : ∀ f ∈ natives, f.isNative = true) (script : g.isNative = false)
    (near : ip = ip' ∨ natives ≠ []) (e : ScriptError) (trace : List TraceEntry) :
    ∃ trace', attributed (s.veiled v) { e with trace } ip' =
      { attributed s e ip with trace := trace' } := by
  obtain ⟨gs, looks, garbed⟩ := shows.garbed
  obtain ⟨g', below', rfl, callee, alike⟩ := garbed.script frames
  have stands : s.framesOf s.current = natives ++ g :: (below ++ x.low) := by
    rw [own, shows.frames, frames, List.append_assoc, List.cons_append]
  have stands' : (s.veiled v).framesOf (s.veiled v).current =
      natives ++ g' :: (below' ++ x.low) := by
    change (s.veiled v).framesOf s.current = _
    rw [own, looks, List.append_assoc, List.cons_append]
  have location : ∀ a, (s.veiled v).locationOf g' a = s.locationOf g a := fun a => by
    unfold State.locationOf Frame.closure?
    rw [callee]
    rfl
  have below : State.addressBelow ip' natives = State.addressBelow ip natives := by
    obtain rfl | some := near
    · rfl
    · cases natives with
      | nil => exact absurd rfl some
      | cons f fs => rfl
  obtain ⟨address, decoration⟩ := State.decorate_script (e := e) stands native script ip
  obtain ⟨address', decoration'⟩ := State.decorate_script (e := { e with trace }) stands' native
    (alike.trans script) ip'
  refine attributed_congr trace ?_ ?_
  · rw [address, address', below]
  · rw [decoration, decoration', below, location]
    rfl

theorem decoratorsOf_framesAbove (s : State ν) (mark : Mark) :
    State.decoratorsOf (s.framesAbove mark) = State.decoratorsOf
      ((s.framesOf s.current).take ((s.framesOf s.current).length - mark.frames)) := by
  rw [← State.decoratorsOf_outline, State.outline_framesAbove]

/-- The decorators that are polled in the handler's own loop. -/
theorem polls (shows : x.Shows v n up s) {vs : List Frame}
    (joins : (Kont.loop mark ip k).Joins x s.current n vs (.loop mark' ip' k'))
    (frames : vs = up ∨ s.current = x.thread ∧ ∃ f, vs = f :: up) :
    x.Polls s.current up mark (State.decoratorsOf (s.framesAbove mark)).1
      (State.decoratorsOf (s.framesAbove mark)).2
      (State.decoratorsOf ((s.veiled v).framesAbove mark')).1
      (State.decoratorsOf ((s.veiled v).framesAbove mark')).2 := by
  rw [decoratorsOf_framesAbove s, decoratorsOf_framesAbove (s.veiled v)]
  rw [show (s.veiled v).current = s.current from rfl]
  by_cases own : s.current = x.thread
  · obtain ⟨gs, looks, garbed⟩ := shows.garbed
    have length := garbed.length
    have unrolls := joins.unrolls own (frames.imp_right And.right)
    rw [own, shows.frames, looks, List.length_append, List.length_append, length]
    cases unrolls with
    | @within m fs ws _ _ _ count split rolled depth waits =>
      have few : up.length + x.low.length - mark.frames = fs.length := by
        rw [depth, split, List.length_append]
        unfold Site.depth
        omega
      have le : fs.length ≤ gs.length := by
        rw [length, split, List.length_append]
        exact Nat.le_add_right ..
      rw [few, List.take_append_of_le_length le, garbed.take split rolled, split, List.append_assoc,
        List.take_left]
      exact .same ..
    | base zero hm hm' hk hk' inner takes =>
      subst hm hm' hk hk'
      have low : x.mark.frames ≤ x.depth := Nat.le_of_lt x.above
      have all : up.length + x.low.length - x.mark.frames =
          up.length + (x.depth - x.mark.frames) := Nat.add_sub_assoc low _
      have few : up.length + x.low.length - x.inner.frames = gs.length :=
        (Nat.add_sub_cancel ..).trans length.symm
      rw [all, few, List.take_left, List.take_length_add_append]
      change x.Polls x.thread up x.mark (State.decoratorsOf (up ++ x.callers)).1
        (State.decoratorsOf (up ++ x.callers)).2 _ _
      by_cases bare : up = []
      · subst bare
        cases garbed
        exact .beyond [] rfl rfl fun _ => nofun
      · obtain same | ⟨none, ds, few, all⟩ := garbed.decorators inner bare x.callers
        · rw [same]
          exact .same ..
        · rw [few, all]
          exact .beyond ds rfl rfl none
  · have same : (s.veiled v).framesOf s.current = s.framesOf s.current :=
      congrArg (fun p : Processor => p.outline.frames)
        (s.processorOf_veiled v (shows.thread.symm ▸ own))
    rw [same]
    cases joins with
    | away => exact .same ..
    | within here => exact absurd here own
    | base here => exact absurd here own

/-- The decorators in the loop of the instruction, where no frame of the handler has handlers. -/
theorem decorators_plain (shows : x.Shows v n up s) (own : s.current = x.thread)
    (inner : ∀ f ∈ up, f.flags.entryPoint = false)
    (quiet : ∀ f ∈ up, f.handlers.errorHandler = none ∧ f.handlers.decorator = none) :
    State.decoratorsOf ((s.veiled v).framesAbove x.inner) = ([], false) ∧
      State.decoratorsOf (s.framesAbove x.mark) = State.decoratorsOf x.callers := by
  obtain ⟨gs, looks, garbed⟩ := shows.garbed
  rw [decoratorsOf_framesAbove, decoratorsOf_framesAbove,
    show (s.veiled v).current = s.current from rfl, own, shows.frames, looks, List.length_append,
    List.length_append]
  have few : gs.length + x.low.length - x.inner.frames = gs.length := Nat.add_sub_cancel ..
  have all : up.length + x.low.length - x.mark.frames = up.length + (x.depth - x.mark.frames) :=
    Nat.add_sub_assoc (Nat.le_of_lt x.above) _
  rw [few, all, List.take_left, List.take_length_add_append, garbed.quiet quiet]
  exact ⟨rfl, State.decoratorsOf_quiet _ quiet inner⟩

@[simp] theorem cause_attributed (s : State ν) (e : ScriptError) (ip : Nat) :
    (attributed s e ip).cause = e.cause := by
  unfold attributed
  split <;> rfl

theorem unwind_script (library : Library ν) (e : ScriptError) (ip : Nat) (mark : Mark)
    (k : Kont ν .step) (s : State ν) :
    unwind library (.script e) ip mark k s =
      if e.settled then
        popToHandler library (attributed s e ip) mark k (s.callDepth - mark.frames) s
      else runDecorators library (attributed s e ip) (State.decoratorsOf (s.framesAbove mark)).2
        mark k (State.decoratorsOf (s.framesAbove mark)).1 s := by
  rw [← settled_attributed s e ip]
  change (if (attributed s e ip).settled then
    popToHandler library (attributed s e ip) mark k (s.callDepth - mark.frames)
      else runDecorators library (attributed s e ip) (State.decoratorsOf (s.framesAbove mark)).2
        mark k (State.decoratorsOf (s.framesAbove mark)).1 : Move ν (Control ν)) s = _
  split <;> rfl

section Unwinding

variable (heedless : library.Heedless)

include heedless

/-- An error whose place is the same. -/
theorem unwind_placed (here : s.HasCurrent) (shows : x.Shows v n up s)
    (room : s.current = x.thread → s.processor.nestedCalls + 1 < maxNestedCalls) {vs : List Frame}
    (joins : (Kont.loop mark ip k).Joins x s.current n vs (.loop mark' ip' k'))
    (frames : vs = up ∨ s.current = x.thread ∧ ∃ f, vs = f :: up) (e : ScriptError)
    (trace : List TraceEntry)
    (placed : ∃ trace', attributed (s.veiled v) { e with trace } ip' =
      { attributed s e ip with trace := trace' }) :
    CarriesOn library x (unwind library (.script e) ip mark k s)
      (unwind library (.script { e with trace }) ip' mark' k' (s.veiled v)) := by
  obtain ⟨trace', placed⟩ := placed
  rw [unwind_script, unwind_script, placed]
  change CarriesOn library x _ (if e.settled = true then _ else _)
  split
  · exact popToHandler_carriesOn heedless shows joins frames _ trace'
  · exact runDecorators_carriesOn heedless here shows room joins frames _ trace'
      (polls shows joins frames)

omit heedless in
/-- An error that goes straight to the loop of the instruction. -/
theorem unwind_plain (shows : x.Shows v n up s) (own : s.current = x.thread) {vs : List Frame}
    (joins : (Kont.loop x.mark ip k).Joins x s.current n vs (.loop mark' ip' k'))
    (frames : vs = up ∨ ∃ f, vs = f :: up) {e : ScriptError} (fresh : e.settled = false)
    (trace : List TraceEntry) (native : ∀ f ∈ up, f.isNative = true)
    (quiet : ∀ f ∈ up, f.handlers.errorHandler = none ∧ f.handlers.decorator = none) :
    CarriesOn library x (unwind library (.script e) ip x.mark k s)
      (unwind library (.script { e with trace }) ip' mark' k' (s.veiled v)) := by
  have unrolls := joins.unrolls own frames
  have fresh' : ({ e with trace } : ScriptError).settled = false := fresh
  rw [unwind_script, unwind_script, if_neg (Bool.eq_false_iff.1 fresh),
    if_neg (Bool.eq_false_iff.1 fresh')]
  generalize hd : attributed s e ip = d
  generalize hd' : attributed (s.veiled v) { e with trace } ip' = d'
  have cause : d'.cause = d.cause := by
    rw [← hd, ← hd', cause_attributed, cause_attributed]
  cases unrolls with
  | within _ _ _ depth =>
    have above := x.above
    rw [depth] at above
    unfold Site.depth at above
    omega
  | base zero hm hm' hk hk' inner takes =>
    subst hm' hk hk'
    obtain ⟨few, all⟩ := decorators_plain shows own inner quiet
    rw [few, all]
    have silent := fun f member => And.intro (quiet f member).1 (inner f member)
    obtain ⟨t, runs, world⟩ := runDecorators_lost library shows own silent d' false
    rw [runs]
    refine .inr (.raised ?_ world own shows.frames silent rfl rfl)
    refine ⟨cause, ?_⟩
    rintro ⟨f, member, script⟩
    cases (native f member).symm.trans script

end Unwinding

theorem world_dropFrames (count : Nat) (s : State ν) : (dropFrames count s).2.world = s.world := by
  induction count generalizing s with
  | zero => rfl
  | succ count ih =>
    obtain ⟨-, run⟩ | ⟨f, s', rest, run, -, -, world⟩ := Exec.popFrame_cases s
    · have dropped : dropFrame s = (none, s) := by simp only [dropFrame, run]
      rw [dropFrames_succ dropped]
      exact ih s
    · have dropped : dropFrame s = (some f, s') := by simp only [dropFrame, run]
      rw [dropFrames_succ dropped]
      exact (ih s').trans world

/-- Frames of another thread are dropped alike. -/
theorem dropFrames_away (shows : x.Shows v n up s) (other : s.current ≠ x.thread) (count : Nat) :
    (dropFrames count (s.veiled v)).2 = (dropFrames count s).2.veiled v ∧
      x.Shows v n up (dropFrames count s).2 ∧ (dropFrames count s).2.current = s.current := by
  induction count generalizing s with
  | zero => exact ⟨rfl, shows, rfl⟩
  | succ count ih =>
    obtain ⟨run, run'⟩ | ⟨f, s', popped⟩ := popped_other shows other
    · rw [dropFrames_succ run, dropFrames_succ run']
      exact ih shows other
    · rw [dropFrames_succ popped.run, dropFrames_succ popped.veiled]
      obtain ⟨same, shows', current⟩ := ih popped.shows (popped.current ▸ other)
      exact ⟨same, shows', current.trans popped.current⟩

/-- Frames of the handler are dropped alike. -/
theorem dropFrames_own {us ws : List Frame} (shows : x.Shows v n (us ++ ws) s)
    (own : s.current = x.thread) :
    (dropFrames us.length (s.veiled v)).2 = (dropFrames us.length s).2.veiled v ∧
      x.Shows v n ws (dropFrames us.length s).2 ∧
      (dropFrames us.length s).2.current = s.current := by
  induction us generalizing s with
  | nil => exact ⟨rfl, shows, rfl⟩
  | cons u us ih =>
    obtain ⟨f, s', -, popped⟩ := popped_own shows own (List.cons_append ..)
    rw [List.length_cons, dropFrames_succ popped.run, dropFrames_succ popped.veiled]
    obtain ⟨same, shows', current⟩ := ih popped.shows (popped.current.trans own)
    exact ⟨same, shows', current.trans popped.current⟩

theorem unwind_other {fault : Fault} (other : ∀ e, fault ≠ .script e) (library : Library ν)
    (ip : Nat) (mark : Mark) (k : Kont ν .step) (s : State ν) :
    unwind library fault ip mark k s = (.step (.error fault) k,
      (dropFrames (s.callDepth - mark.frames) s).2.modifyStack (·.truncate mark.stack)) := by
  cases fault with
  | script e => exact absurd rfl (other e)
  | _ => rfl

/-- **A fault that nothing catches** leaves the loop. -/
theorem unwind_uncaught (shows : x.Shows v n up s) {vs : List Frame}
    (joins : (Kont.loop mark ip k).Joins x s.current n vs (.loop mark' ip' k'))
    (frames : vs = up ∨ s.current = x.thread ∧ ∃ f, vs = f :: up) {fault : Fault}
    (other : ∀ e, fault ≠ .script e) :
    CarriesOn library x (unwind library fault ip mark k s)
      (unwind library fault ip' mark' k' (s.veiled v)) := by
  have left : ∀ {m : Nat} {ws : List Frame} {t : State ν} {r : Except Fault Step},
      x.Shows v m ws t → Control.Joins x t.current m ws (.step r k) (.step r k') →
      Tandem x (.step r k, t.modifyStack (·.truncate mark.stack))
        (.step r k', (t.veiled v).modifyStack (·.truncate mark.stack)) := by
    intro m ws t r shows joins
    rw [t.modifyStack_disguised v.thread v.disguise]
    exact .mk (shows.rigid (rigid_modifyStack ..)) joins
  rw [unwind_other other, unwind_other other, State.callDepth_disguised]
  by_cases own : s.current = x.thread
  · have unrolls := joins.unrolls own (frames.imp_right And.right)
    cases unrolls with
    | @within m fs ws _ _ _ count split rolled depth waits =>
      subst split
      have few : s.callDepth - mark.frames = fs.length := by
        rw [shows.callDepth_eq own, depth, List.length_append]
        omega
      rw [few]
      obtain ⟨same, shows', current⟩ := dropFrames_own shows own
      rw [same]
      rw [← current] at waits own
      exact .inl (left shows' (.left own count (.refl _) waits))
    | base zero hm hm' hk hk' inner takes =>
      subst hm hm' hk hk'
      have uncatchable : fault.isCatchable = false := by
        cases fault with
        | script e => exact absurd rfl (other e)
        | _ => rfl
      refine .inr (.failed uncatchable ?_ rfl rfl)
      exact (world_dropFrames _ (s.veiled v)).trans (world_dropFrames _ s).symm
  · obtain ⟨same, shows', current⟩ := dropFrames_away shows own (s.callDepth - mark.frames)
    obtain rfl : vs = up := frames.resolve_right fun both => own both.1
    cases joins with
    | away _ joins =>
      rw [same]
      rw [← current] at joins own
      exact .inl (left shows' (.away own (.refl _) joins))
    | within here => exact absurd here own
    | base here => exact absurd here own

/-- **A fault is unwound alike**, or it ends the handler. -/
theorem unwind_carriesOn (heedless : library.Heedless) (here : s.HasCurrent)
    (shows : x.Shows v n up s)
    (room : s.current = x.thread → s.processor.nestedCalls + 1 < maxNestedCalls) {vs : List Frame}
    (joins : (Kont.loop mark ip k).Joins x s.current n vs (.loop mark' ip' k'))
    (frames : vs = up ∨ s.current = x.thread ∧ ∃ f, vs = f :: up) {fault fault' : Fault}
    (same : fault.untraced = fault'.untraced)
    (places : s.current = x.thread → ∀ e, fault = .script e → e.isDecorated = false →
      x.Places e up mark ip ip') :
    CarriesOn library x (unwind library fault ip mark k s)
      (unwind library fault' ip' mark' k' (s.veiled v)) := by
  by_cases script : ∃ e, fault = .script e
  · obtain ⟨e, rfl⟩ := script
    obtain ⟨trace, rfl⟩ := Fault.untraced_script same
    by_cases own : s.current = x.thread
    · cases placed : e.isDecorated with
      | true =>
        refine unwind_placed heedless here shows room joins frames e trace ⟨trace, ?_⟩
        have placed' : ({ e with trace } : ScriptError).isDecorated = true := placed
        rw [attributed, if_pos placed',
          attributed, if_pos placed]
      | false =>
        obtain ⟨split, native, script, near⟩ | ⟨rfl, fresh, native, quiet⟩ := places own e rfl placed
        · exact unwind_placed heedless here shows room joins frames e trace
            (attributed_script shows own split native script near e trace)
        · exact unwind_plain shows own joins (frames.imp_right And.right) fresh trace native quiet
    · have near : ip' = ip := by
        cases joins with
        | away => rfl
        | within here => exact absurd here own
        | base here => exact absurd here own
      subst near
      exact unwind_placed heedless here shows room joins frames e trace
        (attributed_away shows own e trace _)
  · have other : ∀ e, fault ≠ .script e := fun e same => script ⟨e, same⟩
    obtain rfl := Fault.untraced_other other same
    exact unwind_uncaught shows joins frames other

end Machine

end ScriptMachine
