import ScriptMachine.Proofs.Machine.Site

/-!
# Calls and results of an inlined handler

What the functions of the machine do where a handler runs in the loop of an instruction, and where
it runs in a loop of its own.

* `Kont.Joins.retop`, `Kont.Joins.proceed`: those who wait do not look at much of a frame.
* `performCall_tandem`, `callNested_tandem`: a call. `finishFrame_tandem`: a result is handed on.
-/

namespace ScriptMachine

variable {ν α : Type} {x : Site ν} {c : ThreadId} {n : Nat} {up : List Frame} {s s' : State ν}
  {v : Veil}

theorem Frame.Likens.refl (f : Frame) : f.Likens f := ⟨rfl, rfl, rfl, rfl⟩

theorem Site.atop_own (own : c = x.thread) (f : Frame) : x.atop c up f = f :: up := if_pos own

theorem Site.atop_other (other : c ≠ x.thread) (f : Frame) : x.atop c up f = up := if_neg other

namespace Kont.Joins

/-- Another frame of the call that gives its result in the same way. -/
theorem retop_own {a : Awaited} {k k' : Kont ν a} (h : k.Joins x c n up k') (step : a = .step)
    (own : c = x.thread) {f g : Frame} {us : List Frame} (likens : f.Likens g)
    (frames : up = f :: us) : k.Joins x c n (g :: us) k' := by
  induction h with
  | routine | native | finish | instruction | decorator | collapse | method | exit | task =>
    cases step
  | away other | nested other | drive other | resumed other => exact absurd own other
  | protect guards apart joins ih =>
    refine .protect (fun own => ?_) apart (ih rfl own frames)
    obtain ⟨g', us', frames', likens', depth, garbs⟩ := guards own
    obtain ⟨rfl, rfl⟩ := List.cons.inj (frames.symm.trans frames')
    exact ⟨g, us, rfl, ⟨likens'.entryPoint.trans likens.entryPoint.symm,
      likens'.scalarResult.trans likens.scalarResult.symm,
      likens'.discardResult.trans likens.discardResult.symm,
      likens'.returnAddress.trans likens.returnAddress.symm⟩, depth, garbs⟩
  | @within _ _ _ _ js ws e _ _ _ _ own count split inner entry depth joins =>
    subst split
    cases js with
    | nil =>
      obtain ⟨rfl, rfl⟩ := List.cons.inj frames
      exact .within own count rfl inner (likens.entryPoint.trans entry) depth joins
    | cons j js =>
      obtain ⟨rfl, rfl⟩ := List.cons.inj frames
      have inner' : ∀ j ∈ g :: js, j.flags.entryPoint = false := fun i member => by
        obtain rfl | member := List.mem_cons.1 member
        · exact likens.entryPoint.trans (inner _ (List.mem_cons_self ..))
        · exact inner i (List.mem_cons_of_mem _ member)
      exact .within own count rfl inner' entry depth joins
  | @base _ _ _ vs b _ _ _ _ _ _ own zero hm hm' hk hk' split inner takes same =>
    subst split
    have inner' : ∀ {ts : List Frame}, vs ++ [b] = f :: ts → ∀ j ∈ g :: ts,
        j.flags.entryPoint = false := fun frames i member => by
      rw [frames] at inner
      obtain rfl | member := List.mem_cons.1 member
      · exact likens.entryPoint.trans (inner _ (List.mem_cons_self ..))
      · exact inner i (List.mem_cons_of_mem _ member)
    cases vs with
    | nil =>
      obtain ⟨rfl, rfl⟩ := List.cons.inj frames
      exact .base (l := []) own zero hm hm' hk hk' rfl (inner' rfl)
        ⟨likens.returnAddress.trans takes.address, likens.scalarResult.trans takes.scalar,
          likens.discardResult.trans takes.keeps⟩ (.inr rfl)
    | cons j vs =>
      obtain ⟨rfl, rfl⟩ := List.cons.inj frames
      refine .base (l := g :: vs) own zero hm hm' hk hk' rfl (inner' rfl) takes (.inl ?_)
      exact same.resolve_right (List.cons_ne_nil _ _)

theorem retop {k k' : Kont ν .step} {f g : Frame} (likens : f.Likens g)
    (h : k.Joins x c n (x.atop c up f) k') : k.Joins x c n (x.atop c up g) k' := by
  by_cases own : c = x.thread
  · rw [Site.atop_own own] at h ⊢
    exact h.retop_own rfl own likens rfl
  · rw [Site.atop_other own] at h ⊢
    exact h

variable {mark mark' : Mark} {ip ip' : Nat} {k k' : Kont ν .step}

/-- The loop goes on at an address. -/
theorem proceed (h : (Kont.loop mark ip k).Joins x c n up (.loop mark' ip' k')) (next : Nat) :
    (Kont.loop mark next k).Joins x c n up (.loop mark' next k') := by
  cases h with
  | away other joins => exact .away other joins
  | within own count split inner entry depth joins =>
    exact .within own count split inner entry depth joins
  | base own zero hm hm' hk hk' split inner takes _ =>
    exact .base own zero hm hm' hk hk' split inner takes (.inl rfl)

/-- A frame has left that was not entered from outside. -/
theorem land {f : Frame} (h : (Kont.loop mark ip k).Joins x c n (f :: up) (.loop mark' ip' k'))
    (own : c = x.thread) (inner : f.flags.entryPoint = false) (some : up ≠ []) (next : Nat) :
    (Kont.loop mark next k).Joins x c n up (.loop mark' next k') := by
  cases h with
  | away other joins => exact absurd own other
  | @within _ _ _ _ js _ _ _ _ _ _ _ count split inside entry depth joins =>
    cases js with
    | nil =>
      obtain ⟨rfl, rfl⟩ := List.cons.inj split
      cases inner.symm.trans entry
    | cons j js =>
      obtain ⟨rfl, rfl⟩ := List.cons.inj split
      exact .within own count rfl (fun i member => inside i (List.mem_cons_of_mem _ member)) entry
        depth joins
  | @base _ _ _ us _ _ _ _ _ _ _ _ zero hm hm' hk hk' split inside takes _ =>
    cases us with
    | nil => exact absurd (List.cons.inj split).2 some
    | cons j us =>
      obtain ⟨rfl, rfl⟩ := List.cons.inj split
      exact .base own zero hm hm' hk hk' rfl
        (fun i member => inside i (List.mem_cons_of_mem _ member)) takes (.inl rfl)

/-- The only frame of the handler gives its result to the instruction. -/
theorem takes {a : Awaited} {k k' : Kont ν a} (h : k.Joins x c n up k') (step : a = .step)
    (own : c = x.thread) {f : Frame} (alone : up = [f]) (inner : f.flags.entryPoint = false) :
    x.Takes f := by
  induction h with
  | routine | native | finish | instruction | decorator | collapse | method | exit | task =>
    cases step
  | away other | nested other | drive other | resumed other => exact absurd own other
  | protect _ _ _ ih => exact ih rfl own alone
  | @within _ _ _ _ js _ _ _ _ _ _ _ _ split _ entry =>
    subst split
    cases js with
    | nil =>
      obtain ⟨rfl, rfl⟩ := List.cons.inj alone
      cases inner.symm.trans entry
    | cons j js => exact absurd (List.cons.inj alone).2 (by simp)
  | @base _ _ _ us _ _ _ _ _ _ _ _ _ _ _ _ _ split _ takes _ =>
    subst split
    cases us with
    | nil =>
      obtain ⟨rfl, -⟩ := List.cons.inj alone
      exact takes
    | cons j us => exact absurd (List.cons.inj alone).2 (by simp)

end Kont.Joins

namespace Site.Shows

variable (shows : x.Shows v n up s)

include shows

theorem rigid (rigid : Rigid s s') : x.Shows v n up s' :=
  ⟨shows.thread, shows.depth, (rigid.frames _).trans shows.frames, by
    rw [rigid.outline]
    exact shows.nested⟩

/-- The thread that runs has another outline. -/
theorem shift {o : Outline} {m : Nat} {ws : List Frame} (shifted : Shifted o s s')
    (own : s.current = x.thread → o.frames = ws ++ x.low ∧ m ≤ o.nestedCalls)
    (other : s.current ≠ x.thread → ws = up ∧ m = n) : x.Shows v m ws s' := by
  refine ⟨shows.thread, shows.depth, ?_, ?_⟩
  · by_cases here : s.current = x.thread
    · rw [← here, State.framesOf, shifted.own]
      exact (own here).1
    · rw [shifted.frames_ne (Ne.symm here), (other here).1]
      exact shows.frames
  · by_cases here : s.current = x.thread
    · rw [← here, shifted.own]
      exact (own here).2
    · rw [shifted.others _ (Ne.symm here), (other here).2]
      exact shows.nested

theorem inRange : v.thread.index < s.processors.size := by
  refine Nat.lt_of_not_le fun new => ?_
  have empty := s.framesOf_of_le new
  rw [shows.thread, shows.frames] at empty
  have above := x.above
  rw [(List.append_eq_nil_iff.1 empty).2] at above
  exact absurd above (Nat.not_lt_zero _)

theorem callDepth_eq (own : s.current = x.thread) : s.callDepth = up.length + x.depth := by
  rw [State.callDepth_eq_length, own, shows.frames, List.length_append]
  rfl

/-- No frame of the handler stands. -/
theorem bare_iff (own : s.current = x.thread) : s.callDepth = v.depth ↔ up = [] := by
  rw [shows.callDepth_eq own, shows.depth, ← List.length_eq_zero_iff]
  omega

/-- The frame that was popped, or would be pushed. -/
theorem garbs (f : Frame) : x.Garbs s.current up f (s.dressed v f) := by
  unfold Garbs State.dressed Veil.dress
  rw [shows.thread]
  by_cases own : s.current = x.thread
  · rw [if_pos own]
    by_cases bare : up = []
    · rw [if_pos ⟨own, bare⟩, if_pos ((shows.bare_iff own).2 bare)]
      exact ⟨v.name, rfl⟩
    · rw [if_neg fun both => bare both.2, if_neg fun same => bare ((shows.bare_iff own).1 same)]
  · rw [if_neg fun both => own both.1, if_neg own]

/-- The state does not show how the call of the handler was named before there is a frame. -/
theorem rename (own : s.current = x.thread) (bare : up = []) (name : Option String) :
    x.Shows { v with name } n up s ∧ s.veiled { v with name } = s.veiled v := by
  refine ⟨⟨shows.thread, shows.depth, shows.frames, shows.nested⟩, s.veiled_rename v name ?_⟩
  have depth : s.callDepth = v.depth := (shows.bare_iff own).2 bare
  rw [shows.thread, ← own]
  exact Nat.le_of_eq depth

/-- The call is made behind the veil. -/
theorem recasts {spec spec' : CallSpec} (recasts : x.Recasts s.current up spec spec') :
    ∃ v', x.Shows v' n up s ∧ s.veiled v' = s.veiled v ∧ spec' = s.dressedCall v' spec := by
  unfold Recasts at recasts
  by_cases bare : s.current = x.thread ∧ up = []
  · rw [if_pos bare] at recasts
    obtain ⟨name, rfl⟩ := recasts
    obtain ⟨shows', same⟩ := shows.rename bare.1 bare.2 name
    refine ⟨_, shows', same, (if_pos ⟨?_, ?_⟩).symm⟩
    · exact bare.1.trans shows.thread.symm
    · exact (shows.bare_iff bare.1).2 bare.2
  · rw [if_neg bare] at recasts
    refine ⟨v, shows, rfl, recasts.trans (if_neg fun both => ?_).symm⟩
    have own := both.1.trans shows.thread
    exact bare ⟨own, (shows.bare_iff own).1 both.2⟩

end Site.Shows

namespace Machine

variable {library : Library ν}

section Outcomes

variable (shows : x.Shows v n up s)

include shows

theorem tandem_value {r r' : Except Fault Value} {k k' : Kont ν .value} (concurs : Concurs r r')
    (joins : k.Joins x s.current n up k') :
    Tandem x (.value r k, s) (.value r' k', s.veiled v) :=
  .mk shows (.value concurs joins)

theorem tandem_run {p p' : Program ν} {k k' : Kont ν .value} (accords : p.Accords p')
    (joins : k.Joins x s.current n up k') : Tandem x (.run p k, s) (.run p' k', s.veiled v) :=
  .mk shows (.run accords joins)

/-- No frame stands for the call that failed. -/
theorem tandem_refused {e e' : Fault} {f : Frame} {k k' : Kont ν .step}
    (same : e.untraced = e'.untraced) (joins : k.Joins x s.current n (x.atop s.current up f) k') :
    Tandem x (.step (.error e) k, s) (.step (.error e') k', s.veiled v) := by
  refine .mk shows ?_
  by_cases own : s.current = x.thread
  · rw [Site.atop_own own] at joins
    exact .step own (.refused same) joins
  · rw [Site.atop_other own] at joins
    exact .away own (.error same) joins

end Outcomes

section Rules

variable {R : Control ν × State ν → Control ν × State ν → Prop}

/-- Work that the veil does not affect. -/
theorem andThen_veiled {work : Exec ν α} {ok ok' : α → Move ν (Control ν)}
    {error error' : Fault → Move ν (Control ν)}
    (unaffected : work.Unaffected v.thread v.disguise s) (keeps : work.Keeps s)
    (hok : ∀ a s', Rigid s s' → R (ok a s') (ok' a (s'.veiled v)))
    (herror : ∀ e s', Rigid s s' → R (error e s') (error' e (s'.veiled v))) :
    R (work.andThen ok error s) (work.andThen ok' error' (s.veiled v)) := by
  have agree := Exec.behind_work unaffected keeps (.refl s)
  unfold Exec.Mirrors at agree
  unfold Exec.andThen
  generalize work (s.veiled v) = y at agree
  cases run : work s with
  | ok a s' =>
    rw [run] at agree
    obtain ⟨t, rfl, rfl, rigid⟩ := agree.of_ok
    exact hok a s' rigid
  | error e s' =>
    rw [run] at agree
    obtain ⟨t, rfl, rfl, rigid⟩ := agree.of_error
    exact herror e s' rigid

theorem get_veiled {f f' : State ν → Move ν (Control ν)}
    (h : R (f s s) (f' (s.veiled v) (s.veiled v))) :
    R ((get >>= f) s) ((get >>= f') (s.veiled v)) := h

theorem modify_veiled {f f' : State ν → State ν} {rest rest' : Move ν (Control ν)}
    (commutes : f' (s.veiled v) = (f s).veiled v)
    (h : R (rest (f s)) (rest' ((f s).veiled v))) :
    R ((do modify f; rest) s) ((do modify f'; rest') (s.veiled v)) := by
  change R (rest (f s)) (rest' (f' (s.veiled v)))
  rw [commutes]
  exact h

end Rules

section Calls

variable (heedless : library.Heedless) (shows : x.Shows v n up s)

include heedless shows

theorem invoke_tandem {k k' : Kont ν .value} (joins : k.Joins x s.current n up k') (f : NativeId)
    (operands : List Value) (isMethod : Bool) :
    Tandem x (invoke library f operands isMethod k s)
      (invoke library f operands isMethod k' (s.veiled v)) :=
  tandem_run shows (Program.ofRoutine_accords heedless ..) joins

/-- **A call** is made alike, unless it matters by what name something that cannot be called was to
be called. -/
theorem performCall_tandem (here : s.HasCurrent) {spec spec' : CallSpec}
    (recasts : x.Recasts s.current up spec spec') {f : Frame} (flags : f.flags = spec.flags)
    (address : f.returnAddress = spec.returnAddress) {k k' : Kont ν .step}
    (joins : k.Joins x s.current n (x.atop s.current up f) k')
    (named : ∀ type s', enterCall spec s = .error (.raise (.callOf type spec.name)) s' →
      spec'.name = spec.name) :
    Tandem x (performCall library spec k s) (performCall library spec' k' (s.veiled v)) := by
  obtain ⟨v', shows', same, rfl⟩ := shows.recasts recasts
  have methods : (s.dressedCall v' spec).flags.methodCall = spec.flags.methodCall := by
    unfold State.dressedCall CallSpec.asEntry
    split
    · split <;> rfl
    · rfl
  have pushes := enterCall_pushes spec here
  rw [← same]
  unfold performCall Exec.andThen
  obtain ⟨type, s', rigid, run, run'⟩ | agree := Exec.enterCall_veiled s v' spec
  · rw [run, run']
    rw [named type s' run]
    exact tandem_refused (shows'.rigid rigid) rfl (rigid.current ▸ joins)
  · unfold Exec.Mirrors at agree
    generalize enterCall (s.dressedCall v' spec) (s.veiled v') = y at agree
    cases run : enterCall spec s with
    | error e s' =>
      rw [run] at agree
      obtain ⟨t, rfl, rfl, rigid⟩ := agree.of_error
      exact tandem_refused (shows'.rigid rigid) rfl (rigid.current ▸ joins)
    | ok entered s' =>
      rw [run] at agree pushes
      obtain ⟨t, rfl, rfl⟩ := agree.of_ok
      -- the frame of the call stands now
      have stands : ∀ {g : Frame}, g.Answers spec →
          Shifted ((s.outlineOf s.current).push g) s s' →
          x.Shows v' n (x.atop s.current up g.outline) s' ∧
            k.Joins x s'.current n (x.atop s.current up g.outline) k' := by
        intro g answers shifted
        refine ⟨shows'.shift shifted (fun own => ?_) fun other =>
          ⟨Site.atop_other other _, rfl⟩, ?_⟩
        · rw [Site.atop_own own, Outline.push_frames]
          have frames := shows'.frames
          have nested := shows'.nested
          rw [← own] at frames nested
          exact ⟨congrArg (g.outline :: ·) frames, nested⟩
        · rw [shifted.current]
          have likens : f.Likens g.outline := by
            refine ⟨?_, ?_, ?_, ?_⟩ <;> simp [answers.flags, answers.returnAddress, flags, address]
          exact joins.retop likens
      cases pushes with
      | script answers native shifted =>
        obtain ⟨shows'', joins⟩ := stands answers shifted
        refine .mk shows'' ?_
        by_cases own : s'.current = x.thread
        · exact .step own .begun joins
        · exact .away own (.ok _) joins
      | @native g _ _ _ answers native shifted =>
        obtain ⟨shows'', joins⟩ := stands answers shifted
        dsimp only
        rw [methods]
        refine invoke_tandem heedless shows''
          (.native (fun own => ⟨g.outline, up, ?_, native⟩) joins) ..
        exact Site.atop_own (shifted.current ▸ own) _

/-- A function is called in a loop of its own. -/
theorem executeCall_tandem (here : s.HasCurrent) {k k' : Kont ν .step} (function : Value)
    (arguments : List Value) (flags : FrameFlags) (name : Option String)
    (joins : ∀ e : Frame, e.flags.entryPoint = true →
      (Kont.loop (mark s) 0 k).Joins x s.current n (x.atop s.current up e) (.loop (mark s) 0 k')) :
    Tandem x (executeCall library function arguments flags name k s)
      (executeCall library function arguments flags name k' (s.veiled v)) := by
  let pushed := s.modifyStack fun stack => (stack.push function).pushAll arguments
  have rigid : Rigid s pushed := rigid_modifyStack ..
  let spec : CallSpec :=
    { argc := arguments.length, returnAddress := 0, flags := flags.union { entryPoint := true },
      name }
  have entry : spec.flags.entryPoint = true := by simp [spec, FrameFlags.union]
  have same : spec.asEntry name = spec := if_pos entry
  have recasts : x.Recasts pushed.current up spec spec := by
    unfold Site.Recasts
    split
    · exact ⟨name, same.symm⟩
    · rfl
  apply get_veiled
  rw [State.mark_disguised]
  refine modify_veiled (s.modifyStack_disguised ..) ?_
  exact performCall_tandem heedless (shows.rigid rigid) (rigid.hasCurrent here) recasts
    (f := spec.frame 0 0 default) rfl rfl (joins _ entry) fun _ _ _ => rfl

/-- A call is nested in an activation. -/
theorem nest_tandem (here : s.HasCurrent) {k k' : Kont ν .value}
    (joins : k.Joins x s.current n up k') (function : Value) (arguments : List Value)
    (flags : FrameFlags) (name : Option String) :
    Tandem x
      ((do beginNested; executeCall library function arguments flags name (.nested k) :
        Move ν (Control ν)) s)
      ((do beginNested; executeCall library function arguments flags name (.nested k') :
        Move ν (Control ν)) (s.veiled v)) := by
  have begun := shifted_modifyProcessor here fun p => { p with nestedCalls := p.nestedCalls + 1 }
  have commutes :
      (s.veiled v).modifyProcessor (fun p => { p with nestedCalls := p.nestedCalls + 1 }) =
      (s.modifyProcessor fun p => { p with nestedCalls := p.nestedCalls + 1 }).veiled v :=
    s.modifyProcessorOf_disguised v.thread s.current v.disguise _ fun _ _ => rfl
  refine modify_veiled commutes ?_
  have depth :
      (mark (s.modifyProcessor fun p => { p with nestedCalls := p.nestedCalls + 1 })).frames =
      s.callDepth :=
    State.view_modifyProcessorOf s _ s.current s.current (fun p => p.frames.size) fun _ => rfl
  by_cases own : s.current = x.thread
  · have shows' := shows.shift (m := n + 1) begun (fun _ => by
      have frames := shows.frames
      have nested := shows.nested
      rw [← own] at frames nested
      exact ⟨frames, Nat.succ_le_succ nested⟩) fun other => absurd own other
    refine executeCall_tandem heedless shows' (begun.hasCurrent here) _ _ _ _ fun e entry => ?_
    rw [Site.atop_own (begun.current.trans own)]
    exact .within (begun.current.trans own) rfl (List.nil_append _).symm (fun _ => nofun) entry
      (depth.trans (shows.callDepth_eq own)) joins
  · have shows' := shows.shift (m := n) begun (fun here => absurd here own) fun _ => ⟨rfl, rfl⟩
    refine executeCall_tandem heedless shows' (begun.hasCurrent here) _ _ _ _ fun e _ => ?_
    rw [Site.atop_other (begun.current ▸ own)]
    exact .away (begun.current ▸ own) (.nested (begun.current ▸ own) joins)

omit heedless in
theorem nestedCalls_veiled : (s.veiled v).processor.nestedCalls =
    if s.current = x.thread then s.processor.nestedCalls + 1 else s.processor.nestedCalls := by
  split
  · rename_i own
    have looks := s.processorOf_veiled_own v shows.inRange
    rw [shows.thread, ← own] at looks
    exact congrArg Processor.nestedCalls looks
  · rename_i other
    exact congrArg Processor.nestedCalls (s.processorOf_veiled v (shows.thread.symm ▸ other))

/-- **A nested call** is made alike, unless too many are nested. -/
theorem callNested_tandem (here : s.HasCurrent) {k k' : Kont ν .value}
    (joins : k.Joins x s.current n up k')
    (room : s.current = x.thread → s.processor.nestedCalls + 1 < maxNestedCalls) (function : Value)
    (arguments : List Value) :
    Tandem x (callNested library function arguments k s)
      (callNested library function arguments k' (s.veiled v)) := by
  have entered : Tandem x ((do
        beginNested
        executeCall library function arguments {} none (.nested k) : Move ν (Control ν)) s) _ :=
    nest_tandem heedless shows here joins ..
  apply get_veiled
  rw [nestedCalls_veiled shows]
  by_cases own : s.current = x.thread
  · have low := room own
    rw [if_pos own, if_neg (Nat.not_le.2 low), if_neg (Nat.not_le.2 (Nat.lt_of_succ_lt low))]
    exact entered
  · rw [if_neg own]
    split
    · exact tandem_value shows (.refl _) joins
    · exact entered

theorem indexNested_tandem (here : s.HasCurrent) {k k' : Kont ν .value}
    (joins : k.Joins x s.current n up k')
    (room : s.current = x.thread → s.processor.nestedCalls + 1 < maxNestedCalls)
    (object key : Value) :
    Tandem x (indexNested library object key k s)
      (indexNested library object key k' (s.veiled v)) := by
  apply get_veiled
  rw [State.resolveIndex_congr (s.world_disguised v.thread v.disguise)]
  cases s.resolveIndex key State.maxChain object with
  | error e => exact tandem_value shows (.refl _) joins
  | ok found =>
    cases found with
    | value w => exact tandem_value shows (.refl _) joins
    | call handler receiver => exact callNested_tandem heedless shows here (.collapse joins) room ..

end Calls

section Results

variable (shows : x.Shows v n up s)

include shows

/-- A result is handed to the caller of a frame. -/
theorem deliver_tandem {f f' : Frame} (garbs : x.Garbs s.current up f f') (w : Value)
    {k k' : Kont ν .step} (joins : k.Joins x s.current n (x.atop s.current up f) k') :
    Tandem x (deliver f.flags f.returnAddress w k s)
      (deliver f'.flags f'.returnAddress w k' (s.veiled v)) := by
  unfold deliver
  by_cases inlined : (s.current = x.thread ∧ up = []) ∧ f.flags.entryPoint = false
  · obtain ⟨⟨own, rfl⟩, inner⟩ := inlined
    obtain ⟨name, rfl⟩ : ∃ name, f' = f.asEntry name := by
      unfold Site.Garbs at garbs
      rwa [if_pos ⟨own, rfl⟩] at garbs
    rw [Site.atop_own own] at joins
    have takes := joins.takes rfl own rfl inner
    have entry : (f.asEntry name).flags = f.flags.asEntry := by simp [Frame.asEntry, inner]
    rw [entry, inner, takes.scalar, takes.keeps, takes.address]
    exact .returning shows own inner takes joins
  · obtain rfl : f' = f := by
      unfold Site.Garbs at garbs
      split at garbs
      · rename_i bare
        obtain ⟨name, rfl⟩ := garbs
        exact if_pos (Bool.eq_true_of_not_eq_false fun inner => inlined ⟨bare, inner⟩)
      · exact garbs
    generalize (if f'.flags.scalarResult then w.scalar else w) = w
    dsimp only
    by_cases own : s.current = x.thread
    · rw [Site.atop_own own] at joins
      split
      · rename_i entry
        exact .mk shows (.step own (.returned entry) joins)
      · rename_i inner
        have inner : f'.flags.entryPoint = false := Bool.eq_false_of_not_eq_true inner
        have some : up ≠ [] := fun bare => inlined ⟨⟨own, bare⟩, inner⟩
        split
        · refine modify_veiled (s.modifyStack_disguised ..)
            (.mk (shows.rigid (rigid_modifyStack ..)) ?_)
          exact .step own (.landed inner some) joins
        · exact .mk shows (.step own (.landed inner some) joins)
    · rw [Site.atop_other own] at joins
      split
      · exact .mk shows (.away own (.ok _) joins)
      · split
        · refine modify_veiled (s.modifyStack_disguised ..)
            (.mk (shows.rigid (rigid_modifyStack ..)) ?_)
          exact .away own (.ok _) joins
        · exact .mk shows (.away own (.ok _) joins)

end Results

section Requests

variable (heedless : library.Heedless) (shows : x.Shows v n up s)

/-- A frame looks other in its name and in how it was entered at most. -/
theorem Garbs.handlers {f f' : Frame} (garbs : x.Garbs c up f f') : f'.handlers = f.handlers := by
  unfold Site.Garbs at garbs
  split at garbs
  · obtain ⟨name, rfl⟩ := garbs
    unfold Frame.asEntry
    split <;> rfl
  · rw [garbs]

theorem Garbs.disarmed {f f' : Frame} (garbs : x.Garbs c up f f') :
    x.Garbs c up (disarmed f) (disarmed f') := by
  unfold Site.Garbs at *
  split at garbs
  · rename_i bare
    rw [if_pos bare]
    obtain ⟨name, rfl⟩ := garbs
    refine ⟨name, ?_⟩
    by_cases entry : f.flags.entryPoint = true <;> simp [Machine.disarmed, Frame.asEntry, entry]
  · rename_i stands
    rw [if_neg stands, garbs]

theorem Garbs.inherited {f f' : Frame} (garbs : x.Garbs c up f f') :
    x.Garbs c up { Machine.disarmed f with flags := f.flags.inherited }
      { Machine.disarmed f' with flags := f'.flags.inherited } := by
  unfold Site.Garbs at *
  split at garbs
  · rename_i bare
    rw [if_pos bare]
    obtain ⟨name, rfl⟩ := garbs
    refine ⟨name, ?_⟩
    by_cases entry : f.flags.entryPoint = true <;>
      simp [Machine.disarmed, Frame.asEntry, entry, FrameFlags.inherited, FrameFlags.inter,
        FrameFlags.inheritable, FrameFlags.asEntry]
  · rename_i stands
    rw [if_neg stands, garbs]

theorem Garbs.requests {f f' : Frame} (garbs : x.Garbs c up f f') (request : TailCall) :
    x.Recasts c up (requestedCall f request) (requestedCall f' request) := by
  have handlers := Garbs.handlers garbs
  unfold Site.Garbs at garbs
  unfold Site.Recasts
  split at garbs
  · rename_i bare
    rw [if_pos bare]
    obtain ⟨name, rfl⟩ := garbs
    refine ⟨name, ?_⟩
    by_cases entry : f.flags.entryPoint = true <;>
      simp [requestedCall, effective, Frame.asEntry, CallSpec.asEntry, entry, FrameFlags.inherited,
        FrameFlags.inter, FrameFlags.inheritable, FrameFlags.asEntry]
  · rename_i stands
    rw [if_neg stands, garbs]

theorem likens_inherited (f : Frame) :
    f.Likens { Machine.disarmed f with flags := f.flags.inherited } := by
  refine ⟨?_, ?_, ?_, rfl⟩ <;>
    simp [FrameFlags.inherited, FrameFlags.inter, FrameFlags.inheritable]

include heedless shows

/-- **A request** is acted on alike, unless it matters by what name something that cannot be called
was to be called. -/
theorem performTailRequest_tandem (here : s.HasCurrent) {f f' : Frame}
    (garbs : x.Garbs s.current up f f') (request : TailCall) {k k' : Kont ν .step}
    (joins : k.Joins x s.current n (x.atop s.current up f) k')
    (named : s.current = x.thread → up = [] → ∀ type name k₁,
      (performTailRequest library f request k s).1 ≠
        .step (.error (.raise (.callOf type name))) k₁) :
    Tandem x (performTailRequest library f request k s)
      (performTailRequest library f' request k' (s.veiled v)) := by
  have handlers := Garbs.handlers garbs
  by_cases once : f.handlers.isEmpty = true ∨ request.handlers.isEmpty = true
  · have once' : f'.handlers.isEmpty = true ∨ request.handlers.isEmpty = true := by
      rwa [handlers]
    rw [performTailRequest_once k once] at named ⊢
    rw [performTailRequest_once k' once']
    have rigid : Rigid s (pushedFor request s) := rigid_modifyStack ..
    have pushed : pushedFor request (s.veiled v) = (pushedFor request s).veiled v :=
      s.modifyStack_disguised ..
    have effects : effective f' request = effective f request := by
      unfold effective
      rw [handlers]
    let g : Frame := { Machine.disarmed f with flags := f.flags.inherited }
    have joins : k.Joins x s.current n (x.atop s.current up g) k' :=
      joins.retop (likens_inherited f)
    have waits : (guarded (effective f request) f (mark s) k).Joins x s.current n
        (x.atop s.current up g) (guarded (effective f request) f' (mark s) k') := by
      unfold guarded
      split
      · refine .protect (fun own => ?_) (fun other => ?_) joins
        · exact ⟨g, up, Site.atop_own own g, .refl g, shows.callDepth_eq own, Garbs.inherited garbs⟩
        · unfold Site.Garbs at garbs
          rw [if_neg fun both => other both.1] at garbs
          rw [garbs]
      · exact joins
    rw [pushed, effects, State.mark_disguised]
    refine performCall_tandem heedless (shows.rigid rigid) (rigid.hasCurrent here)
      (Garbs.requests garbs request) (f := g) rfl rfl waits fun type s' run => ?_
    by_cases bare : s.current = x.thread ∧ up = []
    · refine absurd ?_
        (named bare.1 bare.2 type f.name (guarded (effective f request) f (mark s) k))
      unfold performCall Exec.andThen
      rw [run]
      rfl
    · unfold Site.Garbs at garbs
      rw [if_neg bare] at garbs
      rw [garbs]
  · obtain ⟨armed, again⟩ := not_or.1 once
    have armed := Bool.eq_false_of_not_eq_true armed
    have again := Bool.eq_false_of_not_eq_true again
    rw [performTailRequest_twice k armed again,
      performTailRequest_twice k' (handlers ▸ armed) again]
    exact tandem_refused shows rfl joins

end Requests

section Suspending

variable (shows : x.Shows v n up s) {k k' : Kont ν .step} {f f' : Frame}

theorem asyncMode_veiled : (s.veiled v).processor.asyncMode = s.processor.asyncMode :=
  State.view_modifyProcessorOf s _ v.thread s.current Processor.asyncMode fun _ => rfl

/-- Waiting for a task, once the request is taken. -/
theorem handleAwait_taken {r : RequestId} {task : Task} {heap : Heap}
    (taken : s.heap.takeTask r = .ok (task, heap)) (f : Frame) (k : Kont ν .step) :
    handleAwait f r k s =
      (if s.processor.asyncMode && s.processor.nestedCalls == 0 then suspendOn f (.await task) k
      else if s.options.autoAwait then return .await task (.finish f k)
      else return .step (.error (.raise .awaitInSynchronousCall)) k : Move ν (Control ν))
        (s.setHeap heap) := by
  unfold handleAwait
  simp only [bind, StateT.bind, get, getThe, MonadStateOf.get, StateT.get, pure, taken]
  rfl

theorem handleAwait_untaken {r : RequestId} {e : Fault} (missing : s.heap.takeTask r = .error e)
    (f : Frame) (k : Kont ν .step) : handleAwait f r k s = (.step (.error e) k, s) := by
  unfold handleAwait
  simp only [bind, StateT.bind, get, getThe, MonadStateOf.get, StateT.get, pure, missing]
  rfl

include shows

/-- Another thread is suspended. -/
theorem suspendOn_tandem (here : s.HasCurrent) (other : s.current ≠ x.thread)
    (joins : k.Joins x s.current n up k') (reason : Suspension) :
    Tandem x (suspendOn f reason k s) (suspendOn f reason k' (s.veiled v)) := by
  have paused := shifted_modifyProcessor here fun p => { p with pending := some (.deliver f, {}) }
  have shows' : x.Shows v n up _ :=
    shows.shift paused (fun own => absurd own other) fun _ => ⟨rfl, rfl⟩
  rw [← paused.current] at other joins
  exact modify_veiled (s.modifyProcessorOf_disguised v.thread s.current v.disguise _
    fun same => absurd (same.trans shows.thread) other) (.mk shows' (.away other (.ok _) joins))

/-- **A yield** is refused alike, or suspends another thread. -/
theorem suspendForYield_tandem (here : s.HasCurrent) (garbs : x.Garbs s.current up f f')
    (joins : k.Joins x s.current n (x.atop s.current up f) k') (values : List Value)
    (calm : s.current = x.thread → ∀ reason k₁,
      (suspendForYield f values k s).1 ≠ .step (.ok (.suspend reason)) k₁) :
    Tandem x (suspendForYield f values k s) (suspendForYield f' values k' (s.veiled v)) := by
  have nested := nestedCalls_veiled shows
  have inside : (s.veiled v).inCoroutine = s.inCoroutine := rfl
  unfold suspendForYield at calm ⊢
  apply get_veiled
  rw [inside, nested]
  cases coroutine : s.inCoroutine with
  | false => exact tandem_refused shows rfl joins
  | true =>
    by_cases own : s.current = x.thread
    · have busy : 0 < s.processor.nestedCalls := by
        refine Nat.pos_of_ne_zero fun none => ?_
        refine absurd ?_ (calm own (.yield (Value.ofList values)) k)
        simp only [bind, StateT.bind, get, getThe, MonadStateOf.get, StateT.get, pure,
          coroutine, none, Bool.not_true, Bool.false_eq_true, if_false, Nat.lt_irrefl]
        rfl
      rw [if_pos own]
      simp only [Bool.not_true, Bool.false_eq_true, if_false, if_pos busy, if_pos (Nat.succ_pos _)]
      exact tandem_refused shows rfl joins
    · rw [if_neg own]
      have same : f' = f := by
        unfold Site.Garbs at garbs
        rwa [if_neg fun both => own both.1] at garbs
      rw [same]
      simp only [Bool.not_true, Bool.false_eq_true, if_false]
      split
      · exact tandem_refused shows rfl joins
      · rw [Site.atop_other own] at joins
        exact suspendOn_tandem shows here own joins _

/-- **A task** is waited for on the spot, or another thread is suspended for it. -/
theorem handleAwait_tandem (here : s.HasCurrent) (garbs : x.Garbs s.current up f f')
    (joins : k.Joins x s.current n (x.atop s.current up f) k') (request : RequestId)
    (calm : s.current = x.thread → ∀ reason k₁,
      (handleAwait f request k s).1 ≠ .step (.ok (.suspend reason)) k₁) :
    Tandem x (handleAwait f request k s) (handleAwait f' request k' (s.veiled v)) := by
  have nested := nestedCalls_veiled shows
  have heap : (s.veiled v).heap = s.heap := rfl
  cases taken : s.heap.takeTask request with
  | error e =>
    rw [handleAwait_untaken taken, handleAwait_untaken (heap ▸ taken)]
    exact tandem_refused shows rfl joins
  | ok found =>
    obtain ⟨task, heap'⟩ := found
    rw [handleAwait_taken taken] at calm ⊢
    rw [handleAwait_taken (heap ▸ taken), nested, asyncMode_veiled, State.options_disguised]
    have rigid : Rigid s (s.setHeap heap') := rigid_of_eq rfl
    have shows := shows.rigid rigid
    have waits : Tandem x
        ((if s.options.autoAwait then return .await task (.finish f k)
          else return .step (.error (.raise .awaitInSynchronousCall)) k : Move ν (Control ν))
            (s.setHeap heap'))
        ((if s.options.autoAwait then return .await task (.finish f' k')
          else return .step (.error (.raise .awaitInSynchronousCall)) k' : Move ν (Control ν))
            ((s.setHeap heap').veiled v)) := by
      split
      · exact .mk shows (.await (.finish garbs joins))
      · exact tandem_refused shows rfl joins
    by_cases own : s.current = x.thread
    · have calm := calm own (.await task) k
      rw [if_pos own]
      by_cases async : (s.processor.asyncMode && s.processor.nestedCalls == 0) = true
      · rw [if_pos async] at calm
        exact absurd rfl calm
      · rw [if_neg async]
        simp only [Nat.add_eq_zero_iff, Nat.succ_ne_self, and_false, beq_iff_eq, Bool.and_eq_true,
          if_false]
        exact waits
    · have same : f' = f := by
        unfold Site.Garbs at garbs
        rwa [if_neg fun both => own both.1] at garbs
      rw [same] at waits ⊢
      rw [if_neg own]
      split
      · rw [Site.atop_other own] at joins
        exact suspendOn_tandem shows (rigid.hasCurrent here) own joins _
      · exact waits

end Suspending

section Finishing

variable (heedless : library.Heedless) (shows : x.Shows v n up s) {k k' : Kont ν .step}
  {f f' : Frame}

include heedless shows

/-- A result that is no request is handed to the continuation or to the caller. -/
theorem finishPlain_tandem (garbs : x.Garbs s.current up f f')
    (joins : k.Joins x s.current n (x.atop s.current up f) k') (w : Value) :
    Tandem x
      ((match f.handlers.continuation with
        | some r => invoke library r w.items false (.finish (disarmed f) k)
        | none => deliver f.flags f.returnAddress w k : Move ν (Control ν)) s)
      ((match f'.handlers.continuation with
        | some r => invoke library r w.items false (.finish (disarmed f') k')
        | none => deliver f'.flags f'.returnAddress w k' : Move ν (Control ν)) (s.veiled v)) := by
  rw [Garbs.handlers garbs]
  cases f.handlers.continuation with
  | none => exact deliver_tandem shows garbs w joins
  | some r =>
    have likens : f.Likens (disarmed f) := ⟨rfl, rfl, rfl, rfl⟩
    exact invoke_tandem heedless shows (.finish (Garbs.disarmed garbs) (joins.retop likens)) ..

/-- **A result** is handed on alike, or acted on if it is a request. -/
theorem finishFrame_tandem (here : s.HasCurrent) (garbs : x.Garbs s.current up f f')
    (joins : k.Joins x s.current n (x.atop s.current up f) k') (w : Value) (fromNative : Bool)
    (calm : s.current = x.thread → ∀ reason k₁,
      (finishFrame library f w fromNative k s).1 ≠ .step (.ok (.suspend reason)) k₁)
    (named : s.current = x.thread → up = [] → ∀ r, w = .tailCall r → ∀ type name k₁,
      (finishFrame library f w fromNative k s).1 ≠
        .step (.error (.raise (.callOf type name))) k₁) :
    Tandem x (finishFrame library f w fromNative k s)
      (finishFrame library f' w fromNative k' (s.veiled v)) := by
  have plain := finishPlain_tandem heedless shows garbs joins w
  cases fromNative with
  | false => exact plain
  | true =>
    cases w with
    | tailCall r =>
      exact performTailRequest_tandem heedless shows here garbs (s.heap.tailCall r) joins
        fun own bare => named own bare r rfl
    | yield r => exact suspendForYield_tandem shows here garbs joins _ calm
    | await r => exact handleAwait_tandem shows here garbs joins r calm
    | _ => exact plain

end Finishing

end Machine

end ScriptMachine
