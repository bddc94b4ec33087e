import ScriptMachine.Proofs.Machine.Threading

/-!
# An inlined handler runs as in a loop of its own

A handler that an instruction calls in its own loop does what it would do in a loop of its own, step
by step, until it has its result or fails.

* `Site.Smooth`: what is known of a moment.
* `handValue_carriesOn`, `handStep_own`, `handStep_away`, `execute_carriesOn`: the kinds of steps.
* `advance_carriesOn`: one step. `iterate_carriesOn`: a run.
-/

namespace ScriptMachine

variable {ν α : Type} {library : Library ν} {M : Manner library} {x : Site ν} {n : Nat}
  {up : List Frame} {s s' : State ν} {v : Veil}

/-- An error without a place that reaches a loop has a script function of the handler below it, or
goes straight to the loop of the instruction. -/
def Site.Locates (x : Site ν) (e : ScriptError) (mark : Mark) (s : State ν) : Prop :=
  ∃ up, s.framesOf x.thread = up ++ x.low ∧ ((∃ f ∈ up, f.isNative = false) ∨
    mark = x.mark ∧ e.settled = false ∧
      ∀ f ∈ up, f.handlers.errorHandler = none ∧ f.handlers.decorator = none)

/-- What is known of a moment at which the handler's thread runs: it is not suspended, there is room
for one nested call more, the handler's first call is not replaced by one of something that cannot
be called, and errors can be attributed to a function of the handler unless they go straight to the
loop of the instruction. -/
structure Site.Smooth (library : Library ν) (x : Site ν) (control : Control ν) (s : State ν) :
    Prop where
  calm : s.current = x.thread → ∀ reason k,
    (Machine.advance library control s).1 ≠ .step (.ok (.suspend reason)) k
  room : s.current = x.thread → s.processor.nestedCalls + 1 < Machine.maxNestedCalls
  unseen : ∀ query next k, control = .run (.ask query next) k → x.Unseen query s
  named : s.current = x.thread → s.callDepth ≤ x.depth + 1 → ∀ r k,
    control = .value (.ok (.tailCall r)) k → ∀ type name l,
      (Machine.advance library control s).1 ≠ .step (.error (.raise (.callOf type name))) l
  located : s.current = x.thread → ∀ e mark ip k,
    control = .step (.error (.script e)) (.loop mark ip k) → e.isDecorated = false →
      x.Locates e mark s

namespace Kont.Joins

variable {c : ThreadId} {mark mark' : Mark} {ip : Nat} {k k' : Kont ν .step}

/-- A frame is put above those of the loop. -/
theorem mount (h : (Kont.loop mark ip k).Joins x c n up (.loop mark' ip k')) {f : Frame}
    (inner : f.flags.entryPoint = false) :
    (Kont.loop mark ip k).Joins x c n (x.atop c up f) (.loop mark' ip k') := by
  by_cases own : c = x.thread
  · rw [Site.atop_own own]
    cases h with
    | away other => exact absurd own other
    | @within _ _ _ _ js _ _ _ _ _ _ _ count split inside entry depth joins =>
      have split : f :: up = f :: js ++ _ := congrArg (f :: ·) split
      refine .within own count split (fun j member => ?_) entry depth joins
      obtain rfl | member := List.mem_cons.1 member
      · exact inner
      · exact inside j member
    | @base _ _ _ us _ _ _ _ _ _ _ _ zero hm hm' hk hk' split inside takes _ =>
      have split : f :: up = f :: us ++ [_] := congrArg (f :: ·) split
      refine .base own zero hm hm' hk hk' split (fun j member => ?_) takes (.inl rfl)
      obtain rfl | member := List.mem_cons.1 member
      · exact inner
      · exact inside j member
  · rw [Site.atop_other own]
    exact h

/-- A frame of the handler stands in its loop. -/
theorem stands (h : (Kont.loop mark ip k).Joins x c n up (.loop mark' ip k'))
    (own : c = x.thread) : up ≠ [] := by
  cases h with
  | away other => exact absurd own other
  | within _ _ split => simp [split]
  | base _ _ _ _ _ _ split => simp [split]

end Kont.Joins

namespace Machine

/-! ## Values -/

theorem popFrame_of_dropFrame {f : Frame} (run : dropFrame s = (some f, s')) :
    Exec.popFrame s = .ok f s' := by
  unfold dropFrame at run
  split at run
  · rename_i popped
    cases run
    exact popped
  · cases run

theorem popFrame_of_dropFrame_none (run : dropFrame s = (none, s)) :
    Exec.popFrame s = .error (.defect .executionUnderflow) s := by
  obtain ⟨-, popped⟩ | ⟨f, s', rest, popped, -⟩ := Exec.popFrame_cases s
  · exact popped
  · have dropped : dropFrame s = (some f, s') := by simp only [dropFrame, popped]
    cases run.symm.trans dropped

theorem handValue_native {w : Value} {f : Frame} (k : Kont ν .step)
    (run : Exec.popFrame s = .ok f s') :
    handValue library (.ok w) (.native k) s = finishFrame library f w true k s' := by
  change (Exec.popFrame.andThen _ _ : Move ν (Control ν)) s = _
  rw [Exec.andThen, run]

theorem handValue_native_none {w : Value} {e : Fault} (k : Kont ν .step)
    (run : Exec.popFrame s = .error e s') :
    handValue library (.ok w) (.native k) s = (.step (.error e) k, s') := by
  change (Exec.popFrame.andThen _ _ : Move ν (Control ν)) s = _
  rw [Exec.andThen, run]
  rfl

/-- What a decorator makes of an error does not depend on its trace. -/
theorem applyDecorator_concurs {r r' : Except Fault Value} (concurs : Concurs r r') (h : Heap)
    (e : ScriptError) (trace : List TraceEntry) :
    applyDecorator h { e with trace } r' = { applyDecorator h e r with trace } := by
  cases concurs <;> rfl

section Values

variable (heedless : library.Heedless) (shows : x.Shows v n up s)

include heedless shows

/-- A native function of the handler's thread has its result. -/
theorem handValue_native_own (own : s.current = x.thread) {f : Frame} {us : List Frame}
    (split : up = f :: us) {k k' : Kont ν .step} (joins : k.Joins x s.current n up k') {w : Value}
    (smooth : x.Smooth library (.value (.ok w) (.native k)) s) :
    Tandem x (handValue library (.ok w) (.native k) s)
      (handValue library (.ok w) (.native k') (s.veiled v)) := by
  obtain ⟨g, s', rfl, popped⟩ := popped_own shows own split
  have run : handValue library (.ok w) (.native k) s = _ :=
    handValue_native k (popFrame_of_dropFrame popped.run)
  have calm : ∀ reason l, (handValue library (.ok w) (.native k) s).1 ≠
      .step (.ok (.suspend reason)) l := smooth.calm own
  have named : us = [] → ∀ r, w = .tailCall r → ∀ type name l,
      (handValue library (.ok w) (.native k) s).1 ≠
        .step (.error (.raise (.callOf type name))) l := by
    rintro rfl r rfl
    refine smooth.named own ?_ r _ rfl
    rw [shows.callDepth_eq own, split, Nat.add_comm]
    exact Nat.le_refl _
  rw [run] at calm named
  rw [run, handValue_native k' (popFrame_of_dropFrame popped.veiled)]
  have likens : g.outline.Likens g := ⟨rfl, rfl, rfl, rfl⟩
  have joins := joins.retop_own rfl own likens split
  refine finishFrame_tandem heedless popped.shows popped.here (popped.shows.garbs g) ?_ w true
    (fun _ => calm) fun _ => named
  rw [popped.current, Site.atop_own own]
  exact joins

/-- A native function of another thread has its result. -/
theorem handValue_native_other (other : s.current ≠ x.thread) {k k' : Kont ν .step}
    (joins : k.Joins x s.current n up k') (w : Value) :
    Tandem x (handValue library (.ok w) (.native k) s)
      (handValue library (.ok w) (.native k') (s.veiled v)) := by
  obtain ⟨run, run'⟩ | ⟨g, s', popped⟩ := popped_other shows other
  · rw [handValue_native_none k (popFrame_of_dropFrame_none run),
      handValue_native_none k' (popFrame_of_dropFrame_none run')]
    exact .mk shows (.away other (.error rfl) joins)
  · rw [handValue_native k (popFrame_of_dropFrame popped.run),
      handValue_native k' (popFrame_of_dropFrame popped.veiled)]
    rw [← popped.current] at other joins
    refine finishFrame_tandem heedless popped.shows popped.here (popped.shows.garbs g) ?_ w true
      (fun own => absurd own other) fun own => absurd own other
    rw [Site.atop_other other]
    exact joins

omit heedless in
/-- What an instruction waits for inside it comes. -/
theorem handValue_instruction {r r' : Except Fault Value} (concurs : Concurs r r') {after : After}
    {ip : Nat} {mark mark' : Mark} {k k' : Kont ν .step}
    (joins : (Kont.loop mark ip k).Joins x s.current n up (.loop mark' ip k')) :
    Tandem x (handValue library r (.instruction after ip (.loop mark ip k)) s)
      (handValue library r' (.instruction after ip (.loop mark' ip k')) (s.veiled v)) := by
  have failed : ∀ {e e' : Fault} {t : State ν}, e.untraced = e'.untraced → Rigid s t →
      Tandem x (.step (.error e) (.loop mark ip k), t)
        (.step (.error e') (.loop mark' ip k'), t.veiled v) := by
    intro e e' t same rigid
    rw [← rigid.current] at joins
    refine .mk (shows.rigid rigid) ?_
    by_cases own : t.current = x.thread
    · exact .step own (.worked same) joins
    · exact .away own (.error same) joins
  cases concurs with
  | error same => exact failed same (.refl s)
  | ok w =>
    refine andThen_veiled (R := Tandem x) (Exec.unaffected_finishNested after w)
      (Exec.keeps_finishNested after w) (fun _ t rigid => ?_) fun e t rigid => failed rfl rigid
    rw [← rigid.current] at joins
    refine .mk (shows.rigid rigid) ?_
    by_cases own : t.current = x.thread
    · exact .step own .begun joins
    · exact .away own (.ok _) joins

/-- **A value** is handed on alike. -/
theorem handValue_carriesOn {r r' : Except Fault Value} {k k' : Kont ν .value}
    (ready : (Control.value r k).Ready s) (smooth : x.Smooth library (.value r k) s)
    (concurs : Concurs r r') (joins : k.Joins x s.current n up k') :
    CarriesOn library x (handValue library r k s) (handValue library r' k' (s.veiled v)) := by
  cases joins with
  | routine accords joins => exact .inl (tandem_run shows (accords _ _ concurs) joins)
  | native calls joins =>
    refine .inl ?_
    by_cases own : s.current = x.thread
    · obtain ⟨f, us, split, native⟩ := calls own
      cases concurs with
      | error same => exact .mk shows (.step own (.failed same split native) joins)
      | ok w => exact handValue_native_own heedless shows own split joins smooth
    · cases concurs with
      | error same => exact .mk shows (.away own (.error same) joins)
      | ok w => exact handValue_native_other heedless shows own joins w
  | finish garbs joins =>
    refine .inl ?_
    cases concurs with
    | error same => exact tandem_refused shows same joins
    | ok w =>
      refine finishFrame_tandem heedless shows ready garbs joins w true smooth.calm
        fun own bare r tail => ?_
      subst bare tail
      refine smooth.named own ?_ r _ rfl
      rw [shows.callDepth_eq own, List.length_nil, Nat.zero_add]
      exact Nat.le_succ _
  | instruction joins => exact .inl (handValue_instruction shows concurs joins)
  | @decorator _ _ _ _ e _ others others' caught caught' mark mark' ip k k' same frames polls
      joins =>
    obtain ⟨trace, same⟩ := Fault.untraced_script same
    obtain rfl := Fault.script.inj same
    change CarriesOn library x
      (runDecorators library (applyDecorator s.heap e r) caught mark k others s)
      (runDecorators library (applyDecorator s.heap { e with trace } r') caught' mark' k' others'
        (s.veiled v))
    rw [applyDecorator_concurs concurs]
    exact runDecorators_carriesOn heedless ready shows smooth.room joins frames _ trace polls
  | collapse joins => exact .inl (tandem_value shows (concurs.map _) joins)
  | method joins =>
    cases concurs with
    | error same => exact .inl (tandem_value shows (.error same) joins)
    | ok w => exact .inl (nest_tandem heedless shows ready joins ..)
  | exit joins =>
    exact .inl (modify_veiled (f := fun s => { s with entries := s.entries - 1 }) rfl
      (tandem_value (s := { s with entries := s.entries - 1 }) (shows_of_eq shows rfl) concurs
        joins))
  | @task _ d _ _ k k' other joins =>
    exact .inl (modify_veiled (f := fun s => { s with current := d }) rfl
      (resumePending_tandem (s := { s with current := d }) heedless (shows_of_eq shows rfl) ready
        other concurs true joins))

end Values

/-! ## Steps -/

/-- A call that was nested in the handler ends. -/
theorem endNested_veiled {m : Nat} (shows : x.Shows v (m + 1) up s) (own : s.current = x.thread) :
    (s.veiled v).modifyProcessor (fun p => { p with nestedCalls := p.nestedCalls - 1 }) =
        (s.modifyProcessor fun p => { p with nestedCalls := p.nestedCalls - 1 }).veiled v ∧
      x.Shows v m up (s.modifyProcessor fun p => { p with nestedCalls := p.nestedCalls - 1 }) := by
  have here : s.HasCurrent := by
    have inRange := shows.inRange
    rw [shows.thread, ← own] at inRange
    exact inRange
  have nested := shows.nested
  have frames := shows.frames
  rw [← own] at nested frames
  refine ⟨?_, ?_⟩
  · have some : 1 ≤ (s.processorOf s.current).nestedCalls :=
      Nat.le_trans (Nat.succ_le_succ (Nat.zero_le m)) nested
    have changed : (s.modifyProcessorOf s.current v.disguise.apply).modifyProcessorOf s.current
          (fun p => { p with nestedCalls := p.nestedCalls - 1 }) =
        (s.modifyProcessorOf s.current fun p =>
          { p with nestedCalls := p.nestedCalls - 1 }).modifyProcessorOf s.current
            v.disguise.apply := by
      rw [State.modifyProcessorOf_twice, State.modifyProcessorOf_twice]
      refine s.modifyProcessorOf_congr ?_
      simp only [Veil.disguise, Processor.mk.injEq, true_and, and_true]
      omega
    unfold State.veiled
    rw [shows.thread, ← own]
    exact changed
  · have ended := shifted_modifyProcessor here fun p => { p with nestedCalls := p.nestedCalls - 1 }
    exact shows.shift ended (fun _ => ⟨frames, Nat.le_sub_one_of_lt nested⟩)
      fun other => absurd own other

section Steps

variable (heedless : library.Heedless) (shows : x.Shows v n up s)

include heedless shows

/-- The handler of a request runs, where no frame stands for the call. -/
theorem protect_tandem {f f' : Frame} (garbs : x.Garbs s.current up f f') {k k' : Kont ν .step}
    (joins : k.Joins x s.current n (x.atop s.current up f) k') (handler : NativeId) (mark : Mark)
    (e : ScriptError) (trace : List TraceEntry) (depth : s.callDepth = mark.frames) :
    Tandem x (handStep library (.error (.script e)) (.protect f handler mark k) s)
      (handStep library (.error (.script { e with trace })) (.protect f' handler mark k')
        (s.veiled v)) := by
  have fires : ∀ {t : State ν} (e : ScriptError) (f : Frame) (k : Kont ν .step),
      t.callDepth = mark.frames →
      handStep library (.error (.script e)) (.protect f handler mark k) t =
        invoke library handler [messageValue e] false (.finish f k)
          (t.modifyStack (·.truncate mark.stack)) := by
    intro t e f k depth
    change (if t.callDepth = mark.frames then _ else _ : Move ν (Control ν)) t = _
    rw [if_pos depth]
    rfl
  rw [fires e f k depth, fires _ f' k' (s.callDepth_disguised v.thread v.disguise ▸ depth),
    s.modifyStack_disguised]
  exact invoke_tandem heedless (shows.rigid (rigid_modifyStack ..)) (.finish garbs joins) ..

omit heedless shows in
/-- A guard lets through what is no error, and what comes where a frame stands. -/
theorem protect_passes {r : Except Fault Step} {f : Frame} {handler : NativeId} {mark : Mark}
    {k : Kont ν .step} (passes : ∀ e, r = .error (.script e) → s.callDepth ≠ mark.frames) :
    handStep library r (.protect f handler mark k) s = (.step r k, s) := by
  cases r with
  | ok o => rfl
  | error e =>
    cases e with
    | script e =>
      change (if s.callDepth = mark.frames then _ else _ : Move ν (Control ν)) s = _
      rw [if_neg (passes e rfl)]
      rfl
    | _ => rfl

omit heedless in
/-- Another thread ends a nested call. -/
theorem nested_tandem (here : s.HasCurrent) (other : s.current ≠ x.thread)
    {r r' : Except Fault Step} (concurs : Concurs r r') {k k' : Kont ν .value}
    (joins : k.Joins x s.current n up k') :
    Tandem x (handStep library r (.nested k) s)
      (handStep library r' (.nested k') (s.veiled v)) := by
  have ended := shifted_modifyProcessor here fun p => { p with nestedCalls := p.nestedCalls - 1 }
  refine modify_veiled (s.modifyProcessorOf_disguised v.thread s.current v.disguise _
    fun same => absurd (same.trans shows.thread) other) ?_
  have shows := shows.shift ended (fun own => absurd own other) fun _ => ⟨rfl, rfl⟩
  rw [← ended.current] at joins
  exact tandem_value shows concurs.expectReturn joins

omit heedless in
/-- Another thread ends an asynchronous call, or waits for a task. -/
theorem drive_tandem (here : s.HasCurrent) (other : s.current ≠ x.thread)
    {r r' : Except Fault Step} (concurs : Concurs r r') (previous : Bool) {k k' : Kont ν .value}
    (joins : k.Joins x s.current n up k') :
    Tandem x (handStep library r (.drive previous k) s)
      (handStep library r' (.drive previous k') (s.veiled v)) := by
  have ended := shifted_modifyProcessor here fun p => { p with asyncMode := previous }
  have ends : Tandem x
      ((do setAsync previous; return .value (expectReturn r) k : Move ν (Control ν)) s)
      ((do setAsync previous; return .value (expectReturn r') k' : Move ν (Control ν))
        (s.veiled v)) := by
    refine modify_veiled (s.modifyProcessorOf_disguised v.thread s.current v.disguise _
      fun same => absurd (same.trans shows.thread) other) ?_
    have shows := shows.shift ended (fun own => absurd own other) fun _ => ⟨rfl, rfl⟩
    rw [← ended.current] at joins
    exact tandem_value shows concurs.expectReturn joins
  cases concurs with
  | error same => exact ends
  | ok o =>
    cases o with
    | proceed next => exact ends
    | «return» w => exact ends
    | suspend reason =>
      cases reason with
      | await task => exact .mk shows (.await (.task other (.drive other joins)))
      | yield w => exact ends
      | forced => exact ends

/-- **A step of another thread** is handed on alike. -/
theorem handStep_away (here : s.HasCurrent) (other : s.current ≠ x.thread)
    {r r' : Except Fault Step} (concurs : Concurs r r') {k k' : Kont ν .step}
    (joins : k.Joins x s.current n up k') :
    CarriesOn library x (handStep library r k s) (handStep library r' k' (s.veiled v)) := by
  have onward : ∀ {k k' : Kont ν .step} {r r' : Except Fault Step}, Concurs r r' →
      k.Joins x s.current n up k' → CarriesOn library x (.step r k, s) (.step r' k', s.veiled v) :=
    fun concurs joins => .inl (.mk shows (.away other concurs joins))
  cases joins with
  | away _ joins =>
    cases concurs with
    | error same =>
      refine unwind_carriesOn heedless here shows (fun own => absurd own other) (.away other joins)
        (.inl rfl) same fun own => absurd own other
    | ok o =>
      cases o with
      | proceed next => exact .inl (.mk shows (.execute (.away other joins)))
      | «return» w => exact onward (.ok _) joins
      | suspend reason => exact onward (.ok _) joins
  | within own => exact absurd own other
  | base own => exact absurd own other
  | @protect _ _ _ f f' handler mark k k' guards apart joins =>
    obtain rfl := apart other
    by_cases fires : ∃ e, r = .error (.script e) ∧ s.callDepth = mark.frames
    · obtain ⟨e, rfl, depth⟩ := fires
      cases concurs with
      | error same =>
        obtain ⟨trace, rfl⟩ := Fault.untraced_script same
        have garbs : x.Garbs s.current up f' f' := by
          unfold Site.Garbs
          rw [if_neg fun both => other both.1]
        have apart : x.atop s.current up f' = up := Site.atop_other other f'
        rw [← apart] at joins
        exact .inl (protect_tandem heedless shows garbs joins handler mark e trace depth)
    · have passes : ∀ e, r = .error (.script e) → s.callDepth ≠ mark.frames :=
        fun e script depth => fires ⟨e, script, depth⟩
      have passes' : ∀ e, r' = .error (.script e) →
          (s.veiled v).callDepth ≠ mark.frames := by
        rintro e rfl
        rw [State.callDepth_disguised]
        cases concurs with
        | error same =>
          obtain ⟨trace, rfl⟩ := Fault.untraced_script same.symm
          exact passes _ rfl
      rw [protect_passes passes, protect_passes passes']
      exact onward concurs joins
  | nested _ joins => exact .inl (nested_tandem shows here other concurs joins)
  | drive _ joins => exact .inl (drive_tandem shows here other concurs _ joins)
  | resumed _ joins => exact .inl (endResume_tandem shows concurs _ _ joins)

omit heedless shows in
/-- The first script function of some frames. -/
theorem exists_first_script {fs : List Frame} (some : ∃ f ∈ fs, f.isNative = false) :
    ∃ natives g below, fs = natives ++ g :: below ∧ (∀ f ∈ natives, f.isNative = true) ∧
      g.isNative = false := by
  induction fs with
  | nil =>
    obtain ⟨_, member, -⟩ := some
    cases member
  | cons f fs ih =>
    cases native : f.isNative with
    | false => exact ⟨[], f, fs, rfl, fun _ => nofun, native⟩
    | true =>
      obtain ⟨g, member, script⟩ := some
      obtain rfl | member := List.mem_cons.1 member
      · cases native.symm.trans script
      · obtain ⟨natives, g, below, rfl, others, script⟩ := ih ⟨g, member, script⟩
        refine ⟨f :: natives, g, below, rfl, fun h member => ?_, script⟩
        obtain rfl | member := List.mem_cons.1 member
        · exact native
        · exact others h member

omit heedless in
/-- The place of an error in the handler's own loop. -/
theorem places_of_locates {e : ScriptError} {mark : Mark} {ip ip' : Nat}
    (locates : x.Locates e mark s)
    (near : ∀ natives g below, up = natives ++ g :: below → g.isNative = false →
      ip = ip' ∨ natives ≠ []) : x.Places e up mark ip ip' := by
  obtain ⟨fs, frames, located⟩ := locates
  obtain rfl := List.append_cancel_right (shows.frames.symm.trans frames)
  by_cases some : ∃ f ∈ up, f.isNative = false
  · obtain ⟨natives, g, below, split, others, script⟩ := exists_first_script some
    exact .script split others script (near natives g below split script)
  · obtain ⟨outer, fresh, quiet⟩ := located.resolve_left some
    refine .plain outer fresh (fun f member => ?_) quiet
    exact Bool.eq_true_of_not_eq_false fun script => some ⟨f, member, script⟩

/-- **A fault** that reaches a loop of the handler's thread. -/
theorem fails_carriesOn (here : s.HasCurrent) (own : s.current = x.thread)
    (room : s.current = x.thread → s.processor.nestedCalls + 1 < maxNestedCalls) {mark mark' : Mark}
    {ip ip' : Nat} {k k' : Kont ν .step} {vs : List Frame}
    (joins : (Kont.loop mark ip k).Joins x s.current n vs (.loop mark' ip' k'))
    {e e' : Fault} (handover : Handover up vs (.error e) (.error e') (.loop mark ip k)
      (.loop mark' ip' k'))
    (located : ∀ e', e = .script e' → e'.isDecorated = false → x.Locates e' mark s) :
    CarriesOn library x (unwind library e ip mark k s)
      (unwind library e' ip' mark' k' (s.veiled v)) := by
  have near : ∀ natives g below, up = natives ++ g :: below → g.isNative = false →
      ip = ip' ∨ natives ≠ [] := by
    intro natives g below split script
    cases joins with
    | away => exact .inl rfl
    | within => exact .inl rfl
    | @base _ _ _ us _ _ _ _ _ _ _ _ _ _ _ _ _ frames _ _ same =>
      cases handover with
      | worked => exact .inl rfl
      | refused =>
        refine .inl (same.resolve_right ?_)
        rintro rfl
        rw [(List.cons.inj frames).2] at split
        cases natives <;> cases split
      | failed _ top native =>
        refine .inr ?_
        rintro rfl
        obtain ⟨rfl, -⟩ := List.cons.inj (top.symm.trans split)
        cases native.symm.trans script
  have places : s.current = x.thread → ∀ e', e = .script e' → e'.isDecorated = false →
      x.Places e' up mark ip ip' := fun _ e' script fresh =>
    places_of_locates shows (located e' script fresh) near
  cases handover with
  | refused same =>
    exact unwind_carriesOn heedless here shows room joins (.inr ⟨own, _, rfl⟩) same places
  | failed same => exact unwind_carriesOn heedless here shows room joins (.inl rfl) same places
  | worked same => exact unwind_carriesOn heedless here shows room joins (.inl rfl) same places

omit heedless in
/-- A step that is no fault, or comes where a frame stands, passes a guard on the handler's
thread. -/
theorem protect_onward {f f' : Frame} {handler : NativeId} {mark : Mark} {vs : List Frame}
    {r r' : Except Fault Step} {k k' : Kont ν .step} (own : s.current = x.thread)
    (handover : Handover up vs r r' k k') (joins : k.Joins x s.current n vs k')
    (passes : ∀ e, r = .error (.script e) → s.callDepth ≠ mark.frames)
    (passes' : ∀ e, r' = .error (.script e) → s.callDepth ≠ mark.frames) :
    Tandem x (handStep library r (.protect f handler mark k) s)
      (handStep library r' (.protect f' handler mark k') (s.veiled v)) := by
  rw [← s.callDepth_disguised v.thread v.disguise] at passes'
  rw [protect_passes passes, protect_passes passes']
  exact .mk shows (.step own handover joins)

/-- A guard on the handler's thread. -/
theorem protect_own (own : s.current = x.thread) {f f' : Frame} {handler : NativeId}
    {mark : Mark} {vs : List Frame} {r r' : Except Fault Step} {k k' : Kont ν .step}
    (handover : Handover up vs r r' (.protect f handler mark k) (.protect f' handler mark k'))
    (guards : ∃ g us, vs = g :: us ∧ g.Likens f ∧ mark.frames = us.length + x.depth ∧
      x.Garbs s.current us f f') (joins : k.Joins x s.current n vs k') :
    Tandem x (handStep library r (.protect f handler mark k) s)
      (handStep library r' (.protect f' handler mark k') (s.veiled v)) := by
  obtain ⟨g, us, split, likens, depth, garbs⟩ := guards
  cases handover with
  | begun => exact protect_onward shows own .begun joins (fun _ => nofun) fun _ => nofun
  | landed inner some =>
    exact protect_onward shows own (.landed inner some) joins (fun _ => nofun) fun _ => nofun
  | returned entry =>
    exact protect_onward shows own (.returned entry) joins (fun _ => nofun) fun _ => nofun
  | @refused _ e e' _ _ same =>
    obtain ⟨rfl, rfl⟩ := List.cons.inj split
    by_cases script : ∃ e₁, e = .script e₁
    · obtain ⟨e₁, rfl⟩ := script
      obtain ⟨trace, rfl⟩ := Fault.untraced_script same
      have joins := joins.retop_own rfl own likens rfl
      rw [← Site.atop_own own] at joins
      exact protect_tandem heedless shows garbs joins handler mark e₁ trace
        ((shows.callDepth_eq own).trans depth.symm)
    · have other : ∀ e₁, e ≠ .script e₁ := fun e₁ same => script ⟨e₁, same⟩
      obtain rfl := Fault.untraced_other other same
      refine protect_onward shows own (.refused rfl) joins ?_ ?_ <;>
        exact fun e₁ same => absurd (Except.error.inj same) (other e₁)
  | failed same top native =>
    have above : s.callDepth ≠ mark.frames := by
      rw [shows.callDepth_eq own, depth, split, List.length_cons]
      omega
    exact protect_onward shows own (.failed same top native) joins (fun _ _ => above)
      fun _ _ => above

/-- A loop on the handler's thread. -/
theorem loop_own (here : s.HasCurrent) (own : s.current = x.thread)
    (room : s.current = x.thread → s.processor.nestedCalls + 1 < maxNestedCalls) {mark mark' : Mark}
    {ip ip' : Nat} {k k' : Kont ν .step} {vs : List Frame}
    (joins : (Kont.loop mark ip k).Joins x s.current n vs (.loop mark' ip' k'))
    {r r' : Except Fault Step}
    (handover : Handover up vs r r' (.loop mark ip k) (.loop mark' ip' k'))
    (located : ∀ e, r = .error (.script e) → e.isDecorated = false → x.Locates e mark s) :
    CarriesOn library x (handStep library r (.loop mark ip k) s)
      (handStep library r' (.loop mark' ip' k') (s.veiled v)) := by
  cases r with
  | error e =>
    cases r' with
    | ok => cases handover
    | error e' =>
      exact fails_carriesOn heedless shows here own room joins handover fun e₁ same =>
        located e₁ (congrArg _ same)
  | ok o =>
    cases handover with
    | begun => exact .inl (.mk shows (.execute (joins.proceed _)))
    | landed inner some => exact .inl (.mk shows (.execute (joins.land own inner some _)))
    | returned entry =>
      cases joins with
      | away other => exact absurd own other
      | @within _ _ _ _ js _ _ _ _ _ _ _ count split inner _ depth joins =>
        cases js with
        | nil =>
          obtain ⟨rfl, rfl⟩ := List.cons.inj split
          exact .inl (.mk shows (.left own count (.ok _) joins))
        | cons j js =>
          obtain ⟨rfl, rfl⟩ := List.cons.inj split
          cases (inner _ (List.mem_cons_self ..)).symm.trans entry
      | base _ _ _ _ _ _ _ inner =>
        cases (inner _ (List.mem_cons_self ..)).symm.trans entry

/-- **A step of the handler's thread** is handed on alike. -/
theorem handStep_own (here : s.HasCurrent) (own : s.current = x.thread) {vs : List Frame}
    {r r' : Except Fault Step} {k k' : Kont ν .step} (smooth : x.Smooth library (.step r k) s)
    (handover : Handover up vs r r' k k') (joins : k.Joins x s.current n vs k') :
    CarriesOn library x (handStep library r k s) (handStep library r' k' (s.veiled v)) := by
  obtain ⟨-, room, -, -, located⟩ := smooth
  cases k with
  | nested k =>
    cases joins with
    | nested other => exact absurd own other
  | drive previous k =>
    cases joins with
    | drive other => exact absurd own other
  | resumed mode c previous k =>
    cases joins with
    | resumed other => exact absurd own other
  | protect f handler mark k =>
    cases joins with
    | protect guards apart joins =>
      exact .inl (protect_own heedless shows own handover (guards own) joins)
  | loop mark ip k =>
    have located : ∀ e, r = .error (.script e) → e.isDecorated = false → x.Locates e mark s :=
      fun e fails => located own e mark ip k (congrArg (Control.step · _) fails)
    cases k' with
    | loop mark' ip' k' => exact loop_own heedless shows here own room joins handover located
    | _ => cases joins

end Steps

/-! ## Instructions -/

/-- A script error is raised by an instruction of a script function. -/
theorem script_of_failed {ip : Nat} {e : ScriptError}
    (run : Exec.executeAt ip s = .error (.script e) s') :
    ∃ f rest, s.framesOf s.current = f :: rest ∧ f.isNative = false := by
  rw [Exec.executeAt_eq] at run
  cases found : s.instructionAt ip with
  | error fault =>
    rw [found] at run
    change EStateM.Result.error fault s = _ at run
    obtain ⟨rfl, -⟩ := EStateM.Result.error.inj run
    unfold State.instructionAt at found
    split at found
    · cases found
    · split at found
      · cases found
      · split at found <;> cases found
  | ok y =>
    unfold State.instructionAt at found
    split at found
    · cases found
    · rename_i f top
      split at found
      · cases found
      · rename_i closure callee
        obtain ⟨rest, frames⟩ := State.framesOf_back? top
        refine ⟨f.outline, rest, frames, ?_⟩
        rw [Frame.outline_isNative, Frame.isNative, callee]

/-- A frame of the running thread has left. -/
theorem shows_left (shows : x.Shows v n up s) {k k' : Kont ν .step}
    (joins : k.Joins x s.current n up k') (some : s.current = x.thread → up ≠ []) {f : Frame}
    {rest : List Frame} (frames : s.framesOf s.current = f.outline :: rest)
    (shifted : Shifted ((s.outlineOf s.current).cut rest) s s') :
    ∃ us, x.Shows v n us s' ∧ k.Joins x s'.current n (x.atop s'.current us f) k' := by
  rw [shifted.current]
  by_cases own : s.current = x.thread
  · obtain ⟨g, us, rfl⟩ := List.exists_cons_of_ne_nil (some own)
    have split := frames
    rw [own, shows.frames] at split
    obtain ⟨rfl, rfl⟩ := List.cons.inj split
    have nested := shows.nested
    rw [← own] at nested
    have likens : f.outline.Likens f := ⟨rfl, rfl, rfl, rfl⟩
    refine ⟨us, shows.shift shifted (fun _ => ⟨rfl, nested⟩) fun other => absurd own other, ?_⟩
    rw [Site.atop_own own]
    exact joins.retop_own rfl own likens rfl
  · refine ⟨up, shows.shift shifted (fun same => absurd same own) fun _ => ⟨rfl, rfl⟩, ?_⟩
    rw [Site.atop_other own]
    exact joins

theorem execute_asked {ip : Nat} {mark : Mark} {k : Kont ν .step} {effect : Option Effect}
    (run : Exec.executeAt ip s = .ok effect s') :
    advance library (.execute ip mark k) s = perform library ip mark k effect s' := by
  change ((Exec.executeAt ip).andThen _ _ : Move ν (Control ν)) s = _
  rw [Exec.andThen, run]

theorem execute_failed {ip : Nat} {mark : Mark} {k : Kont ν .step} {e : Fault}
    (run : Exec.executeAt ip s = .error e s') :
    advance library (.execute ip mark k) s = unwind library e ip mark k s' := by
  change ((Exec.executeAt ip).andThen _ _ : Move ν (Control ν)) s = _
  rw [Exec.andThen, run]

theorem room_rigid (rigid : Rigid s s')
    (room : s.current = x.thread → s.processor.nestedCalls + 1 < maxNestedCalls) :
    s'.current = x.thread → s'.processor.nestedCalls + 1 < maxNestedCalls := by
  have same : s'.outlineOf s'.current = s.outlineOf s.current := by
    rw [rigid.current, rigid.outline]
  have nested : s'.processor.nestedCalls = s.processor.nestedCalls :=
    congrArg Outline.nestedCalls same
  rw [rigid.current, nested]
  exact room

section Executing

variable (heedless : library.Heedless) (here : s.HasCurrent) (shows : x.Shows v n up s) {ip : Nat}
  {mark mark' : Mark} {k k' : Kont ν .step}
  (joins : (Kont.loop mark ip k).Joins x s.current n up (.loop mark' ip k'))

include heedless here shows joins

/-- An instruction asks for something while its frame goes on. -/
theorem perform_asked {e : Effect} (bare : e.Bare ip)
    (room : s.current = x.thread → s.processor.nestedCalls + 1 < maxNestedCalls) :
    Tandem x (perform library ip mark k (some e) s)
      (perform library ip mark' k' (some e) (s.veiled v)) := by
  cases e with
  | next => exact .mk shows (.execute (joins.proceed _))
  | jump target => exact .mk shows (.execute (joins.proceed _))
  | leave f w => exact bare.elim
  | nested function arguments after =>
    exact callNested_tandem heedless shows here (.instruction joins) room ..
  | call spec =>
    have recasts : x.Recasts s.current up spec spec := by
      unfold Site.Recasts
      rw [if_neg fun both => joins.stands both.1 both.2]
    have inner : (spec.frame 0 0 default).flags.entryPoint = false := bare.1
    exact performCall_tandem heedless shows here recasts rfl rfl (joins.mount inner)
      fun _ _ _ => rfl

omit here in
/-- A frame returns, and its result is handed on. -/
theorem perform_left {f : Frame} {w : Value} {rest : List Frame}
    (frames : s.framesOf s.current = f.outline :: rest)
    (shifted : Shifted ((s.outlineOf s.current).cut rest) s s') :
    Tandem x (perform library ip mark k (some (.leave f w)) s')
      (perform library ip mark' k' (some (s'.dressedEffect v (.leave f w))) (s'.veiled v)) := by
  obtain ⟨us, shows, joins⟩ := shows_left shows joins joins.stands frames shifted
  rw [Exec.dressedEffect_leave]
  exact finishPlain_tandem heedless shows (shows.garbs f) joins w

/-- A frame is taken over by a call. -/
theorem perform_reused {f : Frame} {spec : CallSpec} {rest : List Frame}
    (frames : s.framesOf s.current = f.outline :: rest)
    (shifted : Shifted ((s.outlineOf s.current).cut rest) s s')
    (address : spec.returnAddress = f.returnAddress)
    (flags : spec.flags = f.flags.inherited.union { tailCall := true }) :
    Tandem x (perform library ip mark k (some (.call spec)) s')
      (perform library ip mark' k' (some (s'.dressedEffect v (.call spec))) (s'.veiled v)) := by
  obtain ⟨us, shows, joins⟩ := shows_left shows joins joins.stands frames shifted
  obtain ⟨spec', effect, recasts, name⟩ : ∃ spec', s'.dressedEffect v (.call spec) = .call spec' ∧
      x.Recasts s'.current us spec spec' ∧ spec'.name = spec.name := by
    unfold State.dressedEffect Site.Recasts
    rw [shows.thread]
    by_cases bare : s'.current = x.thread ∧ us = []
    · rw [if_pos ⟨bare.1, (shows.bare_iff bare.1).2 bare.2⟩]
      refine ⟨_, rfl, ?_, ?_⟩
      · rw [if_pos bare]
        exact ⟨_, rfl⟩
      · unfold CallSpec.asEntry
        split <;> rfl
    · rw [if_neg fun both => bare ⟨both.1, (shows.bare_iff both.1).1 both.2⟩]
      exact ⟨spec, rfl, if_neg bare ▸ rfl, rfl⟩
  have likens : f.Likens (spec.frame 0 0 default) := by
    refine ⟨?_, ?_, ?_, address⟩ <;>
      simp [CallSpec.frame, flags, FrameFlags.inherited, FrameFlags.inter, FrameFlags.inheritable,
        FrameFlags.union]
  rw [effect]
  exact performCall_tandem heedless shows (shifted.hasCurrent here) recasts rfl rfl
    (joins.retop likens) fun _ _ _ => name

/-- **An instruction** is executed alike. -/
theorem execute_carriesOn (smooth : x.Smooth library (.execute ip mark k) s) :
    CarriesOn library x (advance library (.execute ip mark k) s)
      (advance library (.execute ip mark' k') (s.veiled v)) := by
  have above : s.current = v.thread → v.depth < s.callDepth := by
    intro own
    have own := own.trans shows.thread
    rw [shows.callDepth_eq own, shows.depth]
    have some := List.length_pos_of_ne_nil (joins.stands own)
    omega
  have veils := Exec.executeAt_veiled ip here above shows.inRange
  have executed := Exec.executed ip here
  generalize run : Exec.executeAt ip s = y at veils executed
  generalize run' : Exec.executeAt ip (s.veiled v) = y' at veils
  cases veils with
  | @failed e t =>
    rw [execute_failed run, execute_failed run']
    cases executed with
    | failed rigid =>
      have joins' := joins
      rw [← rigid.current] at joins'
      refine unwind_carriesOn heedless (rigid.hasCurrent here) (shows.rigid rigid)
        (room_rigid rigid smooth.room) joins' (.inl rfl) rfl ?_
      rintro own e₁ rfl -
      have own := rigid.current.symm.trans own
      obtain ⟨f, rest, frames, script⟩ := script_of_failed run
      obtain ⟨g, us, rfl⟩ := List.exists_cons_of_ne_nil (joins.stands own)
      rw [own, shows.frames] at frames
      obtain ⟨rfl, -⟩ := List.cons.inj frames
      exact .script (List.nil_append _).symm (fun _ => nofun) script (.inl rfl)
  | @asked e t =>
    rw [execute_asked run, execute_asked run']
    refine .inl ?_
    cases executed with
    | asked rigid bare =>
      have joins' := joins
      rw [← rigid.current] at joins'
      rw [Exec.dressedEffect_above above rigid]
      exact perform_asked heedless (rigid.hasCurrent here) (shows.rigid rigid) joins' bare
        (room_rigid rigid smooth.room)
    | left frames shifted => exact perform_left heedless shows joins frames shifted
    | reused frames _ shifted _ address flags =>
      exact perform_reused heedless here shows joins frames shifted address flags
  | forced own =>
    cases executed with
    | forced _ shifted =>
      have own := shifted.current.symm.trans (own.trans shows.thread)
      refine absurd ?_ (smooth.calm own .forced k)
      rw [execute_asked run]
      rfl
  | @yields t =>
    rw [execute_asked run, execute_asked run']
    by_cases own : s.current = x.thread
    · refine absurd ?_ (smooth.calm own .forced k)
      rw [execute_asked run]
      rfl
    · cases executed with
      | forced _ shifted =>
        have shows := shows.shift shifted (fun same => absurd same own) fun _ => ⟨rfl, rfl⟩
        cases joins with
        | away _ joins =>
          rw [← shifted.current] at own joins
          exact .inl (.mk shows (.away own (.ok _) joins))
        | within same => exact absurd same own
        | base same => exact absurd same own

end Executing

/-! ## Steps of the machines -/

/-- The result of the handler's first frame is on its way. -/
theorem returning_carriesOn (shows : x.Shows v n [] s) (own : s.current = x.thread) {b : Frame}
    (inner : b.flags.entryPoint = false) (takes : x.Takes b) {k k' : Kont ν .step}
    (joins : k.Joins x s.current n [b] k') (w : Value) :
    CarriesOn library x
      (advance library (.step (.ok (.proceed x.address)) k) (s.modifyStack (·.push w.scalar)))
      (advance library (.step (.ok (.return w)) k') (s.veiled v)) := by
  cases joins with
  | away other => exact absurd own other
  | nested other => exact absurd own other
  | drive other => exact absurd own other
  | resumed other => exact absurd own other
  | protect _ _ joins => exact .inl (.returning shows own inner takes joins)
  | @within _ _ _ _ js _ _ _ _ _ _ _ _ split _ entry =>
    cases js with
    | nil =>
      obtain ⟨rfl, -⟩ := List.cons.inj split
      cases inner.symm.trans entry
    | cons j js => exact absurd (List.cons.inj split).2 (by simp)
  | base _ zero hm hm' hk hk' =>
    subst zero hm hm' hk hk'
    exact .inr (.value shows own rfl rfl)

/-- **One step**: two machines that do the same go on alike, or part. -/
theorem advance_carriesOn (heedless : library.Heedless) {control : Control ν}
    {b : Control ν × State ν}
    (linked : Links (Manner.any library) (control, s)) (smooth : x.Smooth library control s)
    (tandem : Tandem x (control, s) b) :
    CarriesOn library x (advance library control s) (advance library b.1 b.2) := by
  obtain ⟨ts, sound, linked⟩ := linked
  have ready := linked.ready sound
  generalize ha : (control, s) = a at tandem
  cases tandem with
  | @mk v n up s control control' shows joins =>
    obtain ⟨rfl, rfl⟩ := Prod.mk.inj ha
    cases joins with
    | execute joins => exact execute_carriesOn heedless ready shows joins smooth
    | run accords joins =>
      cases linked with
      | run _ chain =>
        exact .inl (runProgram_tandem heedless shows ready sound.size
          (sound.running _ (joins.mem chain)) smooth.room
          (fun query next same => smooth.unseen query next _ (congrArg (Control.run · _) same))
          accords joins)
    | value concurs joins => exact handValue_carriesOn heedless shows ready smooth concurs joins
    | @await task k k' joins =>
      cases task with
      | settles r => exact .inl (tandem_value shows (.refl r) joins)
      | never => exact .inl (.mk shows (.await joins))
    | away other concurs joins => exact handStep_away heedless shows ready other concurs joins
    | step own handover joins => exact handStep_own heedless shows ready own smooth handover joins
    | left own count concurs joins =>
      subst count
      obtain ⟨commutes, shows⟩ := endNested_veiled shows own
      exact .inl (modify_veiled commutes (tandem_value shows concurs.expectReturn joins))
  | returning shows own inner takes joins =>
    obtain ⟨rfl, rfl⟩ := Prod.mk.inj ha
    exact returning_carriesOn shows own inner takes joins _

/-- What a machine does and its state. -/
def pair (m : Machine ν) : Control ν × State ν := (m.control, m.state)

theorem pair_step (m : Machine ν) : pair (m.step library) = advance library m.control m.state := rfl

/-- **A run**: two machines that do the same go on alike, as long as they do not part. -/
theorem iterate_carriesOn (heedless : library.Heedless) {a b : Machine ν}
    (linked : Links (Manner.any library) (a.control, a.state)) (tandem : Tandem x (pair a) (pair b))
    (steps : Nat) (smooth : ∀ i < steps,
      x.Smooth library ((step library)^[i] a).control ((step library)^[i] a).state) :
    (∃ i ≤ steps, Ends library x (pair ((step library)^[i] a)) (pair ((step library)^[i] b))) ∨
      Tandem x (pair ((step library)^[steps] a)) (pair ((step library)^[steps] b)) := by
  induction steps with
  | zero => exact .inr tandem
  | succ steps ih =>
    obtain ⟨i, low, ends⟩ | tandem := ih fun i low => smooth i (Nat.lt_succ_of_lt low)
    · exact .inl ⟨i, Nat.le_succ_of_le low, ends⟩
    · have next := advance_carriesOn heedless (iterate_linked linked steps)
        (smooth steps (Nat.lt_succ_self _)) tandem
      rw [Function.iterate_succ_apply', Function.iterate_succ_apply', pair_step, pair_step]
      obtain tandem | ends := next
      · exact .inr tandem
      · refine .inl ⟨steps + 1, Nat.le_refl _, ?_⟩
        rw [Function.iterate_succ_apply', Function.iterate_succ_apply', pair_step, pair_step]
        exact ends

end Machine

end ScriptMachine
