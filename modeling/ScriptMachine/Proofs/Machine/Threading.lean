import ScriptMachine.Proofs.Machine.Raising

/-!
# Coroutines and routines of an inlined handler

Other threads run alike, whether the handler has a loop of its own or not. Its own thread is in the
middle of a call in both, so that it is neither resumed nor entered.

* `Kont.Joins.mem`: the handler's thread is among those that wait for each other.
* `resume_tandem`, `endResume_tandem`: coroutines. `runProgram_tandem`: routines.
-/

namespace ScriptMachine

variable {ν α : Type} {library : Library ν} {M : Manner library} {x : Site ν} {n : Nat}
  {up : List Frame} {s s' : State ν} {v : Veil}

/-- The answer does not show how the handler's frame was entered, and what its processor counts. -/
def Site.Unseen (x : Site ν) (query : State ν → Except Fault Value) (s : State ν) : Prop :=
  ∀ v : Veil, v.thread = x.thread → v.depth = x.depth → Concurs (query s) (query (s.veiled v))

/-- Whoever waits above the handler waits for its thread in the end. -/
theorem Kont.Joins.mem {a : Awaited} {k k' : Kont ν a} {c : ThreadId} {ts : List ThreadId}
    (joins : k.Joins x c n up k') (chain : k.Chain M (c :: ts)) : x.thread ∈ c :: ts := by
  induction joins generalizing ts with
  | routine _ _ ih =>
    cases chain with
    | routine _ chain => exact ih chain
  | native _ _ ih =>
    cases chain with
    | native chain => exact ih chain
  | finish _ _ ih =>
    cases chain with
    | finish chain => exact ih chain
  | instruction _ ih =>
    cases chain with
    | instruction chain => exact ih chain
  | decorator _ _ _ _ ih =>
    cases chain with
    | decorator chain => exact ih (.loop chain)
  | collapse _ ih =>
    cases chain with
    | collapse chain => exact ih chain
  | method _ ih =>
    cases chain with
    | method chain => exact ih chain
  | exit _ ih =>
    cases chain with
    | exit chain => exact ih chain
  | task => cases chain
  | protect _ _ _ ih =>
    cases chain with
    | protect chain => exact ih chain
  | away _ _ ih =>
    cases chain with
    | loop chain => exact ih chain
  | within own => exact own ▸ List.mem_cons_self ..
  | base own => exact own ▸ List.mem_cons_self ..
  | nested _ _ ih =>
    cases chain with
    | nested chain => exact ih chain
  | drive _ _ ih =>
    cases chain with
    | drive chain => exact ih chain
  | resumed _ _ ih =>
    cases chain with
    | resumed chain => exact List.mem_cons_of_mem _ (ih chain)

namespace Machine

/-- Another thread runs, or other coroutines are at rest. -/
theorem shows_of_eq (shows : x.Shows v n up s) (same : s'.processors = s.processors) :
    x.Shows v n up s' := by
  have outline : s'.outlineOf x.thread = s.outlineOf x.thread := by
    simp only [State.outlineOf, State.processorOf, same]
  refine ⟨shows.thread, shows.depth, ?_, ?_⟩
  · exact (congrArg Outline.frames outline).trans shows.frames
  · exact (congrArg Outline.nestedCalls outline) ▸ shows.nested

section Threads

variable (heedless : library.Heedless) (shows : x.Shows v n up s)

include heedless shows

/-- Another thread is picked up. -/
theorem resumePending_tandem (here : s.HasCurrent) (other : s.current ≠ x.thread)
    {input input' : Except Fault Value} (concurs : Concurs input input') (fromTask : Bool)
    {k k' : Kont ν .step} (joins : k.Joins x s.current n up k') :
    Tandem x (resumePending library input fromTask k s)
      (resumePending library input' fromTask k' (s.veiled v)) := by
  have looks : (s.veiled v).processor = s.processor :=
    s.processorOf_veiled v (shows.thread.symm ▸ other)
  unfold resumePending
  apply get_veiled
  rw [looks]
  cases s.processor.pending with
  | none => exact .mk shows (.away other (.error rfl) joins)
  | some pending =>
    obtain ⟨resumption, mark⟩ := pending
    have picked := shifted_modifyProcessor here fun p =>
      { p with pending := none, sinceResume := 0 }
    refine modify_veiled (s.modifyProcessorOf_disguised v.thread s.current v.disguise _
      fun same => absurd (same.trans shows.thread) other) ?_
    have shows := shows.shift picked (fun own => absurd own other) fun _ => ⟨rfl, rfl⟩
    have here := picked.hasCurrent here
    rw [← picked.current] at other joins
    generalize s.modifyProcessor _ = t at *
    cases resumption with
    | instruction ip => exact .mk shows (.execute (.away other joins))
    | deliver frame =>
      have waits : (Kont.loop mark (frame.returnAddress - 1) k).Joins x t.current n up
          (.loop mark (frame.returnAddress - 1) k') := .away other joins
      cases concurs with
      | error same => exact .mk shows (.away other (.error same) waits)
      | ok w =>
        have garbs : x.Garbs t.current up frame frame := by
          unfold Site.Garbs
          rw [if_neg fun both => other both.1]
        refine finishFrame_tandem heedless shows here garbs ?_ w fromTask
          (fun own => absurd own other) fun own => absurd own other
        rw [Site.atop_other other]
        exact waits

/-- The body of another coroutine starts or goes on. -/
theorem resumeFrom_tandem (here : s.HasCurrent) (other : s.current ≠ x.thread) (function : Value)
    (state : CoroutineState) (arguments : List Value) {k k' : Kont ν .step}
    (joins : k.Joins x s.current n up k') :
    Tandem x (resumeFrom library function state arguments k s)
      (resumeFrom library function state arguments k' (s.veiled v)) := by
  have paced := shifted_modifyProcessor here fun p => { p with sinceResume := 0 }
  unfold resumeFrom
  refine modify_veiled (s.modifyProcessorOf_disguised v.thread s.current v.disguise _
    fun same => absurd (same.trans shows.thread) other) ?_
  have shows := shows.shift paced (fun own => absurd own other) fun _ => ⟨rfl, rfl⟩
  have here := paced.hasCurrent here
  rw [← paced.current] at other joins
  generalize s.modifyProcessor _ = t at *
  cases state with
  | notStarted =>
    refine executeCall_tandem heedless shows here _ _ _ _ fun e _ => ?_
    rw [Site.atop_other other]
    exact .away other joins
  | suspended => exact resumePending_tandem heedless shows here other (.refl _) false joins
  | forceSuspended => exact resumePending_tandem heedless shows here other (.refl _) false joins
  | running | dead => exact .mk shows (.away other (.error rfl) joins)

/-- **A coroutine is resumed alike.** It is not the one that the handler runs on. -/
theorem resume_tandem (size : s.processors.size = s.coroutines.size + 1)
    (busy : x.thread = .root ∨ s.coroutineState x.thread = .running) (c : ThreadId)
    (arguments : List Value) {k k' : Kont ν .value} (joins : k.Joins x s.current n up k') :
    Tandem x (resume library .synchronous c arguments k s)
      (resume library .synchronous c arguments k' (s.veiled v)) := by
  unfold resume
  apply get_veiled
  have same : (s.veiled v).coroutine c = s.coroutine c := rfl
  rw [same]
  generalize held : s.coroutine c = coroutine
  obtain ⟨function, state⟩ := coroutine
  dsimp only
  have state : s.coroutineState c = state := congrArg Coroutine.state held
  subst state
  cases refusal : resumeRefusal (s.coroutineState c) arguments with
  | some cause => exact tandem_value shows (.refl _) joins
  | none =>
    have alive : s.coroutineState c ≠ .dead := fun dead => by
      rw [dead] at refusal
      cases refusal
    have rests : s.coroutineState c ≠ .running := fun running => by
      rw [running] at refusal
      cases refusal
    obtain ⟨notRoot, inRange⟩ := State.inRange_of_coroutineState alive
    have other : c ≠ x.thread := by
      rintro rfl
      exact busy.elim notRoot rests
    dsimp only
    let awake (s : State ν) : State ν :=
      { s.setCoroutineState c .running with active := c :: s.active, current := c }
    have commutes : ({ (s.veiled v).setCoroutineState c .running with
        active := c :: (s.veiled v).active, current := c } : State ν) = (awake s).veiled v := rfl
    refine modify_veiled commutes ?_
    let entered : State ν := { awake s with entries := (awake s).entries + 1 }
    have here : entered.HasCurrent := by
      change c.index < s.processors.size
      rw [size]
      exact Nat.lt_succ_of_le inRange
    refine modify_veiled (f := fun s => { s with entries := s.entries + 1 }) rfl ?_
    exact resumeFrom_tandem (s := entered) heedless (shows_of_eq shows rfl) here other _ _ _
      (.resumed other joins)

omit heedless in
/-- **A resumption ends alike.** -/
theorem endResume_tandem {r r' : Except Fault Step} (concurs : Concurs r r') (c previous : ThreadId)
    {k k' : Kont ν .value} (joins : k.Joins x previous n up k') :
    Tandem x (endResume .synchronous c previous r k s)
      (endResume .synchronous c previous r' k' (s.veiled v)) := by
  obtain ⟨state, outcome⟩ := concurs.resumeOutcome
  unfold endResume
  refine modify_veiled (f := fun s => { s with entries := s.entries - 1 }) rfl ?_
  dsimp only
  rw [state]
  refine modify_veiled rfl ?_
  exact .mk (shows_of_eq shows rfl) (.value outcome joins)

/-- An asynchronous call is refused on the handler's thread, and made alike on others. -/
theorem driveAsync_tandem (here : s.HasCurrent) (function : Value) (arguments : List Value)
    {k k' : Kont ν .value} (joins : k.Joins x s.current n up k') :
    Tandem x (driveAsync library function arguments k s)
      (driveAsync library function arguments k' (s.veiled v)) := by
  unfold driveAsync
  apply get_veiled
  by_cases own : s.current = x.thread
  · have some : 0 < s.callDepth := by
      rw [shows.callDepth_eq own]
      exact Nat.lt_of_lt_of_le (Nat.lt_of_le_of_lt (Nat.zero_le _) x.above) (Nat.le_add_left ..)
    have some' : 0 < (s.veiled v).callDepth := by
      rw [State.callDepth_disguised]
      exact some
    have busy : ∀ {t : State ν}, 0 < t.callDepth →
        (decide (0 < t.processor.nestedCalls) || decide (0 < t.processor.frames.size)) = true :=
      fun stands => by
        rw [Bool.or_eq_true, decide_eq_true_eq, decide_eq_true_eq]
        exact .inr stands
    rw [busy some, busy some']
    exact tandem_value shows (.refl _) joins
  · have looks : (s.veiled v).processor = s.processor :=
      s.processorOf_veiled v (shows.thread.symm ▸ own)
    rw [looks]
    split
    · exact tandem_value shows (.refl _) joins
    · have driven := shifted_modifyProcessor here fun p => { p with asyncMode := true }
      refine modify_veiled (s.modifyProcessorOf_disguised v.thread s.current v.disguise _
        fun same => absurd (same.trans shows.thread) own) ?_
      have shows := shows.shift driven (fun same => absurd same own) fun _ => ⟨rfl, rfl⟩
      rw [← driven.current] at own joins
      refine executeCall_tandem heedless shows (driven.hasCurrent here) _ _ _ _ fun e _ => ?_
      rw [Site.atop_other own]
      exact .away own (.drive own joins)

end Threads

section Routines

variable (shows : x.Shows v n up s) {k k' : Kont ν .value} (joins : k.Joins x s.current n up k')
  {next next' : Except Fault Value → Program ν} (accords : NextAccords next next')

include shows joins accords

theorem direct_tandem {work : Exec ν Value} (unaffected : work.Unaffected v.thread v.disguise s)
    (keeps : work.Keeps s) :
    Tandem x (runProgram.direct k work next s) (runProgram.direct k' work next' (s.veiled v)) :=
  andThen_veiled unaffected keeps
    (fun w _ rigid => tandem_run (shows.rigid rigid) (accords _ _ (.ok w))
      (rigid.current.symm ▸ joins))
    fun _ _ rigid => tandem_run (shows.rigid rigid) (accords _ _ (.error rfl))
      (rigid.current.symm ▸ joins)

/-- A coroutine is made alike. -/
theorem spawn_tandem (function : Value) :
    Tandem x (runProgram.direct k (Exec.spawn function) next s)
      (runProgram.direct k' (Exec.spawn function) next' (s.veiled v)) := by
  rw [direct_spawn, direct_spawn,
    s.newCoroutine_disguised v.thread v.disguise function shows.inRange]
  split
  · have outline := s.outlineOf_newCoroutine function x.thread
    refine tandem_run ?_ (accords _ _ (.refl _)) joins
    refine ⟨shows.thread, shows.depth, ?_, ?_⟩
    · exact (congrArg Outline.frames outline).trans shows.frames
    · exact (congrArg Outline.nestedCalls outline) ▸ shows.nested
  · exact tandem_run shows (accords _ _ (.refl _)) joins

omit accords in
/-- A share of instructions is set alike. -/
theorem setAutoYield_tandem (c : ThreadId) (budget : Nat) {p p' : Program ν}
    (same : p.Accords p') :
    Tandem x ((do Exec.setAutoYield c budget; return .run p k : Move ν (Control ν)) s)
      ((do Exec.setAutoYield c budget; return .run p' k' : Move ν (Control ν)) (s.veiled v)) := by
  let share (s : State ν) : State ν :=
    if s.coroutineState c = .running then s
    else s.modifyProcessorOf c fun p => { p with autoYield := budget }
  have commutes : share (s.veiled v) = (share s).veiled v := by
    change (if s.coroutineState c = .running then s.veiled v else _) = _
    unfold share
    split
    · rfl
    · exact s.modifyProcessorOf_disguised v.thread c v.disguise _ fun _ _ => rfl
  have rigid : Rigid s (share s) := by
    unfold share
    split
    · exact .refl s
    · exact rigid_modifyProcessorOf s c fun _ => rfl
  exact modify_veiled commutes
    (tandem_run (shows.rigid rigid) same (rigid.current.symm ▸ joins))

end Routines

/-- **One operation of a routine** is the same in both. -/
theorem runProgram_tandem (heedless : library.Heedless) (shows : x.Shows v n up s)
    (here : s.HasCurrent) (size : s.processors.size = s.coroutines.size + 1)
    (busy : x.thread = .root ∨ s.coroutineState x.thread = .running)
    (room : s.current = x.thread → s.processor.nestedCalls + 1 < maxNestedCalls) {p p' : Program ν}
    (unseen : ∀ query next, p = .ask query next → x.Unseen query s) (accords : p.Accords p')
    {k k' : Kont ν .value} (joins : k.Joins x s.current n up k') :
    Tandem x (runProgram library k p s) (runProgram library k' p' (s.veiled v)) := by
  let entered : State ν := { s with entries := s.entries + 1 }
  have inside : x.Shows v n up entered := shows_of_eq shows rfl
  cases accords with
  | finish concurs => exact tandem_value shows concurs joins
  | @change action action' next next' same accords =>
    obtain ⟨outcome, world⟩ := same s.world
    have changed : runProgram library k' (.change action' next') (s.veiled v) =
        (.run (next' (action' s.world).1) k',
          State.veiled { s with world := (action' s.world).2 } v) := rfl
    rw [changed, world]
    exact tandem_run (s := { s with world := (action s.world).2 }) (shows_of_eq shows rfl)
      (accords _ _ outcome) joins
  | ask same accords =>
    have seen := unseen _ _ rfl v shows.thread shows.depth
    exact tandem_run shows (accords _ _ (seen.trans (same _))) joins
  | @print values next next' accords =>
    exact tandem_run (s := s.record (.printed (Snapshot.ofValues s.scene values)))
      (shows_of_eq shows rfl) accords joins
  | spawn accords => exact spawn_tandem shows joins accords _
  | autoYield accords => exact setAutoYield_tandem shows joins _ _ accords
  | undump accords =>
    exact direct_tandem shows joins accords (Exec.unaffected_undump _) (Exec.keeps_undump _)
  | assign accords =>
    exact direct_tandem shows joins accords
      (Exec.unaffected_bind (Exec.unaffected_assignAll _) fun _ _ => Exec.unaffected_pure _)
      (Exec.keeps_bind (Exec.keeps_assignAll _) fun _ _ => Exec.keeps_pure _)
  | call accords => exact callNested_tandem heedless shows here (.routine accords joins) room _ _
  | index accords => exact indexNested_tandem heedless shows here (.routine accords joins) room _ _
  | resume accords =>
    exact resume_tandem heedless shows size busy _ _ (.routine accords joins)
  | enter accords =>
    exact callNested_tandem (s := entered) heedless inside here (.exit (.routine accords joins))
      room _ _
  | enterMethod accords =>
    exact indexNested_tandem (s := entered) heedless inside here
      (.method (.exit (.routine accords joins))) room _ _
  | enterAsync accords =>
    exact driveAsync_tandem (s := entered) heedless inside here _ _ (.exit (.routine accords joins))

end Machine

end ScriptMachine
