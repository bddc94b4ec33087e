import ScriptMachine.Proofs.Machine.Careful
import ScriptMachine.Proofs.Machine.Runs

/-!
# Steps uphold variables

In a machine in order, every step keeps variables, apart from what it writes.

* `Holds.among`, `InLoop.entryAt`: what the order of the machine says about those who wait.
* `handValue_upholds`, `handStep_upholds`: an outcome is handed to who waits for it.
* `Machine.writes`: what a step writes. `Machine.next_upholds`: nothing else changes.
-/

namespace ScriptMachine

open Place

variable {ν α β : Type} {L : Locals} {ws : List Write} {s s' : State ν} {n m : Nat} {σ : Prop}

/-- The thread waits below another one, or is the root while that one is a coroutine. -/
def Among (id : ThreadId) (W : List Thread) (c : ThreadId) : Prop :=
  c = .root ∧ id ≠ .root ∨ ∃ u ∈ W, u.id = c

mutual

/-- Those who wait go back to threads of the chain, or to the root. -/
theorem Holds.among {k : Kont ν .value} {t : Thread} {W : List Thread} (h : Holds σ k t W) :
    ∀ c ∈ k.threads, Among t.id W c := by
  match h with
  | .host _ _ _ => exact nofun
  | .routine h | .collapse h | .exit h | .method h | .asyncMethod h => exact h.among
  | .native _ _ _ h | .finish _ _ h => exact h.among
  | .instruction _ _ _ h | .decorator _ _ _ h => exact h.among

theorem Guards.among {k : Kont ν .step} {a : Activation} {under : List Place} {e : Thread}
    {W : List Thread} (h : Guards σ k a under e W) : ∀ c ∈ k.threads, Among e.id W c := by
  match h with
  | .loop h => exact h.among
  | .protect _ _ _ h => exact h.among

theorem Loops.among {mark : Mark} {k : Kont ν .step} {e : Thread} {W : List Thread}
    (h : Loops σ mark k e W) : ∀ c ∈ k.threads, Among e.id W c := by
  match h with
  | .mk _ _ _ _ h => exact h.among

theorem Enters.among {k : Kont ν .step} {e : Thread} {W : List Thread} (h : Enters σ k e W) :
    ∀ c ∈ k.threads, Among e.id W c := by
  match h with
  | .nested _ h => exact h.among
  | .drive _ lends h => exact lends.id ▸ h.among
  | .resumed id hc _ _ _ waits => exact fun c hc' => id ▸ waits.among c hc' hc

/-- Whoever resumed a coroutine goes back to a thread of the chain, or to the root. -/
theorem Waits.among {k : Kont ν .value} {previous : ThreadId} {W : List Thread}
    (h : Waits σ k previous W) : ∀ c ∈ previous :: k.threads, ∀ {id : ThreadId}, id ≠ .root →
      Among id W c := by
  match h with
  | .parked =>
    intro c member id other
    rw [List.mem_singleton.1 member]
    exact .inl ⟨rfl, other⟩
  | .busy (t := u) holds =>
    intro c member id other
    obtain rfl | member := List.mem_cons.1 member
    · exact .inr ⟨u, List.mem_cons_self .., rfl⟩
    · obtain ⟨rfl, -⟩ | ⟨v, hv, rfl⟩ := holds.among c member
      · exact .inl ⟨rfl, other⟩
      · exact .inr ⟨v, List.mem_cons_of_mem _ hv, rfl⟩

end

theorem Among.ne {id c : ThreadId} {W : List Thread} (h : Among id W c)
    (absent : ∀ u ∈ W, u.id ≠ id) : id ≠ c := by
  rintro rfl
  obtain ⟨rfl, other⟩ | ⟨u, hu, same⟩ := h
  · exact other rfl
  · exact absent u hu same

/-- A thread that waits for a task is not among those that wait below. -/
theorem Tasked.apart {c : ThreadId} {k : Kont ν .step} {ts : List Thread}
    (tasked : Tasked σ s c k ts) : c ∉ k.threads := by
  cases tasked with
  | drive _ _ absent enters => exact fun member => (enters.among _ member).ne absent rfl
  | resumed _ other => exact fun member => other (List.mem_singleton.1 member)

theorem State.callsOf_standing (s : State ν) (c : ThreadId) :
    (s.callsOf c).map Frame.activation = (s.shape c).standing := by
  simp [State.shape, Processor.shape, State.callsOf]

/-- The frames of a loop lie above those it was entered on. -/
theorem Place.InLoop.depth_lt {bs ps : List Place} {height : Nat} {g : Activation}
    (h : InLoop σ bs height (on g :: ps)) : depth bs < depth (on g :: ps) := by
  obtain ⟨u, us, all, -⟩ := h.exists_append
  obtain ⟨rfl, rfl⟩ := List.cons.inj all
  exact Nat.lt_succ_of_le (depth_le_append us bs)

/-- Only the lowest call of a loop is an entry. -/
theorem Place.InLoop.entryAt {bs ps : List Place} {height : Nat} (h : InLoop σ bs height ps)
    {fs : List Frame} (frames : fs.map Frame.activation = standing ps) :
    EntryAt (depth bs) fs := by
  induction h generalizing fs with
  | @entry p _ _ =>
    rintro up f rest rfl high -
    have length := congrArg List.length frames
    have few : (standing (p :: bs)).length ≤ depth bs + 1 := by cases p <;> simp [depth]
    simp only [List.length_map, List.length_append, List.length_cons] at length
    omega
  | @above p g ps inner _ _ _ ih =>
    cases p with
    | off a | landed a => exact ih frames
    | on a =>
      obtain ⟨f, below, rfl, same, frames⟩ := List.map_eq_cons_iff.1 frames
      rintro (_ | ⟨u, up⟩) g' rest calls high entered
      · obtain ⟨rfl, rfl⟩ := List.cons.inj calls
        have outer : a.isEntry = true := (congrArg Activation.isEntry same).symm.trans entered
        rw [activation_on] at inner
        exact absurd (inner.symm.trans outer) nofun
      · exact ih frames up g' rest (List.cons.inj calls).2 high entered

section Chain

variable {V : ThreadId → List Place} {t e : Thread} {W ts : List Thread} {a : Awaited}
  {k : Kont ν a} {l : Kont ν .value}

theorem Stands.length_calls (stands : Stands σ s V (t :: W)) (current : s.current = t.id) :
    (s.callsOf s.current).length = depth t.places := by
  have standing := stands.standing current
  rw [← s.callsOf_standing] at standing
  simpa [depth] using congrArg List.length standing

theorem Stands.ready (stands : Stands σ s V (t :: W)) (current : s.current = t.id)
    (among : ∀ c ∈ k.threads, Among t.id W c) (tidy : s.Tidy L)
    (clears : k.Clears L s s.current (s.callsOf s.current).length) :
    k.Ready L s (s.callsOf s.current).length where
  tidy := tidy
  here := stands.hasCurrent current
  absent member := (among _ (current ▸ member)).ne
    (fun u hu => ((List.pairwise_cons.1 stands.distinct).1 u hu).symm) rfl
  clears := clears
  deep := Nat.le_refl _

/-- The frames of a thread are in a loop. -/
theorem Stands.entryAt {ps : List Place} {h : Nat} {mark : Mark} {k : Kont ν .step}
    (stands : Stands σ s V (e.put ps h :: W)) (current : s.current = e.id)
    (inLoop : InLoop σ e.places e.height ps) (loops : Loops σ mark k e W) :
    EntryAt mark.frames (s.callsOf s.current) := by
  cases loops with
  | mk frames =>
    rw [frames]
    exact inLoop.entryAt ((s.callsOf_standing s.current).trans (stands.standing current))

/-- A thread at rest goes on in a loop of its own. -/
theorem Stands.blank (stands : Stands σ s V ts) {c : ThreadId} (idle : ∀ t ∈ ts, t.id ≠ c)
    {r : Resumption} {mark : Mark} (pending : (s.processorOf c).pending = some (r, mark)) :
    mark = {} := by
  obtain ⟨t, rfl, shown, resting⟩ := stands.resting c idle
  have same : t.pending = some (r, mark) := by
    rw [← pending]
    exact (congrArg Shape.pending shown.shape).symm
  generalize s.phase t.id = phase at resting
  cases resting with
  | notStarted h | dead h =>
    rw [h.pending] at same
    cases same
  | suspended h | forced h | parked h | stopped h =>
    rw [h.pending] at same
    cases same
    rfl

/-- Whatever is neither running nor dead is at rest. -/
theorem Stands.resumables (stands : Stands σ s V ts) (busy : s.phase s.current = .running)
    (among : ∀ c ∈ l.threads, c = .root ∨ ∃ u ∈ ts, u.id = c) :
    Machine.Resumables s l := by
  intro c idle alive
  obtain ⟨other, inRange⟩ := State.inRange_of_coroutineState alive
  have asleep : s.phase c ≠ .running := by
    rw [State.phase, if_neg other]
    exact idle
  have apart : ∀ u ∈ ts, u.id ≠ c := fun u hu same => asleep (same ▸ (stands.busy u hu).phase)
  refine ⟨?_, fun same => asleep (same ▸ busy), fun member => ?_, fun _ _ => stands.blank apart⟩
  · rw [stands.size]
    exact Nat.lt_succ_of_le inRange
  · obtain root | ⟨u, hu, same⟩ := among c member
    · exact other root
    · exact apart u hu same

end Chain

namespace Machine

open Exec

variable {library : Library ν} {V : ThreadId → List Place} {t e : Thread} {W ts : List Thread}

/-- What an instruction does with the result of the call it waited for. -/
theorem finishNested_leads (tidy : s.Tidy L) (here : s.HasCurrent) (after : After) (v : Value) :
    Exec.Leads (Carries L [] (s.callsOf s.current).length) s (finishNested after v)
      fun _ _ => True := by
  have pushes : ∀ vs, Exec.Leads (Carries L [] (s.callsOf s.current).length) s (pushAll vs)
      fun _ _ => True := fun vs =>
    leads_of_ok ⟨⟩ _ rfl (carries_pushAll tidy here vs).1 trivial
  cases after with
  | pushTruth negated => exact pushes [_]
  | pushMethod receiver => exact pushes _
  | pushIteration => exact pushes _

/-- **A value** is handed to who waits for it. -/
theorem handValue_upholds (stands : Stands σ s V (t :: W)) (current : s.current = t.id)
    {k : Kont ν .value} (holds : Holds σ k t W) (tidy : s.Tidy L)
    (clears : k.Clears L s s.current (s.callsOf s.current).length) (outcome : Except Fault Value)
    (spared : ∀ d j, L s.current d j →
      d ≤ ((handValue library outcome k s).2.callsOf s.current).length) :
    Upholds L [] s (handValue library outcome k s) := by
  have ready := stands.ready current holds.among tidy clears
  cases holds with
  | host => exact .value ready _
  | @routine next l _ _ =>
    have inner : l.Ready L s _ := { ready with }
    exact .run inner _
  | @collapse l _ _ =>
    have inner : l.Ready L s _ := { ready with }
    exact .value inner _
  | @exit l _ _ =>
    have level : Level s { s with entries := s.entries - 1 } := .of_processors rfl rfl rfl
    have inner : l.Ready L s _ := { ready with }
    exact .level level (.value (inner.level level rfl) _)
  | @method _ _ _ l _ _ =>
    have inner : l.Ready L s _ := { ready with }
    cases outcome with
    | ok v => exact callMethod_upholds inner ..
    | error x => exact .value inner _
  | @asyncMethod _ _ l _ _ =>
    have inner : l.Ready L s _ := { ready with }
    cases outcome with
    | ok v => exact driveAsync_upholds inner ..
    | error x => exact .value inner _
  | @native l a under e h _ native =>
    cases outcome with
    | error x =>
      have inner : l.Ready L s _ := { ready with clears := ready.clears.2.mono (Nat.sub_le ..) }
      exact .step inner _
    | ok v =>
      obtain ⟨f, rest, calls⟩ : ∃ f rest, s.callsOf s.current = f :: rest :=
        List.exists_cons_of_length_pos ready.clears.1
      -- the frame on top is native, and owns nothing that is followed
      have top : f.isNative = true := by
        have standing := (s.callsOf_standing s.current).trans (stands.standing current)
        rw [calls] at standing
        exact (congrArg Activation.isNative (List.cons.inj standing).1).trans native
      have alone : ∀ j, ¬ L s.current (rest.length + 1) j := fun j hj => by
        have pinned := tidy.pinned s.current
        rw [calls] at pinned
        exact absurd ((pinned.1.locals j hj).1.symm.trans top) nofun
      obtain ⟨g, u, run, carries, -⟩ := popFrame_carries tidy ready.here calls alone
      have inner : l.Ready L s rest.length :=
        { ready with
          clears := by
            have clears := ready.clears.2
            rwa [calls] at clears
          deep := by rw [calls]; exact Nat.le_succ _ }
      have next : handValue library (.ok v) (.native l) s = finishFrame library g v true l u := by
        simp only [handValue, Exec.andThen, run]
      rw [next]
      exact .since carries (finishFrame_upholds (inner.carry carries) ..)
  | @finish f l _ _ _ _ =>
    have inner : l.Ready L s _ := { ready with }
    cases outcome with
    | ok v => exact finishFrame_upholds inner ..
    | error x => exact .step inner _
  | @instruction after ip mark at_ l _ _ _ _ _ =>
    have inner : (Kont.loop mark at_ l).Ready L s _ := { ready with }
    cases outcome with
    | error x => exact .step inner _
    | ok v =>
      have finished := finishNested_leads tidy ready.here after v
      change Upholds L [] s ((finishNested after v).andThen
        (fun _ => pure (.step (.ok (.proceed (ip + 1))) (.loop mark at_ l)))
        (fun e => pure (.step (.error e) (.loop mark at_ l))) s)
      unfold Exec.andThen
      cases run : finishNested after v s with
      | ok u s' =>
        have carries := (finished.ok u s' run).1
        exact .since carries (.step (inner.carry carries) _)
      | error x s' =>
        have carries := finished.error x s' run
        exact .since carries (.step (inner.carry carries) _)
  | @decorator error others caught mark l p ps e h _ hl room deep loops =>
    have waits : (Kont.loop mark 0 l).Ready L s _ := { ready with }
    exact runDecorators_upholds waits (stands.entryAt current hl loops) _ caught others spared

/-- **The outcome of a call** is handed to who waits for it. Only in a loop there are entries to
look at. -/
theorem handStep_upholds {k : Kont ν .step} (ready : k.Ready L s n) (outcome : Except Fault Step)
    (entry : ∀ x mark ip l, outcome = .error x → k = .loop mark ip l →
      EntryAt mark.frames (s.callsOf s.current))
    (spared : ∀ d j, L s.current d j →
      d ≤ ((handStep library outcome k s).2.callsOf s.current).length) :
    Upholds L [] s (handStep library outcome k s) := by
  cases k with
  | loop mark ip l =>
    cases outcome with
    | error x => exact unwind_upholds ready (entry x mark ip l rfl rfl) x spared
    | ok step =>
      cases step with
      | proceed next => exact .of_clears ready.tidy (ready.relabel next).high.clears
      | _ => exact .step ready.of_loop _
  | protect frame handler mark l =>
    have inner : l.Ready L s mark.frames :=
      { ready with
        clears := ready.clears.2.2
        deep := Nat.le_trans ready.clears.1 ready.deep }
    cases outcome with
    | ok step => exact .step inner _
    | error x =>
      cases x with
      | script x =>
        change Upholds L [] s ((if s.callDepth = mark.frames then _ else _ :
          Move ν (Control ν)) s)
        split
        · rename_i same
          rw [s.callDepth_eq_calls] at same
          have pinned := ready.clears.2.1
          rw [bottom_self same] at pinned
          have carries := carries_truncate ready.tidy ready.here pinned
          exact .since carries (invoke_upholds ((inner.high.carry carries).finish frame) ..)
        · exact .step inner _
      | _ => exact .step inner _
  | nested l =>
    have inner : l.Ready L s n := { ready with }
    have level := level_modifyProcessor s
      (fun p => { p with nestedCalls := p.nestedCalls - 1 }) fun _ => ⟨rfl, rfl⟩
    exact .level level (.value (inner.level level rfl) _)
  | drive previous l =>
    have inner : l.Ready L s 0 := { ready with deep := Nat.zero_le _ }
    have left : Upholds L [] s (.value (expectReturn outcome) l,
        s.modifyProcessor fun p => { p with asyncMode := previous }) := by
      have level := level_modifyProcessor s
        (fun p => { p with asyncMode := previous }) fun _ => ⟨rfl, rfl⟩
      exact .level level (.value (inner.level level rfl) _)
    cases outcome with
    | error x => exact left
    | ok step =>
      cases step with
      | suspend x =>
        cases x with
        | await task => exact .of_clears ready.tidy ready.high.clears
        | _ => exact left
      | _ => exact left
  | resumed mode c previous l =>
    have ended := endResume_upholds ready outcome
    cases mode with
    | synchronous => exact ended
    | asynchronous =>
      cases outcome with
      | error x => exact ended
      | ok step =>
        cases step with
        | suspend x =>
          cases x with
          | await task =>
            have level : Level s { s with current := previous } := .of_processors rfl rfl rfl
            exact upholds_of_level level ready.tidy (level.clears ready.clears)
          | _ => exact ended
        | _ => exact ended

/-- A task has settled, and the thread that waited for it goes on. -/
theorem settle_upholds (stands : Stands σ s V ts) {c : ThreadId} {k : Kont ν .step}
    (tasked : Tasked σ s c k ts) (tidy : s.Tidy L)
    (clears : (Kont.task c k).Clears L s s.current (s.callsOf s.current).length)
    (outcome : Except Fault Value) : Upholds L [] s (handValue library outcome (.task c k) s) := by
  have level : Level s { s with current := c } := .of_processors rfl rfl rfl
  have bottomed : k.Clears L { s with current := c } c 0 := by
    cases tasked <;> exact level.clears clears
  have ready : k.Ready L { s with current := c } 0 :=
    ⟨level.tidy tidy, stands.inRange tasked.phase, tasked.apart, bottomed, Nat.zero_le _⟩
  exact .level level
    (resumePending_upholds ready (fun _ _ => stands.blank tasked.absent) outcome true)

def writes (m : Machine ν) : List Write :=
  match m.control with
  | .execute ip _ _ => m.state.beforehand ip ++ (m.state.turn? ip).elim [] Turn.writes
  | .run p _ => p.writes m.state
  | _ => []

/-- The instruction that takes effect in a step. -/
def turn? (m : Machine ν) : Option (Turn ν) :=
  match m.control with
  | .execute ip _ _ => m.state.turn? ip
  | _ => none

/-- An instruction that takes effect leaves captured slots and other frames alone. -/
def Careful (m : Machine ν) : Prop := ∀ t ∈ m.turn?, t.Careful

instance (m : Machine ν) : Decidable m.Careful :=
  inferInstanceAs (Decidable (∀ t ∈ m.turn?, t.Careful))

/-- It leaves alone the slots of its frame that are followed. -/
def SparesFollowed (L : Locals) (m : Machine ν) : Prop :=
  ∀ t ∈ m.turn?, ∀ j, L m.state.current (m.state.callsOf m.state.current).length j →
    t.Spares j

/-- **One step** of a machine in order changes no variable but those that it writes. -/
theorem step_upholds {m : Machine ν} (stands : Stands σ m.state V ts)
    (poised : Poised σ m.state m.control ts) (tidy : m.state.Tidy L)
    (clears : m.control.Clears L m.state) (careful : m.Careful) (spares : m.SparesFollowed L)
    (followed : ∀ c d j, L c d j → d ≤ ((m.step library).state.callsOf c).length) :
    Upholds L m.writes m.state ((m.step library).control, (m.step library).state) := by
  obtain ⟨control, s⟩ := m
  change Upholds L _ s (advance library control s)
  have spared : ∀ d j, L s.current d j →
      d ≤ ((advance library control s).2.callsOf s.current).length := followed s.current
  cases poised with
  | @execute ip mark k g ps e h W current script inLoop base loops =>
    have ready := stands.ready current (k := .loop mark ip k) loops.among tidy clears
    refine execute_upholds ready (stands.entryAt current inLoop loops) ?_
      (fun t turn => ⟨careful t turn, spares t turn⟩) spared
    rw [stands.length_calls current]
    cases loops with
    | mk frames => exact frames ▸ inLoop.depth_lt
  | run current holds =>
    refine runProgram_upholds (stands.ready current holds.among tidy clears)
      (stands.resumables ?_ ?_) _
    · rw [current]
      exact (stands.busy _ (List.mem_cons_self ..)).phase
    · intro c hc
      obtain ⟨root, -⟩ | ⟨u, hu, same⟩ := holds.among c hc
      · exact .inl root
      · exact .inr ⟨u, List.mem_cons_of_mem _ hu, same⟩
  | value current holds => exact handValue_upholds stands current holds tidy clears _ spared
  | @blocked task k t W current holds =>
    cases task <;> exact .of_clears tidy clears
  | idle current => exact .of_clears tidy trivial
  | @awaits task c k ts tasked =>
    cases task <;> exact .of_clears tidy clears
  | settles tasked => exact settle_upholds stands tasked tidy clears _
  | @arrives r k a under e t W current arrives guards =>
    have same : t.id = e.id := by cases arrives <;> rfl
    have ready := stands.ready (current.trans same.symm) (same ▸ guards.among) tidy clears
    refine handStep_upholds ready r ?_ spared
    rintro x mark ip l rfl rfl
    cases arrives with
    | failed _ inLoop =>
      cases guards with
      | loop loops => exact stands.entryAt current inLoop loops
  | @leaves r k e W current leaves enters =>
    have ready := stands.ready current enters.among tidy clears
    refine handStep_upholds ready r ?_ spared
    rintro x mark ip l rfl rfl
    cases enters
  | @parts x k e W current absent nested parts waits =>
    have among : ∀ c ∈ k.threads, Among e.id ts c := by
      obtain enters | ⟨a, under, guards⟩ := waits
      · exact enters.among
      · exact guards.among
    have ready : k.Ready L s (s.callsOf s.current).length :=
      { tidy
        here := by
          unfold State.HasCurrent
          rw [current, stands.size]
          refine Nat.lt_succ_of_le ?_
          by_cases root : e.id = .root
          · rw [root]
            exact Nat.zero_le _
          · refine (State.inRange_of_coroutineState fun dead => ?_).2
            have phase := parts.phase
            rw [State.phase, if_neg root, dead] at phase
            cases phase
        absent := fun member => (among _ (current ▸ member)).ne absent rfl
        clears
        deep := Nat.le_refl _ }
    refine handStep_upholds ready _ ?_ spared
    rintro _ _ _ _ ⟨⟩

/-- A host that may act waits for nothing on a stack. -/
theorem clears_of_idle {m : Machine ν} (poised : Poised σ s m.control ts) (idle : m.Idle)
    (turn : m.control.occupied = false) (s' : State ν) : m.control.Clears L s' := by
  obtain ⟨control, _⟩ := m
  cases poised with
  | value current holds =>
    cases holds with
    | host => trivial
    | _ => exact idle.elim
  | blocked current holds => cases holds <;> exact idle.elim
  | idle current => trivial
  | awaits tasked =>
    cases tasked with
    | drive _ _ _ enters =>
      obtain ⟨rfl, -⟩ := root_of_undriven enters turn
      trivial
    | resumed => trivial
  | _ => exact idle.elim

theorem writes_of_idle {m : Machine ν} (idle : m.Idle) : m.writes = [] := by
  obtain ⟨control, s⟩ := m
  cases control with
  | value | await | step => rfl
  | execute | run => exact idle.elim

/-- A suspended call of the root is given up. -/
theorem timeOut_upholds (ready : (Kont.host : Kont ν .value).Ready L s n) (milliseconds : Nat)
    (spared : ∀ d j, L s.current d j →
      d ≤ ((timeOut milliseconds s).2.callsOf s.current).length) :
    Upholds L [] s ((do return .value (← timeOut milliseconds) .host : Move ν (Control ν)) s) := by
  have loops : (Kont.loop {} 0 (.drive false (.exit .host)) : Kont ν .step).Ready L s n :=
    { ready with
      clears := by
        have empty : bottom 0 (s.callsOf s.current) = [] := List.drop_length
        exact ⟨Nat.zero_le _, by rw [empty]; trivial, trivial⟩ }
  obtain ⟨s', run, given⟩ := exists_timeOut milliseconds s
  have level : Level (abandon {} s).2 { s' with entries := s'.entries - 1 } := by
    rw [given]
    exact (level_modifyProcessor _ (fun p =>
      { p with pending := none, asyncMode := false, nestedCalls := 0 }) fun _ => ⟨rfl, rfl⟩).trans
        (.of_processors rfl rfl rfl)
  rw [run] at spared
  obtain ⟨carries, -⟩ := abandon_carries loops fun d j hj => by
    have := spared d j hj
    rwa [level.shallow.calls, depth_abandon (Nat.zero_le _)] at this
  rw [bind_of_eq run]
  exact .since carries (upholds_of_level level carries.tidy trivial)

/-- **Whatever comes next**, no variable changes but those that are written. -/
theorem next_upholds {m m' : Machine ν} (next : Next library m m') (ordered : m.Ordered σ V)
    (turn : m.control.occupied = true → m' = m.step library) (tidy : m.state.Tidy L)
    (clears : m.control.Clears L m.state) (careful : m.Careful) (spares : m.SparesFollowed L)
    (followed : ∀ c d j, L c d j → d ≤ (m'.state.callsOf c).length) :
    Upholds L m.writes m.state (m'.control, m'.state) := by
  obtain ⟨ts, stands, poised⟩ := ordered
  have stepped : m' = m.step library → Upholds L m.writes m.state (m'.control, m'.state) := by
    rintro rfl
    exact step_upholds stands poised tidy clears careful spares followed
  by_cases occupied : m.control.occupied = true
  · exact stepped (turn occupied)
  have free := Bool.eq_false_iff.2 occupied
  have host : m.Idle → (Kont.host : Kont ν .value).Ready L m.state
      (m.state.callsOf m.state.current).length := fun idle =>
    { tidy
      here := by
        unfold State.HasCurrent
        rw [(grounded_of_idle poised idle free).1, stands.size]
        exact Nat.succ_pos _
      absent := List.not_mem_nil
      clears := trivial
      deep := Nat.le_refl _ }
  cases next with
  | step => exact stepped rfl
  | call idle _ hm =>
    rw [writes_of_idle idle]
    have entering : Level m.state { m.state with entries := m.state.entries + 1 } :=
      .of_processors rfl rfl rfl
    have ready := (host idle).level entering rfl
    have exit : (Kont.exit (.host : Kont ν .value)).Ready L _ _ := { ready with }
    refine .level entering ?_
    cases hm with
    | call function arguments => exact callNested_upholds exit ..
    | thisCall object method arguments =>
      have waits : (Kont.method object method arguments (.exit .host)).Ready L _ _ :=
        { exit with }
      exact indexNested_upholds waits ..
    | callAsync function arguments => exact driveAsync_upholds exit ..
    | thisCallAsync object method arguments =>
      have waits : (Kont.asyncMethod object arguments (.exit .host)).Ready L _ _ :=
        { exit with }
      exact indexNested_upholds waits ..
  | act idle =>
    rw [writes_of_idle idle]
    exact .of_clears tidy trivial
  | resume mode c arguments idle =>
    rw [writes_of_idle idle]
    refine resume_upholds (host idle) (stands.resumables ?_ fun _ member =>
      absurd member List.not_mem_nil) mode c arguments
    rw [(grounded_of_idle poised idle free).1]
    exact if_pos rfl
  | await task idle | awaitCoroutine task c idle =>
    rw [writes_of_idle idle]
    exact .of_clears tidy trivial
  | timeOut milliseconds idle =>
    rw [writes_of_idle idle]
    exact timeOut_upholds (host idle) milliseconds (followed _)
  | arrange world idle =>
    rw [writes_of_idle idle]
    exact upholds_of_level (.of_world world) tidy (clears_of_idle poised idle free _)
  | @load p v s idle loaded =>
    rw [writes_of_idle idle]
    obtain ⟨carries, -⟩ := (load_leads tidy (Nat.le_refl _) p).ok v s loaded
    exact .since carries (.of_clears carries.tidy (clears_of_idle poised idle free _))
  | autoYield c budget idle =>
    rw [writes_of_idle idle]
    exact upholds_of_level (level_setAutoYield c budget) tidy (clears_of_idle poised idle free _)

end Machine

end ScriptMachine
