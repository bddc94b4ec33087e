import ScriptMachine.Proofs.Machine.Calling

/-!
# Leaving calls

The moves that end calls, or put them off, reach a state in order.

* `deliver_reaches`: a result goes to the caller, or out of the loop.
* `finishFrame_reaches`: a popped frame has its result, which may ask for another call, a yield or
  a task.
* `resumePending_reaches`: a thread at rest goes on where it stopped.
-/

namespace ScriptMachine.Machine

open Place

variable {ν : Type} {σ : Prop} {w : ThreadId → Nat → Prop} {allowed : Fault → Prop}
  {s s' : State ν} {V : ThreadId → List Place} {t e : Thread} {W : List Thread}
  {library : Library ν} {f : Frame} {k : Kont ν .step}

/-- The call fails while its frame is gone. -/
theorem failed_reaches (stands : Stands σ s V (t :: W)) (current : s.current = t.id)
    (holds : Holds σ (.finish f k) t W) {x : Fault} (stray : x.isStray = true → allowed x) :
    Reaches σ w allowed s V (.step (.error x) k, s) := by
  cases holds with
  | @finish _ _ under e h _ hl height guards =>
    refine reaches_refl stands (.arrives (e := e) current ?_ guards) (fails_step stray)
    exact .failed (.inr rfl) hl fun hσ => Nat.le_of_eq (height (.inl hσ)).symm

theorem deliver_reaches (stands : Stands σ s V (t :: W)) (current : s.current = t.id)
    (holds : Holds σ (.finish f k) t W) (v : Value) :
    Reaches σ w allowed s V (deliver f.flags f.returnAddress v k s) := by
  cases holds with
  | @finish _ _ under e h _ hl height guards =>
    have busy := stands.busy _ (List.mem_cons_self ..)
    by_cases entry : f.flags.entryPoint = true
    · obtain ⟨rfl, floor⟩ := hl.of_entry entry
      have m : Moves σ e.height w s s (e.put (off f.activation :: e.places) h) e :=
        ⟨.refl s, current, rfl, busy.pending, busy.shape,
          fun known => (busy.height known).trans ((height known).trans (floor known)),
          guards.fits⟩
      unfold deliver
      simp only [entry]
      refine m.reaches stands (keeps_leave hl guards.fits.low) ?_ (no_fault rfl)
      exact .arrives (e := e) current .returned guards
    · have low := low_of_inLoop guards.fits hl
      have isEntry : f.activation.isEntry = false := Bool.eq_false_iff.2 entry
      have hl' : InLoop σ e.places e.height (landed f.activation :: under) := hl.replace (.refl _)
      have arrived : ∀ {s' : State ν}, Steady σ f.activation.floor w s s' →
          (σ → s'.heightOf s.current = f.activation.landing) →
          Reaches σ w allowed s V (.step (.ok (.proceed f.returnAddress)) k, s') := by
        intro s' steady height
        have m := moves_steady (landed f.activation :: under) stands current steady rfl
          (Thread.fits_put guards.fits hl' fun hσ => by
            rw [height hσ]
            exact f.activation.floor_le_landing)
        have replaced := retains_replace (p := off f.activation) (q := landed f.activation) (.refl _) low
        refine m.reaches stands replaced.keeps ?_ (no_fault rfl)
        exact .arrives (e := e) m.runs (.landed isEntry hl' height) guards
      unfold deliver
      simp only [entry]
      by_cases discards : f.flags.discardResult = true
      · simp only [discards]
        refine arrived (.refl s) fun hσ => ?_
        rw [stands.height current (.inl hσ)]
        exact (height (.inl hσ)).trans (if_pos discards).symm
      · simp only [discards]
        obtain ⟨steady, pushed⟩ := Exec.pushAll_local (σ := σ) (w := w)
          [if f.flags.scalarResult then v.scalar else v] f.activation.floor
          (stands.hasCurrent current) fun hσ => by
            rw [stands.height current (.inl hσ)]
            exact Nat.le_of_eq (height (.inl hσ)).symm
        refine arrived steady fun hσ => ?_
        rw [stands.height current (.inl hσ)] at pushed
        exact pushed.trans ((congrArg (· + 1) (height (.inl hσ))).trans (if_neg discards).symm)

theorem performTailRequest_reaches (stands : Stands σ s V (t :: W))
    (current : s.current = t.id) (holds : Holds σ (.finish f k) t W) (request : TailCall) :
    Reaches σ w allowed s V (performTailRequest library f request k s) := by
  have failed : Reaches σ w allowed s V (.step (.error (.defect .handlersTwice)) k, s) :=
    failed_reaches stands current holds (by simp [Fault.isStray])
  cases holds with
  | @finish _ _ under e h _ hl height guards =>
    have low := low_of_inLoop guards.fits hl
    obtain ⟨steady, pushed⟩ := Exec.pushAll_local (σ := σ) (w := w)
      (request.function :: request.arguments) f.activation.floor (stands.hasCurrent current)
      fun hσ => by
        rw [stands.height current (.inl hσ)]
        exact Nat.le_of_eq (height (.inl hσ)).symm
    have m := moves_steady (off f.activation :: under) stands current steady rfl
      (Thread.fits_put guards.fits hl fun hσ => by
        rw [pushed, stands.height current (.inl hσ)]
        exact Nat.le_trans (Nat.le_of_eq (height (.inl hσ)).symm) (Nat.le_add_right ..))
    have serves : ∀ handlers, Serves (Known σ under)
        { argc := request.arguments.length, returnAddress := f.returnAddress,
          flags := f.flags.inherited, handlers, name := f.name }
        f.activation.floor f.activation := fun handlers => by
      refine ⟨?_, ?_, rfl, fun _ => rfl⟩ <;>
        simp [Frame.activation, FrameFlags.inherited, FrameFlags.inter, FrameFlags.inheritable]
    have begun : ∀ {k' : Kont ν .step} handlers, Guards σ k' f.activation under e W →
        Reaches σ w allowed s V (performCall library
          { argc := request.arguments.length, returnAddress := f.returnAddress,
            flags := f.flags.inherited, handlers, name := f.name } k'
          (s.modifyStack (·.pushAll (request.function :: request.arguments)))) := by
      intro k' handlers guards'
      refine .after (m.extends stands (retains_refl low)) ?_
      refine performCall_reaches (m.stands stands) m.runs hl guards' (serves handlers) ?_
      intro known
      rw [pushed, stands.height current known]
      exact congrArg (· + _) (height known)
    change Reaches σ w allowed s V ((if _ then _ else _ : Move ν (Control ν)) s)
    split
    · exact failed
    · refine begun _ ?_
      split
      · refine .protect ?_ ?_ (fun known => (stands.height current known).trans (height known))
          guards
        · exact s.callDepth_eq.trans (congrArg _ (stands.standing current))
        · refine ⟨?_, ?_, rfl, fun _ => rfl⟩ <;>
            simp [Frame.activation, FrameFlags.inherited, FrameFlags.inter, FrameFlags.inheritable]
      · exact guards

/-- The thread that runs stops for a reason. -/
theorem suspend_reaches {ps : List Place} {h bound : Nat} {x : Suspension} {r : Resumption}
    (stands : Stands σ s V (e.put ps h :: W)) (current : s.current = e.id)
    (hl : Local σ bound w s s')
    (shape : s'.shape s.current = { s.shape s.current with pending := some (r, {}) })
    (height : s'.heightOf s.current = s.heightOf s.current)
    (low : σ → ∀ p ∈ ps, p.activation.floor ≤ bound) (nested : e.nested = 0)
    (resting : ({ e.put ps h with pending := some (r, {}) } : Thread).Resting σ .running)
    (stops : Stops e x r) (waits : Enters σ k e W ∨ ∃ a under, Guards σ k a under e W) :
    Reaches σ w allowed s V (.step (.ok (.suspend x)) k, s') := by
  have busy := stands.busy _ (List.mem_cons_self ..)
  have phase : s'.phase e.id = .running := (hl.phase e.id).trans busy.phase
  rw [stands.shape current, current] at shape
  rw [current] at height
  have stands' := stands.rest { e.put ps h with pending := some (r, {}) }
    (current ▸ hl.beside) rfl shape (fun known => height.trans (busy.height known))
    (phase.symm ▸ resting)
  have distinct : ∀ u ∈ W, u.id ≠ e.id := fun u hu same =>
    (List.pairwise_cons.1 stands.distinct).1 u hu same.symm
  have evolves : Evolves σ w s V (.step (.ok (.suspend x)) k, s')
      (Function.update V s.current ps) := by
    refine Local.evolves (x := (.step (.ok (.suspend x)) k, s')) hl ?_
    rw [current, show V e.id = ps from busy.places]
    exact (retains_refl low).keeps
  rw [current] at evolves
  refine ⟨⟨_, W, stands', ?_, evolves⟩, (no_fault rfl)⟩
  exact .parts (hl.current.trans current) distinct nested
    ⟨phase, by rw [shape]; rfl, r, by rw [shape], stops⟩ waits

theorem suspendOn_reaches (stands : Stands σ s V (t :: W)) (current : s.current = t.id)
    (holds : Holds σ (.finish f k) t W) {x : Suspension} (nested : t.nested = 0)
    (stops : Stops t x (.deliver f)) :
    Reaches σ w allowed s V (suspendOn f x k s) := by
  cases holds with
  | @finish _ _ under e h _ hl height guards =>
    have blank := guards.blank nested
    have stops : Stops e x (.deliver f) := by
      cases stops with
      | yield root => exact .yield root
      | await async => exact .await async
    have inLoop : InLoop σ [] 0 (off f.activation :: under) := by
      rw [blank.places] at hl
      exact hl.congr_height fun _ => blank.height
    refine suspend_reaches stands current (local_modifyProcessor _ fun _ _ _ _ _ => rfl)
      ?_ ?_ (low_of_inLoop guards.fits hl) nested ?_ stops (.inr ⟨_, _, guards⟩)
    · exact congrArg _ (State.processor_modifyProcessor (stands.hasCurrent current) _)
    · exact State.view_modifyProcessorOf s _ _ _ (fun p => p.stack.size) fun _ => rfl
    · exact .parked ⟨rfl, rfl, inLoop, nested, height⟩

theorem suspendForYield_reaches (stands : Stands σ s V (t :: W)) (current : s.current = t.id)
    (holds : Holds σ (.finish f k) t W) (values : List Value) :
    Reaches σ w allowed s V (suspendForYield f values k s) := by
  have failed : ∀ c : Cause, Reaches σ w allowed s V (.step (.error (.raise c)) k, s) :=
    fun c => failed_reaches stands current holds (by simp)
  change Reaches σ w allowed s V ((if _ then _ else if _ then _ else _ : Move ν (Control ν)) s)
  split
  · exact failed _
  · split
    · exact failed _
    · rename_i coroutine free
      refine suspendOn_reaches stands current holds ?_ (.yield ?_)
      · have nested := congrArg Shape.nested (stands.shape current)
        simp only [State.shape, Processor.shape, Thread.shape] at nested
        simp only [State.processor] at free
        omega
      · rintro root
        rw [root] at current
        simp [State.inCoroutine, current, ThreadId.root] at coroutine

theorem takeTask_error {h : Heap} {request : RequestId} {x : Fault}
    (taken : h.takeTask request = .error x) : x.isStray = false := by
  unfold Heap.takeTask at taken
  split at taken
  · contradiction
  · cases taken
    rfl

theorem handleAwait_eq (frame : Frame) (request : RequestId) (k : Kont ν .step) (s : State ν) :
    handleAwait frame request k s = (match s.heap.takeTask request with
      | .error e => pure (.step (.error e) k)
      | .ok (task, heap) => do
        set (s.setHeap heap)
        if s.processor.asyncMode && s.processor.nestedCalls == 0 then
          suspendOn frame (.await task) k
        else if s.options.autoAwait then return .await task (.finish frame k)
        else return .step (.error (.raise .awaitInSynchronousCall)) k : Move ν (Control ν)) s :=
  rfl

theorem handleAwait_reaches (stands : Stands σ s V (t :: W)) (current : s.current = t.id)
    (holds : Holds σ (.finish f k) t W) (request : RequestId) :
    Reaches σ w allowed s V (handleAwait f request k s) := by
  rw [handleAwait_eq]
  cases taken : s.heap.takeTask request with
  | error x =>
    have stray := takeTask_error taken
    exact failed_reaches stands current holds (by simp [stray])
  | ok result =>
    obtain ⟨task, heap⟩ := result
    have stands' : Stands σ (s.setHeap heap) V (t :: W) := stands.same rfl rfl
    refine .same (s.setHeap heap) (fun _ => rfl) ?_
    change Reaches σ w allowed (s.setHeap heap) V
      ((if _ then _ else if _ then _ else _ : Move ν (Control ν)) (s.setHeap heap))
    split
    · rename_i asynchronous
      have shape := stands.shape current
      simp only [State.shape, Processor.shape, Thread.shape, Shape.mk.injEq] at shape
      simp only [State.processor, Bool.and_eq_true, beq_iff_eq] at asynchronous
      refine suspendOn_reaches stands' current holds ?_ (.await ?_)
      · exact shape.2.1.symm.trans asynchronous.2
      · exact shape.2.2.1.symm.trans asynchronous.1
    · split
      · exact reaches_refl stands' (.blocked current holds) (no_fault rfl)
      · exact failed_reaches stands' current holds (by simp)

/-- A popped frame keeps its place without its handlers. -/
theorem holds_disarmed (holds : Holds σ (.finish f k) t W) :
    Holds σ (.finish (disarmed f) k) t W := by
  cases holds with
  | finish hl height guards => exact .finish (f := disarmed f) hl height guards

/-- **The result of a popped frame.** -/
theorem finishFrame_reaches (stands : Stands σ s V (t :: W))
    (current : s.current = t.id) (holds : Holds σ (.finish f k) t W) (v : Value)
    (fromNative : Bool) :
    Reaches σ w allowed s V (finishFrame library f v fromNative k s) := by
  unfold finishFrame
  split
  · exact performTailRequest_reaches stands current holds _
  · exact suspendForYield_reaches stands current holds _
  · exact handleAwait_reaches stands current holds _
  · cases f.handlers.continuation with
    | some g => exact invoke_reaches stands current (holds_disarmed holds) ..
    | none => exact deliver_reaches stands current holds v

theorem resumePending_nothing (library : Library ν) (input : Except Fault Value) (fromTask : Bool)
    (k : Kont ν .step) (h : s.processor.pending = none) :
    resumePending library input fromTask k s =
      (.step (.error (.defect .nothingSuspended)) k, s) := by
  unfold resumePending
  simp only [bind, StateT.bind, get, getThe, MonadStateOf.get, StateT.get, pure]
  rw [h]
  rfl

theorem resumePending_deliver (library : Library ν) (input : Except Fault Value) (fromTask : Bool)
    (k : Kont ν .step) {f : Frame} {m : Mark} (h : s.processor.pending = some (.deliver f, m)) :
    resumePending library input fromTask k s = (match input with
      | .ok v => finishFrame library f v fromTask (.loop m (f.returnAddress - 1) k)
      | .error e => pure (.step (.error e) (.loop m (f.returnAddress - 1) k)) : Move ν (Control ν))
      (s.modifyProcessor fun p => { p with pending := none, sinceResume := 0 }) := by
  unfold resumePending
  simp only [bind, StateT.bind, get, getThe, MonadStateOf.get, StateT.get, pure]
  rw [h]
  rfl

theorem resumePending_instruction (library : Library ν) (input : Except Fault Value)
    (fromTask : Bool) (k : Kont ν .step) {ip : Nat} {m : Mark}
    (h : s.processor.pending = some (.instruction ip, m)) :
    resumePending library input fromTask k s = (.execute ip m k,
      s.modifyProcessor fun p => { p with pending := none, sinceResume := 0 }) := by
  unfold resumePending
  simp only [bind, StateT.bind, get, getThe, MonadStateOf.get, StateT.get, pure]
  rw [h]
  rfl

/-- The thread that runs is no longer at rest, with its calls in a loop of their own. -/
theorem wake_stands {ps : List Place} {t : Thread} (stands : Stands σ s V W)
    (current : s.current = e.id) (absent : ∀ u ∈ W, u.id ≠ e.id)
    (inRange : e.id.index < s.processors.size) (phase : s.phase e.id = .running)
    (blank : e.Blank) (async : (s.shape e.id).async = e.async) (id : t.id = e.id)
    (shown : Shown σ s V t) (places : t.places = ps) (nested : t.nested = 0)
    (fits : (e.put ps t.height).Fits σ) :
    let s' := s.modifyProcessor fun p => { p with pending := none, sinceResume := 0 }
    Stands σ s' (Function.update V e.id ps) (e.put ps t.height :: W) ∧
      Extends σ w s V s' (Function.update V e.id ps) ∧ s'.current = e.id := by
  intro s'
  have hl : Local σ t.height w s s' := local_modifyProcessor _ fun _ _ _ _ _ => rfl
  have run : s'.processorOf e.id =
      { s.processorOf e.id with pending := none, sinceResume := 0 } :=
    current ▸ State.processor_modifyProcessor (s := s) (by
      unfold State.HasCurrent
      rw [current]
      exact inRange) _
  have shape := shown.shape
  rw [id] at shape
  refine ⟨?_, ?_, current⟩
  · refine stands.wake (t := e.put ps t.height) (current ▸ hl.beside) absent inRange blank.pending
      ?_ ?_ fits ((hl.phase _).trans phase)
    · simp only [State.shape, Processor.shape, Thread.shape, Shape.mk.injEq] at shape async ⊢
      obtain ⟨standing, calls, -, -⟩ := shape
      simp [Thread.put, run, standing, calls, async, places, nested, blank.nested, blank.pending]
    · intro known
      have height := shown.height (places ▸ known)
      rw [id] at height
      simp only [State.heightOf, State.stackOf] at height ⊢
      simp only [Thread.put, run, height]
  · rw [← current]
    refine hl.extends ?_
    have before : V s.current = ps := by
      rw [current, ← id, shown.places, places]
    rw [before]
    exact retains_refl fits.low

theorem resumePending_reaches (stands : Stands σ s V W)
    (current : s.current = e.id) (absent : ∀ u ∈ W, u.id ≠ e.id)
    (inRange : e.id.index < s.processors.size) (phase : s.phase e.id = .running)
    (blank : e.Blank) (async : (s.shape e.id).async = e.async) (enters : Enters σ k e W)
    (input : Except Fault Value) (fromTask : Bool)
    (faults : ∀ x, input = .error x → x.isStray = true → allowed x) :
    Reaches σ w allowed s V (resumePending library input fromTask k s) := by
  obtain ⟨t, id, shown, resting⟩ := stands.resting e.id absent
  have pending : s.processor.pending = t.pending := by
    have shape := shown.shape
    rw [id] at shape
    rw [State.processor, current]
    exact congrArg Shape.pending shape
  have loops : Loops σ {} k e W :=
    .mk (by rw [blank.places]; rfl) (fun _ => blank.height.symm) blank.fits blank.ground enters
  have inLoop : ∀ {ps : List Place}, InLoop σ [] 0 ps → InLoop σ e.places e.height ps := by
    intro ps h
    rw [blank.places]
    exact h.congr_height fun _ => blank.height.symm
  rw [phase] at resting
  cases resting with
  | @parked f rest h =>
    have hl := inLoop h.inLoop
    obtain ⟨stands', extends', current'⟩ := wake_stands (w := w) stands current absent inRange
      phase blank async id shown h.places h.nested
      (Thread.fits_put blank.fits hl fun hσ => Nat.le_of_eq (h.height (.inl hσ)).symm)
    have holds : Holds σ (.finish f (.loop {} (f.returnAddress - 1) k))
        (e.put (off f.activation :: rest) t.height) W := .finish hl h.height (.loop loops)
    rw [resumePending_deliver library input fromTask k (pending.trans h.pending)]
    refine .after extends' ?_
    cases input with
    | ok v => exact finishFrame_reaches stands' current' holds v fromTask
    | error x => exact failed_reaches stands' current' holds (faults x rfl)
  | @stopped ip g rest h =>
    have hl := inLoop h.inLoop
    obtain ⟨stands', extends', current'⟩ := wake_stands (w := w) stands current absent inRange
      phase blank async id shown h.places h.nested
      (Thread.fits_put blank.fits hl fun hσ => Nat.le_trans g.floor_le_base (h.height hσ))
    rw [resumePending_instruction library input fromTask k (pending.trans h.pending)]
    refine .after extends' ?_
    exact reaches_refl stands' (.execute current' h.script hl h.height loops) (no_fault rfl)

end ScriptMachine.Machine
