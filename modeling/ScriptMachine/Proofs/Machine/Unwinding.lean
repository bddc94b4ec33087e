import ScriptMachine.Proofs.Machine.Calling

/-!
# Unwinding calls

The moves that drop calls after a fault reach a state in order.

* `Dropped`: the running thread has lost its innermost calls, and nothing below them.
* `abandon_dropped`: all calls of a loop are dropped.
* `popToHandler_reaches`: the calls above a handler are dropped, or all calls of the loop.
* `unwind_reaches`: a fault is caught, or leaves the loop.
-/

namespace ScriptMachine

open Place

theorem Place.InLoop.depth_le {σ : Prop} {bs ps : List Place} {height : Nat}
    (h : InLoop σ bs height ps) : depth bs ≤ depth ps := by
  obtain ⟨u, us, rfl, -⟩ := h.exists_append
  exact depth_le_append (u :: us) bs

namespace Machine

variable {ν : Type} {σ : Prop} {w : ThreadId → Nat → Prop} {allowed : Fault → Prop}
  {s s' : State ν} {V : ThreadId → List Place} {t e : Thread} {W : List Thread}
  {library : Library ν} {k : Kont ν .step} {bs ps : List Place} {bound height : Nat}

/-- The running thread has dropped its innermost calls, down to `ps`. -/
structure Dropped (σ : Prop) (w : ThreadId → Nat → Prop) (s s' : State ν) (bound : Nat)
    (ps : List Place) : Prop where
  toLocal : Local σ bound w s s'
  shape : s'.shape s.current = { s.shape s.current with standing := standing ps }
  room : σ → bound ≤ s'.heightOf s.current

theorem Dropped.weaken {low : Nat} {qs : List Place} (h : Dropped σ w s s' bound ps)
    (hb : σ → low ≤ bound) (same : standing qs = standing ps) : Dropped σ w s s' low qs :=
  ⟨h.toLocal.weaken hb, by rw [h.shape, same], fun hσ => Nat.le_trans (hb hσ) (h.room hσ)⟩

theorem Dropped.pop {a : Activation} (h : Dropped σ w s s' bound (on a :: ps))
    (current : s.HasCurrent) (hb : σ → a.floor ≤ bound) :
    ∃ f s'', dropFrame s' = (some f, s'') ∧ f.activation = a ∧ Dropped σ w s s'' a.floor ps ∧
      (σ ∨ a.floor = 0 → s''.heightOf s.current = a.floor) := by
  have same := h.toLocal.current
  have standing : (s'.shape s'.current).standing = a :: standing ps := by
    rw [same, h.shape]
    rfl
  obtain ⟨f, s'', popped, hf, hl, shape, height⟩ :=
    Exec.popFrame_ok (σ := σ) (w := w) (h.toLocal.hasCurrent current) standing
  rw [same] at shape height
  have floor : σ ∨ a.floor = 0 → s''.heightOf s.current = a.floor := by
    rintro (hσ | bottom)
    · rw [height]
      exact Nat.min_eq_left (Nat.le_trans (hb hσ) (h.room hσ))
    · rw [height, bottom, Nat.zero_min]
  refine ⟨f, s'', ?_, hf, ⟨(h.toLocal.weaken hb).trans hl, ?_, ?_⟩, floor⟩
  · simp only [dropFrame, popped]
  · rw [shape, h.shape]
  · exact fun hσ => Nat.le_of_eq (floor (.inl hσ)).symm

/-- The frames of a loop are dropped one by one. -/
theorem dropFrames_dropped (hl : InLoop σ bs height ps) (h : Dropped σ w s s' bound ps)
    (current : s.HasCurrent) (hb : σ → ∀ p ∈ ps.head?, p.activation.floor ≤ bound) :
    Dropped σ w s (dropFrames (depth ps - depth bs) s').2 height bs := by
  induction hl generalizing s' bound with
  | @entry p entry floor =>
    have low : σ → p.activation.floor ≤ bound := fun hσ => hb hσ p rfl
    have reached : σ → height ≤ p.activation.floor := fun hσ => Nat.le_of_eq (floor (.inl hσ)).symm
    cases p with
    | on a =>
      obtain ⟨f, s'', dropped, -, h, -⟩ := h.pop current low
      have count : depth (on a :: bs) - depth bs = 1 := by simp
      rw [count]
      change Dropped σ w s (dropFrame s').2 height bs
      rw [dropped]
      exact h.weaken reached rfl
    | off a | landed a =>
      simp only [depth_off, depth_landed, Nat.sub_self]
      exact h.weaken (fun hσ => Nat.le_trans (reached hσ) (low hσ)) rfl
  | @above p g ps entry script room inLoop ih =>
    have low : σ → p.activation.floor ≤ bound := fun hσ => hb hσ p rfl
    have next : σ → g.floor ≤ p.activation.floor := fun hσ =>
      Nat.le_trans g.floor_le_base (room hσ)
    cases p with
    | on a =>
      obtain ⟨f, s'', dropped, -, h, -⟩ := h.pop current low
      have count : depth (on a :: on g :: ps) - depth bs =
          (depth (on g :: ps) - depth bs) + 1 := by
        rw [depth_on, Nat.succ_sub inLoop.depth_le]
      rw [count]
      change Dropped σ w s (dropFrames _ (dropFrame s').2).2 height bs
      rw [dropped]
      refine ih h fun hσ p hp => ?_
      cases hp
      exact next hσ
    | off a | landed a =>
      simp only [depth_off, depth_landed]
      refine ih (h.weaken low rfl) fun hσ p hp => ?_
      cases hp
      exact next hσ

/-- What is left of the stack above the loop is cut off. -/
theorem Dropped.truncate (h : Dropped σ w s s' height bs) (current : s.HasCurrent) {size : Nat}
    (hs : Known σ bs → size = height) (ground : depth bs = 0 → height = 0) :
    Dropped σ w s (s'.modifyStack (·.truncate size)) height bs ∧
      (Known σ bs → (s'.modifyStack (·.truncate size)).heightOf s.current = height) := by
  obtain ⟨steady, cut⟩ := Exec.truncate_local (σ := σ) (w := w) size height
    (h.toLocal.hasCurrent current) fun hσ => Nat.le_of_eq (hs (.inl hσ)).symm
  have shape := steady.shape
  rw [h.toLocal.current] at cut shape
  have reached : Known σ bs → (s'.modifyStack (·.truncate size)).heightOf s.current = height := by
    intro known
    rw [cut, hs known]
    obtain hσ | bottom := known
    · exact Nat.min_eq_left (h.room hσ)
    · rw [ground bottom, Nat.zero_min]
  exact ⟨⟨h.toLocal.trans steady.toLocal, shape.trans h.shape,
    fun hσ => Nat.le_of_eq (reached (.inl hσ)).symm⟩, reached⟩

theorem abandon_dropped {m : Mark} (hl : InLoop σ bs height ps) (frames : m.frames = depth bs)
    (stack : Known σ bs → m.stack = height) (ground : depth bs = 0 → height = 0)
    (current : s.HasCurrent) (standing : (s.shape s.current).standing = standing ps)
    (room : σ → ∀ p ∈ ps.head?, p.activation.floor ≤ s.heightOf s.current) :
    Dropped σ w s (abandon m s).2 height bs ∧
      (Known σ bs → (abandon m s).2.heightOf s.current = height) := by
  have start : Dropped σ w s s (s.heightOf s.current) ps :=
    ⟨.refl s, by rw [← standing], fun _ => Nat.le_refl _⟩
  have count : s.callDepth - m.frames = depth ps - depth bs := by
    rw [s.callDepth_eq, standing, frames]
    rfl
  have run : (abandon m s).2 =
      (dropFrames (s.callDepth - m.frames) s).2.modifyStack (·.truncate m.stack) := rfl
  rw [run, count]
  exact (dropFrames_dropped hl start current room).truncate current stack ground

variable {m : Mark} {all : List Place} {h : Nat}

/-- A fault leaves the loop, once all calls of the loop are dropped. -/
theorem leave_reaches (stands : Stands σ s V (e.put all h :: W)) (current : s.current = e.id)
    (hl : InLoop σ e.places e.height all) (loops : Loops σ m k e W)
    (dropped : Dropped σ w s s' e.height e.places)
    (height : Known σ e.places → s'.heightOf s.current = e.height) {x : Fault}
    (stray : x.isStray = true → allowed x) :
    Reaches σ w allowed s V (.step (.error x) k, s') := by
  cases loops with
  | mk frames stack fits ground enters =>
    have busy := stands.busy _ (List.mem_cons_self ..)
    have shape := dropped.shape
    rw [stands.shape current, current] at shape
    rw [current] at height
    have moves : Moves σ e.height w s s' (e.put all h) e :=
      ⟨dropped.toLocal, current, rfl, busy.pending, shape, height, fits⟩
    refine moves.reaches stands (keeps_leave hl fits.low) ?_ (fails_step stray)
    exact .leaves moves.runs .failed enters

/-- Nothing catches the error. -/
theorem giveUp_reaches (stands : Stands σ s V (e.put all h :: W)) (current : s.current = e.id)
    (hl : InLoop σ e.places e.height all) (loops : Loops σ m k e W)
    (dropped : Dropped σ w s s' e.height e.places) (x : ScriptError) :
    Reaches σ w allowed s V (popToHandler.giveUp x m k s') := by
  obtain ⟨stack, ground⟩ : (Known σ e.places → m.stack = e.height) ∧ e.Ground := by
    cases loops with
    | mk _ stack _ ground _ => exact ⟨stack, ground⟩
  obtain ⟨dropped, reached⟩ := dropped.truncate (stands.hasCurrent current) stack ground
  exact leave_reaches stands current hl loops dropped reached (by simp [Fault.isStray])

/-- The handler of a popped frame runs in its place. -/
theorem catch_reaches {us : List Place} {f : Frame}
    (stands : Stands σ s V (e.put (us ++ on f.activation :: ps) h :: W))
    (current : s.current = e.id) (loops : Loops σ m k e W)
    (inLoop : InLoop σ e.places e.height (on f.activation :: ps))
    (dropped : Dropped σ w s s' f.activation.floor ps)
    (height : σ ∨ f.activation.floor = 0 → s'.heightOf s.current = f.activation.floor)
    (handler : NativeId) (operands : List Value) :
    Reaches σ w allowed s V (invoke library handler operands false
      (.finish (disarmed f) (.loop m (f.returnAddress - 1) k)) s') := by
  have fits : e.Fits σ := (loops.guards 0 f.activation ps).fits
  have inLoop' : InLoop σ e.places e.height (off f.activation :: ps) := inLoop.replace (.refl _)
  have moves := moves_put (off f.activation :: ps) stands current dropped.toLocal
    dropped.shape (Thread.fits_put fits inLoop' fun hσ => Nat.le_of_eq (height (.inl hσ)).symm)
  have known : Known σ ps → s'.heightOf s.current = f.activation.floor := fun known =>
    height (known.imp_right ((loops.guards 0 f.activation ps).floor_eq inLoop))
  refine moves.reaches stands (keeps_catch (.refl _) (low_of_inLoop fits inLoop)) ?_ (no_fault rfl)
  exact .run moves.runs (.finish (f := disarmed f) inLoop' known (.loop loops))

theorem bind_of_eq {α β : Type} {x : Move ν α} {a : α} {t t' : State ν} (h : x t = (a, t'))
    (f : α → Move ν β) : (x >>= f) t = f a t' := by
  change (match x t with | (a, t) => f a t) = f a t'
  rw [h]

theorem popToHandler_succ (library : Library ν) (x : ScriptError) (n : Nat) {f : Frame}
    {s'' : State ν} (popped : dropFrame s' = (some f, s'')) :
    popToHandler library x m k (n + 1) s' = (match f.handlers.errorHandler with
      | some handler =>
        invoke library handler [messageValue x] false
          (.finish (disarmed f) (.loop m (f.returnAddress - 1) k))
      | none =>
        if f.flags.entryPoint then popToHandler.giveUp x m k else popToHandler library x m k n :
          Move ν (Control ν)) s'' := by
  rw [popToHandler]
  exact bind_of_eq popped _

/-- Frames are popped until one catches the error, or all frames of the loop are gone. -/
theorem popToHandler_reaches
    (stands : Stands σ s V (e.put all h :: W)) (current : s.current = e.id)
    (hl : InLoop σ e.places e.height all) (loops : Loops σ m k e W) (x : ScriptError)
    (inLoop : InLoop σ e.places e.height ps) (below : ∃ us, all = us ++ ps)
    (dropped : Dropped σ w s s' bound ps)
    (hb : σ → ∀ p ∈ ps.head?, p.activation.floor ≤ bound) :
    Reaches σ w allowed s V
      (popToHandler library x m k (depth ps - depth e.places) s') := by
  have hc := stands.hasCurrent current
  induction inLoop generalizing s' bound with
  | @entry p entry floor =>
    obtain ⟨us, rfl⟩ := below
    have low : σ → p.activation.floor ≤ bound := fun hσ => hb hσ p rfl
    have reached : σ → e.height ≤ p.activation.floor := fun hσ =>
      Nat.le_of_eq (floor (.inl hσ)).symm
    cases p with
    | on a =>
      obtain ⟨f, s'', popped, rfl, dropped, height⟩ := dropped.pop hc low
      have count : depth (on f.activation :: e.places) - depth e.places = 0 + 1 := by simp
      rw [count, popToHandler_succ library x 0 popped]
      cases f.handlers.errorHandler with
      | some handler =>
        exact catch_reaches stands current loops (.entry entry floor) dropped height ..
      | none =>
        simp only [show f.flags.entryPoint = true from entry]
        exact giveUp_reaches stands current hl loops (dropped.weaken reached rfl) x
    | off a | landed a =>
      simp only [depth_off, depth_landed, Nat.sub_self]
      exact giveUp_reaches stands current hl loops
        (dropped.weaken (fun hσ => Nat.le_trans (reached hσ) (low hσ)) rfl) x
  | @above p g ps entry script room inLoop ih =>
    obtain ⟨us, rfl⟩ := below
    have low : σ → p.activation.floor ≤ bound := fun hσ => hb hσ p rfl
    have next : σ → ∀ q ∈ (on g :: ps).head?, q.activation.floor ≤ p.activation.floor := by
      rintro hσ q ⟨⟩
      exact Nat.le_trans g.floor_le_base (room hσ)
    have further : ∃ vs, us ++ p :: on g :: ps = vs ++ on g :: ps := ⟨us ++ [p], by simp⟩
    cases p with
    | on a =>
      obtain ⟨f, s'', popped, rfl, dropped, height⟩ := dropped.pop hc low
      have count : depth (on f.activation :: on g :: ps) - depth e.places =
          (depth (on g :: ps) - depth e.places) + 1 := by
        rw [depth_on, Nat.succ_sub inLoop.depth_le]
      rw [count, popToHandler_succ library x _ popped]
      cases f.handlers.errorHandler with
      | some handler =>
        exact catch_reaches stands current loops (.above entry script room inLoop)
          dropped height ..
      | none =>
        simp only [show f.flags.entryPoint = false from entry]
        exact ih further dropped next
    | off a | landed a =>
      simp only [depth_off, depth_landed]
      exact ih further (dropped.weaken low rfl) next

variable {p : Place}

/-- All frames of the loop may be popped. -/
theorem popAll_reaches
    (stands : Stands σ s V (e.put (p :: ps) h :: W)) (current : s.current = e.id)
    (hl : InLoop σ e.places e.height (p :: ps)) (room : σ → p.activation.floor ≤ h)
    (loops : Loops σ m k e W) (x : ScriptError) :
    Reaches σ w allowed s V (popToHandler library x m k (s.callDepth - m.frames) s) := by
  have start : Dropped σ w s s (s.heightOf s.current) (p :: ps) :=
    ⟨.refl s, by rw [stands.shape current]; rfl, fun _ => Nat.le_refl _⟩
  have count : s.callDepth - m.frames = depth (p :: ps) - depth e.places := by
    cases loops with
    | mk frames _ _ _ _ =>
      rw [s.callDepth_eq, stands.standing current, frames]
      rfl
  rw [count]
  refine popToHandler_reaches stands current hl loops x hl ⟨[], rfl⟩ start ?_
  rintro hσ q ⟨⟩
  rw [stands.height current (.inl hσ)]
  exact room hσ

theorem runDecorators_reaches
    (stands : Stands σ s V (e.put (p :: ps) h :: W)) (current : s.current = e.id)
    (hl : InLoop σ e.places e.height (p :: ps)) (room : σ → p.activation.floor ≤ h)
    (loops : Loops σ m k e W) (x : ScriptError) (caught : Bool) (decorators : List Value)
    (deep : decorators ≠ [] → 0 < depth (p :: ps)) :
    Reaches σ w allowed s V (runDecorators library x caught m k decorators s) := by
  cases decorators with
  | nil => exact popAll_reaches stands current hl room loops _
  | cons decorator others =>
    exact callNested_reaches stands current (.decorator hl room (deep nofun) loops) ..

/-- Decorators belong to frames. -/
theorem callDepth_pos_of_decorators
    (h : (State.decoratorsOf (s.framesAbove m)).1 ≠ []) : 0 < s.callDepth := by
  apply Nat.pos_of_ne_zero
  intro empty
  have none : s.processor.frames.toList = [] := List.eq_nil_of_length_eq_zero empty
  simp [State.framesAbove, none, State.decoratorsOf] at h

/-- **A fault in a loop**, with the calls of the loop as they are. -/
theorem unwind_reaches
    (stands : Stands σ s V (e.put (p :: ps) h :: W)) (current : s.current = e.id)
    (hl : InLoop σ e.places e.height (p :: ps)) (room : σ → p.activation.floor ≤ h)
    (loops : Loops σ m k e W) (x : Fault) (ip : Nat) (stray : x.isStray = true → allowed x) :
    Reaches σ w allowed s V (unwind library x ip m k s) := by
  have abandoned : Reaches σ w allowed s V (.step (.error x) k, (abandon m s).2) := by
    obtain ⟨dropped, height⟩ : Dropped σ w s (abandon m s).2 e.height e.places ∧
        (Known σ e.places → (abandon m s).2.heightOf s.current = e.height) := by
      cases loops with
      | mk frames stack _ ground _ =>
        refine abandon_dropped hl frames stack ground (stands.hasCurrent current)
          (stands.standing current) ?_
        rintro hσ q ⟨⟩
        rw [stands.height current (.inl hσ)]
        exact room hσ
    exact leave_reaches stands current hl loops dropped height stray
  cases x with
  | script x =>
    change Reaches σ w allowed s V ((if _ then _ else _ : Move ν (Control ν)) s)
    generalize (if x.isDecorated then x else s.decorate x ip) = y
    split
    · exact popAll_reaches stands current hl room loops _
    · refine runDecorators_reaches stands current hl room loops _ _ _ fun some => ?_
      have depth_eq : s.callDepth = depth (p :: ps) := stands.callDepth_eq current
      rw [← depth_eq]
      exact callDepth_pos_of_decorators some
  | _ => exact abandoned

end Machine

end ScriptMachine
