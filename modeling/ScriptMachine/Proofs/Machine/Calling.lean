import ScriptMachine.Proofs.Machine.Entering
import ScriptMachine.Proofs.Machine.Evolution
import ScriptMachine.Proofs.Machine.Reach

/-!
# Making calls

The moves that begin calls reach a state in order, with every call that was under way.

* `performCall_reaches`: a call whose function is on the stack is entered, or fails.
* `executeCall_reaches`: a call in a loop of its own, for whoever entered it.
* `callNested_reaches`, `indexNested_reaches`: calls from inside an activation.
-/

namespace ScriptMachine

open Place

namespace Machine

variable {ν : Type} {σ : Prop} {w : ThreadId → Nat → Prop} {allowed : Fault → Prop}
  {s s' : State ν} {V : ThreadId → List Place} {t e : Thread} {W : List Thread}
  {library : Library ν}

theorem invoke_reaches (stands : Stands σ s V (t :: W)) (current : s.current = t.id)
    {k : Kont ν .value} (holds : Holds σ k t W) (f : NativeId) (operands : List Value)
    (isMethod : Bool) : Reaches σ w allowed s V (invoke library f operands isMethod k s) :=
  reaches_refl stands (.run current holds) (no_fault rfl)

/-- The floors of a thread are below the floor of its innermost call. -/
theorem low_of_inLoop {p : Place} {ps : List Place} (fits : e.Fits σ)
    (hl : InLoop σ e.places e.height (p :: ps)) :
    σ → ∀ q ∈ p :: ps, q.activation.floor ≤ p.activation.floor :=
  fun hσ => hl.floor_le hσ (fits.low hσ)

/-- A call whose function and operands are on the stack. -/
theorem performCall_reaches {a : Activation} {under : List Place} {h : Nat} {spec : CallSpec}
    {k : Kont ν .step}
    (stands : Stands σ s V (e.put (off a :: under) h :: W)) (current : s.current = e.id)
    (hl : InLoop σ e.places e.height (off a :: under)) (guards : Guards σ k a under e W)
    (serves : Serves (Known σ under) spec a.floor a)
    (height : Known σ under → h = a.floor + spec.argc + 1) :
    Reaches σ w allowed s V (performCall library spec k s) := by
  have low := low_of_inLoop guards.fits hl
  have tall : s.Tall (Known σ under) (a.floor + spec.argc + 1) :=
    ⟨stands.hasCurrent current, fun known => (stands.height current known).trans (height known)⟩
  have entering := enterCall_entering (w := w) spec tall
  unfold performCall Exec.andThen
  generalize enterCall spec s = result at entering
  cases entering with
  | @failed x s' steady stray room =>
    have floor : σ → a.floor ≤ s'.heightOf s.current := fun hσ => by
      rw [← steady.current]
      exact room.height (.inl hσ)
    have m := moves_steady _ stands current (steady.mono .inl) rfl
      (Thread.fits_put guards.fits hl floor)
    refine m.reaches stands (retains_refl low).keeps ?_ (fails_step (by simp [stray]))
    exact .arrives (e := e) m.runs (.failed (.inr rfl) hl floor) guards
  | @script a' s' hlocal serves' script base shape =>
    have alike := serves.alike serves'
    have hl' : InLoop σ e.places e.height (on a' :: under) := hl.replace alike
    have base : σ → a'.base ≤ s'.heightOf s.current := fun hσ => base (.inl hσ)
    have m := moves_put _ stands current (hlocal.mono .inl)
      (by rw [shape, stands.standing current]; rfl)
      (Thread.fits_put guards.fits hl' fun hσ => Nat.le_trans a'.floor_le_base (base hσ))
    refine m.reaches stands (retains_replace (alike.mono .inl) low).keeps ?_ (no_fault rfl)
    exact .arrives (e := e) m.runs (.fresh script hl' base) (guards.alike alike)
  | @native a' n operands s' hlocal serves' native height shape =>
    have alike := serves.alike serves'
    have hl' : InLoop σ e.places e.height (on a' :: under) := hl.replace alike
    have floor : σ → a'.floor ≤ s'.heightOf s.current := fun hσ =>
      Nat.le_of_eq ((alike.floor (.inl hσ)).symm.trans (height (.inl hσ)).symm)
    have m := moves_put _ stands current (hlocal.mono .inl)
      (by rw [shape, stands.standing current]; rfl) (Thread.fits_put guards.fits hl' floor)
    refine .after (m.extends stands (retains_replace (alike.mono .inl) low)) ?_
    exact invoke_reaches (m.stands stands) m.runs
      (.native native hl' floor (guards.alike alike)) n operands _

/-- A call in a loop of its own. -/
theorem executeCall_reaches (stands : Stands σ s V (e :: W))
    (current : s.current = e.id) {k : Kont ν .step} (ground : e.Ground) (enters : Enters σ k e W)
    (function : Value) (arguments : List Value) (flags : FrameFlags) (name : Option String) :
    Reaches σ w allowed s V (executeCall library function arguments flags name k s) := by
  have busy := stands.busy e (List.mem_cons_self ..)
  let a : Activation := ⟨true, true, flags.discardResult, e.height, 0⟩
  have hl : InLoop σ e.places e.height (off a :: e.places) := .entry rfl fun _ => rfl
  obtain ⟨steady, height⟩ := Exec.pushAll_local (σ := σ) (w := w) (function :: arguments) e.height
    (stands.hasCurrent current) fun hσ => Nat.le_of_eq (stands.height current (.inl hσ)).symm
  have low : σ → ∀ p ∈ e.places, p.activation.floor ≤ e.height := busy.fits.low
  have m := moves_steady (h := e.height) (off a :: e.places) stands current steady rfl
    (Thread.fits_put busy.fits hl fun hσ => by
      rw [height, stands.height current (.inl hσ)]
      exact Nat.le_add_right ..)
  refine .after (m.extends stands (retains_push low)) ?_
  have loops : Loops σ (mark s) k e W := by
    refine .mk ?_ (fun known => stands.height current known) busy.fits ground enters
    have := s.callDepth_eq
    rw [stands.standing current] at this
    exact this
  refine performCall_reaches (m.stands stands) m.runs hl (loops.guards 0 a e.places) ?_ ?_
  · exact ⟨by simp [a, FrameFlags.union], by simp [a, FrameFlags.union], rfl, fun _ => rfl⟩
  · intro known
    rw [height, stands.height current known]
    rfl

/-- The thread goes on with the same calls, but counts or treats them differently. -/
theorem moves_modify (t' : Thread) (stands : Stands σ s V (t :: W)) (current : s.current = t.id)
    {f : Processor → Processor} (stack : ∀ p, (f p).stack = p.stack)
    (shape : ∀ p : Processor, p.shape = t.shape → (f p).shape = t'.shape)
    (same : t'.id = t.id ∧ t'.places = t.places ∧ t'.height = t.height)
    (pending : t'.pending = none) :
    Moves σ t.height w s (s.modifyProcessor f) t t' := by
  have busy := stands.busy t (List.mem_cons_self ..)
  have run := State.processor_modifyProcessor (stands.hasCurrent current) f
  obtain ⟨id, places, height⟩ := same
  refine ⟨local_modifyProcessor _ fun _ p _ _ _ => by rw [stack], current, id, pending, ?_, ?_, ?_⟩
  · rw [← current, State.shape, run]
    exact shape _ (stands.shape current)
  · intro known
    rw [height, ← stands.height current (places ▸ known), ← current]
    simp only [State.heightOf, State.stackOf, run, stack]
  · exact ⟨by rw [places]; exact busy.fits.seated, by rw [places, height]; exact busy.fits.low⟩

/-- A call from inside an activation, in a loop of its own. -/
theorem nestedCall_reaches (stands : Stands σ s V (t :: W))
    (current : s.current = t.id) {k : Kont ν .value} (holds : Holds σ k t W) (function : Value)
    (arguments : List Value) (flags : FrameFlags) (name : Option String) :
    Reaches σ w allowed s V
      (executeCall library function arguments flags name (.nested k) (beginNested s).2) := by
  have busy := stands.busy t (List.mem_cons_self ..)
  have m := moves_modify (w := w) { t with nested := t.nested + 1 }
    (f := fun p => { p with nestedCalls := p.nestedCalls + 1 }) stands current (fun _ => rfl)
    (fun p hp => by
      simp only [Processor.shape, Thread.shape, Shape.mk.injEq] at hp ⊢
      simp [hp])
    ⟨rfl, rfl, rfl⟩ busy.pending
  refine .after (m.extends stands (retains_refl busy.fits.low)) ?_
  exact executeCall_reaches (m.stands stands) m.runs holds.ground (.nested rfl holds) ..

theorem callNested_reaches (stands : Stands σ s V (t :: W))
    (current : s.current = t.id) {k : Kont ν .value} (holds : Holds σ k t W) (function : Value)
    (arguments : List Value) :
    Reaches σ w allowed s V (callNested library function arguments k s) := by
  change Reaches σ w allowed s V ((if _ then _ else _ : Move ν (Control ν)) s)
  split
  · exact reaches_refl stands (.value current holds) (fails_value (by simp))
  · exact nestedCall_reaches stands current holds ..

theorem indexNested_eq (library : Library ν) (object key : Value) (k : Kont ν .value)
    (s : State ν) :
    indexNested library object key k s = (match s.resolveIndex key State.maxChain object with
      | .ok (.value v) => pure (.value (.ok v) k)
      | .ok (.call handler receiver) => callNested library handler [receiver, key] (.collapse k)
      | .error e => pure (.value (.error e) k) : Move ν (Control ν)) s := rfl

theorem indexNested_reaches (stands : Stands σ s V (t :: W))
    (current : s.current = t.id) {k : Kont ν .value} (holds : Holds σ k t W)
    (object key : Value) :
    Reaches σ w allowed s V (indexNested library object key k s) := by
  rw [indexNested_eq]
  cases resolved : s.resolveIndex key State.maxChain object with
  | error x =>
    have stray := Exec.resolveIndex_error resolved
    change Reaches σ w allowed s V (.value (.error x) k, s)
    exact reaches_refl stands (.value current holds) (fails_value (by simp [stray]))
  | ok found =>
    cases found with
    | value v =>
      change Reaches σ w allowed s V (.value (.ok v) k, s)
      exact reaches_refl stands (.value current holds) (no_fault rfl)
    | call handler receiver =>
      exact callNested_reaches stands current (.collapse holds) ..

theorem setAsync_moves (stands : Stands σ s V (t :: W)) (current : s.current = t.id) (b : Bool) :
    Moves σ t.height w s (s.modifyProcessor fun p => { p with asyncMode := b }) t
      { t with async := b } :=
  moves_modify _ stands current (fun _ => rfl)
    (fun p hp => by
      simp only [Processor.shape, Thread.shape, Shape.mk.injEq] at hp ⊢
      simp [hp])
    ⟨rfl, rfl, rfl⟩ (stands.busy t (List.mem_cons_self ..)).pending

/-- The stack of the thread that runs is given to a call. -/
theorem lends_moves {previous : Bool} (lends : t.Lends σ previous e) (blank : e.Blank)
    (async : e.async = previous) (stands : Stands σ s V (t :: W)) (current : s.current = t.id) :
    Moves σ t.height w s s t e := by
  have busy := stands.busy t (List.mem_cons_self ..)
  refine ⟨.refl s, current, lends.id.symm, blank.pending,
    busy.shape.trans (lends.shape blank async), fun _ => ?_, blank.fits⟩
  rw [busy.height (.inr lends.deep), lends.height, blank.height]

/-- It is given back. -/
theorem returns_moves {previous : Bool} (lends : t.Lends σ previous e) (blank : e.Blank)
    (async : e.async = previous) (stands : Stands σ s V (e :: W)) (current : s.current = e.id) :
    Moves σ e.height w s s e t := by
  have busy := stands.busy e (List.mem_cons_self ..)
  refine ⟨.refl s, current, lends.id, lends.pending,
    busy.shape.trans (lends.shape blank async).symm, fun _ => ?_, lends.fits⟩
  rw [busy.height (.inr (by rw [blank.places]; rfl)), lends.height, blank.height]

/-- Whoever drives a call waits, on a stack without frames. -/
theorem driveAsync_reaches (stands : Stands σ s V (t :: W)) (current : s.current = t.id)
    {k : Kont ν .value} (holds : Holds σ k t W) (function : Value) (arguments : List Value) :
    Reaches σ w allowed s V (driveAsync library function arguments k s) := by
  have busy := stands.busy t (List.mem_cons_self ..)
  change Reaches σ w allowed s V
    ((if 0 < s.processor.nestedCalls || 0 < s.processor.frames.size then _ else _ :
      Move ν (Control ν)) s)
  split
  · exact reaches_refl stands (.value current holds) (fails_value (by simp))
  · rename_i free
    have shape := stands.shape current
    simp only [State.shape, Processor.shape, Thread.shape, Shape.mk.injEq] at shape
    obtain ⟨calm, empty⟩ : s.processor.nestedCalls = 0 ∧ s.processor.frames = #[] := by
      simpa using free
    have deep : depth t.places = 0 := by
      rw [← stands.callDepth_eq current, State.callDepth, empty]
      rfl
    let e : Thread := ⟨t.id, [], 0, 0, true, none⟩
    have blank : e.Blank := ⟨rfl, rfl, rfl, rfl⟩
    have lends : t.Lends σ t.async e := ⟨rfl, deep, holds.ground deep,
      shape.2.1.symm.trans calm, busy.pending, rfl, busy.fits⟩
    have m := setAsync_moves (w := w) stands current true
    have lends' : ({ t with async := true } : Thread).Lends σ true e :=
      { lends with async := rfl, fits := m.fits }
    have m' := lends_moves (w := w) lends' blank rfl (m.stands stands) m.runs
    refine .after (m.extends stands (retains_refl busy.fits.low)) ?_
    refine .after (m'.extends (m.stands stands) (retains_bare busy.fits.seated deep)) ?_
    change Reaches σ w allowed _ _ (executeCall library function arguments {} none
      (.drive s.processor.asyncMode k) _)
    rw [show s.processor.asyncMode = t.async from shape.2.2.1]
    exact executeCall_reaches (m'.stands (m.stands stands)) m'.runs blank.ground
      (.drive blank lends holds) ..

end Machine

end ScriptMachine
