import ScriptMachine.Proofs.Machine.Routines
import ScriptMachine.Proofs.Machine.Unwinding

/-!
# Steps of a machine

Every step of a machine in order reaches a machine in order.

* `handValue_reaches`, `arrive_reaches`: what each of those who wait does with an outcome.
* `execute_reaches`: one instruction, with what it asks for.
* `advance_reaches`: one step.
-/

namespace ScriptMachine

open Place

/-- A routine drives the call, and not the host. -/
def Kont.driven {ν : Type} : Kont ν .step → Bool
  | .drive _ (.exit .host) => false
  | .drive _ _ => true
  | _ => false

namespace Control

variable {ν : Type}

/-- The fault that a routine or a task brings in. -/
def brings? : Control ν → Option Fault
  | .run (.finish (.error e)) _ | .await (.settles (.error e)) _ => some e
  | _ => none

def address? : Control ν → Option Nat
  | .execute ip _ _ => some ip
  | _ => none

theorem exists_execute (control : Control ν) (h : control.address?.isSome = true) :
    ∃ ip mark k, control = .execute ip mark k := by
  cases control with
  | execute ip mark k => exact ⟨ip, mark, k, rfl⟩
  | run | step | value | await => contradiction

/-- The next step keeps to its own frame, and assigns no variable by its name. -/
def Tame (s : State ν) : Control ν → Prop
  | .execute ip _ _ => s.Tame ip
  | .run p _ => ∀ name v next, p ≠ .assign name v next
  | _ => True

instance (s : State ν) (control : Control ν) : Decidable (control.Tame s) :=
  match control with
  | .execute ip _ _ => inferInstanceAs (Decidable (s.Tame ip))
  | .run (.assign name v next) _ => isFalse fun h => h name v next rfl
  | .run (.finish _) _ | .run (.change _ _) _ | .run (.ask _ _) _ | .run (.print _ _) _
  | .run (.spawn _ _) _ | .run (.autoYield _ _ _) _ | .run (.undump _ _) _ | .run (.call _ _ _) _
  | .run (.index _ _ _) _ | .run (.resume _ _ _) _ | .run (.enter _ _ _) _
  | .run (.enterMethod _ _ _ _) _ | .run (.enterAsync _ _ _) _ => isTrue nofun
  | .step _ _ | .value _ _ | .await _ _ => isTrue trivial

/-- A coroutine stops in a call that a routine drives. The call fails, with its frames still
there. -/
def strands : Control ν → Bool
  | .step (.ok (.suspend (.yield _))) k | .step (.ok (.suspend .forced)) k => k.driven
  | _ => false

/-- A routine waits for the task of a call that it drives, and keeps the turn meanwhile. -/
def occupied : Control ν → Bool
  | .await _ (.task _ k) => k.driven
  | _ => false

/-- The next step writes a slot through an open cell. -/
def Writes (s : State ν) : Control ν → ThreadId → Nat → Prop
  | .execute ip _ _ => s.Writes ip
  | _ => fun _ _ => False

end Control

namespace Machine

variable {ν : Type} {σ : Prop} {w : ThreadId → Nat → Prop} {allowed : Fault → Prop}
  {s s' : State ν} {V : ThreadId → List Place} {t e : Thread} {W ts : List Thread}
  {library : Library ν}

theorem value_reaches (stands : Stands σ s V (t :: W)) (current : s.current = t.id)
    {k : Kont ν .value} (holds : Holds σ k t W) {r : Except Fault Value}
    (faults : ∀ x, r = .error x → x.isStray = true → allowed x) :
    Reaches σ w allowed s V (.value r k, s) := by
  refine reaches_refl stands (.value current holds) ?_
  cases r with
  | ok v => exact no_fault rfl
  | error x => exact fails_value (faults x rfl)

theorem stays_finishNested (after : After) (v : Value) {b : Nat} (h : s.Room σ b 0) :
    Exec.Stays σ b w s (Exec.finishNested after v) fun _ s' => s'.Room σ b 0 := by
  cases after with
  | pushTruth negated => exact (Exec.stays_push _ h).imp fun _ _ room => room.weaken (by omega)
  | pushMethod receiver =>
    exact (Exec.stays_pushAll _ h).imp fun _ _ room => room.weaken (by omega)
  | pushIteration => exact (Exec.stays_pushAll _ h).imp fun _ _ room => room.weaken (by omega)

/-- An instruction goes on with the result of the call it waited for. -/
theorem instruction_reaches (stands : Stands σ s V (t :: W)) (current : s.current = t.id)
    {after : After} {ip : Nat} {k : Kont ν .step} (holds : Holds σ (.instruction after ip k) t W)
    {outcome : Except Fault Value}
    (faults : ∀ x, outcome = .error x → x.isStray = true → allowed x) :
    Reaches σ w allowed s V (handValue library outcome (.instruction after ip k) s) := by
  cases holds with
  | @instruction _ _ mark at_ k g ps e h _ script hl room loops =>
    have fits := (loops.guards at_ g ps).fits
    have low : σ → ∀ q ∈ on g :: ps, q.activation.floor ≤ g.base := fun hσ q hq =>
      Nat.le_trans (low_of_inLoop fits hl hσ q hq) g.floor_le_base
    cases outcome with
    | error x =>
      refine reaches_refl stands (.arrives (e := e) current ?_ (loops.guards at_ g ps))
        (fails_step (faults x rfl))
      exact .failed (.inl rfl) hl fun hσ => Nat.le_trans g.floor_le_base (room hσ)
    | ok v =>
      have work := stays_finishNested (w := w) after v (b := g.base) (s := s)
        ⟨stands.hasCurrent current, fun hσ => by rw [stands.height current (.inl hσ)]; exact room hσ⟩
      change Reaches σ w allowed s V ((Exec.finishNested after v).andThen
        (fun _ => pure (.step (.ok (.proceed (ip + 1))) (.loop mark at_ k)))
        (fun e => pure (.step (.error e) (.loop mark at_ k))) s)
      unfold Exec.andThen
      cases run : Exec.finishNested after v s with
      | ok u s' =>
        obtain ⟨steady, room'⟩ := work.ok u s' run
        have base : σ → g.base ≤ s'.heightOf s.current := fun hσ => by
          rw [← steady.current]
          exact room'.height hσ
        have m := moves_steady (on g :: ps) stands current steady rfl
          (Thread.fits_put fits hl fun hσ => Nat.le_trans g.floor_le_base (base hσ))
        refine m.reaches stands (retains_refl low).keeps ?_ (no_fault rfl)
        exact .arrives (e := e) m.runs (.fresh script hl base) (loops.guards at_ g ps)
      | error x s' =>
        obtain ⟨steady, stray, room'⟩ := work.error x s' run
        have floor : σ → g.floor ≤ s'.heightOf s.current := fun hσ => by
          rw [← steady.current]
          exact Nat.le_trans g.floor_le_base (room'.height hσ)
        have m := moves_steady (on g :: ps) stands current steady rfl
          (Thread.fits_put fits hl floor)
        refine m.reaches stands (retains_refl low).keeps ?_ (fails_step (by simp [stray]))
        exact .arrives (e := e) m.runs (.failed (.inl rfl) hl floor) (loops.guards at_ g ps)

/-- A native function has its result, and its frame is popped. -/
theorem native_reaches (stands : Stands σ s V (t :: W))
    (current : s.current = t.id) {k : Kont ν .step} (holds : Holds σ (.native k) t W)
    {outcome : Except Fault Value}
    (faults : ∀ x, outcome = .error x → x.isStray = true → allowed x) :
    Reaches σ w allowed s V (handValue library outcome (.native k) s) := by
  cases holds with
  | @native _ a under e h _ native hl room guards =>
    cases outcome with
    | error x =>
      refine reaches_refl stands (.arrives (e := e) current ?_ guards) (fails_step (faults x rfl))
      exact .failed (.inl rfl) hl room
    | ok v =>
      obtain ⟨f, s', popped, rfl, hlocal, shape, height⟩ := Exec.popFrame_ok (σ := σ) (w := w)
        (stands.hasCurrent current) (stands.standing current)
      have run : handValue library (.ok v) (.native k) s = finishFrame library f v true k s' := by
        simp only [handValue, Exec.andThen, popped]
      have floor : Known σ under → s'.heightOf s.current = f.activation.floor := by
        rintro (hσ | bottom)
        · rw [height, stands.height current (.inl hσ)]
          exact Nat.min_eq_left (room hσ)
        · have low : f.activation.floor = 0 := guards.floor_eq hl bottom
          rw [height, low, Nat.zero_min]
      have hl' : InLoop σ e.places e.height (off f.activation :: under) := hl.replace (.refl _)
      have m := moves_put (off f.activation :: under) stands current hlocal shape
        (Thread.fits_put guards.fits hl' fun hσ => Nat.le_of_eq (floor (.inl hσ)).symm)
      have replaced := retains_replace (p := on f.activation) (q := off f.activation) (.refl _)
        (low_of_inLoop guards.fits hl)
      rw [run]
      refine .after (m.extends stands replaced) ?_
      exact finishFrame_reaches (m.stands stands) m.runs (.finish hl' floor guards) ..

theorem handValue_reaches (stands : Stands σ s V (t :: W))
    (current : s.current = t.id) {k : Kont ν .value} (holds : Holds σ k t W)
    {outcome : Except Fault Value}
    (faults : ∀ x, outcome = .error x → x.isStray = true → allowed x) :
    Reaches σ w allowed s V (handValue library outcome k s) := by
  cases holds with
  | host root blank async => exact value_reaches stands current (.host root blank async) faults
  | routine holds => exact reaches_refl stands (.run current holds) (no_fault rfl)
  | collapse holds =>
    refine value_reaches stands current holds fun x hx => ?_
    cases outcome with
    | ok v => cases hx
    | error y =>
      cases hx
      exact faults x rfl
  | exit holds =>
    let s' : State ν := { s with entries := s.entries - 1 }
    have stands' : Stands σ s' V (t :: W) := stands.same rfl rfl
    exact .same s' (fun _ => rfl) (value_reaches stands' current holds faults)
  | method holds =>
    cases outcome with
    | ok v => exact nestedCall_reaches stands current holds ..
    | error x => exact value_reaches stands current holds faults
  | asyncMethod holds =>
    cases outcome with
    | ok v => exact driveAsync_reaches stands current holds ..
    | error x => exact value_reaches stands current holds faults
  | native native hl room guards =>
    exact native_reaches stands current (.native native hl room guards) faults
  | finish hl height guards =>
    cases outcome with
    | ok v => exact finishFrame_reaches stands current (.finish hl height guards) ..
    | error x => exact failed_reaches stands current (.finish hl height guards) (faults x rfl)
  | instruction script hl room loops =>
    exact instruction_reaches stands current (.instruction script hl room loops) faults
  | decorator hl room deep loops =>
    exact runDecorators_reaches stands current hl room loops _ _ _ fun _ => deep

/-- The caller goes on with the result that is on its stack. -/
theorem land_reaches {a : Activation} {under : List Place} {h : Nat} {m : Mark} {k : Kont ν .step}
    (stands : Stands σ s V (e.put (landed a :: under) h :: W)) (current : s.current = e.id)
    (isEntry : a.isEntry = false) (hl : InLoop σ e.places e.height (landed a :: under))
    (height : σ → h = a.landing) (loops : Loops σ m k e W) :
    Reaches σ w allowed s V (.execute a.returnAddress m k, s) := by
  obtain ⟨g, rest, rfl, script, room, hl'⟩ := hl.caller isEntry
  have fits := (loops.guards 0 a (on g :: rest)).fits
  have busy := stands.busy _ (List.mem_cons_self ..)
  have base : σ → g.base ≤ h := fun hσ => by
    rw [height hσ]
    exact Nat.le_trans (room hσ) a.floor_le_landing
  have moves : Moves σ h w s s (e.put (landed a :: on g :: rest) h) (e.put (on g :: rest) h) :=
    ⟨.refl s, current, rfl, busy.pending, busy.shape, busy.height,
      Thread.fits_put fits hl' fun hσ => Nat.le_trans g.floor_le_base (base hσ)⟩
  refine ⟨⟨_, _, moves.stands stands, .execute current script hl' base loops, ?_⟩, no_fault rfl⟩
  intro c up P lo hV hP
  by_cases hc : c = e.id
  · subst hc
    have places : V e.id = landed a :: on g :: rest := busy.places
    rw [places] at hV
    have after : Function.update V e.id (on g :: rest) e.id = on g :: rest :=
      Function.update_self ..
    obtain ⟨rfl, head⟩ | ⟨up', rfl, tail⟩ := List.cons_eq_append_iff.1 hV
    · obtain ⟨rfl, rfl⟩ := List.cons.inj head
      exact .inr (.inr ⟨after, current, ⟨m, k, rfl⟩,
        fun hσ => (busy.height (.inl hσ)).trans (height hσ), fun _ _ _ _ => rfl⟩)
    · exact .inl ⟨up', P, after.trans tail, .refl _, fun _ _ _ _ => rfl⟩
  · refine .inl ⟨up, P, ?_, .refl _, fun _ _ _ _ => rfl⟩
    exact (Function.update_of_ne hc ..).trans hV

/-- A handler takes the place of a call for which no frame stands. -/
theorem protect_reaches {a : Activation} {under : List Place}
    {p : Place} {h : Nat} {f : Frame} {m : Mark} {k : Kont ν .step}
    (stands : Stands σ s V (e.put (p :: under) h :: W)) (current : s.current = e.id)
    (hl : InLoop σ e.places e.height (p :: under)) (place : p = on a ∨ p = off a)
    (floor : σ → a.floor ≤ h) (depth_eq : s.callDepth = m.frames)
    (frames : m.frames = depth under) (alike : f.activation.Alike (Known σ under) a)
    (stack : Known σ under → m.stack = a.floor) (guards : Guards σ k a under e W) (handler : NativeId)
    (operands : List Value) :
    Reaches σ w allowed s V (invoke library handler operands false (.finish f k)
      (s.modifyStack (·.truncate m.stack))) := by
  obtain rfl | rfl := place
  · have standing := s.callDepth_eq
    rw [stands.standing current, depth_eq, frames] at standing
    exact absurd standing (Nat.ne_of_lt (Nat.lt_succ_self _))
  · obtain ⟨steady, cut⟩ := Exec.truncate_local (σ := σ) (w := w) m.stack a.floor
      (stands.hasCurrent current) fun hσ => Nat.le_of_eq (stack (.inl hσ)).symm
    have hl' : InLoop σ e.places e.height (off f.activation :: under) := hl.replace alike.symm
    have height : Known σ under → (s.modifyStack (·.truncate m.stack)).heightOf s.current =
        f.activation.floor := by
      intro known
      rw [cut, stands.height current known, stack known, alike.floor known]
      obtain hσ | bottom := known
      · exact Nat.min_eq_left (floor hσ)
      · have low : a.floor = 0 := guards.floor_eq hl bottom
        rw [low, Nat.zero_min]
    have moves := moves_steady (off f.activation :: under) stands current steady rfl
      (Thread.fits_put guards.fits hl' fun hσ => Nat.le_of_eq (height (.inl hσ)).symm)
    have replaced := retains_replace (p := off a) (q := off f.activation) (alike.mono .inl).symm
      (low_of_inLoop guards.fits hl)
    refine .after (moves.extends stands replaced) ?_
    exact invoke_reaches (moves.stands stands) moves.runs
      (.finish hl' height (guards.alike alike.symm)) ..

/-- The outcome of a call reaches those who wait for it. -/
theorem arrive_reaches (stands : Stands σ s V (t :: W))
    (current : s.current = e.id) {a : Activation} {under : List Place} {r : Except Fault Step}
    (arrives : Arrives σ e a under r t) {k : Kont ν .step} (guards : Guards σ k a under e W)
    (faults : ∀ x, r = .error x → x.isStray = true → allowed x) :
    Reaches σ w allowed s V (handStep library r k s) := by
  cases guards with
  | @loop m at_ k _ _ _ _ loops =>
    cases arrives with
    | fresh script hl base =>
      exact reaches_refl stands (.execute current script hl base loops) (no_fault rfl)
    | landed isEntry hl height => exact land_reaches stands current isEntry hl height loops
    | returned =>
      cases loops with
      | mk _ _ _ _ enters =>
        exact reaches_refl stands (.leaves current .returned enters) (no_fault rfl)
    | @failed x p h place hl floor =>
      have room : σ → p.activation.floor ≤ h := by
        obtain rfl | rfl := place <;> exact floor
      exact unwind_reaches stands current hl room loops x at_ (faults x rfl)
  | @protect f handler m k _ _ _ _ frames alike stack guards =>
    have passed : ∀ {r : Except Fault Step}, Arrives σ e a under r t →
        (∀ x, r = .error x → x.isStray = true → allowed x) →
        Reaches σ w allowed s V (.step r k, s) := by
      intro r arrives faults
      refine reaches_refl stands (.arrives current arrives guards) ?_
      cases r with
      | ok step => exact no_fault rfl
      | error x => exact fails_step (faults x rfl)
    cases r with
    | ok step => exact passed arrives faults
    | error x =>
      cases x with
      | script x =>
        change Reaches σ w allowed s V ((if s.callDepth = m.frames then _ else _ :
          Move ν (Control ν)) s)
        split
        · cases arrives with
          | failed place hl floor =>
            exact protect_reaches stands current hl place floor ‹_› frames alike stack
              guards handler _
        · exact passed arrives faults
      | _ => exact passed arrives faults

/-- An outcome leaves the loop. -/
theorem leaveLoop_reaches (stands : Stands σ s V (e :: W)) (current : s.current = e.id)
    {r : Except Fault Step} (leaves : Leaves r) {k : Kont ν .step} (enters : Enters σ k e W)
    (faults : ∀ x, r = .error x → x.isStray = true → allowed x) :
    Reaches σ w allowed s V (handStep library r k s) := by
  have busy := stands.busy e (List.mem_cons_self ..)
  have expected : ∀ x, expectReturn r = .error x → x.isStray = true → allowed x := by
    cases leaves with
    | returned => nofun
    | failed =>
      rintro _ ⟨⟩
      exact faults _ rfl
  cases enters with
  | @nested k _ n _ nested holds =>
    have m := moves_modify (w := w) { e with nested := n }
      (f := fun p => { p with nestedCalls := p.nestedCalls - 1 }) stands current (fun _ => rfl)
      (fun p hp => by
        simp only [Processor.shape, Thread.shape, Shape.mk.injEq] at hp ⊢
        simp [hp, nested])
      ⟨rfl, rfl, rfl⟩ busy.pending
    refine .after (m.extends stands (retains_refl busy.fits.low)) ?_
    exact value_reaches (m.stands stands) m.runs holds expected
  | @drive previous k _ t _ blank lends holds =>
    have m := setAsync_moves (w := w) stands current previous
    let e' : Thread := { e with async := previous }
    have blank' : e'.Blank := ⟨blank.places, blank.nested, blank.pending, blank.height⟩
    have lends' : t.Lends σ previous e' := { lends with }
    have m' := returns_moves (w := w) lends' blank' rfl (m.stands stands) m.runs
    have left : Reaches σ w allowed s V (.value (expectReturn r) k,
        s.modifyProcessor fun p => { p with asyncMode := previous }) := by
      refine .after (m.extends stands (retains_refl busy.fits.low)) ?_
      refine .after (m'.extends (m.stands stands) (blank'.places ▸ retains_nil)) ?_
      exact value_reaches (m'.stands (m.stands stands)) m'.runs holds expected
    cases leaves <;> exact left
  | @resumed mode c previous k _ _ id hc blank asleep host waits =>
    have left := endResume_reaches (w := w) stands current
      (.resumed id hc blank asleep host waits) leaves faults
    cases mode <;> cases leaves <;> exact left

/-- A call that no routine drives is one of the host. -/
theorem root_of_undriven {previous : Bool} {k : Kont ν .value}
    (enters : Enters σ (.drive previous k) e W)
    (host : (Kont.drive previous k).driven = false) :
    k = .exit .host ∧ previous = false ∧ e.id = .root ∧ W = [] := by
  cases enters with
  | drive blank lends holds =>
    cases holds with
    | exit holds =>
      cases holds with
      | host root _ async => exact ⟨rfl, lends.async.symm.trans async, lends.id.symm.trans root, rfl⟩
      | _ => cases host
    | _ => cases host

/-- The thread that ran has stopped, and those who wait hear of it. -/
theorem part_reaches (library : Library ν) (stands : Stands σ s V W)
    (current : s.current = e.id) (absent : ∀ u ∈ W, u.id ≠ e.id) (nested : e.nested = 0)
    {x : Suspension} (parts : Parts s e x) {k : Kont ν .step}
    (waits : Enters σ k e W ∨ ∃ a under, Guards σ k a under e W)
    (held : (Control.step (.ok (.suspend x)) k).strands = false) :
    Reaches σ w allowed s V (handStep library (.ok (.suspend x)) k s) := by
  have passed : ∀ {k : Kont ν .step}, (Enters σ k e W ∨ ∃ a under, Guards σ k a under e W) →
      Reaches σ w allowed s V (.step (.ok (.suspend x)) k, s) := fun waits =>
    reaches_refl stands (.parts current absent nested parts waits) (no_fault rfl)
  obtain enters | ⟨a, under, guards⟩ := waits
  · cases enters with
    | nested he _ => omega
    | @drive previous k _ t _ blank lends holds =>
      have enters : Enters σ (.drive previous k) e W := .drive blank lends holds
      obtain ⟨phase, -, r, -, stops⟩ := parts
      cases stops with
      | yield other | forced other =>
        obtain ⟨-, -, root, -⟩ := root_of_undriven enters held
        exact absurd root other
      | await _ =>
        refine reaches_refl stands ?_ (no_fault rfl)
        rw [current]
        exact .awaits (.drive current phase absent enters)
    | resumed id hc blank asleep host waits =>
      exact partResume_reaches stands current absent parts
        (.resumed id hc blank asleep host waits)
  · cases guards with
    | loop loops =>
      cases loops with
      | mk _ _ _ _ enters => exact passed (.inl enters)
    | protect _ _ _ guards => exact passed (.inr ⟨_, _, guards⟩)

variable {g : Activation} {ps : List Place} {h ip : Nat} {m : Mark} {k : Kont ν .step}

/-- A call that an instruction asks for has its place right above the frame. -/
theorem asked_call (stands : Stands σ s V (e.put (on g :: ps) h :: W)) (current : s.current = e.id)
    (script : g.isNative = false) (hl : InLoop σ e.places e.height (on g :: ps))
    (loops : Loops σ m k e W) (steady : Steady σ g.base w s s') {spec : CallSpec}
    (asks : Exec.Asks σ g.base ip (.call spec) s') :
    ∃ a : Activation, Serves (Known σ (on g :: ps)) spec a.floor a ∧ a.isEntry = false ∧
      (Known σ (on g :: ps) → s'.heightOf s.current = a.floor + spec.argc + 1) ∧
      InLoop σ e.places e.height (off a :: on g :: ps) ∧
      Moves σ g.base w s s' (e.put (on g :: ps) h)
        (e.put (off a :: on g :: ps) (s'.heightOf s.current)) := by
  obtain ⟨⟨entry, -⟩, room⟩ := asks
  have high : σ → g.base + (spec.argc + 1) ≤ s'.heightOf s.current := fun hσ => by
    rw [← steady.current]
    exact room.height hσ
  let a : Activation := ⟨true, false, spec.flags.discardResult,
    s'.heightOf s.current - (spec.argc + 1), spec.returnAddress⟩
  have floor : a.floor = s'.heightOf s.current - (spec.argc + 1) := rfl
  have hl' : InLoop σ e.places e.height (off a :: on g :: ps) := by
    refine .above rfl script (fun hσ => ?_) hl
    have := high hσ
    rw [activation_off, floor]
    omega
  refine ⟨a, ⟨entry.symm, rfl, rfl, fun _ => rfl⟩, rfl, fun known => ?_, hl', ?_⟩
  · have := high known.of_on
    rw [floor]
    omega
  · exact moves_steady (off a :: on g :: ps) stands current steady rfl
      (Thread.fits_put (loops.guards ip g ps).fits hl' fun _ => Nat.sub_le ..)

/-- The frame goes on with what its instruction asks for. -/
theorem asked_reaches
    (stands : Stands σ s V (e.put (on g :: ps) h :: W)) (current : s.current = e.id)
    (script : g.isNative = false) (hl : InLoop σ e.places e.height (on g :: ps))
    (loops : Loops σ m k e W) (steady : Steady σ g.base w s s') {effect : Effect}
    (asks : Exec.Asks σ g.base ip effect s') :
    Reaches σ w allowed s V (perform library ip m k (some effect) s') := by
  have fits := (loops.guards ip g ps).fits
  have low : σ → ∀ q ∈ on g :: ps, q.activation.floor ≤ g.base := fun hσ q hq =>
    Nat.le_trans (low_of_inLoop fits hl hσ q hq) g.floor_le_base
  have base : σ → g.base ≤ s'.heightOf s.current := fun hσ => by
    rw [← steady.current]
    exact Nat.le_trans (Nat.le_add_right ..) (asks.2.height hσ)
  have moves := moves_steady (on g :: ps) stands current steady rfl
    (Thread.fits_put fits hl fun hσ => Nat.le_trans g.floor_le_base (base hσ))
  cases effect with
  | next | jump target =>
    refine moves.reaches stands (retains_refl low).keeps ?_ (no_fault rfl)
    exact .execute moves.runs script hl base loops
  | leave frame v => exact asks.1.elim
  | nested function arguments after =>
    refine .after (moves.extends stands (retains_refl low)) ?_
    exact callNested_reaches (moves.stands stands) moves.runs
      (.instruction script hl base loops) ..
  | call spec =>
    obtain ⟨a, serves, -, height, hl', moves⟩ :=
      asked_call stands current script hl loops steady asks
    refine .after (moves.extends stands (retains_push low)) ?_
    exact performCall_reaches (moves.stands stands) moves.runs hl'
      (loops.guards ip a (on g :: ps)) serves height

/-- The thread that runs has to yield before the instruction. -/
theorem forced_reaches (stands : Stands σ s V (e.put (on g :: ps) h :: W))
    (current : s.current = e.id) (script : g.isNative = false)
    (hl : InLoop σ e.places e.height (on g :: ps)) (base : σ → g.base ≤ h)
    (loops : Loops σ m k e W) (yieldable : s.isYieldable = true)
    (hlocal : Local σ g.base w s s')
    (shape : s'.shape s.current =
      { s.shape s.current with pending := some (.instruction ip, {}) })
    (height : s'.heightOf s.current = s.heightOf s.current) :
    Reaches σ w allowed s V (perform library ip m k none s') := by
  cases loops with
  | mk frames stack fits ground enters =>
    simp only [State.isYieldable, State.inCoroutine, State.processor, Bool.and_eq_true,
      bne_iff_ne, beq_iff_eq] at yieldable
    have nested : e.nested = 0 := by
      have before := congrArg Shape.nested (stands.shape current)
      exact before.symm.trans yieldable.2
    have root : e.id ≠ .root := by
      rintro root
      rw [current, root] at yieldable
      exact yieldable.1 rfl
    have blank := enters.blank nested
    have inLoop : InLoop σ [] 0 (on g :: ps) := by
      rw [blank.places] at hl
      exact hl.congr_height fun _ => blank.height
    have low : σ → ∀ q ∈ on g :: ps, q.activation.floor ≤ g.base := fun hσ q hq =>
      Nat.le_trans (low_of_inLoop fits hl hσ q hq) g.floor_le_base
    exact suspend_reaches stands current hlocal shape height low nested
      (.stopped ⟨rfl, rfl, script, inLoop, nested, base⟩) (.forced root) (.inl enters)

/-- **One instruction** of the script frame on top. -/
theorem execute_reaches
    (stands : Stands σ s V (e.put (on g :: ps) h :: W)) (current : s.current = e.id)
    (script : g.isNative = false) (hl : InLoop σ e.places e.height (on g :: ps))
    (base : σ → g.base ≤ h) (loops : Loops σ m k e W) (tame : σ → s.Tame ip)
    (written : σ → ∀ c j, s.Writes ip c j → w c j) :
    Reaches σ w allowed s V (advance library (.execute ip m k) s) := by
  have fits := (loops.guards ip g ps).fits
  have low := low_of_inLoop fits hl
  have room : s.Room σ g.base 0 :=
    ⟨stands.hasCurrent current, fun hσ => by rw [stands.height current (.inl hσ)]; exact base hσ⟩
  have turned := Exec.executeAt_turned room (stands.standing current) script tame written
  change Reaches σ w allowed s V ((Exec.executeAt ip).andThen
    (fun effect => perform library ip m k effect) (fun e => unwind library e ip m k) s)
  unfold Exec.andThen
  generalize Exec.executeAt ip s = result at turned
  cases turned with
  | @failed x s' steady stray room =>
    have floor : σ → g.floor ≤ s'.heightOf s.current := fun hσ => by
      rw [← steady.current]
      exact Nat.le_trans g.floor_le_base (room.height hσ)
    have low : σ → ∀ q ∈ on g :: ps, q.activation.floor ≤ g.base := fun hσ q hq =>
      Nat.le_trans (low hσ q hq) g.floor_le_base
    have moves := moves_steady (on g :: ps) stands current steady rfl
      (Thread.fits_put fits hl floor)
    refine .after (moves.extends stands (retains_refl low)) ?_
    exact unwind_reaches (moves.stands stands) moves.runs hl floor loops x ip
      (by simp [stray])
  | @forced s' yieldable hlocal shape height =>
    exact forced_reaches stands current script hl base loops yieldable hlocal shape height
  | asked steady asks =>
    exact asked_reaches stands current script hl loops steady asks
  | @left f v s' hlocal hf shape height =>
    subst hf
    have hl' : InLoop σ e.places e.height (off f.activation :: ps) := hl.replace (.refl _)
    have moves := moves_put (off f.activation :: ps) stands current hlocal shape
      (Thread.fits_put fits hl' fun hσ => Nat.le_of_eq (height (.inl hσ)).symm)
    have known : Known σ ps → s'.heightOf s.current = f.activation.floor := fun known =>
      height (known.imp_right ((loops.guards ip f.activation ps).floor_eq hl))
    have replaced := retains_replace (p := on f.activation) (q := off f.activation) (.refl _) low
    refine .after (moves.extends stands replaced) ?_
    change Reaches σ w allowed s' _ (finishFrame library f v false (.loop m ip k) s')
    exact finishFrame_reaches (moves.stands stands) moves.runs
      (.finish hl' known (.loop loops)) ..
  | @reused spec s' hlocal entry discards address shape height =>
    let a : Activation := ⟨true, g.isEntry, g.discards, g.floor, g.returnAddress⟩
    have alike : g.Alike True a := ⟨rfl, rfl, rfl, fun _ => rfl⟩
    have hl' : InLoop σ e.places e.height (off a :: ps) := hl.replace (alike.mono fun _ => trivial)
    have moves := moves_put (off a :: ps) stands current hlocal shape
      (Thread.fits_put fits hl' fun hσ => by
        rw [height (.inl hσ)]
        exact Nat.le_trans (Nat.le_add_right ..) (Nat.le_add_right ..))
    have replaced := retains_replace (q := off a) (alike.mono fun _ => trivial) low
    refine .after (moves.extends stands replaced) ?_
    exact performCall_reaches (moves.stands stands) moves.runs hl'
      (loops.guards ip a ps) ⟨entry.symm, discards.symm, address.symm, fun _ => rfl⟩
      fun known => height (known.imp_right ((loops.guards ip g ps).floor_eq hl))

/-- A task has settled, and the thread that waited for it goes on. -/
theorem settle_reaches (stands : Stands σ s V ts) {c : ThreadId} {k : Kont ν .step}
    (tasked : Tasked σ s c k ts) {outcome : Except Fault Value}
    (faults : ∀ x, outcome = .error x → x.isStray = true → allowed x) :
    Reaches σ w allowed s V (handValue library outcome (.task c k) s) := by
  let s' : State ν := { s with current := c }
  have stands' : Stands σ s' V ts := stands.same rfl rfl
  have phase := tasked.phase
  let e : Thread := ⟨c, [], 0, 0, (s.shape c).async, none⟩
  have blank : e.Blank := ⟨rfl, rfl, rfl, rfl⟩
  have enters : Enters σ k e ts := by
    cases tasked with
    | drive _ _ _ enters =>
      cases enters with
      | drive _ lends holds => exact .drive blank { lends with } holds
    | resumed _ hc _ grounded =>
      exact .resumed rfl hc blank nofun (fun _ => ⟨rfl, rfl⟩) grounded.waits
  refine .same s' (fun _ => rfl) ?_
  exact resumePending_reaches (e := e) stands' rfl tasked.absent (stands.inRange phase) phase
    blank rfl enters outcome true faults

/-- **One step** of a machine in order. A stray fault was there, or is brought in. -/
theorem advance_reaches {control : Control ν}
    (stands : Stands σ s V ts) (poised : Poised σ s control ts) (held : control.strands = false)
    (tame : σ → control.Tame s)
    (written : σ → ∀ c j, control.Writes s c j → w c j) :
    Reaches σ w (fun x => control.fault? = some x ∨ control.brings? = some x) s V
      (advance library control s) := by
  cases poised with
  | execute current script hl base loops =>
    exact execute_reaches stands current script hl base loops tame written
  | run current holds =>
    refine runProgram_reaches stands current holds tame fun x hx _ => .inr ?_
    rw [hx]
    rfl
  | value current holds =>
    refine handValue_reaches stands current holds fun x hx _ => .inl ?_
    rw [hx]
    rfl
  | @blocked task k t W current holds =>
    cases task with
    | never => exact reaches_refl stands (.blocked current holds) (no_fault rfl)
    | settles r =>
      refine value_reaches stands current holds fun x hx _ => .inr ?_
      rw [hx]
      rfl
  | @idle r current =>
    refine reaches_refl stands (.idle current) ?_
    cases r with
    | ok v => exact no_fault rfl
    | error x => exact fails_value fun _ => .inl rfl
  | @awaits task c k ts tasked =>
    cases task with
    | never => exact reaches_refl stands (.awaits tasked) (no_fault rfl)
    | settles r =>
      refine reaches_refl stands (.settles tasked) ?_
      cases r with
      | ok v => exact no_fault rfl
      | error x => exact fails_value fun _ => .inr rfl
  | settles tasked =>
    refine settle_reaches stands tasked fun x hx _ => .inl ?_
    rw [hx]
    rfl
  | arrives current arrives guards =>
    refine arrive_reaches stands current arrives guards fun x hx _ => .inl ?_
    rw [hx]
    rfl
  | leaves current leaves enters =>
    refine leaveLoop_reaches stands current leaves enters fun x hx _ => .inl ?_
    rw [hx]
    rfl
  | parts current absent nested parts waits =>
    exact part_reaches library stands current absent nested parts waits held

end Machine

end ScriptMachine
