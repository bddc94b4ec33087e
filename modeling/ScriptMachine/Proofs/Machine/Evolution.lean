import ScriptMachine.Proofs.Machine.Layout
import ScriptMachine.Proofs.Machine.Stays

/-!
# The fate of calls

What a step of the machine makes of the calls that are under way.

* `Survives`: a call is still under way and the slots below it are untouched, apart from writes
  through open cells.
* `Evolves`: each call that is no entry survives, is dropped with frames below it, or has its
  result and its caller goes on.
* `Reaches`: a move of the machine keeps the layout, evolves the calls and brings no stray fault.
-/

namespace ScriptMachine

open Place

variable {ν : Type} {σ : Prop} {w : ThreadId → Nat → Prop}

def Untouched (σ : Prop) (w : ThreadId → Nat → Prop) (s s' : State ν) (c : ThreadId) (h : Nat) :
    Prop :=
  σ → ∀ j, j < h → ¬ w c j → s'.slot c j = s.slot c j

/-- The call `P` above `lo` is still under way. -/
def Survives (σ : Prop) (w : ThreadId → Nat → Prop) (s s' : State ν) (c : ThreadId)
    (after : List Place) (P : Place) (lo : List Place) : Prop :=
  ∃ up P', after = up ++ P' :: lo ∧ P.activation.Alike σ P'.activation ∧
    Untouched σ w s s' c P.activation.floor

/-- The caller of `P` goes on with its result. -/
structure Lands (σ : Prop) (w : ThreadId → Nat → Prop) (s : State ν) (x : Control ν × State ν)
    (c : ThreadId) (after : List Place) (P : Place) (lo : List Place) : Prop where
  places : after = lo
  current : x.2.current = c
  control : ∃ mark k, x.1 = .execute P.activation.returnAddress mark k
  height : σ → x.2.heightOf c = P.activation.landing
  slots : Untouched σ w s x.2 c P.activation.floor

/-- Each call that is no entry is still under way. -/
def Extends (σ : Prop) (w : ThreadId → Nat → Prop) (s : State ν) (V : ThreadId → List Place)
    (s' : State ν) (V' : ThreadId → List Place) : Prop :=
  ∀ c up P lo, V c = up ++ P :: lo → P.activation.isEntry = false →
    Survives σ w s s' c (V' c) P lo

/-- The call `P` above `lo` is still under way, dropped with frames below it, or done. -/
def Fate (σ : Prop) (w : ThreadId → Nat → Prop) (s : State ν) (x : Control ν × State ν)
    (c : ThreadId) (after : List Place) (P : Place) (lo : List Place) : Prop :=
  Survives σ w s x.2 c after P lo ∨ depth after < depth lo ∨ Lands σ w s x c after P lo

/-- Each call that is no entry meets its fate. -/
def Evolves (σ : Prop) (w : ThreadId → Nat → Prop) (s : State ν) (V : ThreadId → List Place)
    (x : Control ν × State ν) (V' : ThreadId → List Place) : Prop :=
  ∀ c up P lo, V c = up ++ P :: lo → P.activation.isEntry = false →
    Fate σ w s x c (V' c) P lo

section Compose

variable {s s' s'' : State ν} {V V' V'' : ThreadId → List Place} {x : Control ν × State ν}

theorem Untouched.trans {c : ThreadId} {h : Nat} (h₁ : Untouched σ w s s' c h)
    (h₂ : Untouched σ w s' s'' c h) : Untouched σ w s s'' c h :=
  fun hσ j hj hw => (h₂ hσ j hj hw).trans (h₁ hσ j hj hw)

theorem Untouched.floor {c : ThreadId} {a b : Activation} (h : Untouched σ w s s' c a.floor)
    (alike : a.Alike σ b) : Untouched σ w s s' c b.floor :=
  fun hσ => alike.floor hσ ▸ h hσ

theorem Extends.refl (s : State ν) (V : ThreadId → List Place) : Extends σ w s V s V :=
  fun _ up P _ h _ => ⟨up, P, h, .refl _, fun _ _ _ _ => rfl⟩

theorem Extends.evolves (h : Extends σ w s V x.2 V') : Evolves σ w s V x V' :=
  fun c up P lo hV hP => .inl (h c up P lo hV hP)

theorem Extends.trans (h : Extends σ w s V s' V') (h' : Extends σ w s' V' s'' V'') :
    Extends σ w s V s'' V'' := by
  intro c up P lo hV hP
  obtain ⟨up', P', hV', alike, slots⟩ := h c up P lo hV hP
  obtain ⟨up'', P'', hV'', alike', slots'⟩ := h' c up' P' lo hV' (alike.entry ▸ hP)
  exact ⟨up'', P'', hV'', alike.trans alike', slots.trans (slots'.floor alike.symm)⟩

/-- The fate of a call is that of the one that stands in for it. -/
theorem Fate.trans {c : ThreadId} {after lo : List Place} {P P' : Place}
    (alike : P.activation.Alike σ P'.activation)
    (slots : Untouched σ w s s' c P.activation.floor) (h : Fate σ w s' x c after P' lo) :
    Fate σ w s x c after P lo := by
  obtain ⟨up, P'', places, alike', slots'⟩ | dropped | lands := h
  · exact .inl ⟨up, P'', places, alike.trans alike', slots.trans (slots'.floor alike.symm)⟩
  · exact .inr (.inl dropped)
  · refine .inr (.inr ⟨lands.places, lands.current, alike.address ▸ lands.control, ?_, ?_⟩)
    · exact fun hσ => (lands.height hσ).trans (alike.landing hσ).symm
    · exact slots.trans (lands.slots.floor alike.symm)

theorem Extends.after (h : Extends σ w s V s' V') (h' : Evolves σ w s' V' x V'') :
    Evolves σ w s V x V'' := by
  intro c up P lo hV hP
  obtain ⟨up', P', hV', alike, slots⟩ := h c up P lo hV hP
  exact (h' c up' P' lo hV' (alike.entry ▸ hP)).trans alike slots

theorem Evolves.same {control : Control ν} (h : Evolves σ w s V (control, s') V')
    (hs : ∀ c, s''.stackOf c = s'.stackOf c) (current : s''.current = s'.current) :
    Evolves σ w s V (control, s'') V' := by
  have slots : ∀ {c n}, Untouched σ w s s' c n → Untouched σ w s s'' c n :=
    fun untouched hσ j hj hw => by
      rw [State.slot, hs]
      exact untouched hσ j hj hw
  intro c up P lo hV hP
  obtain ⟨up', P', places, alike, same⟩ | dropped | lands := h c up P lo hV hP
  · exact .inl ⟨up', P', places, alike, slots same⟩
  · exact .inr (.inl dropped)
  · refine .inr (.inr ⟨lands.places, current.trans lands.current, lands.control, fun hσ => ?_,
      slots lands.slots⟩)
    rw [State.heightOf, hs]
    exact lands.height hσ

/-- A local change evolves the calls as it keeps the places of the thread that runs. -/
theorem Local.untouched {bound h : Nat} (hl : Local σ bound w s s') (c : ThreadId)
    (hh : σ → c = s.current → h ≤ bound) : Untouched σ w s s' c h :=
  fun hσ j hj hw => hl.slots hσ c j hw fun e => Nat.lt_of_lt_of_le hj (hh hσ e)

theorem Local.extends {bound : Nat} {ps : List Place} (hl : Local σ bound w s s')
    (hr : Retains σ bound (V s.current) ps) :
    Extends σ w s V s' (Function.update V s.current ps) := by
  intro c up P lo hV hP
  by_cases hc : c = s.current
  · subst hc
    obtain ⟨up', P', hV', alike, low⟩ := hr up P lo hV hP
    refine ⟨up', P', by rw [Function.update_self]; exact hV', alike, ?_⟩
    exact hl.untouched _ fun hσ _ => low hσ
  · exact ⟨up, P, by rw [Function.update_of_ne hc]; exact hV, .refl _,
      hl.untouched _ fun _ e => absurd e hc⟩

theorem Local.evolves {bound : Nat} {ps : List Place} (hl : Local σ bound w s x.2)
    (hk : Keeps σ bound (V s.current) ps) :
    Evolves σ w s V x (Function.update V s.current ps) := by
  intro c up P lo hV hP
  by_cases hc : c = s.current
  · subst hc
    rw [Function.update_self]
    obtain ⟨up', P', hV', alike, low⟩ | dropped := hk up P lo hV hP
    · exact .inl ⟨up', P', hV', alike, hl.untouched _ fun hσ _ => low hσ⟩
    · exact .inr (.inl dropped)
  · rw [Function.update_of_ne hc]
    exact .inl ⟨up, P, hV, .refl _, hl.untouched _ fun _ e => absurd e hc⟩

end Compose

/-- The innermost thread of the chain goes from `t` to `t'`. -/
structure Moves (σ : Prop) (bound : Nat) (w : ThreadId → Nat → Prop) (s s' : State ν)
    (t t' : Thread) : Prop where
  toLocal : Local σ bound w s s'
  current : s.current = t.id
  id : t'.id = t.id
  pending : t'.pending = none
  shape : s'.shape t.id = t'.shape
  height : Known σ t'.places → s'.heightOf t.id = t'.height
  fits : t'.Fits σ

section Moves

variable {s s' : State ν} {V : ThreadId → List Place} {t t' e : Thread} {W : List Thread}
  {bound : Nat}

theorem Moves.runs (m : Moves σ bound w s s' t t') : s'.current = t'.id :=
  m.toLocal.current.trans (m.current.trans m.id.symm)

theorem Moves.stands (m : Moves σ bound w s s' t t') (h : Stands σ s V (t :: W)) :
    Stands σ s' (Function.update V t.id t'.places) (t' :: W) := by
  refine h.change (m.current ▸ m.toLocal.beside) m.id m.pending m.shape m.height m.fits ?_
  exact (m.toLocal.phase t.id).trans (h.busy t (List.mem_cons_self ..)).phase

theorem Moves.extends (m : Moves σ bound w s s' t t') (h : Stands σ s V (t :: W))
    (retains : Retains σ bound t.places t'.places) :
    Extends σ w s V s' (Function.update V t.id t'.places) := by
  rw [← m.current]
  refine m.toLocal.extends ?_
  rw [m.current, (h.busy t (List.mem_cons_self ..)).places]
  exact retains

theorem Moves.evolves {control : Control ν} (m : Moves σ bound w s s' t t')
    (h : Stands σ s V (t :: W)) (keeps : Keeps σ bound t.places t'.places) :
    Evolves σ w s V (control, s') (Function.update V t.id t'.places) := by
  rw [← m.current]
  refine Local.evolves (x := (control, s')) m.toLocal ?_
  rw [m.current, (h.busy t (List.mem_cons_self ..)).places]
  exact keeps

theorem Stands.shape (h : Stands σ s V (t :: W)) (current : s.current = t.id) :
    s.shape s.current = t.shape := by
  rw [current]
  exact (h.busy t (List.mem_cons_self ..)).shape

theorem Stands.standing (h : Stands σ s V (t :: W)) (current : s.current = t.id) :
    (s.shape s.current).standing = Place.standing t.places := by
  rw [h.shape current]
  rfl

theorem Stands.height (h : Stands σ s V (t :: W)) (current : s.current = t.id)
    (known : Known σ t.places) : s.heightOf s.current = t.height := by
  rw [current]
  exact (h.busy t (List.mem_cons_self ..)).height known

theorem Stands.callDepth_eq (h : Stands σ s V (t :: W)) (current : s.current = t.id) :
    s.callDepth = depth t.places := by
  rw [s.callDepth_eq, h.standing current]
  rfl

theorem Stands.hasCurrent (h : Stands σ s V (t :: W)) (current : s.current = t.id) :
    s.HasCurrent := by
  unfold State.HasCurrent
  rw [current]
  exact (h.busy t (List.mem_cons_self ..)).inRange

/-- Other calls of the same loop. -/
theorem moves_put {ps : List Place} {h : Nat} (ps' : List Place)
    (stands : Stands σ s V (e.put ps h :: W))
    (current : s.current = e.id) (hl : Local σ bound w s s')
    (shape : s'.shape s.current = { s.shape s.current with standing := standing ps' })
    (fits : (e.put ps' (s'.heightOf s.current)).Fits σ) :
    Moves σ bound w s s' (e.put ps h) (e.put ps' (s'.heightOf s.current)) := by
  have busy := stands.busy _ (List.mem_cons_self ..)
  refine ⟨hl, current, rfl, busy.pending, ?_, fun _ => by rw [current]; rfl, fits⟩
  rw [stands.shape current, current] at shape
  exact shape

/-- No frame is entered or left. -/
theorem moves_steady {ps : List Place} {h : Nat} (ps' : List Place)
    (stands : Stands σ s V (e.put ps h :: W))
    (current : s.current = e.id) (hs : Steady σ bound w s s')
    (same : standing ps' = standing ps) (fits : (e.put ps' (s'.heightOf s.current)).Fits σ) :
    Moves σ bound w s s' (e.put ps h) (e.put ps' (s'.heightOf s.current)) := by
  refine moves_put ps' stands current hs.toLocal ?_ fits
  rw [hs.shape, stands.shape current, same]
  rfl

end Moves

/-- The fault that the control hands on. -/
def Control.fault? : Control ν → Option Fault
  | .step (.error e) _ | .value (.error e) _ => some e
  | _ => none

/-- A move from a state with given calls keeps the layout and evolves the calls. A stray fault is
one of those that are allowed. -/
structure Reaches (σ : Prop) (w : ThreadId → Nat → Prop) (allowed : Fault → Prop) (s : State ν)
    (V : ThreadId → List Place) (x : Control ν × State ν) : Prop where
  layout : ∃ V' ts, Stands σ x.2 V' ts ∧ Poised σ x.2 x.1 ts ∧ Evolves σ w s V x V'
  faults : ∀ e, x.1.fault? = some e → e.isStray = true → allowed e

section Reaches

variable {allowed : Fault → Prop} {s s' : State ν} {V V' : ThreadId → List Place}
  {t t' : Thread} {W : List Thread} {bound : Nat} {x : Control ν × State ν}

theorem Reaches.after (h : Extends σ w s V s' V') (h' : Reaches σ w allowed s' V' x) :
    Reaches σ w allowed s V x := by
  obtain ⟨⟨V'', ts, stands, poised, evolves⟩, faults⟩ := h'
  exact ⟨⟨V'', ts, stands, poised, h.after evolves⟩, faults⟩

/-- No stack changes before the move. -/
theorem Reaches.same (s' : State ν) (hs : ∀ c, s'.stackOf c = s.stackOf c)
    (h : Reaches σ w allowed s' V x) :
    Reaches σ w allowed s V x := by
  refine .after (fun c up P lo hV _ => ⟨up, P, hV, .refl _, fun _ j _ _ => ?_⟩) h
  simp only [State.slot, hs]

theorem no_fault {control : Control ν} (h : control.fault? = none) :
    ∀ e, control.fault? = some e → e.isStray = true → allowed e := by
  intro e he
  rw [h] at he
  contradiction

theorem fails_step {x : Fault} {k : Kont ν .step} (h : x.isStray = true → allowed x) :
    ∀ e, (Control.step (.error x) k).fault? = some e → e.isStray = true → allowed e := by
  rintro _ ⟨⟩
  exact h

theorem fails_value {x : Fault} {k : Kont ν .value} (h : x.isStray = true → allowed x) :
    ∀ e, (Control.value (.error x) k).fault? = some e → e.isStray = true → allowed e := by
  rintro _ ⟨⟩
  exact h

theorem Moves.reaches {control : Control ν} (m : Moves σ bound w s s' t t')
    (h : Stands σ s V (t :: W)) (keeps : Keeps σ bound t.places t'.places)
    (poised : Poised σ s' control (t' :: W))
    (faults : ∀ e, control.fault? = some e → e.isStray = true → allowed e) :
    Reaches σ w allowed s V (control, s') :=
  ⟨⟨_, _, m.stands h, poised, m.evolves h keeps⟩, faults⟩

/-- The control changes, and nothing else. -/
theorem reaches_refl {ts : List Thread} {control : Control ν} (stands : Stands σ s V ts)
    (poised : Poised σ s control ts)
    (faults : ∀ e, control.fault? = some e → e.isStray = true → allowed e) :
    Reaches σ w allowed s V (control, s) :=
  ⟨⟨V, ts, stands, poised, Extends.evolves (x := (control, s)) (.refl s V)⟩, faults⟩

end Reaches

end ScriptMachine
