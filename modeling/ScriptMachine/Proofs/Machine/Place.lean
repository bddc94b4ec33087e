import ScriptMachine.Machine.Frame

/-!
# Places

The calls of one thread that are under way, the innermost first. A call keeps its place from the
moment its function is on the stack until its caller goes on, whether a frame stands for it or not.

* `InLoop`: the places above the base of a loop. The lowest is an entry, each other one is a call
  by the script frame below it.
* `Seated`: a call that is no entry was made by the script frame right below.
* `Keeps`: what becomes of the places of a thread when its innermost calls come and go.

The proposition `σ` says that heights matter. Without it the statements are about frames alone, and
about the heights of calls below which there is no frame: these are known whatever code runs.
-/

namespace ScriptMachine

/-- What of a frame decides where its result goes. -/
structure Activation where
  isNative : Bool
  isEntry : Bool
  discards : Bool
  base : Nat
  returnAddress : Nat
deriving DecidableEq, Repr

def Frame.activation (f : Frame) : Activation :=
  ⟨f.isNative, f.flags.entryPoint, f.flags.discardResult, f.base, f.returnAddress⟩

namespace Activation

/-- The height of the stack without the call, which is the slot of its function. -/
def floor (a : Activation) : Nat := if a.isNative then a.base else a.base - 1

theorem floor_le_base (a : Activation) : a.floor ≤ a.base := by
  unfold floor
  split <;> omega

/-- The height of the stack once the caller has the result. -/
def landing (a : Activation) : Nat := if a.discards then a.floor else a.floor + 1

theorem floor_le_landing (a : Activation) : a.floor ≤ a.landing := by
  unfold landing
  split <;> omega

/-- One may stand in for the other: their results go to the same place. -/
structure Alike (σ : Prop) (a b : Activation) : Prop where
  entry : a.isEntry = b.isEntry
  discards : a.discards = b.discards
  address : a.returnAddress = b.returnAddress
  floor : σ → a.floor = b.floor

variable {σ : Prop} {a b c : Activation}

theorem Alike.refl (a : Activation) : Alike σ a a := ⟨rfl, rfl, rfl, fun _ => rfl⟩

theorem Alike.symm (h : Alike σ a b) : Alike σ b a :=
  ⟨h.entry.symm, h.discards.symm, h.address.symm, fun hσ => (h.floor hσ).symm⟩

theorem Alike.trans (h : Alike σ a b) (h' : Alike σ b c) : Alike σ a c :=
  ⟨h.entry.trans h'.entry, h.discards.trans h'.discards, h.address.trans h'.address,
   fun hσ => (h.floor hσ).trans (h'.floor hσ)⟩

theorem Alike.mono {τ : Prop} (h : Alike σ a b) (hτ : τ → σ) : Alike τ a b :=
  ⟨h.entry, h.discards, h.address, fun h' => h.floor (hτ h')⟩

theorem Alike.landing (h : Alike σ a b) (hσ : σ) : a.landing = b.landing := by
  simp only [Activation.landing, h.discards, h.floor hσ]

end Activation

/-- A call that is under way. -/
inductive Place
  /-- Its frame is on the execution stack. -/
  | on (activation : Activation)
  /-- Its frame is not there yet, or not there any more. -/
  | off (activation : Activation)
  /-- Its result is on the stack and its caller is about to go on. -/
  | landed (activation : Activation)
deriving DecidableEq, Repr

namespace Place

def activation : Place → Activation
  | on a | off a | landed a => a

@[simp] theorem activation_on (a : Activation) : (on a).activation = a := rfl

@[simp] theorem activation_off (a : Activation) : (off a).activation = a := rfl

@[simp] theorem activation_landed (a : Activation) : (landed a).activation = a := rfl

def standing : List Place → List Activation
  | [] => []
  | on a :: ps => a :: standing ps
  | off _ :: ps | landed _ :: ps => standing ps

@[simp] theorem standing_nil : standing [] = [] := rfl

@[simp] theorem standing_on (a : Activation) (ps : List Place) :
    standing (on a :: ps) = a :: standing ps := rfl

@[simp] theorem standing_off (a : Activation) (ps : List Place) :
    standing (off a :: ps) = standing ps := rfl

@[simp] theorem standing_landed (a : Activation) (ps : List Place) :
    standing (landed a :: ps) = standing ps := rfl

def depth (ps : List Place) : Nat := (standing ps).length

@[simp] theorem depth_on (a : Activation) (ps : List Place) : depth (on a :: ps) = depth ps + 1 :=
  rfl

@[simp] theorem depth_off (a : Activation) (ps : List Place) : depth (off a :: ps) = depth ps := rfl

@[simp] theorem depth_landed (a : Activation) (ps : List Place) :
    depth (landed a :: ps) = depth ps := rfl

@[simp] theorem depth_nil : depth [] = 0 := rfl

theorem depth_le_cons (p : Place) (ps : List Place) : depth ps ≤ depth (p :: ps) := by
  cases p <;> simp

theorem depth_le_append (us ps : List Place) : depth ps ≤ depth (us ++ ps) := by
  induction us with
  | nil => exact Nat.le_refl _
  | cons u us ih => exact Nat.le_trans ih (depth_le_cons u _)

/-- The heights right above these calls are known: heights matter, or no frame is there. -/
def Known (σ : Prop) (ps : List Place) : Prop := σ ∨ depth ps = 0

theorem Known.of_on {σ : Prop} {a : Activation} {ps : List Place} (h : Known σ (on a :: ps)) : σ :=
  h.resolve_right (by simp)

/-- A call that is no entry was made by the script frame right below. -/
def Seated : List Place → Prop
  | [] => True
  | p :: ps =>
    (p.activation.isEntry = false → ∃ g rest, ps = on g :: rest ∧ g.isNative = false) ∧ Seated ps

theorem Seated.below {us ps : List Place} (h : Seated (us ++ ps)) : Seated ps := by
  induction us with
  | nil => exact h
  | cons u us ih => exact ih h.2

/-- A frame that stands on others, and is no entry, stands on a script frame. -/
theorem Seated.standing {ps : List Place} (h : Seated ps) {us : List Activation}
    {a : Activation} {rest : List Activation} (hs : standing ps = us ++ a :: rest)
    (ha : a.isEntry = false) : ∃ g below, rest = g :: below ∧ g.isNative = false := by
  induction ps generalizing us with
  | nil => simp at hs
  | cons p ps ih =>
    obtain ⟨seat, seated⟩ := h
    cases p with
    | off _ | landed _ => exact ih seated hs
    | on b =>
      cases us with
      | cons u us => exact ih seated (List.cons.inj hs).2
      | nil =>
        obtain ⟨rfl, rfl⟩ := List.cons.inj hs
        obtain ⟨g, below, rfl, hg⟩ := seat ha
        exact ⟨g, Place.standing below, rfl, hg⟩

/-- The places of a loop that was entered on top of `bs` at a height. -/
inductive InLoop (σ : Prop) (bs : List Place) (height : Nat) : List Place → Prop
  | entry {p : Place} : p.activation.isEntry = true → (Known σ bs → p.activation.floor = height) →
      InLoop σ bs height (p :: bs)
  | above {p : Place} {g : Activation} {ps : List Place} : p.activation.isEntry = false →
      g.isNative = false → (σ → g.base ≤ p.activation.floor) → InLoop σ bs height (on g :: ps) →
      InLoop σ bs height (p :: on g :: ps)

variable {σ : Prop} {bs ps us : List Place} {height bound : Nat} {p q : Place}

theorem InLoop.seated (h : InLoop σ bs height ps) (hb : Seated bs) : Seated ps := by
  induction h with
  | entry entry _ => exact ⟨fun he => by simp [he] at entry, hb⟩
  | above _ script _ _ ih => exact ⟨fun _ => ⟨_, _, rfl, script⟩, ih⟩

/-- The floors of a thread rise with its places. -/
theorem InLoop.floor_le (h : InLoop σ bs height (p :: ps)) (hσ : σ)
    (hb : ∀ q ∈ bs, q.activation.floor ≤ height) :
    ∀ q ∈ p :: ps, q.activation.floor ≤ p.activation.floor := by
  generalize hl : p :: ps = l at h
  induction h generalizing p ps with
  | entry _ hp =>
    obtain ⟨rfl, rfl⟩ := List.cons.inj hl
    intro q hq
    obtain rfl | hq := List.mem_cons.1 hq
    · exact Nat.le_refl _
    · exact Nat.le_trans (hb q hq) (Nat.le_of_eq (hp (.inl hσ)).symm)
  | @above _ g _ _ _ room _ ih =>
    obtain ⟨rfl, rfl⟩ := List.cons.inj hl
    intro q hq
    obtain rfl | hq := List.mem_cons.1 hq
    · exact Nat.le_refl _
    · exact Nat.le_trans (ih rfl q hq) (Nat.le_trans (Activation.floor_le_base g) (room hσ))

/-- What stands in for the innermost call is in the loop as well. -/
theorem InLoop.replace (h : InLoop σ bs height (p :: ps))
    (alike : p.activation.Alike (Known σ ps) q.activation) : InLoop σ bs height (q :: ps) := by
  cases h with
  | entry entry hp =>
    exact .entry (alike.entry ▸ entry) fun known => (alike.floor known) ▸ hp known
  | above entry script room rest =>
    exact .above (alike.entry ▸ entry) script (fun hσ => (alike.floor (.inl hσ)) ▸ room hσ) rest

/-- A height that the statements do not look at may be another. -/
theorem InLoop.congr_height {height' : Nat} (h : InLoop σ bs height ps)
    (hh : Known σ bs → height = height') : InLoop σ bs height' ps := by
  induction h with
  | entry entry hp => exact .entry entry fun known => (hp known).trans (hh known)
  | above entry script room _ ih => exact .above entry script room ih

theorem InLoop.of_entry (h : InLoop σ bs height (p :: ps)) (entry : p.activation.isEntry = true) :
    ps = bs ∧ (Known σ bs → p.activation.floor = height) := by
  cases h with
  | entry _ hp => exact ⟨rfl, hp⟩
  | above he => simp [he] at entry

/-- A call below which there is no frame is the entry of its loop. -/
theorem InLoop.grounded (h : InLoop σ bs height (p :: ps)) (hd : depth ps = 0) :
    ps = bs ∧ p.activation.floor = height := by
  cases h with
  | entry _ hp => exact ⟨rfl, hp (.inr hd)⟩
  | above => simp at hd

/-- The script frame that made the innermost call. -/
theorem InLoop.caller (h : InLoop σ bs height (p :: ps)) (entry : p.activation.isEntry = false) :
    ∃ g rest, ps = on g :: rest ∧ g.isNative = false ∧ (σ → g.base ≤ p.activation.floor) ∧
      InLoop σ bs height ps := by
  cases h with
  | entry he => simp [he] at entry
  | above _ script room rest => exact ⟨_, _, rfl, script, room, rest⟩

/-- The places of a loop lie above those it was entered on. All but its entries lie above one of
its frames. -/
theorem InLoop.exists_append (h : InLoop σ bs height ps) :
    ∃ u us, ps = (u :: us) ++ bs ∧ ∀ up P lo, u :: us = up ++ P :: lo →
      P.activation.isEntry = false → depth bs < depth (lo ++ bs) := by
  induction h with
  | @entry p entry _ =>
    refine ⟨p, [], rfl, fun up P lo hl hP => ?_⟩
    obtain ⟨rfl, head⟩ | ⟨up', rfl, tail⟩ := List.cons_eq_append_iff.1 hl
    · obtain ⟨rfl, -⟩ := List.cons.inj head
      simp [entry] at hP
    · simp at tail
  | @above p g ps entry _ _ _ ih =>
    obtain ⟨u, us, hus, ih⟩ := ih
    refine ⟨p, u :: us, by rw [hus]; rfl, fun up P lo hl hP => ?_⟩
    obtain ⟨rfl, head⟩ | ⟨up', rfl, tail⟩ := List.cons_eq_append_iff.1 hl
    · obtain ⟨rfl, rfl⟩ := List.cons.inj head
      obtain ⟨rfl, -⟩ := List.cons.inj hus
      exact Nat.lt_succ_of_le (depth_le_append us bs)
    · exact ih up' P lo tail hP

/-- The call is still there, above the same places and with its floor below the bound. -/
def Kept (σ : Prop) (bound : Nat) (after : List Place) (P : Place) (lo : List Place) : Prop :=
  ∃ up P', after = up ++ P' :: lo ∧ P.activation.Alike σ P'.activation ∧
    (σ → P.activation.floor ≤ bound)

/-- Each call that is no entry is kept. -/
def Retains (σ : Prop) (bound : Nat) (before after : List Place) : Prop :=
  ∀ up P lo, before = up ++ P :: lo → P.activation.isEntry = false → Kept σ bound after P lo

/-- Each call that is no entry is kept, or frames below it are gone. -/
def Keeps (σ : Prop) (bound : Nat) (before after : List Place) : Prop :=
  ∀ up P lo, before = up ++ P :: lo → P.activation.isEntry = false →
    Kept σ bound after P lo ∨ depth after < depth lo

theorem Retains.keeps {before after : List Place} (h : Retains σ bound before after) :
    Keeps σ bound before after :=
  fun up P lo hb hP => .inl (h up P lo hb hP)

theorem retains_refl (low : σ → ∀ p ∈ ps, p.activation.floor ≤ bound) : Retains σ bound ps ps := by
  intro up P lo h _
  exact ⟨up, P, h, .refl _, fun hσ => low hσ P (by simp [h])⟩

theorem retains_push (low : σ → ∀ p ∈ ps, p.activation.floor ≤ bound) :
    Retains σ bound ps (p :: ps) := by
  intro up P lo h _
  exact ⟨p :: up, P, by simp [h], .refl _, fun hσ => low hσ P (by simp [h])⟩

/-- One call takes the place of another. -/
theorem retains_replace (alike : p.activation.Alike σ q.activation)
    (low : σ → ∀ r ∈ p :: ps, r.activation.floor ≤ bound) :
    Retains σ bound (p :: ps) (q :: ps) := by
  intro up P lo h hP
  obtain ⟨rfl, head⟩ | ⟨up', rfl, rfl⟩ := List.cons_eq_append_iff.1 h
  · obtain ⟨rfl, rfl⟩ := List.cons.inj head
    exact ⟨[], q, rfl, alike, fun hσ => low hσ _ (by simp)⟩
  · exact ⟨q :: up', P, rfl, .refl _, fun hσ => low hσ P (by simp)⟩

/-- Calls without frames are entries, and may be put aside. -/
theorem retains_bare (seated : Seated ps) (bare : depth ps = 0) : Retains σ bound ps [] := by
  rintro up P lo rfl hP
  obtain ⟨g, rest, rfl, -⟩ := seated.below.1 hP
  have deep := Nat.le_trans (depth_le_cons P (on g :: rest)) (depth_le_append up _)
  rw [bare] at deep
  exact absurd deep (Nat.not_succ_le_zero _)

theorem retains_nil : Retains σ bound [] ps := by
  intro up P lo h
  simp at h

/-- A loop is left with all that is in it. -/
theorem keeps_leave (h : InLoop σ bs height ps) (low : σ → ∀ p ∈ bs, p.activation.floor ≤ bound) :
    Keeps σ bound ps bs := by
  obtain ⟨u, us, rfl, lost⟩ := h.exists_append
  intro up P lo h hP
  obtain ⟨mid, rfl, rfl⟩ | ⟨mid, hmid, tail⟩ := List.append_eq_append_iff.1 h
  · exact .inl ⟨mid, P, rfl, .refl _, fun hσ => low hσ P (by simp)⟩
  · obtain ⟨rfl, rfl⟩ | ⟨mid, rfl, rfl⟩ := List.cons_eq_append_iff.1 tail
    · exact .inl ⟨[], P, rfl, .refl _, fun hσ => low hσ P (by simp)⟩
    · exact .inr (lost _ _ _ hmid hP)

/-- A frame is popped with all calls above it. -/
theorem keeps_catch {a b : Activation} (alike : a.Alike σ b)
    (low : σ → ∀ r ∈ on a :: ps, r.activation.floor ≤ bound) :
    Keeps σ bound (us ++ on a :: ps) (off b :: ps) := by
  intro up P lo h hP
  have replaced := (retains_replace (p := on a) (q := off b) alike low).keeps
  obtain ⟨mid, rfl, tail⟩ | ⟨mid, rfl, tail⟩ := List.append_eq_append_iff.1 h
  · exact replaced mid P lo tail hP
  · obtain ⟨rfl, head⟩ | ⟨mid, rfl, rfl⟩ := List.cons_eq_append_iff.1 tail
    · exact replaced [] P lo head hP
    · exact .inr (Nat.lt_of_lt_of_le (Nat.lt_succ_self _) (depth_le_append mid (on a :: ps)))

end Place

end ScriptMachine
