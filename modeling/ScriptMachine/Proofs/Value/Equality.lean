import ScriptMachine.Heap.Basic
import ScriptMachine.Proofs.Table.Lookup

/-!
# Equality before metamethods

Two values are equal by their structure, by identity, or, if they are host objects, by what the
descriptor of the left one says.

* `equalsWith_symm`, `equalsWith_trans`, `equalsWith_refl`: equality of values inherits what the
  comparison of host objects has.
* `Comparison.equivalence_of_lawful`: it is an equivalence, but for numbers that are none, if every
  descriptor compares its own objects lawfully and relates them to no others.
* `Heap.Uniform.rawEquals`: so it is on a heap where no object that compares by its member has the
  member of one that does not.
-/

namespace ScriptMachine

namespace Number

theorem equals_symm (a b : Number) : a.equals b = b.equals a := by
  simp only [equals, Bool.and_comm (!a.isNaN), Bool.beq_comm (b := b.orderKey)]

theorem equals_trans {a b c : Number} (h : a.equals b = true) (h' : b.equals c = true) :
    a.equals c = true := by
  obtain ⟨realA, _, same⟩ := equals_iff_numberBits.1 h
  obtain ⟨_, realC, same'⟩ := equals_iff_numberBits.1 h'
  exact equals_iff_numberBits.2 ⟨realA, realC, same.trans same'⟩

theorem equals_refl {a : Number} (real : a.isNaN = false) : a.equals a = true :=
  equals_iff_numberBits.2 ⟨real, real, rfl⟩

end Number

namespace Range

theorem equals_symm (a b : Range) : a.equals b = b.equals a := by
  simp only [equals, Number.equals_symm a.first, Number.equals_symm a.last, Number.equals_symm a.step]

theorem equals_trans {a b c : Range} (h : a.equals b = true) (h' : b.equals c = true) :
    a.equals c = true := by
  simp only [equals, Bool.and_eq_true] at h h' ⊢
  exact ⟨⟨Number.equals_trans h.1.1 h'.1.1, Number.equals_trans h.1.2 h'.1.2⟩,
    Number.equals_trans h.2 h'.2⟩

theorem equals_refl {a : Range} (real : a.isReal = true) : a.equals a = true := by
  simp only [isReal, Bool.and_eq_true, Bool.not_eq_true'] at real
  simp only [equals, Bool.and_eq_true]
  exact ⟨⟨Number.equals_refl real.1.1, Number.equals_refl real.1.2⟩, Number.equals_refl real.2⟩

end Range

namespace Value

mutual

/-- The value contains no not-a-number. -/
def isReal : Value → Bool
  | number n => !n.isNaN
  | range r => r.isReal
  | tuple vs => allReal vs
  | _ => true

def allReal : List Value → Bool
  | [] => true
  | v :: rest => v.isReal && allReal rest

end

section
variable {same : UserdataId → UserdataId → Bool}

mutual

theorem equalsWith_symm (symm : ∀ u u', same u u' = same u' u) (a b : Value) :
    equalsWith same a b = equalsWith same b a := by
  cases a with
  | number n =>
    cases b with
    | number m => exact n.equals_symm m
    | _ => rfl
  | range r =>
    cases b with
    | range r' => exact r.equals_symm r'
    | _ => rfl
  | userdata u =>
    cases b with
    | userdata u' => exact symm u u'
    | _ => rfl
  | tuple as =>
    cases b with
    | tuple bs => exact listEqualsWith_symm symm as bs
    | _ => rfl
  | _ => cases b <;> first | rfl | exact Bool.beq_comm

theorem listEqualsWith_symm (symm : ∀ u u', same u u' = same u' u) (as bs : List Value) :
    listEqualsWith same as bs = listEqualsWith same bs as := by
  cases as with
  | nil => cases bs <;> rfl
  | cons a as =>
    cases bs with
    | nil => rfl
    | cons b bs =>
      rw [listEqualsWith, listEqualsWith, equalsWith_symm symm a b, listEqualsWith_symm symm as bs]

end

theorem equalsWith_of_isNil {a b : Value} (h : a.isNil = true) (h' : b.isNil = true) :
    equalsWith same a b = true := by
  cases a <;> cases h <;> cases b <;> cases h' <;> rfl

mutual

theorem equalsWith_trans
    (trans : ∀ u u' u'', same u u' = true → same u' u'' = true → same u u'' = true)
    (a b c : Value) (h : equalsWith same a b = true) (h' : equalsWith same b c = true) :
    equalsWith same a c = true := by
  cases b with
  | void | nil =>
    have left : a.isNil = true := by cases a <;> first | rfl | cases h
    have right : c.isNil = true := by cases c <;> first | rfl | cases h'
    exact equalsWith_of_isNil left right
  | number m =>
    cases a with
    | number n =>
      cases c with
      | number k => exact Number.equals_trans h h'
      | _ => cases h'
    | _ => cases h
  | range r' =>
    cases a with
    | range r =>
      cases c with
      | range r'' => exact Range.equals_trans h h'
      | _ => cases h'
    | _ => cases h
  | userdata u' =>
    cases a with
    | userdata u =>
      cases c with
      | userdata u'' => exact trans u u' u'' h h'
      | _ => cases h'
    | _ => cases h
  | tuple bs =>
    cases a with
    | tuple as =>
      cases c with
      | tuple cs => exact listEqualsWith_trans trans as bs cs h h'
      | _ => cases h'
    | _ => cases h
  | _ =>
    -- equality with any other value is identity
    cases a <;> first | cases h | exact (eq_of_beq h) ▸ h'

theorem listEqualsWith_trans
    (trans : ∀ u u' u'', same u u' = true → same u' u'' = true → same u u'' = true)
    (as bs cs : List Value) (h : listEqualsWith same as bs = true)
    (h' : listEqualsWith same bs cs = true) : listEqualsWith same as cs = true := by
  cases bs with
  | nil =>
    cases as with
    | nil => exact h'
    | cons => cases h
  | cons b bs =>
    cases as with
    | nil => cases h
    | cons a as =>
      cases cs with
      | nil => cases h'
      | cons c cs =>
        rw [listEqualsWith, Bool.and_eq_true] at h h' ⊢
        exact ⟨equalsWith_trans trans a b c h.1 h'.1, listEqualsWith_trans trans as bs cs h.2 h'.2⟩

end

mutual

theorem equalsWith_refl (refl : ∀ u, same u u = true) (a : Value) (real : a.isReal = true) :
    equalsWith same a a = true := by
  cases a with
  | number n => exact Number.equals_refl (by simpa [isReal] using real)
  | range r => exact Range.equals_refl real
  | userdata u => exact refl u
  | tuple as => exact listEqualsWith_refl refl as real
  | _ => first | rfl | exact BEq.rfl

theorem listEqualsWith_refl (refl : ∀ u, same u u = true) (as : List Value)
    (real : allReal as = true) : listEqualsWith same as as = true := by
  cases as with
  | nil => rfl
  | cons a as =>
    rw [allReal, Bool.and_eq_true] at real
    rw [listEqualsWith, equalsWith_refl refl a real.1, listEqualsWith_refl refl as real.2]
    rfl

end

end

/-- An equivalence, but that a not-a-number equals nothing. -/
structure Equivalent (eq : Value → Value → Bool) : Prop where
  symm : ∀ a b, eq a b = eq b a
  trans : ∀ a b c, eq a b = true → eq b c = true → eq a c = true
  refl : ∀ a, a.isReal = true → eq a a = true

theorem equivalent_equalsWith {same : UserdataId → UserdataId → Bool}
    (refl : ∀ u, same u u = true) (symm : ∀ u u', same u u' = same u' u)
    (trans : ∀ u u' u'', same u u' = true → same u' u'' = true → same u u'' = true) :
    Equivalent (equalsWith same) :=
  ⟨equalsWith_symm symm, equalsWith_trans trans, equalsWith_refl refl⟩

end Value

/-- How a host compares its objects: each has a descriptor, and each descriptor a comparison. -/
structure Comparison (Δ : Type) where
  descriptor : UserdataId → Δ
  equals : Δ → UserdataId → UserdataId → Bool

namespace Comparison

variable {Δ : Type} (c : Comparison Δ)

/-- Objects are the same, or the descriptor of the left one says that they are equal. -/
def same (u u' : UserdataId) : Bool := u == u' || c.equals (c.descriptor u) u u'

/-- Every descriptor's comparison is an equivalence on the objects that share the descriptor. -/
def Lawful : Prop :=
  ∀ d, Equivalence fun u u' : { u // c.descriptor u = d } => c.equals d u u' = true

/-- No descriptor's comparison relates its objects to those of another. -/
def Separates : Prop :=
  ∀ u u', c.descriptor u ≠ c.descriptor u' → c.equals (c.descriptor u) u u' = false

variable {c}

theorem same_refl (u : UserdataId) : c.same u u = true := by simp [same]

/-- Objects that are the same share their descriptor. -/
theorem Separates.descriptor_eq (apart : c.Separates) {u u' : UserdataId}
    (h : c.same u u' = true) : c.descriptor u = c.descriptor u' := by
  by_contra other
  have distinct : u ≠ u' := fun equal => other (congrArg _ equal)
  simp [same, distinct, apart u u' other] at h

theorem Lawful.same_symm (lawful : c.Lawful) (apart : c.Separates) {u u' : UserdataId}
    (h : c.same u u' = true) : c.same u' u = true := by
  have shared := apart.descriptor_eq h
  simp only [same, Bool.or_eq_true, beq_iff_eq] at h ⊢
  refine h.imp Eq.symm fun equal => ?_
  rw [← shared]
  exact (lawful (c.descriptor u)).symm (x := ⟨u, rfl⟩) (y := ⟨u', shared.symm⟩) equal

theorem Lawful.same_trans (lawful : c.Lawful) (apart : c.Separates) {u u' u'' : UserdataId}
    (h : c.same u u' = true) (h' : c.same u' u'' = true) : c.same u u'' = true := by
  have shared := apart.descriptor_eq h
  have shared' := apart.descriptor_eq h'
  simp only [same, Bool.or_eq_true, beq_iff_eq] at h h' ⊢
  rcases h with rfl | equal
  · exact h'
  · rcases h' with rfl | equal'
    · exact .inr equal
    · rw [← shared] at equal'
      exact .inr ((lawful (c.descriptor u)).trans (x := ⟨u, rfl⟩) (y := ⟨u', shared.symm⟩)
        (z := ⟨u'', (shared.trans shared').symm⟩) equal equal')

end Comparison

namespace Heap

/-- How the objects of a heap are compared: by their members, followed so deep, or by identity. -/
def comparison (h : Heap) (fuel : Nat) : Comparison Descriptor where
  descriptor u := (h.object u).descriptor
  equals d u u' :=
    if d.comparesById then Value.equalsWith (h.sameObject fuel) (h.identity u) (h.identity u')
    else u == u'

theorem equals_byId (h : Heap) (fuel : Nat) {d : Descriptor} (byId : d.comparesById = true)
    (u u' : UserdataId) : (h.comparison fuel).equals d u u' =
      Value.equalsWith (h.sameObject fuel) (h.identity u) (h.identity u') := if_pos byId

theorem equals_identical (h : Heap) (fuel : Nat) {d : Descriptor} (byId : d.comparesById = false)
    (u u' : UserdataId) : (h.comparison fuel).equals d u u' = (u == u') :=
  if_neg (byId ▸ Bool.false_ne_true)

theorem sameObject_succ (h : Heap) (fuel : Nat) :
    h.sameObject (fuel + 1) = (h.comparison fuel).same := by
  funext u u'
  simp only [sameObject, Comparison.same, comparison]
  cases (h.object u).descriptor.comparesById <;> simp

/-- Equality before metamethods is the comparison by the descriptors of the heap. -/
theorem rawEquals_eq (h : Heap) :
    h.rawEquals = Value.equalsWith (h.comparison (h.userdata.size * h.userdata.size)).same := by
  funext a b
  rw [rawEquals, sameObject_succ]

/-- No object that compares by its member has an equal one as an object that does not. -/
def Uniform (h : Heap) : Prop :=
  ∀ fuel u u', (h.object u).descriptor.comparesById = true →
    Value.equalsWith (h.sameObject fuel) (h.identity u) (h.identity u') = true →
    (h.object u').descriptor.comparesById = true

/-- However deep members are followed, objects of such a heap are compared by an equivalence. -/
theorem Uniform.sameObject {h : Heap} (uniform : h.Uniform) (fuel : Nat) :
    (∀ u u', h.sameObject fuel u u' = true → h.sameObject fuel u' u = true) ∧
    ∀ u u' u'', h.sameObject fuel u u' = true → h.sameObject fuel u' u'' = true →
      h.sameObject fuel u u'' = true := by
  induction fuel with
  | zero =>
    simp only [Heap.sameObject, beq_iff_eq]
    exact ⟨fun _ _ => Eq.symm, fun _ _ _ => Eq.trans⟩
  | succ fuel ih =>
    obtain ⟨symm, trans⟩ := ih
    have symm' (u u' : UserdataId) : h.sameObject fuel u u' = h.sameObject fuel u' u :=
      Bool.eq_iff_iff.2 ⟨symm u u', symm u' u⟩
    simp only [Heap.sameObject, Bool.or_eq_true, Bool.and_eq_true, beq_iff_eq]
    constructor
    · rintro u u' (rfl | ⟨byId, equal⟩)
      · exact .inl rfl
      · exact .inr ⟨uniform fuel u u' byId equal, Value.equalsWith_symm symm' .. ▸ equal⟩
    · rintro u u' u'' (rfl | ⟨byId, equal⟩) (rfl | ⟨byId', equal'⟩)
      · exact .inl rfl
      · exact .inr ⟨byId', equal'⟩
      · exact .inr ⟨byId, equal⟩
      · exact .inr ⟨byId, Value.equalsWith_trans trans _ _ _ equal equal'⟩

/-- Equality is an equivalence on a heap whose sorts of objects do not mix. -/
theorem Uniform.rawEquals {h : Heap} (uniform : h.Uniform) : Value.Equivalent h.rawEquals := by
  obtain ⟨symm, trans⟩ := uniform.sameObject (h.userdata.size * h.userdata.size + 1)
  have refl (u : UserdataId) :
      h.sameObject (h.userdata.size * h.userdata.size + 1) u u = true := by simp [Heap.sameObject]
  exact Value.equivalent_equalsWith refl
    (fun u u' => Bool.eq_iff_iff.2 ⟨symm u u', symm u' u⟩) trans

end Heap

namespace Comparison

/-- **Equality is an equivalence**, but that a not-a-number equals nothing, if every descriptor's
comparison is one on its own objects and relates them to no others. -/
theorem equivalence_of_lawful {Δ : Type} (c : Comparison Δ) (lawful : c.Lawful) (apart : c.Separates) :
    Value.Equivalent (Value.equalsWith c.same) := by
  refine Value.equivalent_equalsWith same_refl (fun u u' => ?_) fun u u' u'' =>
    lawful.same_trans apart
  exact Bool.eq_iff_iff.2 ⟨lawful.same_symm apart, lawful.same_symm apart⟩

end Comparison

namespace Heap

def box : Descriptor := { name := "Box", comparesById := true }

def stone : Descriptor := { name := "Stone" }

/-- The members of an object that has nothing but an identity. -/
def bearing (id : Nat) : Table :=
  { entries := [⟨.string "id", .string "id", .number (.ofNat id)⟩] }

/-- Two boxes with one identity, and a stone. Boxes compare by identity, stones do not. -/
def shelf (id : Nat) : Heap where
  tables := #[.empty, bearing 1, bearing 1, bearing id]
  userdata := #[⟨box, ⟨1⟩, ⟨0⟩, none⟩, ⟨box, ⟨2⟩, ⟨0⟩, none⟩, ⟨stone, ⟨3⟩, ⟨0⟩, none⟩]

theorem shelf_cases (id : Nat) (u : UserdataId) :
    ((shelf id).object u).descriptor = box ∧ (shelf id).identity u = .number (.ofNat 1) ∨
    ((shelf id).object u).descriptor.comparesById = false ∧
      ((shelf id).identity u = .number (.ofNat id) ∨ (shelf id).identity u = .nil) := by
  match u with
  | ⟨0⟩ => exact .inl ⟨rfl, rfl⟩
  | ⟨1⟩ => exact .inl ⟨rfl, rfl⟩
  | ⟨2⟩ => exact .inr ⟨rfl, .inl rfl⟩
  | ⟨n + 3⟩ => exact .inr ⟨rfl, .inr rfl⟩

/-- Boxes all have one identity, and other objects are equal to themselves only. -/
theorem lawful_shelf (id fuel : Nat) : ((shelf id).comparison fuel).Lawful := by
  intro d
  cases byId : d.comparesById with
  | false =>
    have plain (u u' : UserdataId) :
        ((shelf id).comparison fuel).equals d u u' = true ↔ u = u' := by
      rw [equals_identical _ _ byId, beq_iff_eq]
    simp only [plain]
    exact ⟨fun _ => rfl, Eq.symm, Eq.trans⟩
  | true =>
    have one (u : { u // ((shelf id).comparison fuel).descriptor u = d }) :
        (shelf id).identity u = .number (.ofNat 1) := by
      rcases shelf_cases id u with ⟨_, identity⟩ | ⟨other, _⟩
      · exact identity
      · have same : ((shelf id).object u).descriptor = d := u.2
        rw [same, byId] at other
        cases other
    have all (u u' : { u // ((shelf id).comparison fuel).descriptor u = d }) :
        ((shelf id).comparison fuel).equals d u u' = true := by
      rw [equals_byId _ _ byId, one, one]
      exact Number.equals_refl (Key.isNaN_ofRatio ..)
    exact ⟨fun u => all u u, fun _ => all _ _, fun _ _ => all _ _⟩

/-- Equality is an equivalence on a shelf whose stone has another identity than the boxes. -/
theorem equivalence_of_lawful_shelf : ((shelf 2).comparison 9).Lawful ∧
    ((shelf 2).comparison 9).Separates ∧ Value.Equivalent (shelf 2).rawEquals := by
  have apart : ((shelf 2).comparison 9).Separates := by
    intro u u' other
    rcases shelf_cases 2 u with ⟨sort, one⟩ | ⟨plain, _⟩
    · have byId : (((shelf 2).comparison 9).descriptor u).comparesById = true := congrArg _ sort
      rw [equals_byId _ _ byId, one]
      rcases shelf_cases 2 u' with ⟨sort', _⟩ | ⟨_, two | none⟩
      · exact absurd (sort.trans sort'.symm) other
      · rw [two]
        decide +kernel
      · rw [none]
        rfl
    · have identical : (((shelf 2).comparison 9).descriptor u).comparesById = false := plain
      rw [equals_identical _ _ identical, beq_eq_false_iff_ne]
      exact fun equal => other (congrArg _ equal)
  exact ⟨lawful_shelf 2 9, apart, (shelf 2).rawEquals_eq ▸
    Comparison.equivalence_of_lawful _ (lawful_shelf 2 9) apart⟩

/-- The comparisons of a shelf are lawful, but a box whose identity a stone has is equal to it, and
the stone not to the box. -/
theorem box_equals_stone : ((shelf 1).comparison 9).Lawful ∧
    (shelf 1).rawEquals (.userdata ⟨0⟩) (.userdata ⟨2⟩) = true ∧
    (shelf 1).rawEquals (.userdata ⟨2⟩) (.userdata ⟨0⟩) = false :=
  ⟨lawful_shelf 1 9, by decide +kernel, by decide +kernel⟩

end Heap

end ScriptMachine
