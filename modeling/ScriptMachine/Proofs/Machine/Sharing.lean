import Mathlib.Data.List.Forall2
import ScriptMachine.Proofs.Machine.Capturing

/-!
# Sharing variables

How closures come to share a variable with the frame that declares it, and with each other.

* `State.openCell?`: the cell of a captured slot.
* `captureAll_leads`: each symbol that a closure captures has a cell, and a slot has one that it
  keeps.
* `makeClosure_leads`: these are the cells of the closure.
-/

namespace ScriptMachine

variable {ν α β : Type} {L : Locals} {s s' t : State ν} {c : ThreadId} {k : Nat} {f : Frame}
  {rest : List Frame}

/-- The variable that a slot of a thread is, once it is captured. -/
def State.openCell? (s : State ν) (c : ThreadId) (k : Nat) : Option CellId :=
  (s.callsOf c).findSome? fun f => s.findOpenCell f k

theorem State.mem_of_findOpenCell {x : CellId} (h : s.findOpenCell f k = some x) :
    x ∈ f.cells ∧ ∃ o, s.cell x = .opened o k := by
  refine ⟨List.mem_of_find?_eq_some h, ?_⟩
  have slot := List.find?_some h
  cases hx : s.cell x with
  | opened o j =>
    rw [hx] at slot
    simp only [Cell.slot?, beq_iff_eq, Option.some.injEq] at slot
    exact ⟨o, slot ▸ rfl⟩
  | closed v =>
    rw [hx] at slot
    simp [Cell.slot?] at slot

theorem State.findOpenCell_ne_none {x : CellId} {o : ThreadId} (hx : x ∈ f.cells)
    (h : s.cell x = .opened o k) : s.findOpenCell f k ≠ none := by
  intro none
  have closed := List.find?_eq_none.1 none x hx
  simp [h, Cell.slot?] at closed

/-- The cell of a captured slot is the one that is open there. -/
theorem State.Tidy.openCell?_eq_some (tidy : s.Tidy L) {x : CellId} :
    s.openCell? c k = some x ↔ s.cell x = .opened c k := by
  have sound : ∀ {y}, s.openCell? c k = some y → s.cell y = .opened c k := by
    intro y found
    obtain ⟨f, hf, found⟩ := List.exists_of_findSome?_eq_some found
    obtain ⟨member, o, hy⟩ := State.mem_of_findOpenCell found
    obtain rfl := ((tidy.pinned c).lt hf member hy).2.1
    exact hy
  refine ⟨sound, fun hx => ?_⟩
  obtain ⟨f, hf, member⟩ := tidy.listed x c k hx
  cases found : s.openCell? c k with
  | some y => exact congrArg some (tidy.apart y x c k (sound found) hx)
  | none =>
    exact absurd (List.findSome?_eq_none_iff.1 found f hf) (State.findOpenCell_ne_none member hx)

namespace Exec

/-- The work leads to states that are related to the one it starts from, whether it fails or not. -/
structure Leads (R : State ν → State ν → Prop) (s : State ν) (work : Exec ν α)
    (post : α → State ν → Prop) : Prop where
  ok : ∀ a s', work s = .ok a s' → R s s' ∧ post a s'
  error : ∀ e s', work s = .error e s' → R s s'

variable {R : State ν → State ν → Prop} {work : Exec ν α} {post : α → State ν → Prop}

theorem leads_of_ok (a : α) (s' : State ν) (run : work s = .ok a s') (h : R s s') (hp : post a s') :
    Leads R s work post := by
  constructor
  · intro a' t run'
    obtain ⟨rfl, rfl⟩ := EStateM.Result.ok.inj (run.symm.trans run')
    exact ⟨h, hp⟩
  · intro e t run'
    rw [run] at run'
    cases run'

theorem leads_of_error (e : Fault) (s' : State ν) (run : work s = .error e s') (h : R s s') :
    Leads R s work post := by
  constructor
  · intro a t run'
    rw [run] at run'
    cases run'
  · intro e' t run'
    obtain ⟨rfl, rfl⟩ := EStateM.Result.error.inj (run.symm.trans run')
    exact h

theorem leads_bind {next : α → Exec ν β} {post' : β → State ν → Prop} (hx : Leads R s work post)
    (trans : ∀ s' t, R s s' → R s' t → R s t)
    (hf : ∀ a s', work s = .ok a s' → R s s' → post a s' → Leads R s' (next a) post') :
    Leads R s (work >>= next) post' := by
  cases run : work s with
  | error e s' =>
    refine leads_of_error e s' ?_ (hx.error e s' run)
    simp only [bind, EStateM.bind, run]
  | ok a s' =>
    obtain ⟨h, hp⟩ := hx.ok a s' run
    have after := hf a s' run h hp
    have same : (work >>= next) s = next a s' := by simp only [bind, EStateM.bind, run]
    constructor
    · intro b t run'
      obtain ⟨h', hp'⟩ := after.ok b t (same.symm.trans run')
      exact ⟨trans _ _ h h', hp'⟩
    · intro e t run'
      exact trans _ _ h (after.error e t (same.symm.trans run'))

theorem Leads.imp {R' : State ν → State ν → Prop} {post' : α → State ν → Prop}
    (h : Leads R s work post) (imp : ∀ s', R s s' → R' s s')
    (imp' : ∀ a s', R s s' → post a s' → post' a s') : Leads R' s work post' :=
  ⟨fun a s' run => ⟨imp s' (h.ok a s' run).1, imp' a s' (h.ok a s' run).1 (h.ok a s' run).2⟩,
   fun e s' run => imp s' (h.error e s' run)⟩

theorem Leads.congr {work' : Exec ν α} (h : Leads R s work post) (same : work' s = work s) :
    Leads R s work' post :=
  ⟨fun a s' run => h.ok a s' (same.symm.trans run),
   fun e s' run => h.error e s' (same.symm.trans run)⟩

end Exec

/-- Cells are added to the frame `f` that runs on `rest`. Nothing else changes. -/
structure Grows (L : Locals) (f : Frame) (rest : List Frame) (s s' : State ν) : Prop
    extends Carries L [] rest.length s s' where
  kept : ∀ x, x.index < s.cells.size → s'.cell x = s.cell x
  sameStack : ∀ c, s'.stackOf c = s.stackOf c
  world : s'.world = s.world
  same : s'.closures = s.closures
  calls : ∃ g, s'.callsOf s.current = g :: rest ∧ g.outline = f.outline

namespace Grows

theorem trans {g : Frame} (h : Grows L f rest s s') (h' : Grows L g rest s' t)
    (outline : g.outline = f.outline) : Grows L f rest s t where
  toCarries := h.toCarries.trans h'.toCarries
  kept x hx := (h'.kept x (Nat.lt_of_lt_of_le hx h.faithful.size)).trans (h.kept x hx)
  sameStack c := (h'.sameStack c).trans (h.sameStack c)
  world := h'.world.trans h.world
  same := h'.same.trans h.same
  calls := by
    obtain ⟨g', calls, same⟩ := h'.calls
    rw [h.current] at calls
    exact ⟨g', calls, same.trans outline⟩

theorem refl (tidy : s.Tidy L) (calls : s.callsOf s.current = f :: rest) : Grows L f rest s s where
  toCarries := .refl tidy (by rw [calls]; exact Nat.le_succ _)
  kept _ _ := rfl
  sameStack _ := rfl
  world := rfl
  same := rfl
  calls := ⟨f, calls, rfl⟩

end Grows

theorem State.cell_newCell (s : State ν) (b : Cell) (x : CellId) :
    (s.newCell b).2.cell x = if x.index = s.cells.size then b else s.cell x := by
  simp only [State.newCell, State.cell, Array.getElem?_push]
  split <;> simp

/-- A cell that belongs to no frame holds its own value. -/
theorem carries_newCell (tidy : s.Tidy L) (v : Value) :
    Carries L [] (s.callsOf s.current).length s (s.newCell (.closed v)).2 ∧
      ∀ x : CellId, x.index < s.cells.size → (s.newCell (.closed v)).2.cell x = s.cell x := by
  have cell := s.cell_newCell (.closed v)
  have old : ∀ x o k, (s.newCell (.closed v)).2.cell x = .opened o k → s.cell x = .opened o k := by
    intro x o k hx
    rw [cell] at hx
    split at hx
    · cases hx
    · exact hx
  have kept : ∀ x : CellId, x.index < s.cells.size → (s.newCell (.closed v)).2.cell x = s.cell x :=
    fun x hx => (cell x).trans (if_neg (Nat.ne_of_lt hx))
  have size : (s.newCell (.closed v)).2.cells.size = s.cells.size + 1 := by simp [State.newCell]
  have grown : s.cells.size ≤ (s.newCell (.closed v)).2.cells.size := by rw [size]; omega
  refine ⟨⟨rfl, Nat.le_refl _, ⟨grown, fun x _ o k => old x o k, fun x hx => ?_,
    exists_made rfl⟩, ?_, fun _ _ => rfl, Nat.le_refl _, fun _ _ => rfl,
    fun c d k hk => ⟨rfl, fun x hx => ?_⟩⟩, kept⟩
  · change State.readCell _ x = s.readCell x
    simp only [State.readCell, kept x hx]
    rfl
  · refine ⟨fun c => (tidy.pinned c).closed fun _ _ x _ => old x,
      fun x o k hx => tidy.listed x o k (old x o k hx),
      fun x y o k hx hy => tidy.apart x y o k (old x o k hx) (old y o k hy),
      fun c g hg x hx => Nat.lt_of_lt_of_le (tidy.known c g hg x hx) grown,
      fun g hg x hx => Nat.lt_of_lt_of_le (tidy.closures g hg x hx) grown, tidy.covers⟩
  · rw [kept x (State.index_lt_of_opened hx)]
    exact hx

theorem grows_newCell (tidy : s.Tidy L) (calls : s.callsOf s.current = f :: rest) (v : Value) :
    Grows L f rest s (s.newCell (.closed v)).2 := by
  obtain ⟨carries, kept⟩ := carries_newCell tidy v
  exact ⟨carries.mono (by rw [calls]; exact Nat.le_succ _), kept, fun _ => rfl, rfl, rfl, f, calls,
    rfl⟩

/-- The running frame with one cell more, which is the next one to be made. -/
def State.owning (s : State ν) (f : Frame) : Frame :=
  { f with cells := f.cells ++ [⟨s.cells.size⟩] }

/-- A new cell of the running frame is open at a slot. -/
def State.withCell (s : State ν) (f : Frame) (k : Nat) : State ν :=
  (s.newCell (.opened s.current k)).2.modifyFrames fun frames =>
    frames.setIfInBounds (frames.size - 1) (s.owning f)

section WithCell

theorem cell_withCell (f : Frame) (x : CellId) : (s.withCell f k).cell x =
    if x.index = s.cells.size then .opened s.current k else s.cell x := s.cell_newCell _ x

theorem kept_withCell (f : Frame) {x : CellId} (known : x.index < s.cells.size) :
    (s.withCell f k).cell x = s.cell x :=
  (cell_withCell f x).trans (if_neg (Nat.ne_of_lt known))

theorem size_withCell (f : Frame) : (s.withCell f k).cells.size = s.cells.size + 1 := by
  simp [State.withCell, State.newCell, State.modifyFrames, State.modifyProcessor,
    State.modifyProcessorOf]

theorem stackOf_withCell (f : Frame) (c : ThreadId) : (s.withCell f k).stackOf c = s.stackOf c :=
  stackOf_modifyFrames (s := (s.newCell (.opened s.current k)).2) _ c

theorem heightOf_withCell (f : Frame) (c : ThreadId) :
    (s.withCell f k).heightOf c = s.heightOf c := by
  simp only [State.heightOf, stackOf_withCell]

theorem callsOf_withCell (here : s.HasCurrent) (calls : s.callsOf s.current = f :: rest) :
    (s.withCell f k).callsOf s.current = s.owning f :: rest :=
  callsOf_setTopFrame (s := (s.newCell (.opened s.current k)).2) here calls (s.owning f)

theorem callsOf_withCell_ne (f : Frame) {c : ThreadId} (other : c ≠ s.current) :
    (s.withCell f k).callsOf c = s.callsOf c :=
  callsOf_modifyFrames_ne (s := (s.newCell (.opened s.current k)).2) _ other

/-- What is open is the new cell, or was so before. -/
theorem opened_of_withCell {x : CellId} {o : ThreadId} {j : Nat}
    (opened : (s.withCell f k).cell x = .opened o j) :
    x = ⟨s.cells.size⟩ ∧ o = s.current ∧ j = k ∨
      x.index < s.cells.size ∧ s.cell x = .opened o j := by
  by_cases isNew : x.index = s.cells.size
  · rw [cell_withCell, if_pos isNew] at opened
    obtain ⟨rfl, rfl⟩ := Cell.opened.inj opened
    exact .inl ⟨by rw [← isNew], rfl, rfl⟩
  · rw [cell_withCell, if_neg isNew] at opened
    exact .inr ⟨State.index_lt_of_opened opened, opened⟩

variable (tidy : s.Tidy L) (here : s.HasCurrent) (calls : s.callsOf s.current = f :: rest)

include tidy calls in
/-- No other cell is open at a slot of the frame that has none. -/
theorem unique_of_unopened (low : f.base ≤ k) (unopened : s.findOpenCell f k = none)
    (x : CellId) : s.cell x ≠ .opened s.current k := by
  intro opened
  have top := tidy.pinned s.current
  rw [calls] at top
  obtain ⟨h, hh, member⟩ := tidy.listed x _ _ opened
  rw [calls] at hh
  obtain rfl | hh := List.mem_cons.1 hh
  · exact State.findOpenCell_ne_none member opened unopened
  · have below := (top.2.lt hh member opened).2.2.2
    have := f.activation.floor_le_base
    have : f.activation.base = f.base := rfl
    omega

include tidy here calls in
theorem pinned_withCell (script : f.isNative = false) (low : f.base ≤ k)
    (high : k < s.heightOf s.current) : Pinned L (s.withCell f k).cell s.current
      ((s.withCell f k).callsOf s.current) ((s.withCell f k).heightOf s.current) := by
  have top := tidy.pinned s.current
  rw [calls] at top
  have old : ∀ h ∈ rest, ∀ x ∈ h.cells, ∀ o j, (s.withCell f k).cell x = .opened o j →
      s.cell x = .opened o j := fun h hh x hx o j hxo => by
    have known := tidy.known s.current h (calls ▸ List.mem_cons_of_mem _ hh) x hx
    rwa [kept_withCell f known] at hxo
  rw [heightOf_withCell, callsOf_withCell here calls]
  refine ⟨⟨fun x hx o j hxo => ?_, top.1.locals⟩, top.2.closed old⟩
  obtain ⟨-, rfl, rfl⟩ | ⟨known, before⟩ := opened_of_withCell hxo
  · exact ⟨script, rfl, low, high⟩
  · obtain hx | hx := List.mem_append.1 hx
    · exact top.1.cells x hx o j before
    · rw [List.mem_singleton.1 hx] at known
      exact absurd known (Nat.lt_irrefl _)

include tidy here calls in
theorem listed_withCell {x : CellId} {j : Nat}
    (opened : (s.withCell f k).cell x = .opened s.current j) :
    ∃ g ∈ (s.withCell f k).callsOf s.current, x ∈ g.cells := by
  rw [callsOf_withCell here calls]
  obtain ⟨rfl, -, -⟩ | ⟨-, before⟩ := opened_of_withCell opened
  · exact ⟨s.owning f, List.mem_cons_self .., List.mem_append_right _ (List.mem_singleton_self _)⟩
  · obtain ⟨h, hh, member⟩ := tidy.listed x _ j before
    rw [calls] at hh
    obtain rfl | hh := List.mem_cons.1 hh
    · exact ⟨s.owning h, List.mem_cons_self .., List.mem_append_left _ member⟩
    · exact ⟨h, List.mem_cons_of_mem _ hh, member⟩

include tidy calls in
theorem apart_withCell (low : f.base ≤ k) (unopened : s.findOpenCell f k = none) {x y : CellId}
    {j : Nat} (hx : (s.withCell f k).cell x = .opened s.current j)
    (hy : (s.withCell f k).cell y = .opened s.current j) : x = y := by
  have unique := unique_of_unopened tidy calls low unopened
  obtain ⟨rfl, -, rfl⟩ | ⟨-, first⟩ := opened_of_withCell hx
  · obtain ⟨rfl, -, -⟩ | ⟨-, second⟩ := opened_of_withCell hy
    · rfl
    · exact absurd second (unique y)
  · obtain ⟨-, -, rfl⟩ | ⟨-, second⟩ := opened_of_withCell hy
    · exact absurd first (unique x)
    · exact tidy.apart x y _ j first second

include tidy here calls in
theorem known_withCell {g : Frame} (hg : g ∈ (s.withCell f k).callsOf s.current) {x : CellId}
    (hx : x ∈ g.cells) : x.index < (s.withCell f k).cells.size := by
  rw [size_withCell]
  rw [callsOf_withCell here calls] at hg
  have before : ∀ g ∈ f :: rest, ∀ x ∈ g.cells, x.index < s.cells.size :=
    calls ▸ tidy.known s.current
  obtain rfl | hg := List.mem_cons.1 hg
  · obtain hx | hx := List.mem_append.1 hx
    · exact Nat.lt_succ_of_lt (before f (List.mem_cons_self ..) x hx)
    · rw [List.mem_singleton.1 hx]
      exact Nat.lt_succ_self _
  · exact Nat.lt_succ_of_lt (before g (List.mem_cons_of_mem _ hg) x hx)

include tidy here calls in
theorem tidy_withCell (script : f.isNative = false) (low : f.base ≤ k)
    (high : k < s.heightOf s.current) (unopened : s.findOpenCell f k = none) :
    (s.withCell f k).Tidy L := by
  have reseats : s.Reseats s.current (s.withCell f k) :=
    ⟨fun _ => callsOf_withCell_ne f, fun c _ => heightOf_withCell f c,
      (size_withCell (k := k) f).symm ▸ Nat.le_succ _, rfl, fun x o j hx => ?_⟩
  · refine tidy.reseats reseats (pinned_withCell tidy here calls script low high)
      (fun x j => listed_withCell tidy here calls)
      (fun x y j => apart_withCell tidy calls low unopened)
      (fun g hg x => known_withCell tidy here calls hg) fun d j hj => ?_
    have deep := (tidy.covers s.current d j hj).2
    rw [calls] at deep
    rwa [callsOf_withCell here calls]
  · obtain ⟨rfl, rfl, -⟩ | ⟨-, before⟩ := opened_of_withCell hx
    · exact .inr ⟨rfl, Nat.le_refl _⟩
    · exact .inl before

include tidy here calls in
/-- A slot of the running frame that has no cell gets one. -/
theorem grows_addCell (script : f.isNative = false) (low : f.base ≤ k)
    (high : k < s.heightOf s.current) (unopened : s.findOpenCell f k = none) :
    Grows L f rest s (s.withCell f k) ∧
      (s.withCell f k).cell ⟨s.cells.size⟩ = .opened s.current k := by
  have own := callsOf_withCell (k := k) here calls
  have faithful : Faithful [] s (s.withCell f k) := ⟨(size_withCell (k := k) f).symm ▸ Nat.le_succ _,
    fun x known o j hx => (kept_withCell f known).symm.trans hx, fun x known => ?_,
    exists_made rfl⟩
  · refine ⟨⟨⟨rfl, ?_, faithful, tidy_withCell tidy here calls script low high unopened,
      fun m hm => ?_, by rw [own]; exact Nat.le_succ _, fun _ => callsOf_withCell_ne f,
      fun c _ j _ => ⟨congrArg (·.values[j]?) (stackOf_withCell f c), fun x hx => ?_⟩⟩,
      fun _ => kept_withCell f, stackOf_withCell f, rfl, rfl, s.owning f, own, rfl⟩,
      (cell_withCell f _).trans (if_pos rfl)⟩
    · simp [State.withCell, State.newCell, State.modifyFrames, State.modifyProcessor,
        State.modifyProcessorOf]
    · rw [own, calls, bottom_cons hm, bottom_cons hm]
    · exact (kept_withCell f (State.index_lt_of_opened hx)).trans hx
  · change (s.withCell f k).readCell x = s.readCell x
    simp only [State.readCell, kept_withCell f known, funext (stackOf_withCell f)]

end WithCell

/-- The cell that a closure captures for a symbol: that of a slot, if it has one, or else a new
one. -/
def State.Captures (s : State ν) (scope : Scope) (x : CellId) (s' : State ν) : Symbol → Prop
  | .slot index _ => s'.cell x = .opened s.current (scope.base + index) ∧
      (s.cell x = .opened s.current (scope.base + index) ∨ s.cells.size ≤ x.index)
  | .upvalue index _ => s.upvalueCell scope.closure index = .ok x
  | .defaultEnv => s.cells.size ≤ x.index ∧ s'.cell x = .closed (.table s.world.globals)
  | .global _ _ => False

def State.Offers (s : State ν) (scope : Scope) : Symbol → Prop
  | .slot _ _ | .defaultEnv => True
  | .upvalue index _ => ∃ x, s.upvalueCell scope.closure index = .ok x
  | .global _ _ => False

theorem Grows.offers {scope : Scope} {sym : Symbol} (h : Grows L f rest s s')
    (offers : s.Offers scope sym) : s'.Offers scope sym := by
  cases sym with
  | upvalue index name =>
    simpa only [State.Offers, State.upvalueCell, State.closure, h.same] using offers
  | slot | defaultEnv | global => exact offers

/-- More cells are added before. -/
theorem Grows.captures {scope : Scope} {x : CellId} {sym : Symbol} (h : Grows L f rest s s')
    (captures : s'.Captures scope x t sym) : s.Captures scope x t sym := by
  cases sym with
  | slot index name =>
    obtain ⟨after, before⟩ := captures
    rw [h.current] at after before
    refine ⟨after, ?_⟩
    by_cases old : x.index < s.cells.size
    · refine before.imp (fun hx => (h.kept x old).symm.trans hx) fun new => ?_
      exact absurd (Nat.le_trans h.faithful.size new) (Nat.not_le_of_lt old)
    · exact .inr (Nat.le_of_not_lt old)
  | upvalue index name =>
    simpa only [State.Captures, State.upvalueCell, State.closure, h.same] using captures
  | defaultEnv =>
    rw [State.Captures, h.world] at captures
    exact ⟨Nat.le_trans h.faithful.size captures.1, captures.2⟩
  | global name env => exact captures

/-- More cells are added afterwards. -/
theorem Grows.captured {scope : Scope} {x : CellId} {sym : Symbol} (h : Grows L f rest s' t)
    (captures : s.Captures scope x s' sym) (known : x.index < s'.cells.size) :
    s.Captures scope x t sym := by
  cases sym with
  | slot index name => exact ⟨(h.kept x known).trans captures.1, captures.2⟩
  | upvalue index name => exact captures
  | defaultEnv => exact ⟨captures.1, (h.kept x known).trans captures.2⟩
  | global name env => exact captures

namespace Exec

theorem captureSlot_leads (tidy : s.Tidy L) (here : s.HasCurrent)
    (calls : s.callsOf s.current = f :: rest) (script : f.isNative = false) (low : f.base ≤ k)
    (high : k < s.heightOf s.current) :
    Leads (Grows L f rest) s (captureSlot k) fun x s' =>
      s'.cell x = .opened s.current k ∧
        (s.cell x = .opened s.current k ∨ s.cells.size ≤ x.index) := by
  have top := State.back?_of_calls calls
  cases found : s.findOpenCell f k with
  | some x =>
    obtain ⟨member, o, hx⟩ := State.mem_of_findOpenCell found
    have pinned := tidy.pinned s.current
    obtain ⟨-, rfl, -⟩ := pinned.lt (calls ▸ List.mem_cons_self ..) member hx
    refine leads_of_ok x s ?_ (.refl tidy calls) ⟨hx, .inl hx⟩
    simp only [captureSlot, topFrame?, bind, EStateM.bind, get, getThe, MonadStateOf.get,
      EStateM.get, pure, EStateM.pure, top, found]
  | none =>
    obtain ⟨grows, new⟩ := grows_addCell tidy here calls script low high found
    refine leads_of_ok (⟨s.cells.size⟩) _ ?_ grows ⟨new, .inr (Nat.le_refl _)⟩
    simp only [captureSlot, topFrame?, bind, EStateM.bind, get, getThe, MonadStateOf.get,
      EStateM.get, pure, EStateM.pure, top, found]
    rfl

def InStack (scope : Scope) (s : State ν) (syms : List Symbol) : Prop :=
  ∀ index name, .slot index name ∈ syms → scope.base + index < s.heightOf s.current

theorem upvalueCell_known {g : ClosureId} {index : Nat} {x : CellId} (tidy : s.Tidy L)
    (h : s.upvalueCell g index = .ok x) : x.index < s.cells.size := by
  unfold State.upvalueCell at h
  split at h
  · rename_i y hy
    cases h
    unfold State.closure at hy
    cases hg : s.closures[g.index]? with
    | none =>
      have empty : (default : Closure).cells = #[] := rfl
      rw [hg, Option.getD_none, empty] at hy
      simp at hy
    | some g' =>
      rw [hg] at hy
      exact tidy.closures g' (Array.mem_of_getElem? hg) x (Array.mem_of_getElem? hy)
  · cases h

theorem captureSymbol_leads (tidy : s.Tidy L) (here : s.HasCurrent)
    (calls : s.callsOf s.current = f :: rest) (script : f.isNative = false) {scope : Scope}
    (base : scope.base = f.base) (sym : Symbol) (inStack : InStack scope s [sym]) :
    Leads (Grows L f rest) s (captureSymbol scope sym) fun x s' =>
      s.Captures scope x s' sym ∧ x.index < s'.cells.size := by
  cases sym with
  | slot index name =>
    have high := inStack index name (List.mem_singleton.2 rfl)
    refine (captureSlot_leads tidy here calls script (by omega) high).imp (fun _ => id) ?_
    rintro x s' - ⟨after, before⟩
    exact ⟨⟨after, before⟩, State.index_lt_of_opened after⟩
  | upvalue index name =>
    cases found : s.upvalueCell scope.closure index with
    | ok x =>
      refine leads_of_ok x s ?_ (.refl tidy calls)
        ⟨found, upvalueCell_known tidy found⟩
      simp only [captureSymbol, bind, EStateM.bind, get, getThe, MonadStateOf.get, EStateM.get,
        found]
      rfl
    | error e =>
      refine leads_of_error e s ?_ (.refl tidy calls)
      simp only [captureSymbol, bind, EStateM.bind, get, getThe, MonadStateOf.get, EStateM.get,
        found]
      rfl
  | defaultEnv =>
    refine leads_of_ok (⟨s.cells.size⟩) _ rfl (grows_newCell tidy calls _)
      ⟨⟨Nat.le_refl _, ?_⟩, by simp⟩
    exact (s.cell_newCell _ _).trans (if_pos rfl)
  | global name env => exact leads_of_error _ _ rfl (.refl tidy calls)

/-- Each symbol gets its cell. -/
theorem captureAll_leads (tidy : s.Tidy L) (here : s.HasCurrent)
    (calls : s.callsOf s.current = f :: rest) (script : f.isNative = false) {scope : Scope}
    (base : scope.base = f.base) (syms : List Symbol) (inStack : InStack scope s syms) :
    Leads (Grows L f rest) s (captureAll scope syms) fun xs s' =>
      List.Forall₂ (fun sym x => s.Captures scope x s' sym) syms xs ∧
        ∀ x ∈ xs, x.index < s'.cells.size := by
  induction syms generalizing s f with
  | nil => exact leads_of_ok _ _ rfl (.refl tidy calls) ⟨.nil, nofun⟩
  | cons sym syms ih =>
    have first := captureSymbol_leads tidy here calls script base sym fun index name h =>
      inStack index name (by simp_all)
    cases run : captureSymbol scope sym s with
    | error e s' =>
      refine leads_of_error e s' ?_ (first.error e s' run)
      simp only [captureAll, bind, EStateM.bind, run]
    | ok x s' =>
      obtain ⟨grows, captures, known⟩ := first.ok x s' run
      obtain ⟨g, calls', outline⟩ := grows.calls
      rw [← grows.current] at calls'
      have others := ih grows.tidy (grows.toCarries.hasCurrent here) calls'
        ((congrArg Frame.isNative outline).trans script)
        (base.trans (congrArg Frame.base outline).symm)
        fun index name h => by
          have := inStack index name (List.mem_cons_of_mem _ h)
          rwa [grows.current, State.heightOf, grows.sameStack]
      cases run' : captureAll scope syms s' with
      | error e t =>
        refine leads_of_error e t ?_ (grows.trans (others.error e t run') outline)
        simp only [captureAll, bind, EStateM.bind, run, run']
      | ok xs t =>
        obtain ⟨grows', all, others⟩ := others.ok xs t run'
        refine leads_of_ok (x :: xs) t ?_ (grows.trans grows' outline)
          ⟨.cons (grows'.captured captures known) (all.imp fun sym x => grows.captures), ?_⟩
        · simp only [captureAll, bind, EStateM.bind, run, run']
          rfl
        · intro y hy
          obtain rfl | hy := List.mem_cons.1 hy
          · exact Nat.lt_of_lt_of_le known grows'.faithful.size
          · exact others y hy

end Exec

theorem State.Captures.congr {scope : Scope} {x : CellId} {sym : Symbol}
    (h : s.Captures scope x s' sym) (cell : t.cell x = s'.cell x) : s.Captures scope x t sym := by
  cases sym with
  | slot index name => exact ⟨cell.trans h.1, h.2⟩
  | upvalue index name => exact h
  | defaultEnv => exact ⟨h.1, cell.trans h.2⟩
  | global name env => exact h

/-- A closure is made whose cells are known. -/
theorem carries_newClosure (tidy : s.Tidy L) (g : Closure)
    (known : ∀ x ∈ g.cells, x.index < s.cells.size) :
    Carries L [] (s.callsOf s.current).length s (s.newClosure g).2 := by
  refine ⟨rfl, Nat.le_refl _, faithful_of_slots rfl ⟨#[g], rfl⟩ fun _ _ _ _ => rfl,
    ⟨tidy.pinned, tidy.listed, tidy.apart, tidy.known, ?_, tidy.covers⟩,
    fun _ _ => rfl, Nat.le_refl _, fun _ _ => rfl, fun _ _ _ _ => ⟨rfl, fun _ hx => hx⟩⟩
  intro h hh x hx
  obtain hh | rfl := Array.mem_push.1 hh
  · exact tidy.closures h hh x hx
  · exact known x hx

theorem State.peek?_pushAll_singleton (here : s.HasCurrent) (v : Value) :
    (s.modifyStack (·.pushAll [v])).processor.stack.peek? 0 = some v := by
  have stack : (s.modifyStack (·.pushAll [v])).processor.stack = s.processor.stack.pushAll [v] :=
    congrArg Processor.stack (State.processor_modifyProcessor here _)
  rw [stack]
  simp [ValueStack.peek?, ValueStack.pushAll, ValueStack.size]

namespace Exec

/-- A closure has a cell for each symbol that it captures. -/
theorem makeClosure_leads (tidy : s.Tidy L) (here : s.HasCurrent)
    (calls : s.callsOf s.current = f :: rest) (script : f.isNative = false) {scope : Scope}
    (base : scope.base = f.base) {index : Nat}
    (inStack : ∀ child, (s.closure scope.closure).proto.protos[index]? = some child →
      InStack scope s child.upvalues) :
    Leads (Carries L [] rest.length) s (makeClosure scope index) fun _ t =>
      ∃ child xs, (s.closure scope.closure).proto.protos[index]? = some child ∧
        t.processor.stack.peek? 0 = some (.function ⟨s.closures.size⟩) ∧
        t.closure ⟨s.closures.size⟩ = ⟨child, xs.toArray⟩ ∧
        List.Forall₂ (fun sym x => s.Captures scope x t sym) child.upvalues xs := by
  cases found : (s.closure scope.closure).proto.protos[index]? with
  | none =>
    refine leads_of_error (.defect (.functionOutOfRange index)) s ?_
      (Grows.refl tidy calls).toCarries
    simp only [makeClosure, bind, EStateM.bind, get, getThe, MonadStateOf.get, EStateM.get, found]
    rfl
  | some child =>
    have captured := captureAll_leads tidy here calls script base child.upvalues (inStack _ found)
    cases run : captureAll scope child.upvalues s with
    | error e s₁ =>
      refine leads_of_error e s₁ ?_ (captured.error e s₁ run).toCarries
      simp only [makeClosure, bind, EStateM.bind, get, getThe, MonadStateOf.get, EStateM.get, found,
        run]
    | ok xs s₁ =>
      obtain ⟨grows, all, known⟩ := captured.ok xs s₁ run
      obtain ⟨g, calls₁, -⟩ := grows.calls
      rw [← grows.current] at calls₁
      have closed := carries_newClosure grows.tidy ⟨child, xs.toArray⟩ fun x hx =>
        known x (List.mem_toArray.1 hx)
      have here₁ := grows.toCarries.hasCurrent here
      generalize hs₂ : (s₁.newClosure ⟨child, xs.toArray⟩).2 = s₂ at closed
      have calls₂ : s₂.callsOf s₂.current = g :: rest := by
        subst hs₂
        exact calls₁
      have here₂ : s₂.HasCurrent := closed.hasCurrent here₁
      obtain ⟨pushed, -⟩ := carries_pushAll closed.tidy here₂ [.function ⟨s.closures.size⟩]
      have length : ∀ {u : State ν}, u.callsOf u.current = g :: rest →
          (u.callsOf u.current).length = rest.length + 1 := fun h => congrArg List.length h
      rw [length calls₁] at closed
      rw [length calls₂] at pushed
      have all' := (closed.trans pushed).mono (Nat.le_succ rest.length)
      refine leads_of_ok ⟨⟩ _ ?_ (grows.toCarries.trans all') ⟨child, xs, rfl, ?_, ?_, ?_⟩
      · simp only [makeClosure, bind, EStateM.bind, get, getThe, MonadStateOf.get, EStateM.get,
          found, run]
        rw [← hs₂, ← grows.same]
        rfl
      · rw [State.peek?_pushAll_singleton here₂]
      · have closures : (s₂.modifyStack (·.pushAll [.function ⟨s.closures.size⟩])).closures =
            s.closures.push ⟨child, xs.toArray⟩ := by
          rw [← hs₂, ← grows.same]
          rfl
        simp [State.closure, closures]
      · refine all.imp fun sym x h => h.congr ?_
        rw [← hs₂]
        rfl

theorem captureSymbol_ok (calls : s.callsOf s.current = f :: rest) {scope : Scope} {sym : Symbol}
    (offers : s.Offers scope sym) : ∃ x t, captureSymbol scope sym s = .ok x t := by
  cases sym with
  | defaultEnv => exact ⟨_, _, rfl⟩
  | global name env => exact offers.elim
  | upvalue index name =>
    obtain ⟨x, found⟩ := offers
    refine ⟨x, s, ?_⟩
    simp only [captureSymbol, bind, EStateM.bind, get, getThe, MonadStateOf.get, EStateM.get, found]
    rfl
  | slot index name =>
    have top := State.back?_of_calls calls
    simp only [captureSymbol, captureSlot, topFrame?, bind, EStateM.bind, get, getThe,
      MonadStateOf.get, EStateM.get, pure, EStateM.pure, top]
    cases s.findOpenCell f (scope.base + index) <;> exact ⟨_, _, rfl⟩

/-- Each symbol that is offered is captured. -/
theorem captureAll_ok (tidy : s.Tidy L) (here : s.HasCurrent)
    (calls : s.callsOf s.current = f :: rest) (script : f.isNative = false) {scope : Scope}
    (base : scope.base = f.base) (syms : List Symbol) (inStack : InStack scope s syms)
    (offers : ∀ sym ∈ syms, s.Offers scope sym) :
    ∃ xs t, captureAll scope syms s = .ok xs t := by
  induction syms generalizing s f with
  | nil => exact ⟨_, _, rfl⟩
  | cons sym syms ih =>
    obtain ⟨x, s', run⟩ := captureSymbol_ok calls (offers sym (List.mem_cons_self ..))
    have first := captureSymbol_leads tidy here calls script base sym fun index name h =>
      inStack index name (by simp_all)
    obtain ⟨grows, -⟩ := first.ok x s' run
    obtain ⟨g, calls', outline⟩ := grows.calls
    rw [← grows.current] at calls'
    obtain ⟨xs, t, run'⟩ := ih grows.tidy (grows.toCarries.hasCurrent here) calls'
      ((congrArg Frame.isNative outline).trans script)
      (base.trans (congrArg Frame.base outline).symm)
      (fun index name h => by
        have := inStack index name (List.mem_cons_of_mem _ h)
        rwa [grows.current, State.heightOf, grows.sameStack])
      fun sym h => grows.offers (offers sym (List.mem_cons_of_mem _ h))
    refine ⟨x :: xs, t, ?_⟩
    simp only [captureAll, bind, EStateM.bind, run, run']
    rfl

/-- A closure is made of what is offered. -/
theorem makeClosure_ok (tidy : s.Tidy L) (here : s.HasCurrent)
    (calls : s.callsOf s.current = f :: rest) (script : f.isNative = false) {scope : Scope}
    (base : scope.base = f.base) {index : Nat} {child : Proto}
    (found : (s.closure scope.closure).proto.protos[index]? = some child)
    (inStack : InStack scope s child.upvalues)
    (offers : ∀ sym ∈ child.upvalues, s.Offers scope sym) :
    ∃ t, makeClosure scope index s = .ok ⟨⟩ t := by
  obtain ⟨xs, t, run⟩ := captureAll_ok tidy here calls script base child.upvalues inStack offers
  refine ⟨(t.newClosure ⟨child, xs.toArray⟩).2.modifyStack
    (·.pushAll [(t.newClosure ⟨child, xs.toArray⟩).1]), ?_⟩
  simp only [makeClosure, bind, EStateM.bind, get, getThe, MonadStateOf.get, EStateM.get, found,
    run]
  rfl

end Exec

end ScriptMachine
