import ScriptMachine.Proofs.Machine.Pacing

/-!
# Slots that frames own

A captured variable is a slot of a stack for as long as its cell is open, and a local variable is
one for as long as its frame is there. Frames see to it that these slots stay where they are.

* `Pinned`: the captured slots of frames, and local slots that are followed, lie below a height, and
  those of each frame below the floor of the next.
* `State.Tidy`: the open cells of a state belong to frames that pin their slots, one to a slot.
* `Faithful`: variables have the values that they had, apart from writes.
* `Remains`: a slot has the value that it had, apart from writes, and stays the same variable.
* `Carries`: a change of the running thread that is faithful and tidy.
* `Kont.Clears`: the heights down to which those who wait cut the stack are above pinned slots.
-/

namespace ScriptMachine

variable {ν : Type}

/-- The frames of a thread with their cells, the innermost first. -/
def State.callsOf (s : State ν) (c : ThreadId) : List Frame :=
  (s.processorOf c).frames.toList.reverse

/-- Local slots that are followed: on a thread, of the frame at a depth. -/
abbrev Locals := ThreadId → Nat → Nat → Prop

/-- A frame at a depth of a thread has its captured slots, and those that are followed, between its
base and a height. -/
structure Frame.Pins (L : Locals) (cell : CellId → Cell) (c : ThreadId) (d n : Nat) (f : Frame) :
    Prop where
  cells : ∀ x ∈ f.cells, ∀ o k, cell x = .opened o k →
    f.isNative = false ∧ o = c ∧ f.base ≤ k ∧ k < n
  locals : ∀ k, L c d k → f.isNative = false ∧ f.base ≤ k ∧ k < n

/-- Frames, the innermost first, pin their slots below a height, and each of them below the floor of
the frame above. -/
def Pinned (L : Locals) (cell : CellId → Cell) (c : ThreadId) : List Frame → Nat → Prop
  | [], _ => True
  | f :: rest, n =>
    f.Pins L cell c (rest.length + 1) n ∧ Pinned L cell c rest (min n f.activation.floor)

namespace Pinned

variable {L L' : Locals} {cell cell' : CellId → Cell} {c : ThreadId} {fs us : List Frame}
  {f : Frame} {n m d : Nat}

theorem mono (h : Pinned L cell c fs n) (hn : n ≤ m) : Pinned L cell c fs m := by
  induction fs generalizing n m with
  | nil => trivial
  | cons f rest ih =>
    obtain ⟨⟨cells, locals⟩, below⟩ := h
    refine ⟨⟨fun x hx o k hk => ?_, fun k hk => ?_⟩, ih below (by omega)⟩
    · obtain ⟨script, own, low, high⟩ := cells x hx o k hk
      exact ⟨script, own, low, Nat.lt_of_lt_of_le high hn⟩
    · obtain ⟨script, low, high⟩ := locals k hk
      exact ⟨script, low, Nat.lt_of_lt_of_le high hn⟩

theorem inter (h : Pinned L cell c fs n) (h' : Pinned L cell c fs m) :
    Pinned L cell c fs (min n m) := by
  induction fs generalizing n m with
  | nil => trivial
  | cons f rest ih =>
    refine ⟨⟨fun x hx o k hk => ?_, fun k hk => ?_⟩, (ih h.2 h'.2).mono (by omega)⟩
    · obtain ⟨script, own, low, high⟩ := h.1.cells x hx o k hk
      exact ⟨script, own, low, Nat.lt_min.2 ⟨high, (h'.1.cells x hx o k hk).2.2.2⟩⟩
    · obtain ⟨script, low, high⟩ := h.1.locals k hk
      exact ⟨script, low, Nat.lt_min.2 ⟨high, (h'.1.locals k hk).2.2⟩⟩

/-- Cells of these frames may be closed, and other slots followed at other depths. -/
theorem congr (h : Pinned L cell c fs n)
    (closed : ∀ f ∈ fs, ∀ x ∈ f.cells, ∀ o k, cell' x = .opened o k → cell x = .opened o k)
    (followed : ∀ d ≤ fs.length, ∀ k, L' c d k → L c d k) : Pinned L' cell' c fs n := by
  induction fs generalizing n with
  | nil => trivial
  | cons f rest ih =>
    refine ⟨⟨fun x hx o k hk => ?_, fun k hk => ?_⟩, ih h.2 ?_ fun d hd => followed d (by grind)⟩
    · exact h.1.cells x hx o k (closed f (List.mem_cons_self ..) x hx o k hk)
    · exact h.1.locals k (followed _ (Nat.le_refl _) k hk)
    · exact fun g hg => closed g (List.mem_cons_of_mem _ hg)

/-- Cells of these frames may be closed. -/
theorem closed (h : Pinned L cell c fs n)
    (closed : ∀ f ∈ fs, ∀ x ∈ f.cells, ∀ o k, cell' x = .opened o k → cell x = .opened o k) :
    Pinned L cell' c fs n := h.congr closed fun _ _ _ => id

theorem tail (h : Pinned L cell c (f :: fs) n) : Pinned L cell c fs n :=
  h.2.mono (Nat.min_le_left ..)

theorem suffix (h : Pinned L cell c (us ++ fs) n) : Pinned L cell c fs n := by
  induction us with
  | nil => exact h
  | cons u us ih => exact ih h.tail

theorem bottom (h : Pinned L cell c fs n) (m : Nat) : Pinned L cell c (bottom m fs) n := by
  rw [← List.take_append_drop (fs.length - m) fs] at h
  exact h.suffix

/-- A frame that owns nothing pins nothing. -/
theorem push (h : Pinned L cell c fs (min n f.activation.floor)) (empty : f.cells = [])
    (fresh : ∀ k, ¬ L c (fs.length + 1) k) : Pinned L cell c (f :: fs) n := by
  refine ⟨⟨fun x hx => ?_, fun k hk => absurd hk (fresh k)⟩, h⟩
  rw [empty] at hx
  cases hx

theorem lt (h : Pinned L cell c fs n) (hf : f ∈ fs) {x : CellId} (hx : x ∈ f.cells) {o : ThreadId}
    {k : Nat} (hk : cell x = .opened o k) : f.isNative = false ∧ o = c ∧ f.base ≤ k ∧ k < n := by
  induction fs generalizing n with
  | nil => cases hf
  | cons g rest ih =>
    obtain rfl | hf := List.mem_cons.1 hf
    · exact h.1.cells x hx o k hk
    · obtain ⟨script, own, low, high⟩ := ih h.2 hf
      exact ⟨script, own, low, Nat.lt_of_lt_of_le high (Nat.min_le_left ..)⟩

/-- A slot that is followed lies below the height, as long as its frame is there. -/
theorem lt_of_followed (h : Pinned L cell c fs n) {k : Nat} (hk : L c d k) (pos : 0 < d)
    (deep : d ≤ fs.length) : k < n := by
  induction fs generalizing n with
  | nil => exact absurd pos (Nat.not_lt_of_le deep)
  | cons g rest ih =>
    obtain rfl | lower := Nat.eq_or_lt_of_le deep
    · exact (h.1.locals k hk).2.2
    · exact Nat.lt_of_lt_of_le (ih h.2 (Nat.le_of_lt_succ lower)) (Nat.min_le_left ..)

end Pinned

/-- A value for a variable: in a cell, in a slot of a stack, or in both when the cell is open
there. -/
structure Write where
  cell : Option CellId
  slot : Option (ThreadId × Nat)
  value : Value

/-- What a captured variable holds after writes, the last of which counts. -/
def written (ws : List Write) (x : CellId) (old : Value) : Value :=
  ws.foldl (fun v w => if w.cell = some x then w.value else v) old

def overwritten (ws : List Write) (c : ThreadId) (k : Nat) (old : Option Value) : Option Value :=
  ws.foldl (fun v w => if w.slot = some (c, k) then some w.value else v) old

/-- Captured variables have the values that they had, apart from writes. None is opened again, and
closures stay as they were made. -/
structure Faithful (ws : List Write) (s s' : State ν) : Prop where
  size : s.cells.size ≤ s'.cells.size
  opened : ∀ x, x.index < s.cells.size → ∀ o k, s'.cell x = .opened o k → s.cell x = .opened o k
  value : ∀ x, x.index < s.cells.size → s'.readCell x = written ws x (s.readCell x)
  closures : ∃ made, s'.closures = s.closures ++ made

/-- A slot has the value that it had, apart from writes, and the cell that it had. -/
structure Remains (ws : List Write) (c : ThreadId) (k : Nat) (s s' : State ν) : Prop where
  value : s'.slot c k = overwritten ws c k (s.slot c k)
  opened : ∀ x, s.cell x = .opened c k → s'.cell x = .opened c k

/-- The open cells belong to frames that pin their slots, and no two to the same slot. The slots
that are followed belong to frames that are there. -/
structure State.Tidy (L : Locals) (s : State ν) : Prop where
  pinned : ∀ c, Pinned L s.cell c (s.callsOf c) (s.heightOf c)
  listed : ∀ x o k, s.cell x = .opened o k → ∃ f ∈ s.callsOf o, x ∈ f.cells
  apart : ∀ x y o k, s.cell x = .opened o k → s.cell y = .opened o k → x = y
  known : ∀ c, ∀ f ∈ s.callsOf c, ∀ x ∈ f.cells, x.index < s.cells.size
  closures : ∀ g ∈ s.closures, ∀ x ∈ g.cells, x.index < s.cells.size
  covers : ∀ c d k, L c d k → 0 < d ∧ d ≤ (s.callsOf c).length

variable {L : Locals} {s s' s'' : State ν} {ws ws' : List Write} {x : CellId} {o c : ThreadId}
  {k n m b d : Nat}

theorem State.index_lt_of_opened (h : s.cell x = .opened o k) : x.index < s.cells.size := by
  by_contra out
  simp [State.cell, out] at h

theorem State.readCell_opened (h : s.cell x = .opened o k) :
    s.readCell x = (s.slot o k).getD .nil := by
  simp only [State.readCell, h, Cell.read, ValueStack.get, State.slot]

theorem State.readCell_closed {v : Value} (h : s.cell x = .closed v) : s.readCell x = v := by
  simp only [State.readCell, h, Cell.read]

theorem written_singleton (w : Write) (x : CellId) (old : Value) :
    written [w] x old = if w.cell = some x then w.value else old := rfl

theorem overwritten_singleton (w : Write) (c : ThreadId) (k : Nat) (old : Option Value) :
    overwritten [w] c k old = if w.slot = some (c, k) then some w.value else old := rfl

theorem written_append (ws ws' : List Write) (x : CellId) (old : Value) :
    written (ws ++ ws') x old = written ws' x (written ws x old) := List.foldl_append

theorem overwritten_append (ws ws' : List Write) (c : ThreadId) (k : Nat) (old : Option Value) :
    overwritten (ws ++ ws') c k old = overwritten ws' c k (overwritten ws c k old) :=
  List.foldl_append

namespace Faithful

theorem refl (s : State ν) : Faithful [] s s :=
  ⟨Nat.le_refl _, fun _ _ _ _ h => h, fun _ _ => rfl, #[], Array.append_empty.symm⟩

theorem trans (h : Faithful ws s s') (h' : Faithful ws' s' s'') : Faithful (ws ++ ws') s s'' where
  size := Nat.le_trans h.size h'.size
  opened x hx o k hk :=
    h.opened x hx o k (h'.opened x (Nat.lt_of_lt_of_le hx h.size) o k hk)
  value x hx := by
    rw [h'.value x (Nat.lt_of_lt_of_le hx h.size), h.value x hx, written_append]
  closures := by
    obtain ⟨made, first⟩ := h.closures
    obtain ⟨made', later⟩ := h'.closures
    exact ⟨made ++ made', by rw [later, first, Array.append_assoc]⟩

/-- A closure keeps its code and its cells. -/
theorem closure (h : Faithful ws s s') {g : ClosureId} (known : g.index < s.closures.size) :
    s'.closure g = s.closure g := by
  obtain ⟨made, grown⟩ := h.closures
  simp only [State.closure, grown, Array.getElem?_append_left known]

end Faithful

namespace Remains

theorem refl (s : State ν) : Remains [] c k s s := ⟨rfl, fun _ h => h⟩

theorem trans (h : Remains ws c k s s') (h' : Remains ws' c k s' s'') :
    Remains (ws ++ ws') c k s s'' where
  value := by rw [h'.value, h.value, overwritten_append]
  opened x hx := h'.opened x (h.opened x hx)

end Remains

/-- The frames of a thread change, and cells are closed, or made for them. What the frames of other
threads own stays as it was. -/
structure State.Reseats (s : State ν) (c : ThreadId) (t : State ν) : Prop where
  frames : ∀ o, o ≠ c → t.callsOf o = s.callsOf o
  heights : ∀ o, o ≠ c → t.heightOf o = s.heightOf o
  size : s.cells.size ≤ t.cells.size
  closures : t.closures = s.closures
  opened : ∀ x o k, t.cell x = .opened o k →
    s.cell x = .opened o k ∨ o = c ∧ s.cells.size ≤ x.index

namespace State.Tidy

theorem slot_lt (tidy : s.Tidy L) (h : s.cell x = .opened o k) : k < s.heightOf o := by
  obtain ⟨f, hf, hx⟩ := tidy.listed x o k h
  exact ((tidy.pinned o).lt hf hx h).2.2.2

/-- A frame further down has its captured slots below the floor of the frame on top. -/
theorem lt_floor (tidy : s.Tidy L) {f : Frame} {rest : List Frame}
    (calls : s.callsOf o = f :: rest) (h : s.cell x = .opened o k) (hx : x ∉ f.cells) :
    k < f.activation.floor := by
  obtain ⟨g, hg, hx'⟩ := tidy.listed x o k h
  have pinned := tidy.pinned o
  rw [calls] at hg pinned
  obtain rfl | hg := List.mem_cons.1 hg
  · exact absurd hx' hx
  · exact Nat.lt_of_lt_of_le (pinned.2.lt hg hx' h).2.2.2 (Nat.min_le_right ..)

/-- A slot that is followed is in the stack. -/
theorem lt_of_followed (tidy : s.Tidy L) (hk : L c d k) : k < s.heightOf c := by
  obtain ⟨pos, deep⟩ := tidy.covers c d k hk
  exact (tidy.pinned c).lt_of_followed hk pos deep

theorem reseats (tidy : s.Tidy L) {t : State ν} (h : s.Reseats c t)
    (pinned : Pinned L t.cell c (t.callsOf c) (t.heightOf c))
    (listed : ∀ x k, t.cell x = .opened c k → ∃ f ∈ t.callsOf c, x ∈ f.cells)
    (apart : ∀ x y k, t.cell x = .opened c k → t.cell y = .opened c k → x = y)
    (known : ∀ f ∈ t.callsOf c, ∀ x ∈ f.cells, x.index < t.cells.size)
    (covers : ∀ d k, L c d k → d ≤ (t.callsOf c).length) : t.Tidy L := by
  have before : ∀ {x o k}, o ≠ c → t.cell x = .opened o k → s.cell x = .opened o k :=
    fun other hx => (h.opened _ _ _ hx).resolve_right fun new => other new.1
  refine ⟨fun o => ?_, fun x o k hx => ?_, fun x y o k hx hy => ?_, fun o f hf x hx => ?_,
    fun g hg x hx => ?_, fun o d k hk => ⟨(tidy.covers o d k hk).1, ?_⟩⟩
  · by_cases own : o = c
    · subst own
      exact pinned
    · rw [h.frames o own, h.heights o own]
      refine (tidy.pinned o).closed fun f hf x hx o' k hk => ?_
      refine (h.opened x o' k hk).resolve_right fun new => ?_
      exact absurd (tidy.known o f hf x hx) (Nat.not_lt.2 new.2)
  · by_cases own : o = c
    · subst own
      exact listed x k hx
    · rw [h.frames o own]
      exact tidy.listed x o k (before own hx)
  · by_cases own : o = c
    · subst own
      exact apart x y k hx hy
    · exact tidy.apart x y o k (before own hx) (before own hy)
  · by_cases own : o = c
    · subst own
      exact known f hf x hx
    · rw [h.frames o own] at hf
      exact Nat.lt_of_lt_of_le (tidy.known o f hf x hx) h.size
  · rw [h.closures] at hg
    exact Nat.lt_of_lt_of_le (tidy.closures g hg x hx) h.size
  · by_cases own : o = c
    · subst own
      exact covers d k hk
    · rw [h.frames o own]
      exact (tidy.covers o d k hk).2

end State.Tidy

/-- A change of the running thread that is faithful and tidy. Its `n` lowest frames stay as they
are. -/
structure Carries (L : Locals) (ws : List Write) (n : Nat) (s s' : State ν) : Prop where
  current : s'.current = s.current
  size : s.processors.size ≤ s'.processors.size
  faithful : Faithful ws s s'
  tidy : s'.Tidy L
  frames : ∀ m ≤ n, bottom m (s'.callsOf s.current) = bottom m (s.callsOf s.current)
  deep : n ≤ (s'.callsOf s.current).length
  others : ∀ c, c ≠ s.current → s'.callsOf c = s.callsOf c
  followed : ∀ c d k, L c d k → Remains ws c k s s'

namespace Carries

theorem refl (tidy : s.Tidy L) (deep : n ≤ (s.callsOf s.current).length) : Carries L [] n s s :=
  ⟨rfl, Nat.le_refl _, .refl s, tidy, fun _ _ => rfl, deep, fun _ _ => rfl,
   fun _ _ _ _ => .refl s⟩

theorem hasCurrent (h : Carries L ws n s s') (here : s.HasCurrent) : s'.HasCurrent := by
  unfold State.HasCurrent
  rw [h.current]
  exact Nat.lt_of_lt_of_le here h.size

theorem mono (h : Carries L ws n s s') (hm : m ≤ n) : Carries L ws m s s' :=
  { h with
    frames := fun i hi => h.frames i (Nat.le_trans hi hm)
    deep := Nat.le_trans hm h.deep }

theorem trans (h : Carries L ws n s s') (h' : Carries L ws' n s' s'') :
    Carries L (ws ++ ws') n s s'' where
  current := h'.current.trans h.current
  size := Nat.le_trans h.size h'.size
  faithful := h.faithful.trans h'.faithful
  tidy := h'.tidy
  frames m hm := (h.current ▸ h'.frames m hm).trans (h.frames m hm)
  deep := h.current ▸ h'.deep
  others c hc := (h'.others c (h.current ▸ hc)).trans (h.others c hc)
  followed c d k hk := (h.followed c d k hk).trans (h'.followed c d k hk)

theorem trans_quiet (h : Carries L ws n s s') (h' : Carries L [] n s' s'') :
    Carries L ws n s s'' := by
  have all := h.trans h'
  rwa [List.append_nil] at all

end Carries

def Kont.threads : {a : Awaited} → Kont ν a → List ThreadId
  | _, .host => []
  | _, .routine _ k | _, .collapse k | _, .method _ _ _ k | _, .asyncMethod _ _ k | _, .exit k
  | _, .native k | _, .finish _ k | _, .instruction _ _ k | _, .decorator _ _ _ _ k
  | _, .loop _ _ k | _, .protect _ _ _ k | _, .nested k | _, .drive _ k => k.threads
  | _, .resumed _ _ previous k => previous :: k.threads
  | _, .task c k => c :: k.threads

/-- Those who wait on a thread need its `n` lowest frames, and cut the stack above what these
pin. -/
def Kont.Clears (L : Locals) (s : State ν) :
    {a : Awaited} → Kont ν a → ThreadId → Nat → Prop
  | _, .host, _, _ => True
  | _, .routine _ k, t, n | _, .collapse k, t, n | _, .method _ _ _ k, t, n
  | _, .asyncMethod _ _ k, t, n | _, .exit k, t, n | _, .finish _ k, t, n
  | _, .instruction _ _ k, t, n | _, .nested k, t, n => k.Clears L s t n
  | _, .drive _ k, t, _ => k.Clears L s t 0
  | _, .native k, t, n => 0 < n ∧ k.Clears L s t (n - 1)
  | _, .decorator _ _ _ mark k, t, n | _, .loop mark _ k, t, n | _, .protect _ _ mark k, t, n =>
    mark.frames ≤ n ∧ Pinned L s.cell t (bottom mark.frames (s.callsOf t)) mark.stack ∧
      k.Clears L s t mark.frames
  | _, .resumed _ _ previous k, _, _ => k.Clears L s previous (s.callsOf previous).length
  | _, .task c k, _, _ => k.Clears L s c (s.callsOf c).length

namespace Kont.Clears

variable {a : Awaited} {k : Kont ν a} {t : ThreadId}

theorem mono (h : k.Clears L s t n) (hm : n ≤ m) : k.Clears L s t m := by
  induction k generalizing t n m with
  | host | resumed | task | drive => exact h
  | routine _ _ ih | collapse _ ih | method _ _ _ _ ih | asyncMethod _ _ _ ih | exit _ ih
  | finish _ _ ih | instruction _ _ _ ih | nested _ ih => exact ih h hm
  | native _ ih => exact ⟨Nat.lt_of_lt_of_le h.1 hm, ih h.2 (Nat.sub_le_sub_right hm 1)⟩
  | decorator | loop | protect => exact ⟨Nat.le_trans h.1 hm, h.2⟩

/-- The frames that they need stay, and their cells may be closed. -/
theorem congr (h : k.Clears L s t n)
    (frames : ∀ m ≤ n, bottom m (s'.callsOf t) = bottom m (s.callsOf t))
    (others : ∀ c ∈ k.threads, s'.callsOf c = s.callsOf c)
    (closed : ∀ c, ∀ f ∈ s.callsOf c, ∀ x ∈ f.cells, ∀ o k,
      s'.cell x = .opened o k → s.cell x = .opened o k) : k.Clears L s' t n := by
  have pinned : ∀ (mark : Mark), mark.frames ≤ n →
      Pinned L s.cell t (bottom mark.frames (s.callsOf t)) mark.stack →
      Pinned L s'.cell t (bottom mark.frames (s'.callsOf t)) mark.stack := by
    intro mark hm h
    rw [frames _ hm]
    exact h.closed fun f hf => closed t f (List.mem_of_mem_drop hf)
  induction k generalizing t n with
  | host => trivial
  | routine _ _ ih | collapse _ ih | method _ _ _ _ ih | asyncMethod _ _ _ ih | exit _ ih
  | finish _ _ ih | instruction _ _ _ ih | nested _ ih => exact ih h frames others pinned
  | drive _ _ ih =>
    exact ih h (fun m hm => frames m (Nat.le_trans hm (Nat.zero_le n))) others fun mark hm =>
      pinned mark (Nat.le_trans hm (Nat.zero_le n))
  | native _ ih =>
    exact ⟨h.1, ih h.2 (fun m hm => frames m (by omega)) others fun mark hm =>
      pinned mark (by omega)⟩
  | decorator _ _ _ _ _ ih | loop _ _ _ ih | protect _ _ _ _ ih =>
    refine ⟨h.1, pinned _ h.1 h.2.1, ih h.2.2 (fun m hm => frames m (Nat.le_trans hm h.1)) others
      fun mark hm => pinned mark (Nat.le_trans hm h.1)⟩
  | resumed _ _ previous _ ih | task previous _ ih =>
    have same := others previous (List.mem_cons_self ..)
    unfold Kont.Clears at h ⊢
    rw [same]
    refine ih h (fun _ _ => by rw [same])
      (fun c hc => others c (List.mem_cons_of_mem _ hc)) fun mark _ h => ?_
    rw [same]
    exact h.closed fun f hf => closed previous f (List.mem_of_mem_drop hf)

theorem carry (h : k.Clears L s s.current n) (tidy : s.Tidy L) (absent : s.current ∉ k.threads)
    (carries : Carries L ws n s s') : k.Clears L s' s'.current n := by
  rw [carries.current]
  refine h.congr carries.frames (fun c hc => carries.others c fun e => absent (e ▸ hc)) ?_
  exact fun c f hf x hx => carries.faithful.opened x (tidy.known c f hf x hx)

end Kont.Clears

/-- Those who wait for what the control does cut the stack above pinned slots. -/
def Control.Clears (L : Locals) (s : State ν) : Control ν → Prop
  | .execute ip mark k => (Kont.loop mark ip k).Clears L s s.current (s.callsOf s.current).length
  | .run _ k | .value _ k | .await _ k | .step _ k =>
    k.Clears L s s.current (s.callsOf s.current).length

end ScriptMachine
