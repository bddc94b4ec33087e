import Mathlib
import ScriptMachine.Proofs.Machine.View

/-!
# Work above a base

What fallible work keeps, whether it succeeds or not. Work of a frame stays above the frame's base
as long as there is room for what it takes from the stack; under `σ` it then leaves the slots below
the base alone, apart from writes through open cells.

* `Exec.Stays`: the rule for one piece of work, with `stays_bind` to put two together.
* One rule for each operation on stacks, variables and cells.
-/

namespace ScriptMachine

/-- The faults of a machine whose frames are in disorder. -/
def Fault.isStray : Fault → Bool
  | .defect d =>
    match d with
    | .nativeFrameOnTop _ | .emptyExecutionStack | .executionUnderflow | .suspensionEscaped
    | .loopLeftEarly | .coroutineLoopLeftEarly | .nothingSuspended | .taskEscaped => true
    | _ => false
  | _ => false

@[simp] theorem Fault.isStray_raise (c : Cause) : (Fault.raise c).isStray = false := rfl

/-- The stack that runs has at least `n` slots above a base. -/
structure State.Room {ν : Type} (σ : Prop) (b n : Nat) (s : State ν) : Prop where
  hasCurrent : s.HasCurrent
  height : σ → b + n ≤ s.heightOf s.current

theorem State.Room.weaken {ν : Type} {σ : Prop} {b n m : Nat} {s : State ν} (h : s.Room σ b n)
    (hm : m ≤ n) : s.Room σ b m :=
  ⟨h.hasCurrent, fun hσ => Nat.le_trans (Nat.add_le_add_left hm b) (h.height hσ)⟩

structure State.Tall {ν : Type} (σ : Prop) (n : Nat) (s : State ν) : Prop where
  hasCurrent : s.HasCurrent
  height : σ → s.heightOf s.current = n

theorem State.Tall.room {ν : Type} {σ : Prop} {b n m : Nat} {s : State ν} (h : s.Tall σ n)
    (hm : σ → b + m ≤ n) : s.Room σ b m :=
  ⟨h.hasCurrent, fun hσ => by rw [h.height hσ]; exact hm hσ⟩

theorem State.Room.tall {ν : Type} {σ : Prop} {b n : Nat} {s : State ν} (h : s.Room σ b n) :
    s.Tall σ (s.heightOf s.current) :=
  ⟨h.hasCurrent, fun _ => rfl⟩

/-- A change that keeps the height of the stack keeps the room in it. -/
theorem State.Room.steady {ν : Type} {σ : Prop} {b n : Nat} {w : ThreadId → Nat → Prop}
    {s s' : State ν} (h : s.Room σ b n) (hs : Steady σ b w s s')
    (hh : s'.heightOf s.current = s.heightOf s.current) : s'.Room σ b n :=
  ⟨hs.hasCurrent h.hasCurrent, fun hσ => by rw [hs.current, hh]; exact h.height hσ⟩

namespace Exec

variable {ν α β : Type} {σ : Prop} {b n m : Nat} {w : ThreadId → Nat → Prop} {s s' : State ν}

/-- The work changes nothing below the base `b` of the running frame, whether it succeeds, with a
result that satisfies `post`, or fails, with a fault that is not stray. -/
structure Stays (σ : Prop) (b : Nat) (w : ThreadId → Nat → Prop) (s : State ν) (work : Exec ν α)
    (post : α → State ν → Prop) : Prop where
  ok : ∀ a s', work s = .ok a s' → Steady σ b w s s' ∧ post a s'
  error : ∀ e s', work s = .error e s' → Steady σ b w s s' ∧ e.isStray = false ∧ s'.Room σ b 0

variable {work : Exec ν α} {post : α → State ν → Prop}

theorem Stays.imp {post' : α → State ν → Prop} (h : Stays σ b w s work post)
    (imp : ∀ a s', post a s' → post' a s') : Stays σ b w s work post' :=
  ⟨fun a s' he => ⟨(h.ok a s' he).1, imp a s' (h.ok a s' he).2⟩, h.error⟩

/-- Work that succeeds for sure. -/
theorem stays_of_ok {a : α} (he : work s = .ok a s') (h : Steady σ b w s s') (hp : post a s') :
    Stays σ b w s work post := by
  constructor
  · intro a' s'' he'
    obtain ⟨rfl, rfl⟩ := EStateM.Result.ok.inj (he.symm.trans he')
    exact ⟨h, hp⟩
  · intro e s'' he'
    rw [he] at he'
    contradiction

theorem Stays.and {post' : α → State ν → Prop} (h : Stays σ b w s work post)
    (ok : ∀ a s', work s = .ok a s' → post' a s') :
    Stays σ b w s work fun a s' => post a s' ∧ post' a s' :=
  ⟨fun a s' he => ⟨(h.ok a s' he).1, (h.ok a s' he).2, ok a s' he⟩, h.error⟩

theorem Stays.congr {work' : Exec ν α} (h : Stays σ b w s work post) (he : work' s = work s) :
    Stays σ b w s work' post :=
  ⟨fun a s' hw => h.ok a s' (he.symm.trans hw), fun e s' hw => h.error e s' (he.symm.trans hw)⟩

theorem stays_pure {a : α} (h : post a s) : Stays σ b w s (pure a) post :=
  stays_of_ok rfl (.refl s) h

theorem stays_bind {f : α → Exec ν β} {post' : β → State ν → Prop}
    (hx : Stays σ b w s work post)
    (hf : ∀ a s', Steady σ b w s s' → post a s' → Stays σ b w s' (f a) post') :
    Stays σ b w s (work >>= f) post' := by
  cases hw : work s with
  | error e s' =>
    have run : (work >>= f) s = .error e s' := by
      simp only [bind, EStateM.bind, hw]
    constructor
    · intro a s'' he
      rw [run] at he
      contradiction
    · intro e' s'' he
      obtain ⟨rfl, rfl⟩ := EStateM.Result.error.inj (run.symm.trans he)
      exact hx.error _ _ hw
  | ok a s' =>
    have run : (work >>= f) s = f a s' := by
      simp only [bind, EStateM.bind, hw]
    obtain ⟨steady, hp⟩ := hx.ok a s' hw
    have hf := hf a s' steady hp
    constructor
    · intro c s'' he
      have hc := hf.ok c s'' (run.symm.trans he)
      exact ⟨steady.trans hc.1, hc.2⟩
    · intro e s'' he
      have hc := hf.error e s'' (run.symm.trans he)
      exact ⟨steady.trans hc.1, hc.2⟩

theorem stays_map (f : α → β) (h : Stays σ b w s work fun _ s' => s'.Room σ b n) :
    Stays σ b w s (f <$> work) fun _ s' => s'.Room σ b n := by
  have mapped : Stays σ b w s (work >>= fun a => pure (f a)) fun _ s' => s'.Room σ b n :=
    stays_bind h fun _ _ _ room => stays_pure room
  refine mapped.congr ?_
  simp only [Functor.map, EStateM.map, bind, EStateM.bind]
  cases work s <;> rfl

theorem stays_get {f : State ν → Exec ν β} {post' : β → State ν → Prop}
    (h : Stays σ b w s (f s) post') : Stays σ b w s (get >>= f) post' := ⟨h.ok, h.error⟩

theorem stays_getState : Stays σ b w s get fun a s' => s = s' ∧ s = a :=
  stays_of_ok rfl (.refl s) ⟨rfl, rfl⟩

theorem stays_modify {f : State ν → State ν} {post' : PUnit → State ν → Prop}
    (h : Steady σ b w s (f s)) (hp : post' ⟨⟩ (f s)) : Stays σ b w s (modify f) post' :=
  stays_of_ok rfl h hp

theorem stays_set {post' : PUnit → State ν → Prop} (h : Steady σ b w s s') (hp : post' ⟨⟩ s') :
    Stays σ b w s (set s') post' :=
  stays_of_ok rfl h hp

theorem stays_set_bind {f : PUnit → Exec ν β} {post' : β → State ν → Prop}
    (h : Steady σ b w s s') (hf : Stays σ b w s' (f ⟨⟩) post') :
    Stays σ b w s (set s' >>= f) post' := by
  have done : Stays σ b w s (set s' : Exec ν PUnit) fun _ t => s' = t := stays_set h rfl
  exact stays_bind done fun _ _ _ e => e ▸ hf

theorem stays_throw {e : Fault} (h : s.Room σ b n) (he : e.isStray = false) :
    Stays σ b w s (throw e : Exec ν α) post := by
  constructor
  · intro a s' h'
    contradiction
  · rintro e' s' ⟨⟩
    exact ⟨.refl s, he, h.weaken (Nat.zero_le n)⟩

theorem stays_raise {c : Cause} (h : s.Room σ b n) : Stays σ b w s (raise c : Exec ν α) post :=
  stays_throw h rfl

theorem stays_ofExcept {x : Except Fault α} (h : s.Room σ b n)
    (he : ∀ e, x = .error e → e.isStray = false) :
    Stays σ b w s (ofExcept x) fun a s' => s = s' ∧ x = .ok a := by
  cases x with
  | ok a => exact stays_pure ⟨rfl, rfl⟩
  | error e => exact stays_throw h (he e rfl)

theorem stays_ofCause {x : Except Cause α} (h : s.Room σ b n) :
    Stays σ b w s (ofCause x) fun _ s' => s = s' := by
  cases x with
  | ok a => exact stays_pure rfl
  | error c => exact stays_raise h

/-- The stack changes from the base on. -/
theorem stays_modifyStack {f : ValueStack → ValueStack} (h : s.HasCurrent)
    (low : σ → ∀ j, j < b → (f (s.stackOf s.current)).values[j]? =
      (s.stackOf s.current).values[j]?) :
    Stays σ b w s (modify fun s => s.modifyStack f) fun _ s' =>
      s'.Tall σ (f (s.stackOf s.current)).size := by
  have steady : Steady σ b w s (s.modifyStack f) :=
    steady_modifyStack f fun hσ v hv j hj => hv ▸ low hσ j hj
  refine stays_modify steady ⟨steady.hasCurrent h, fun _ => ?_⟩
  rw [steady.current, heightOf_modifyStack f h]

theorem stays_pushAll_tall (vs : List Value) (h : s.Tall σ n) (hb : σ → b ≤ n) :
    Stays σ b w s (pushAll vs) fun _ s' => s'.Tall σ (n + vs.length) := by
  refine (stays_modifyStack h.hasCurrent fun hσ j hj => ValueStack.get_pushAll _ vs ?_).imp ?_
  · have height := h.height hσ
    have := hb hσ
    simp only [State.heightOf] at height
    omega
  · intro _ s' tall
    rw [ValueStack.size_pushAll] at tall
    exact ⟨tall.hasCurrent, fun hσ => by rw [tall.height hσ, ← h.height hσ]; rfl⟩

theorem stays_pushAll (vs : List Value) (h : s.Room σ b n) :
    Stays σ b w s (pushAll vs) fun _ s' => s'.Room σ b (n + vs.length) := by
  have high := h.height
  refine (stays_pushAll_tall vs h.tall fun hσ => ?_).imp fun _ _ tall => tall.room fun hσ => ?_
  all_goals
    have := high hσ
    omega

theorem stays_push_tall (v : Value) (h : s.Tall σ n) (hb : σ → b ≤ n) :
    Stays σ b w s (push v) fun _ s' => s'.Tall σ (n + 1) :=
  (stays_pushAll_tall [v] h hb).congr rfl

theorem stays_push (v : Value) (h : s.Room σ b n) :
    Stays σ b w s (push v) fun _ s' => s'.Room σ b (n + 1) :=
  (stays_pushAll [v] h).congr rfl

theorem stays_truncate_tall {size : Nat} (h : s.Tall σ n) (hb : σ → b ≤ size) :
    Stays σ b w s (truncate size) fun _ s' => s'.Tall σ (min size n) := by
  refine (stays_modifyStack h.hasCurrent fun hσ j hj => ValueStack.get_truncate _ ?_).imp ?_
  · exact Nat.lt_of_lt_of_le hj (hb hσ)
  · intro _ s' tall
    rw [ValueStack.size_truncate] at tall
    exact ⟨tall.hasCurrent, fun hσ => by rw [tall.height hσ, ← h.height hσ]; rfl⟩

theorem stays_truncate {size : Nat} (h : s.Room σ b n) (hm : σ → b + m ≤ size) (hn : m ≤ n) :
    Stays σ b w s (truncate size) fun _ s' => s'.Room σ b m := by
  have high := h.height
  refine (stays_truncate_tall h.tall fun hσ => ?_).imp fun _ _ tall => tall.room fun hσ => ?_
  all_goals
    have := high hσ
    have := hm hσ
    omega

theorem stays_present {x : Option α} (h : s.Room σ b n) :
    Stays σ b w s (present x) fun a s' => s = s' ∧ x = some a := by
  cases x with
  | some a => exact stays_pure ⟨rfl, rfl⟩
  | none => exact stays_throw h rfl

theorem stays_peek (offset : Nat) (h : s.Room σ b n) :
    Stays σ b w s (peek offset) fun _ s' => s = s' :=
  ((stays_present h).imp fun _ _ hp => hp.1).congr rfl

/-- A value that is there is in the stack. -/
theorem stays_peek_lt (offset : Nat) (h : s.Room σ b n) :
    Stays σ b w s (peek offset) fun _ s' => s = s' ∧ offset < s.heightOf s.current := by
  refine ((stays_present h).imp fun v _ hp => ⟨hp.1, ?_⟩).congr rfl
  have there : (s.stackOf s.current).peek? offset = some v := hp.2
  unfold ValueStack.peek? at there
  split at there
  · assumption
  · contradiction

theorem stays_height : Stays σ b w s height fun h s' => s = s' ∧ h = s.heightOf s.current :=
  stays_get (stays_pure ⟨rfl, rfl⟩)

theorem stays_pop_tall (h : s.Tall σ n) (hb : σ → b < n) :
    Stays σ b w s pop fun _ s' => s'.Tall σ (n - 1) := by
  have room : s.Room σ b 0 := h.room fun hσ => Nat.le_of_lt (hb hσ)
  apply stays_bind (stays_peek 0 room)
  rintro v _ _ rfl
  have high : σ → (s.stackOf s.current).size = n := h.height
  have dropped := stays_modifyStack (w := w) (f := fun v => v.truncate (v.size - 1)) (b := b)
    h.hasCurrent fun hσ j hj => ValueStack.get_truncate _ (by
      have := high hσ
      have := hb hσ
      omega)
  refine stays_bind dropped fun _ _ _ tall => stays_pure ⟨tall.hasCurrent, fun hσ => ?_⟩
  rw [tall.height hσ, ValueStack.size_truncate, high hσ]
  omega

theorem stays_pop (h : s.Room σ b (n + 1)) : Stays σ b w s pop fun _ s' => s'.Room σ b n := by
  have high := h.height
  refine (stays_pop_tall h.tall fun hσ => ?_).imp fun _ _ tall => tall.room fun hσ => ?_
  all_goals
    have := high hσ
    omega

theorem stays_popScalar (h : s.Room σ b (n + 1)) :
    Stays σ b w s popScalar fun _ s' => s'.Room σ b n :=
  stays_bind (stays_pop h) fun _ _ _ room => stays_pure room

theorem popScalar_eq (s : State ν) : popScalar s = match s.processor.stack.peek? 0 with
    | some v => .ok v.scalar (s.modifyStack fun stack => stack.truncate (stack.size - 1))
    | none => .error (.defect .stackUnderflow) s := by
  simp only [popScalar, pop, peek, stack, bind, EStateM.bind, get, getThe, MonadStateOf.get,
    EStateM.get, pure, EStateM.pure]
  cases s.processor.stack.peek? 0 <;> rfl

/-- To pop a value changes the stack only. -/
theorem popScalar_same {v : Value} (h : popScalar s = .ok v s') :
    s'.cells = s.cells ∧ s'.closures = s.closures := by
  rw [popScalar_eq] at h
  split at h
  · cases h
    exact ⟨rfl, rfl⟩
  · contradiction

theorem stays_poke {offset : Nat} (v : Value) (h : s.Room σ b n) (ho : offset < n) :
    Stays σ b w s (poke offset v) fun _ s' => s'.Room σ b n := by
  have high := h.height
  apply stays_bind (stays_peek offset h)
  rintro _ _ _ rfl
  have poked := stays_modifyStack (w := w) (f := (·.poke offset v)) (b := b) h.hasCurrent
    fun hσ j hj => ValueStack.get_poke _ v (by
      have := high hσ
      simp only [State.heightOf] at this
      omega)
  refine poked.imp fun _ _ tall => tall.room fun hσ => ?_
  rw [ValueStack.size_poke]
  exact high hσ

theorem stays_swap {i j : Nat} (h : s.Room σ b n) (hi : i < n) (hj : j < n) :
    Stays σ b w s (swap i j) fun _ s' => s'.Room σ b n := by
  have high := h.height
  apply stays_bind (stays_peek i h)
  rintro x _ _ rfl
  apply stays_bind (stays_peek j h)
  rintro y _ _ rfl
  have swapped := stays_modifyStack (w := w) (f := fun v => (v.poke i y).poke j x) (b := b)
    h.hasCurrent fun hσ k hk => by
      have := high hσ
      simp only [State.heightOf] at this
      rw [ValueStack.get_poke _ x (by rw [ValueStack.size_poke]; omega),
        ValueStack.get_poke _ y (by omega)]
  refine swapped.imp fun _ _ tall => tall.room fun hσ => ?_
  rw [ValueStack.size_poke, ValueStack.size_poke]
  exact high hσ

/-- Takes the values from a height on that is not below the base. -/
theorem stays_splitOff_tall {start : Nat} (h : s.Tall σ n) (hb : σ → b ≤ start ∧ start ≤ n) :
    Stays σ b w s (splitOff start) fun vs s' =>
      s'.Tall σ start ∧ (σ → vs.length = n - start) := by
  have room : s.Room σ b 0 := h.room fun hσ => by have := hb hσ; omega
  have taken : Stays σ b w s (present ((s.stackOf s.current).above? start) >>= fun vs =>
      truncate start >>= fun _ => pure vs) fun vs s' =>
        s'.Tall σ start ∧ (σ → vs.length = n - start) := by
    apply stays_bind (stays_present room)
    rintro vs _ _ ⟨rfl, hvs⟩
    have length : σ → vs.length = n - start := fun hσ => by
      unfold ValueStack.above? at hvs
      split at hvs
      · cases hvs
        rw [← h.height hσ]
        simp [State.heightOf, ValueStack.size]
      · contradiction
    refine stays_bind (stays_truncate_tall h fun hσ => (hb hσ).1) fun _ _ _ tall => ?_
    refine stays_pure ⟨⟨tall.hasCurrent, fun hσ => ?_⟩, length⟩
    rw [tall.height hσ]
    exact Nat.min_eq_left (hb hσ).2
  exact taken.congr rfl

theorem stays_splitOff {start : Nat} (h : s.Room σ b n) (hm : σ → b + m ≤ start)
    (hs : σ → start ≤ s.heightOf s.current) :
    Stays σ b w s (splitOff start) fun _ s' => s'.Room σ b m :=
  (stays_splitOff_tall h.tall fun hσ => ⟨Nat.le_trans (Nat.le_add_right b m) (hm hσ), hs hσ⟩).imp
    fun _ _ hp => hp.1.room hm

/-- The processors stay as they are. -/
theorem stays_world {f : State ν → State ν} (h : s.Room σ b n) (aside : Aside s (f s)) :
    Stays σ b w s (modify f) fun _ s' => s'.Room σ b n := by
  refine stays_modify aside.steady (h.steady (w := w) aside.steady ?_)
  simp only [State.heightOf, State.stackOf, State.processorOf, aside.processors]

theorem stays_setTopFrame {f g : Frame} (h : s.Room σ b n)
    (hg : s.processor.frames.back? = some g) (hf : f.activation = g.activation) :
    Stays σ b w s (setTopFrame f) fun _ s' => s'.Room σ b n := by
  have steady : Steady σ b w s (s.modifyFrames fun frames =>
      frames.setIfInBounds (frames.size - 1) f) := by
    refine ⟨local_modifyProcessor _ fun _ _ _ _ _ => rfl, ?_⟩
    obtain ⟨fs, hfs⟩ := Array.back?_eq_some_iff.1 hg
    simp only [State.processor] at hfs
    simp only [State.shape, State.modifyFrames, State.processor_modifyProcessor h.hasCurrent,
      Processor.shape, hfs]
    simp [hf]
  refine stays_modify steady (h.steady steady ?_)
  exact State.view_modifyProcessorOf s _ _ _ (fun p => p.stack.size) fun _ => rfl

theorem upvalueCell_error {f : ClosureId} {index : Nat} {e : Fault}
    (h : s.upvalueCell f index = .error e) : e.isStray = false := by
  unfold State.upvalueCell at h
  split at h
  · contradiction
  · cases h
    rfl

theorem readSymbol_error {scope : Scope} {sym : Symbol} {e : Fault}
    (h : s.readSymbol scope sym = .error e) : e.isStray = false := by
  induction sym generalizing e with
  | slot | defaultEnv => simp [State.readSymbol] at h
  | upvalue index name =>
    simp only [State.readSymbol, bind, Except.bind] at h
    split at h
    · cases h
      exact upvalueCell_error ‹_›
    · contradiction
  | global name env ih =>
    simp only [State.readSymbol, bind, Except.bind] at h
    split at h
    · cases h
      exact ih ‹_›
    · split at h
      · contradiction
      · cases h
        rfl

theorem stays_readSymbol (scope : Scope) (sym : Symbol) (h : s.Room σ b n) :
    Stays σ b w s (readSymbol scope sym) fun _ s' => s = s' :=
  stays_get ((stays_ofExcept h fun _ => readSymbol_error).imp fun _ _ hp => hp.1)

/-- A write to a variable keeps to the frame of its scope, or goes through a cell. -/
theorem writeSymbol_ok {scope : Scope} {sym : Symbol} {v : Value} (base : σ → b ≤ scope.base)
    (written : σ → ∀ index name c owner slot, sym = .upvalue index name →
      s.upvalueCell scope.closure index = .ok c → s.cell c = .opened owner slot → w owner slot)
    (h : s.writeSymbol scope v sym = .ok s') :
    Steady σ b w s s' ∧ s'.heightOf s.current = s.heightOf s.current := by
  cases sym with
  | slot index name =>
    cases h
    refine ⟨steady_modifyStack _ fun hσ u _ j hj => ValueStack.get_set u v ?_, ?_⟩
    · have := base hσ
      omega
    exact State.view_modifyProcessorOf s _ _ _ (fun p => p.stack.size) fun _ => by
      simp [ValueStack.set, ValueStack.size]
  | upvalue index name =>
    simp only [State.writeSymbol, bind, Except.bind] at h
    split at h
    · contradiction
    · rename_i c hc
      cases h
      refine ⟨steady_writeCell c v fun hσ owner slot =>
        written hσ index name c owner slot rfl hc, ?_⟩
      unfold State.writeCell
      split
      · exact State.view_modifyProcessorOf s _ _ _ (fun p => p.stack.size) fun _ => by
          simp [ValueStack.set, ValueStack.size]
      · rfl
  | defaultEnv => contradiction
  | global name env =>
    simp only [State.writeSymbol, bind, Except.bind] at h
    split at h
    · contradiction
    · split at h
      · cases h
        exact ⟨Aside.steady ⟨rfl, rfl, rfl, rfl, rfl⟩, rfl⟩
      · contradiction

theorem writeSymbol_error {scope : Scope} {sym : Symbol} {v : Value} {e : Fault}
    (h : s.writeSymbol scope v sym = .error e) : e.isStray = false := by
  cases sym with
  | slot => contradiction
  | upvalue index name =>
    simp only [State.writeSymbol, bind, Except.bind] at h
    split at h
    · cases h
      exact upvalueCell_error ‹_›
    · contradiction
  | defaultEnv =>
    cases h
    rfl
  | global name env =>
    simp only [State.writeSymbol, bind, Except.bind] at h
    split at h
    · cases h
      exact readSymbol_error ‹_›
    · split at h
      · contradiction
      · cases h
        rfl

theorem stays_writeSymbol {scope : Scope} {sym : Symbol} (v : Value) (h : s.Room σ b n)
    (base : b ≤ scope.base)
    (written : σ → ∀ index name c owner slot, sym = .upvalue index name →
      s.upvalueCell scope.closure index = .ok c → s.cell c = .opened owner slot → w owner slot) :
    Stays σ b w s (writeSymbol scope sym v) fun _ s' => s'.Room σ b n := by
  apply stays_get
  apply stays_bind (stays_ofExcept h fun _ => writeSymbol_error)
  rintro s' _ _ ⟨rfl, hs⟩
  obtain ⟨steady, height⟩ := writeSymbol_ok (fun _ => base) written hs
  exact stays_set steady (h.steady steady height)

theorem stays_topFrame :
    Stays σ b w s topFrame? fun f s' => s = s' ∧ f = s.processor.frames.back? :=
  stays_get (stays_pure ⟨rfl, rfl⟩)

theorem stays_captureSlot (slot : Nat) (h : s.Room σ b n) :
    Stays σ b w s (captureSlot slot) fun _ s' => s'.Room σ b n := by
  unfold captureSlot
  apply stays_bind stays_topFrame
  rintro _ _ _ ⟨rfl, rfl⟩
  split
  · exact stays_throw h rfl
  · rename_i frame hframe
    apply stays_get
    split
    · exact stays_pure h
    · have steady : Steady σ b w s (s.newCell (.opened s.current slot)).2 :=
        Aside.steady ⟨rfl, rfl, rfl, rfl, rfl⟩
      apply stays_set_bind steady
      refine stays_bind (stays_setTopFrame (h.steady steady rfl) hframe ?_) fun _ _ _ room => ?_
      · rfl
      · exact stays_pure room

theorem stays_captureSymbol (scope : Scope) (sym : Symbol) (h : s.Room σ b n) :
    Stays σ b w s (captureSymbol scope sym) fun _ s' => s'.Room σ b n := by
  cases sym with
  | slot index name => exact stays_captureSlot _ h
  | upvalue index name =>
    refine stays_get ((stays_ofExcept h fun _ => upvalueCell_error).imp ?_)
    rintro _ _ ⟨rfl, -⟩
    exact h
  | defaultEnv =>
    have steady : Steady σ b w s (s.newCell (.closed (.table s.world.globals))).2 :=
      Aside.steady ⟨rfl, rfl, rfl, rfl, rfl⟩
    exact stays_get (stays_set_bind steady (stays_pure (h.steady steady rfl)))
  | global name env => exact stays_throw h rfl

theorem stays_captureAll (scope : Scope) (syms : List Symbol) (h : s.Room σ b n) :
    Stays σ b w s (captureAll scope syms) fun _ s' => s'.Room σ b n := by
  induction syms generalizing s with
  | nil => exact stays_pure h
  | cons sym rest ih =>
    apply stays_bind (stays_captureSymbol scope sym h)
    intro c _ _ room
    apply stays_bind (ih room)
    intro cs _ _ room
    exact stays_pure room

theorem stays_makeClosure (scope : Scope) (index : Nat) (h : s.Room σ b n) :
    Stays σ b w s (makeClosure scope index) fun _ s' => s'.Room σ b n := by
  unfold makeClosure
  apply stays_get
  split
  · exact stays_throw h rfl
  · rename_i child _
    apply stays_bind (stays_captureAll scope child.upvalues h)
    intro cells s' _ room
    apply stays_get
    have steady : Steady σ b w s' (s'.newClosure ⟨child, cells.toArray⟩).2 :=
      Aside.steady ⟨rfl, rfl, rfl, rfl, rfl⟩
    apply stays_set_bind steady
    exact (stays_push _ (room.steady steady rfl)).imp fun _ _ room => room.weaken (Nat.le_succ n)

theorem stays_closeLocals (scope : Scope) (first last : Nat) (h : s.Room σ b n)
    (base : b ≤ scope.base) :
    Stays σ b w s (closeLocals scope first last) fun _ s' => s'.Room σ b n := by
  unfold closeLocals
  apply stays_bind stays_topFrame
  rintro _ _ _ ⟨rfl, rfl⟩
  split
  · exact stays_throw h rfl
  · rename_i frame hframe
    apply stays_get
    split
    rename_i kept s' hs
    have aside := closeCells_aside hs
    have steady : Steady σ b w s s' := aside.steady
    have room : s'.Room σ b n := h.steady steady (by
      simp only [State.heightOf, State.stackOf, State.processorOf, aside.processors])
    have top : s'.processor.frames.back? = some frame := by
      rw [← hframe]
      simp only [State.processor, State.processorOf, aside.processors, aside.current]
    apply stays_set_bind steady
    refine stays_bind (stays_setTopFrame room top ?_) fun _ s'' _ room => ?_
    · rfl
    · refine (stays_modifyStack room.hasCurrent fun _ j hj => ?_).imp
        fun _ _ tall => tall.room fun hσ => ?_
      · exact ValueStack.get_clearSlots _ _ (by omega)
      · rw [ValueStack.size_clearSlots]
        exact room.height hσ

/-- The frame on top, given its activation. -/
theorem exists_top {a : Activation} {rest : List Activation}
    (h : (s.shape s.current).standing = a :: rest) :
    ∃ (fs : Array Frame) (f : Frame), s.processor.frames = fs.push f ∧ f.activation = a ∧
      (fs.toList.map Frame.activation).reverse = rest := Processor.exists_top h

theorem truncate_local (size bound : Nat) (h : s.HasCurrent) (hb : σ → bound ≤ size) :
    Steady σ bound w s (s.modifyStack (·.truncate size)) ∧
    (s.modifyStack (·.truncate size)).heightOf s.current = min size (s.heightOf s.current) := by
  refine ⟨steady_modifyStack _ fun hσ v _ j hj => ValueStack.get_truncate v ?_, ?_⟩
  · exact Nat.lt_of_lt_of_le hj (hb hσ)
  · rw [heightOf_modifyStack _ h, ValueStack.size_truncate]
    rfl

theorem pushAll_local (vs : List Value) (bound : Nat) (h : s.HasCurrent)
    (hb : σ → bound ≤ s.heightOf s.current) :
    Steady σ bound w s (s.modifyStack (·.pushAll vs)) ∧
    (s.modifyStack (·.pushAll vs)).heightOf s.current = s.heightOf s.current + vs.length := by
  refine ⟨steady_modifyStack _ fun hσ v hv j hj => ValueStack.get_pushAll v vs ?_, ?_⟩
  · subst hv
    exact Nat.lt_of_lt_of_le hj (hb hσ)
  · rw [heightOf_modifyStack _ h, ValueStack.size_pushAll]
    rfl

/-- The values from a height on. -/
theorem splitOff_ok (start : Nat) (h : start ≤ s.heightOf s.current) :
    ∃ vs, splitOff start s = .ok vs (s.modifyStack (·.truncate start)) ∧
      vs.length = s.heightOf s.current - start := by
  have above : (s.stackOf s.current).above? start =
      some ((s.stackOf s.current).values.extract start).toList := if_pos h
  refine ⟨((s.stackOf s.current).values.extract start).toList, ?_, ?_⟩
  · have run : splitOff start s = (present ((s.stackOf s.current).above? start) >>= fun vs =>
        truncate start >>= fun _ => pure vs) s := rfl
    rw [run, above]
    rfl
  · simp [State.heightOf, ValueStack.size]

/-- The frame on top is popped with its slots. -/
theorem popFrame_ok {a : Activation} {rest : List Activation} (h : s.HasCurrent)
    (ha : (s.shape s.current).standing = a :: rest) :
    ∃ f s', popFrame s = .ok f s' ∧ f.activation = a ∧ Local σ a.floor w s s' ∧
      s'.shape s.current = { s.shape s.current with standing := rest } ∧
      s'.heightOf s.current = min a.floor (s.heightOf s.current) := by
  obtain ⟨fs, f, hfs, rfl, rfl⟩ := exists_top ha
  have top : s.processor.frames.back? = some f := by simp [hfs]
  have popped : Local σ f.activation.floor w s (s.modifyFrames Array.pop) :=
    local_modifyProcessor _ fun _ _ _ _ _ => rfl
  have shape : (s.modifyFrames Array.pop).shape s.current =
      { s.shape s.current with standing := (fs.toList.map Frame.activation).reverse } := by
    simp only [State.processor] at hfs
    simp only [State.shape, State.modifyFrames, State.processor_modifyProcessor h,
      Processor.shape, hfs, Array.pop_push]
  have height : (s.modifyFrames Array.pop).heightOf s.current = s.heightOf s.current :=
    State.view_modifyProcessorOf s _ _ _ (fun p => p.stack.size) fun _ => rfl
  have current := popped.hasCurrent h
  by_cases native : f.isNative = true
  · have floor : f.activation.floor = f.base := if_pos native
    obtain ⟨steady, hh⟩ := truncate_local (σ := σ) (w := w) f.base f.activation.floor current
      fun _ => Nat.le_of_eq floor
    refine ⟨f, _, ?_, rfl, popped.trans steady.toLocal, steady.shape.trans shape, ?_⟩
    · simp only [popFrame, topFrame?, bind, EStateM.bind, get, getThe, MonadStateOf.get,
        EStateM.get, pure, EStateM.pure, top, native]
      rfl
    · rw [floor, ← height]
      exact hh
  · have floor : f.activation.floor = f.base - 1 := if_neg native
    cases hs : (s.modifyFrames Array.pop).closeCells (fun slot => f.base ≤ slot) f.cells with
    | mk kept s' =>
      have aside := closeCells_aside hs
      have closed : Steady σ f.activation.floor w (s.modifyFrames Array.pop) s' := aside.steady
      obtain ⟨steady, hh⟩ := truncate_local (σ := σ) (w := w) (f.base - 1) f.activation.floor
        (closed.hasCurrent current) fun _ => Nat.le_of_eq floor
      have steady := closed.trans steady
      refine ⟨{ f with cells := kept }, _, ?_, rfl, popped.trans steady.toLocal,
        steady.shape.trans shape, ?_⟩
      · simp only [popFrame, topFrame?, bind, EStateM.bind, get, getThe, MonadStateOf.get,
          EStateM.get, pure, EStateM.pure, top, native, modify, modifyGet, MonadStateOf.modifyGet,
          EStateM.modifyGet]
        change EStateM.Result.ok
          { f with cells := ((s.modifyFrames Array.pop).closeCells
              (fun slot => f.base ≤ slot) f.cells).1 }
          (((s.modifyFrames Array.pop).closeCells (fun slot => f.base ≤ slot) f.cells).2.modifyStack
            (·.truncate (f.base - 1))) = _
        rw [hs]
      · have hc : s'.current = s.current := aside.current
        rw [hc] at hh
        rw [floor, hh, ← height]
        simp only [State.heightOf, State.stackOf, State.processorOf, aside.processors]

end Exec

end ScriptMachine
