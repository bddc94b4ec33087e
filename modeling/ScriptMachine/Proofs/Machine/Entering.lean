import ScriptMachine.Machine.Call
import ScriptMachine.Proofs.Machine.Stays

/-!
# Entering a call

What is on the stack and in the frames once the callee of a call is found.

* `findCallee_stays`: the operands stay above the slot of the function, whatever handlers join them.
* `enterCall_entering`: the call fails, or its frame is pushed with the slot of the function as its
  floor.
-/

namespace ScriptMachine.Machine

variable {ν : Type} {σ : Prop} {w : ThreadId → Nat → Prop} {s s' : State ν} {b : Nat}

open Exec

/-- Each handler on the way takes the slot of the function, and what was there becomes an operand. -/
theorem findCallee_stays (name : Option String) (budget argc : Nat)
    (h : s.Tall σ (b + argc + 1)) :
    Stays σ b w s (findCallee name budget argc) fun r s' => s'.Tall σ (b + r.2 + 1) := by
  have room : ∀ {s' : State ν} {n : Nat}, s'.Tall σ (b + n + 1) → s'.Room σ b 0 :=
    fun h => h.room fun _ => by omega
  induction budget generalizing argc s with
  | zero =>
    unfold findCallee
    apply stays_bind (stays_peek argc (room h))
    rintro v _ _ rfl
    split
    · exact stays_pure h
    · exact stays_pure h
    · exact stays_raise (room h)
  | succ budget ih =>
    unfold findCallee
    apply stays_bind (stays_peek argc (room h))
    rintro v _ _ rfl
    split
    · exact stays_pure h
    · exact stays_pure h
    · apply stays_get
      split
      · exact stays_raise (room h)
      · apply stays_bind stays_height
        rintro _ _ _ ⟨rfl, rfl⟩
        have start : σ → b ≤ s.heightOf s.current - argc - 1 ∧
            s.heightOf s.current - argc - 1 ≤ b + argc + 1 := fun hσ => by
          rw [h.height hσ]
          omega
        refine stays_bind (stays_splitOff_tall h start) fun operands s' _ hp => ?_
        have cut : s'.Tall σ b := ⟨hp.1.hasCurrent, fun hσ => by
          rw [hp.1.height hσ, h.height hσ]
          omega⟩
        apply stays_bind (stays_push_tall _ cut fun _ => Nat.le_refl b)
        intro _ _ _ tall
        apply stays_bind (stays_pushAll_tall operands tall fun _ => Nat.le_succ b)
        intro _ s'' _ tall
        refine ih (argc + 1) ⟨tall.hasCurrent, fun hσ => ?_⟩
        rw [tall.height hσ, hp.2 hσ, h.height hσ]
        omega

/-- The activation gives its result where the call wants it, and its floor is `b`. -/
structure Serves (σ : Prop) (spec : CallSpec) (b : Nat) (a : Activation) : Prop where
  entry : a.isEntry = spec.flags.entryPoint
  discards : a.discards = spec.flags.discardResult
  address : a.returnAddress = spec.returnAddress
  floor : σ → a.floor = b

theorem Serves.alike {spec : CallSpec} {a a' : Activation} (h : Serves σ spec b a)
    (h' : Serves σ spec b a') : a.Alike σ a' :=
  ⟨h.entry.trans h'.entry.symm, h.discards.trans h'.discards.symm,
   h.address.trans h'.address.symm, fun hσ => (h.floor hσ).trans (h'.floor hσ).symm⟩

/-- The outcomes of a call whose function is in slot `b`. -/
inductive Entering (σ : Prop) (w : ThreadId → Nat → Prop) (s : State ν) (spec : CallSpec)
    (b : Nat) : EStateM.Result Fault (State ν) Entered → Prop
  | failed {e : Fault} {s' : State ν} : Steady σ b w s s' → e.isStray = false →
      s'.Room σ b 0 → Entering σ w s spec b (.error e s')
  | script {a : Activation} {s' : State ν} : Local σ b w s s' → Serves σ spec b a →
      a.isNative = false → (σ → a.base ≤ s'.heightOf s.current) →
      s'.shape s.current =
        { s.shape s.current with standing := a :: (s.shape s.current).standing } →
      Entering σ w s spec b (.ok .script s')
  | native {a : Activation} {n : NativeId} {operands : List Value} {s' : State ν} :
      Local σ b w s s' → Serves σ spec b a → a.isNative = true →
      (σ → s'.heightOf s.current = b) →
      s'.shape s.current =
        { s.shape s.current with standing := a :: (s.shape s.current).standing } →
      Entering σ w s spec b (.ok (.native n operands) s')

/-- A frame is pushed. -/
theorem pushFrame_local {t : State ν} (f : Frame) (h : t.HasCurrent) (steady : Steady σ b w s t) :
    Local σ b w s (t.modifyFrames (·.push f)) ∧
    (t.modifyFrames (·.push f)).heightOf s.current = t.heightOf t.current ∧
    (t.modifyFrames (·.push f)).shape s.current =
      { s.shape s.current with standing := f.activation :: (s.shape s.current).standing } := by
  refine ⟨steady.toLocal.trans (local_modifyProcessor _ fun _ _ _ _ _ => rfl), ?_, ?_⟩
  · rw [← steady.current]
    exact State.view_modifyProcessorOf t _ _ _ (fun p => p.stack.size) fun _ => rfl
  · rw [← steady.shape, ← steady.current]
    simp only [State.shape, State.modifyFrames, State.processor_modifyProcessor h, Processor.shape]
    simp

/-- Work above the slot of the function, before a frame is there. -/
theorem entering_bind {α : Type} {spec : CallSpec} {t : State ν} {x : Exec ν α}
    {f : α → Exec ν Entered} {post : α → State ν → Prop} (steady : Steady σ b w s t)
    (hx : Stays σ b w t x post)
    (hf : ∀ a s', Steady σ b w s s' → post a s' → Entering σ w s spec b (f a s')) :
    Entering σ w s spec b ((x >>= f) t) := by
  cases hw : x t with
  | error e s' =>
    have run : (x >>= f) t = .error e s' := by simp only [bind, EStateM.bind, hw]
    obtain ⟨steady', stray, room⟩ := hx.error e s' hw
    exact run ▸ .failed (steady.trans steady') stray room
  | ok a s' =>
    have run : (x >>= f) t = f a s' := by simp only [bind, EStateM.bind, hw]
    obtain ⟨steady', hp⟩ := hx.ok a s' hw
    exact run ▸ hf a s' (steady.trans steady') hp

theorem enterCall_entering (spec : CallSpec) (h : s.Tall σ (b + spec.argc + 1)) :
    Entering σ w s spec b (enterCall spec s) := by
  refine entering_bind (.refl s) stays_getState ?_
  rintro _ _ _ ⟨rfl, rfl⟩
  refine entering_bind (.refl s) (findCallee_stays spec.name s.options.maxCallChain spec.argc h) ?_
  rintro ⟨callee, argc⟩ t steady tall
  cases callee with
  | script c =>
    refine entering_bind steady stays_getState ?_
    rintro _ _ _ ⟨rfl, rfl⟩
    have room : t.Room σ b 0 := tall.room fun _ => by dsimp only; omega
    by_cases limit : t.options.maxCallDepth ≤ t.callDepth
    · simp only [limit]
      exact .failed steady rfl room
    · simp only [limit]
      refine entering_bind steady stays_height ?_
      rintro _ _ _ ⟨rfl, rfl⟩
      obtain ⟨hl, hh, hs⟩ := pushFrame_local
        { base := t.heightOf t.current - argc, argc, returnAddress := spec.returnAddress,
          callee := .script c, name := spec.name, handlers := spec.handlers,
          flags := spec.flags } tall.hasCurrent steady
      refine Entering.script hl ⟨rfl, rfl, rfl, fun hσ => ?_⟩ rfl (fun hσ => ?_) hs
      · have := tall.height hσ
        simp only [Activation.floor, Frame.activation, Frame.isNative]
        dsimp only at this
        rw [this]
        simp only [Bool.false_eq_true, ↓reduceIte]
        omega
      · rw [hh]
        exact Nat.sub_le ..
  | native n =>
    dsimp only at tall
    refine entering_bind steady stays_height ?_
    rintro _ _ _ ⟨rfl, rfl⟩
    have start : σ → b ≤ t.heightOf t.current - argc ∧
        t.heightOf t.current - argc ≤ b + argc + 1 := by
      intro hσ
      rw [tall.height hσ]
      omega
    have cut : σ → t.heightOf t.current - argc = b + 1 := fun hσ => by
      rw [tall.height hσ]
      omega
    refine entering_bind steady (stays_splitOff_tall tall start) ?_
    rintro operands t' steady ⟨tall', -⟩
    refine entering_bind steady (stays_pop_tall tall' fun hσ => by rw [cut hσ]; omega) ?_
    intro _ t'' steady tall''
    refine entering_bind steady stays_height ?_
    rintro _ _ _ ⟨rfl, rfl⟩
    have height : σ → t''.heightOf t''.current = b := fun hσ => by
      rw [tall''.height hσ, cut hσ]
      rfl
    obtain ⟨hl, hh, hs⟩ := pushFrame_local
      { base := t''.heightOf t''.current, argc, returnAddress := spec.returnAddress,
        callee := .native n, name := spec.name, handlers := spec.handlers,
        flags := spec.flags } tall''.hasCurrent steady
    refine Entering.native hl ⟨rfl, rfl, rfl, fun hσ => ?_⟩ rfl (fun hσ => ?_) hs
    · exact height hσ
    · rw [hh]
      exact height hσ

end ScriptMachine.Machine
