import ScriptMachine.Machine.Run
import ScriptMachine.Proofs.Machine.Reach

/-!
# One turn of a loop

What the execution of one instruction can do to the running frame.

* `State.Tame`: the instruction keeps to its own frame, and no debugger assigns.
* `State.Writes`: the slots it writes through open cells.
* `Exec.executeAt_turned`: the instruction fails, is put off, asks for something, or leaves its
  frame by a return or by a call that takes the frame over.
-/

namespace ScriptMachine

namespace State

variable {ν : Type}

/-- The instruction at an address of the running function, with its code and its scope. -/
def instruction? (s : State ν) (ip : Nat) : Option (Proto × Scope × Instruction) := do
  let frame ← s.processor.frames.back?
  let c ← frame.closure?
  let i ← (s.closure c).proto.code[ip]?
  return ((s.closure c).proto, ⟨c, frame.base⟩, i)

/-- The instruction at an address pops, replaces and passes on no slot below the base of its frame,
and no debugger assigns a variable there. -/
structure Tame (s : State ν) (ip : Nat) : Prop where
  reach : ∀ p scope i, s.instruction? ip = some (p, scope, i) →
    scope.base + i.reach (Exec.top s) ≤ s.heightOf s.current
  debugger : ∀ o, s.world.debugger = some o → ∀ a ∈ o.assignments, a.1 ≠ o.hits + 1

instance (s : State ν) (ip : Nat) : Decidable (s.Tame ip) :=
  decidable_of_iff
    ((∀ x ∈ s.instruction? ip, x.2.1.base + x.2.2.reach (Exec.top s) ≤ s.heightOf s.current) ∧
      ∀ o ∈ s.world.debugger, ∀ a ∈ o.assignments, a.1 ≠ o.hits + 1)
    ⟨fun h => ⟨fun _ _ _ hi => h.1 _ hi, fun o ho => h.2 o ho⟩,
     fun h => ⟨fun _ hi => h.reach _ _ _ hi, fun o ho => h.debugger o ho⟩⟩

/-- The instruction at an address stores into a captured variable whose cell is open at a slot. -/
def Writes (s : State ν) (ip : Nat) (c : ThreadId) (j : Nat) : Prop :=
  ∃ p scope i index name cell, s.instruction? ip = some (p, scope, i) ∧ i.op = .store ∧
    p.symbols[Exec.operand i.a]? = some (.upvalue index name) ∧
    s.upvalueCell scope.closure index = .ok cell ∧ s.cell cell = .opened c j

end State

namespace Exec

variable {ν : Type} {σ : Prop} {w : ThreadId → Nat → Prop} {s s' : State ν} {g : Activation}
  {rest : List Activation} {ip : Nat}

/-- The outcomes of one instruction of the frame `g` that stands on `rest`. -/
inductive Turned (σ : Prop) (w : ThreadId → Nat → Prop) (s : State ν) (g : Activation)
    (rest : List Activation) (ip : Nat) : EStateM.Result Fault (State ν) (Option Effect) → Prop
  | failed {e : Fault} {s' : State ν} : Steady σ g.base w s s' → e.isStray = false →
      s'.Room σ g.base 0 → Turned σ w s g rest ip (.error e s')
  /-- A yield is forced before the instruction. -/
  | forced {s' : State ν} : s.isYieldable = true → Local σ g.base w s s' →
      s'.shape s.current = { s.shape s.current with pending := some (.instruction ip, {}) } →
      s'.heightOf s.current = s.heightOf s.current → Turned σ w s g rest ip (.ok none s')
  | asked {e : Effect} {s' : State ν} : Steady σ g.base w s s' → Asks σ g.base ip e s' →
      Turned σ w s g rest ip (.ok (some e) s')
  | left {f : Frame} {v : Value} {s' : State ν} : Local σ g.floor w s s' → f.activation = g →
      s'.shape s.current = { s.shape s.current with standing := rest } →
      (σ ∨ g.floor = 0 → s'.heightOf s.current = g.floor) →
      Turned σ w s g rest ip (.ok (some (.leave f v)) s')
  /-- The frame is gone, and the call gives its result in its stead. -/
  | reused {spec : CallSpec} {s' : State ν} : Local σ g.floor w s s' →
      spec.flags.entryPoint = g.isEntry → spec.flags.discardResult = g.discards →
      spec.returnAddress = g.returnAddress →
      s'.shape s.current = { s.shape s.current with standing := rest } →
      (σ ∨ g.floor = 0 → s'.heightOf s.current = g.floor + spec.argc + 1) →
      Turned σ w s g rest ip (.ok (some (.call spec)) s')

variable {t : State ν}

/-- Work that stays in the frame, after other such work. -/
theorem turned_bind {α : Type} {x : Exec ν α} {f : α → Exec ν (Option Effect)}
    {post : α → State ν → Prop} (steady : Steady σ g.base w s t)
    (hx : Stays σ g.base w t x post)
    (hf : ∀ a s', Steady σ g.base w s s' → post a s' → Turned σ w s g rest ip (f a s')) :
    Turned σ w s g rest ip ((x >>= f) t) := by
  cases hw : x t with
  | error e s' =>
    have run : (x >>= f) t = .error e s' := by simp only [bind, EStateM.bind, hw]
    obtain ⟨steady', stray, room⟩ := hx.error e s' hw
    exact run ▸ .failed (steady.trans steady') stray room
  | ok a s' =>
    have run : (x >>= f) t = f a s' := by simp only [bind, EStateM.bind, hw]
    obtain ⟨steady', hp⟩ := hx.ok a s' hw
    exact run ▸ hf a s' (steady.trans steady') hp

/-! ## Leaving the frame -/

/-- The running frame returns. -/
theorem return_turned {v : Value} (steady : Steady σ g.base w s t) (h : t.Room σ g.base 0)
    (hs : (s.shape s.current).standing = g :: rest) :
    Turned σ w s g rest ip
      ((popFrame >>= fun frame => pure (some (Effect.leave frame v))) t) := by
  have standing : (t.shape t.current).standing = g :: rest := by
    rw [steady.current, steady.shape, hs]
  obtain ⟨f, s', hpop, hf, hl, shape, height⟩ :=
    popFrame_ok (σ := σ) (w := w) h.hasCurrent standing
  have high := h.height
  rw [steady.current] at shape height high
  rw [steady.shape] at shape
  simp only [bind, EStateM.bind, hpop]
  refine .left ((steady.toLocal.weaken fun _ => g.floor_le_base).trans hl) hf shape ?_
  have := g.floor_le_base
  rintro (hσ | bottom)
  · have := high hσ
    omega
  · omega

/-- A call takes the running frame over, with its operands where the frame's function was. -/
theorem takeOver_turned {argc : Nat} {name : Option String} (steady : Steady σ g.base w s t)
    (h : t.Room σ g.base (argc + 1)) (enough : argc < t.heightOf t.current)
    (hs : (s.shape s.current).standing = g :: rest) :
    Turned σ w s g rest ip ((splitOff (t.heightOf t.current - argc - 1) >>= fun operands =>
      popFrame >>= fun frame => pushAll operands >>= fun _ => pure (some (Effect.call
        { argc, returnAddress := frame.returnAddress,
          flags := frame.flags.inherited.union { tailCall := true }, name }))) t) := by
  have high := h.height
  have floor := g.floor_le_base
  obtain ⟨vs, hsplit, hlen⟩ := splitOff_ok (s := t) (t.heightOf t.current - argc - 1) (by omega)
  obtain ⟨cut, hcut⟩ := truncate_local (σ := σ) (w := w) (t.heightOf t.current - argc - 1) g.floor
    h.hasCurrent fun hσ => by have := high hσ; omega
  have current := cut.hasCurrent h.hasCurrent
  generalize t.modifyStack (·.truncate (t.heightOf t.current - argc - 1)) = u at *
  have standing : (u.shape u.current).standing = g :: rest := by
    rw [cut.current, cut.shape, steady.current, steady.shape, hs]
  obtain ⟨f, u', hpop, hf, hl, shape, height⟩ := popFrame_ok (σ := σ) (w := w) current standing
  have same : u'.current = u.current := hl.current
  rw [cut.current] at same shape height
  have dropped : σ ∨ g.floor = 0 → u'.heightOf t.current = g.floor := by
    rintro (hσ | bottom)
    · have := high hσ
      omega
    · omega
  obtain ⟨pushed, hpush⟩ := pushAll_local (σ := σ) (w := w) vs g.floor (hl.hasCurrent current)
    fun hσ => by rw [same]; exact Nat.le_of_eq (dropped (.inl hσ)).symm
  rw [same] at hpush
  have run : (splitOff (t.heightOf t.current - argc - 1) >>= fun operands =>
      popFrame >>= fun frame => pushAll operands >>= fun _ => pure (some (Effect.call
        { argc, returnAddress := frame.returnAddress,
          flags := frame.flags.inherited.union { tailCall := true }, name }))) t =
      .ok (some (Effect.call
        { argc, returnAddress := f.returnAddress,
          flags := f.flags.inherited.union { tailCall := true }, name }))
        (u'.modifyStack (·.pushAll vs)) := by
    simp only [bind, EStateM.bind, hsplit, hpop]
    rfl
  rw [run]
  subst hf
  have hshape := pushed.shape
  rw [same, shape, cut.shape, steady.current, steady.shape] at hshape
  rw [steady.current] at hpush dropped
  have before := (steady.toLocal.weaken fun _ => floor).trans cut.toLocal
  refine .reused ((before.trans hl).trans pushed.toLocal) ?_ ?_ rfl hshape fun known => ?_
  · simp [FrameFlags.inherited, FrameFlags.union, FrameFlags.inter, FrameFlags.inheritable,
      Frame.activation]
  · simp [FrameFlags.inherited, FrameFlags.union, FrameFlags.inter, FrameFlags.inheritable,
      Frame.activation]
  · rw [hpush, dropped known, hlen]
    dsimp only
    omega

theorem stays_mayReuseFrame (argc : Nat) {b n : Nat} (h : s.Room σ b n) :
    Stays σ b w s (mayReuseFrame argc) fun reuse s' =>
      s = s' ∧ (reuse = true → argc < s.heightOf s.current) := by
  apply stays_get
  dsimp only
  split
  · exact stays_pure ⟨rfl, nofun⟩
  · split
    · apply stays_bind (stays_peek_lt argc h)
      rintro v _ _ ⟨rfl, enough⟩
      split <;> exact stays_pure ⟨rfl, fun _ => enough⟩
    · exact stays_pure ⟨rfl, nofun⟩

/-- One instruction of the running frame. -/
theorem execute_turned (p : Proto) {scope : Scope} (i : Instruction) (base : scope.base = g.base)
    (steady : Steady σ g.base w s t) (room : t.Room σ g.base (i.reach (top t)))
    (hs : (s.shape s.current).standing = g :: rest)
    (written : σ → i.op = .store → ∀ index name c owner slot,
      p.symbols[operand i.a]? = some (.upvalue index name) →
      t.upvalueCell scope.closure index = .ok c → t.cell c = .opened owner slot → w owner slot) :
    Turned σ w s g rest ip ((do return some (← execute p scope ip i)) t) := by
  by_cases hr : i.op = .ret
  · obtain ⟨op, a, c⟩ := i
    subst hr
    simp only [execute, Instruction.reach] at room ⊢
    split at room
    · simp only [‹a = 0›, ↓reduceIte, bind_assoc, pure_bind]
      exact return_turned steady room hs
    · simp only [‹¬a = 0›, ↓reduceIte, bind_assoc, pure_bind]
      exact turned_bind steady (stays_pop room) fun v s' steady room => return_turned steady room hs
  by_cases ht : i.op = .tailCall
  · obtain ⟨op, a, c⟩ := i
    subst ht
    simp only [execute, Instruction.reach, tailCall, bind_assoc] at room ⊢
    refine turned_bind steady (stays_mayReuseFrame (operand a) room) ?_
    rintro reuse _ _ ⟨rfl, enough⟩
    cases reuse with
    | true =>
      simp only [↓reduceIte, bind_assoc, pure_bind]
      exact takeOver_turned steady room (enough rfl) hs
    | false => exact .asked steady ⟨⟨rfl, rfl⟩, room⟩
  · exact turned_bind steady (execute_stays p i base room hr ht written) fun _ _ => .asked

/-! ## Before the instruction -/

structure Undisturbed (s s' : State ν) : Prop where
  stack : s'.processor.stack = s.processor.stack
  cells : s'.cells = s.cells
  closures : s'.closures = s.closures

theorem Undisturbed.trans (h : Undisturbed s s') (h' : Undisturbed s' t) : Undisturbed s t :=
  ⟨h'.stack.trans h.stack, h'.cells.trans h.cells, h'.closures.trans h.closures⟩

/-- Variables are assigned in frames that the statements without heights do not look into. -/
theorem assignSymbol_ok (hσ : ¬ σ) {sym : Symbol} {v : Value} {b : Nat}
    (h : s.assignSymbol sym v = .ok s') :
    Steady σ b w s s' ∧ s'.heightOf s.current = s.heightOf s.current := by
  unfold State.assignSymbol at h
  split at h
  · exact writeSymbol_ok (fun hσ' => absurd hσ' hσ) (fun hσ' => absurd hσ' hσ) h
  · split at h
    · cases h
      exact ⟨Aside.steady ⟨rfl, rfl, rfl, rfl, rfl⟩, rfl⟩
    · contradiction

theorem stays_assignAll (hσ : ¬ σ) (vs : List (String × Value)) {b : Nat} (h : s.Room σ b 0) :
    Stays σ b w s (assignAll vs) fun _ s' => s'.Room σ b 0 := by
  induction vs generalizing s with
  | nil => exact stays_pure h
  | cons entry rest ih =>
    have refused : ∀ {sym : Symbol} {v : Value} {e : Fault}, s.assignSymbol sym v = .error e →
        e.isStray = false := by
      intro sym v e he
      unfold State.assignSymbol at he
      split at he
      · exact writeSymbol_error he
      · split at he
        · contradiction
        · cases he
          rfl
    apply stays_get
    apply stays_bind (stays_ofExcept h fun _ => refused)
    rintro s' _ _ ⟨rfl, hs⟩
    have steady := (assignSymbol_ok (w := w) (b := b) hσ hs).1
    exact stays_set_bind steady (ih ⟨steady.hasCurrent h.hasCurrent, fun hσ' => absurd hσ' hσ⟩)

/-- The state is ready for the instruction that was to be executed in another. -/
structure Ready (σ : Prop) (b : Nat) (s s' : State ν) : Prop where
  room : s'.Room σ b 0
  undisturbed : σ → Undisturbed s s'

theorem Ready.refl {b : Nat} (h : s.Room σ b 0) : Ready σ b s s := ⟨h, fun _ => ⟨rfl, rfl, rfl⟩⟩

theorem Ready.trans {b : Nat} (h : Ready σ b s s') (h' : Ready σ b s' t) : Ready σ b s t :=
  ⟨h'.room, fun hσ => (h.undisturbed hσ).trans (h'.undisturbed hσ)⟩

/-- The world changes. -/
theorem stays_ready {f : State ν → State ν} {b : Nat} (h : Ready σ b s t)
    (hf : ∃ world, f t = { t with world }) :
    Stays σ b w t (modify f) fun _ s' => Ready σ b s s' := by
  obtain ⟨world, hf⟩ := hf
  have steady : Steady σ b w t (f t) := by
    rw [hf]
    exact Aside.steady ⟨rfl, rfl, rfl, rfl, rfl⟩
  refine stays_modify steady (h.trans ?_)
  rw [hf] at steady ⊢
  exact ⟨h.room.steady steady rfl, fun _ => ⟨rfl, rfl, rfl⟩⟩

/-- The assignments that a debugger makes at a stop, none where slots are to stay. -/
theorem stays_assigned (observer : Observer) {b : Nat} (h : Ready σ b s t)
    (none : σ → ∀ a ∈ observer.assignments, a.1 ≠ observer.hits + 1) :
    Stays σ b w t (assignAll ((observer.assignments.filter fun (n, _) =>
      n == observer.hits + 1).map Prod.snd)) fun _ s' => Ready σ b s s' := by
  by_cases hσ : σ
  · have nothing : observer.assignments.filter (fun a => a.1 == observer.hits + 1) = [] :=
      List.filter_eq_nil_iff.2 fun a ha => by simpa using none hσ a ha
    rw [nothing]
    exact stays_pure h
  · exact (stays_assignAll hσ _ h.room).imp fun _ _ room => ⟨room, fun hσ' => absurd hσ' hσ⟩

theorem stays_observe (observer : Observer) (stop : Stop) {b : Nat} (h : Ready σ b s t)
    (none : σ → ∀ a ∈ observer.assignments, a.1 ≠ observer.hits + 1) :
    Stays σ b w t (observe observer stop) fun _ s' => Ready σ b s s' := by
  have failed : ∀ {s'}, Ready σ b s s' → Stays σ b w s'
      (if observer.failAt = some (observer.hits + 1) then
        throw (Fault.raiseText "stopped by debugger") else pure ()) fun _ s' => Ready σ b s s' := by
    intro s' h
    split
    · exact stays_throw h.room rfl
    · exact stays_pure h
  unfold observe
  apply stays_bind (stays_ready h ⟨_, rfl⟩)
  intro _ t' _ h
  apply stays_get
  apply stays_bind (stays_ready h ⟨_, rfl⟩)
  intro _ t'' _ h
  apply stays_bind (stays_assigned observer h none)
  intro _ _ _ h
  by_cases detached : observer.detachAt = some (observer.hits + 1)
  · simp only [if_pos detached]
    refine stays_bind (stays_ready h ?_) fun _ _ _ => failed
    exact ⟨_, rfl⟩
  · simp only [if_neg detached]
    exact failed h

theorem stays_checkpoint (p : Proto) {b : Nat} (h : Ready σ b s t)
    (none : σ → ∀ o, t.world.debugger = some o → ∀ a ∈ o.assignments, a.1 ≠ o.hits + 1) :
    Stays σ b w t (checkpoint p ip) fun _ s' => Ready σ b s s' := by
  apply stays_get
  split
  · split
    · exact stays_observe _ _ h fun hσ => none hσ _ ‹_›
    · exact stays_pure h
  · exact stays_pure h

theorem stays_countInstruction {b : Nat} (h : s.Room σ b 0) :
    Stays σ b w s countInstruction fun _ s' =>
      ∃ count, s' = { s with instructionCount := count } := by
  have counted : Steady σ b w s { s with instructionCount := s.instructionCount + 1 } :=
    Aside.steady ⟨rfl, rfl, rfl, rfl, rfl⟩
  apply stays_get
  apply stays_set_bind counted
  split
  · split
    · exact stays_throw (h.steady counted rfl) rfl
    · exact stays_pure ⟨_, rfl⟩
  · exact stays_pure ⟨_, rfl⟩

/-- The share of a coroutine is used up, or the instruction is counted. -/
theorem shareUsedUp_cases (ip : Nat) (s : State ν) {b : Nat} :
    (s.isYieldable = true ∧ shareUsedUp ip s = .ok true (s.modifyProcessor fun p =>
      { p with sinceResume := 0, pending := some (.instruction ip, {}) })) ∨
    ∃ s', shareUsedUp ip s = .ok false s' ∧ Steady σ b w s s' ∧ Undisturbed s s' ∧
      s'.world = s.world := by
  by_cases shared : (decide (0 < s.processor.autoYield) && s.isYieldable) = true
  · by_cases used : s.processor.autoYield < s.processor.sinceResume + 1
    · refine .inl ⟨(Bool.and_eq_true_iff.1 shared).2, ?_⟩
      simp only [shareUsedUp, bind, EStateM.bind, get, getThe, MonadStateOf.get, EStateM.get,
        shared, used, ↓reduceIte]
      rfl
    · refine .inr ⟨s.modifyProcessor fun p => { p with sinceResume := p.sinceResume + 1 },
        ?_, ⟨local_modifyProcessor _ fun _ _ _ _ _ => rfl, ?_⟩, ⟨?_, rfl, rfl⟩, rfl⟩
      · simp only [shareUsedUp, bind, EStateM.bind, get, getThe, MonadStateOf.get, EStateM.get,
          shared, used, ↓reduceIte]
        rfl
      · exact State.view_modifyProcessorOf s _ _ _ Processor.shape fun _ => rfl
      · exact State.view_modifyProcessorOf s _ _ _ Processor.stack fun _ => rfl
  · refine .inr ⟨s, ?_, .refl s, ⟨rfl, rfl, rfl⟩, rfl⟩
    simp only [shareUsedUp, bind, EStateM.bind, get, getThe, MonadStateOf.get, EStateM.get,
      shared]
    rfl

/-- **One turn of a loop** whose running frame is a script frame. -/
theorem executeAt_turned (room : s.Room σ g.base 0)
    (hs : (s.shape s.current).standing = g :: rest) (script : g.isNative = false)
    (tame : σ → s.Tame ip) (written : σ → ∀ c j, s.Writes ip c j → w c j) :
    Turned σ w s g rest ip (executeAt ip s) := by
  obtain ⟨fs, frame, hframes, rfl, rfl⟩ := exists_top hs
  have top : s.processor.frames.back? = some frame := by simp [hframes]
  obtain ⟨c, hc⟩ : ∃ c, frame.callee = .script c := by
    cases hcallee : frame.callee with
    | script c => exact ⟨c, rfl⟩
    | native n => simp [Frame.activation, Frame.isNative, hcallee] at script
  have scope : runningScope s = .ok ((s.closure c).proto, ⟨c, frame.base⟩) s := by
    simp only [runningScope, topFrame?, bind, EStateM.bind, get, getThe, MonadStateOf.get,
      EStateM.get, pure, EStateM.pure, top, hc]
  cases hcode : (s.closure c).proto.code[ip]? with
  | none =>
    have fetched : fetch (s.closure c).proto ip s =
        .error (.defect (.instructionOutOfRange ip (s.closure c).proto.name)) s := by
      simp only [fetch, hcode]
      rfl
    simp only [executeAt, bind, EStateM.bind, scope, fetched]
    exact .failed (.refl s) rfl room
  | some i =>
    have fetched : fetch (s.closure c).proto ip s = .ok i s := by
      simp only [fetch, hcode]
      rfl
    have found : s.instruction? ip = some ((s.closure c).proto, ⟨c, frame.base⟩, i) := by
      simp [State.instruction?, top, Frame.closure?, hc, hcode]
    simp only [executeAt, bind, EStateM.bind, scope, fetched]
    change Turned σ w s frame.activation _ ip ((countInstruction >>= fun _ =>
      shareUsedUp ip >>= fun used =>
        if used then pure none
        else checkpoint (s.closure c).proto ip >>= fun _ =>
          execute (s.closure c).proto ⟨c, frame.base⟩ ip i >>= fun e => pure (some e)) s)
    refine turned_bind (.refl s) (stays_countInstruction room) ?_
    rintro _ _ steady ⟨count, rfl⟩
    obtain ⟨yieldable, used⟩ | ⟨t, counted, steady', undisturbed, world⟩ :=
      shareUsedUp_cases (σ := σ) (w := w) (b := frame.activation.base) ip
        { s with instructionCount := count }
    · simp only [bind, EStateM.bind, used]
      have current : State.HasCurrent { s with instructionCount := count } := room.hasCurrent
      refine .forced yieldable (steady.toLocal.trans ?_) ?_ ?_
      · exact local_modifyProcessor _ fun _ _ _ _ _ => rfl
      · exact congrArg Processor.shape (State.processor_modifyProcessor current _)
      · exact State.view_modifyProcessorOf _ _ _ _ (fun p => p.stack.size) fun _ => rfl
    · simp only [bind, EStateM.bind, counted]
      have steady := steady.trans steady'
      have ready : Ready σ frame.activation.base s t := by
        refine ⟨⟨steady.hasCurrent room.hasCurrent, fun hσ => ?_⟩, fun _ => ?_⟩
        · have := room.height hσ
          simp only [State.heightOf, State.stackOf] at this ⊢
          have same : (t.processorOf t.current).stack = (s.processorOf s.current).stack :=
            undisturbed.stack
          rwa [same]
        · exact ⟨undisturbed.stack, undisturbed.cells, undisturbed.closures⟩
      have none : σ → ∀ o, t.world.debugger = some o → ∀ a ∈ o.assignments, a.1 ≠ o.hits + 1 := by
        rw [world]
        exact fun hσ => (tame hσ).debugger
      refine turned_bind steady (stays_checkpoint _ ready none) fun _ u steady ready => ?_
      refine execute_turned _ i rfl steady ⟨ready.room.hasCurrent, fun hσ => ?_⟩ hs ?_
      · have := (tame hσ).reach _ _ _ found
        have same : (u.processorOf u.current).stack = (s.processorOf s.current).stack :=
          (ready.undisturbed hσ).stack
        simp only [Exec.top, State.processor, State.heightOf, State.stackOf, same] at this ⊢
        exact this
      · intro hσ hop index name cell owner slot hsym hcell hopen
        refine written hσ owner slot ⟨_, _, i, index, name, cell, found, hop, hsym, ?_, ?_⟩
        · simpa only [State.upvalueCell, State.closure, (ready.undisturbed hσ).closures] using hcell
        · simpa only [State.cell, (ready.undisturbed hσ).cells] using hopen

end Exec

end ScriptMachine
