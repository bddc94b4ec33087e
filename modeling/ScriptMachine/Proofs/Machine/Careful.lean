import ScriptMachine.Proofs.Machine.Assigning
import ScriptMachine.Proofs.Machine.Budget

/-!
# Careful instructions

What instructions do to variables, as long as they leave captured slots and the slots of other
frames alone.

* `Turn`: an instruction as it takes effect, and `State.turn?` for that of a state.
* `Turn.Careful`: it reaches for no captured slot and for none below the base of its frame, and a
  function begins before any of its slots is captured.
* `Turn.Spares`: a slot of the frame is left alone as well.
* `Turn.writes`: a store writes a variable. `execute_upholds`: nothing else changes one.
-/

namespace ScriptMachine

variable {ν α β : Type} {L : Locals} {ws ws' : List Write} {s s' : State ν} {n m b : Nat}

/-! ## Before an instruction takes effect -/

namespace Exec

/-- An instruction is found and counted, unless a yield is forced. -/
def approach (ip : Nat) : Exec ν (Option ((Proto × Scope) × Instruction)) := do
  let x ← ofExcept ((← get).instructionAt ip)
  countInstruction
  if ← shareUsedUp ip then return none else return some x

end Exec

def State.shown (s : State ν) (observer : Observer) (stop : Stop) : State ν :=
  let s := s.setDebugger (some { observer with hits := observer.hits + 1 })
  s.record (.stopped stop (observer.watches.map s.watch))

def Observer.assigns (observer : Observer) : List (String × Value) :=
  (observer.assignments.filter fun (n, _) => n == observer.hits + 1).map Prod.snd

/-- What a debugger writes before the instruction at an address. -/
def State.stopWrites (s : State ν) (p : Proto) (ip : Nat) : List Write :=
  match s.world.debugger, p.span? ip with
  | some observer, some span =>
    if span.isStop then
      (s.shown observer ⟨ip, span.fromLine, p.name, s.callDepth⟩).assigned observer.assigns
    else []
  | _, _ => []

/-- What is written before the instruction at an address of the top frame takes effect. -/
def State.beforehand (s : State ν) (ip : Nat) : List Write :=
  match Exec.approach ip s with
  | .ok (some x) t => t.stopWrites x.1.1 ip
  | _ => []

namespace Exec

theorem prepare_eq_approach (ip : Nat) : prepare ip = (approach ip >>= fun
    | none => pure none
    | some x => do
      checkpoint x.1.1 ip
      return some x : Exec ν (Option ((Proto × Scope) × Instruction))) := by
  simp only [prepare, approach, bind_assoc]
  refine congrArg _ (funext fun s => congrArg _ (funext fun x => congrArg _ (funext fun _ =>
    congrArg _ (funext fun used => ?_))))
  cases used <;> simp

theorem shareUsedUp_level (ip : Nat) (s : State ν) :
    ∃ used t, shareUsedUp ip s = .ok used t ∧ t.current = s.current ∧ Level s t := by
  have counts : ∀ f : Processor → Processor,
      (∀ p, (f p).stack = p.stack ∧ (f p).frames = p.frames) →
      (s.modifyProcessor f).current = s.current ∧ Level s (s.modifyProcessor f) :=
    fun f same => ⟨rfl, Machine.level_modifyProcessor s f same⟩
  simp only [shareUsedUp, bind, EStateM.bind, get, getThe, MonadStateOf.get, EStateM.get]
  split
  · split
    · exact ⟨true, _, rfl, counts _ fun _ => ⟨rfl, rfl⟩⟩
    · exact ⟨false, _, rfl, counts _ fun _ => ⟨rfl, rfl⟩⟩
  · exact ⟨false, s, rfl, rfl, .refl s⟩

/-- Until it is found and counted, no stack, frame or cell changes. -/
theorem approach_leads (tidy : s.Tidy L) (ip : Nat) :
    Leads (fun s t => Level s t ∧ Carries L [] (s.callsOf s.current).length s t) s (approach ip)
      fun r _ => ∀ x, r = some x → s.instructionAt ip = .ok x := by
  have counted : Level s s.counted := .of_processors rfl rfl rfl
  obtain ⟨used, t, share, current, level⟩ := shareUsedUp_level ip s.counted
  have level := counted.trans level
  have carries := level.carries current tidy
  cases found : s.instructionAt ip with
  | error e =>
    refine leads_of_error e s ?_ ⟨.refl s, .refl tidy (Nat.le_refl _)⟩
    simp only [approach, bind, EStateM.bind, get, getThe, MonadStateOf.get, EStateM.get, found]
    rfl
  | ok x =>
    have run : approach ip s = (countInstruction >>= fun _ => shareUsedUp ip >>= fun used =>
        if used then pure none else pure (some x) : Exec ν _) s := by
      simp only [approach, bind, EStateM.bind, get, getThe, MonadStateOf.get, EStateM.get, found]
      rfl
    simp only [bind, EStateM.bind, countInstruction_eq] at run
    cases spent : s.spent with
    | true =>
      simp only [spent, ↓reduceIte] at run
      exact leads_of_error _ _ run ⟨counted, counted.carries rfl tidy⟩
    | false =>
      simp only [spent, Bool.false_eq_true, ↓reduceIte, share] at run
      cases used with
      | true => exact leads_of_ok none t run ⟨level, carries⟩ nofun
      | false =>
        exact leads_of_ok (some x) t run ⟨level, carries⟩ fun y hy => by rw [← Option.some.inj hy]

theorem Within.imp {R R' : State ν → State ν → Prop} {work : Exec ν α} (h : Within R s work)
    (imp : ∀ t, R s t → R' s t) : Within R' s work := by
  unfold Within at h ⊢
  cases run : work s with
  | ok a t =>
    rw [run] at h
    exact imp t h
  | error e t =>
    rw [run] at h
    exact imp t h

/-- A debugger writes what it assigns. -/
theorem observe_within (tidy : s.Tidy L) (deep : n ≤ (s.callsOf s.current).length)
    (observer : Observer) (stop : Stop) :
    Within (Carries L ((s.shown observer stop).assigned observer.assigns) n) s
      (observe observer stop) := by
  let ends : Exec ν Unit := do
    if observer.detachAt = some (observer.hits + 1) then modify fun s => s.setDebugger none
    if observer.failAt = some (observer.hits + 1) then throw (.raiseText "stopped by debugger")
  have ended : ∀ s : State ν, Within (fun s t => ∃ world, t = { s with world }) s ends := by
    intro s
    unfold ends
    by_cases detaches : observer.detachAt = some (observer.hits + 1) <;>
      by_cases fails : observer.failAt = some (observer.hits + 1) <;>
      simp only [detaches, fails, ↓reduceIte] <;> exact ⟨_, rfl⟩
  have run : observe observer stop s =
    (assignAll observer.assigns >>= fun _ => ends) (s.shown observer stop) := rfl
  have level : Level s (s.shown observer stop) := .of_world _
  have shown := (level.carries rfl tidy).mono deep
  have assigned := assignAll_within shown.tidy shown.deep observer.assigns
  unfold Within at assigned ⊢
  rw [run]
  simp only [bind, EStateM.bind]
  cases assign : assignAll observer.assigns (s.shown observer stop) with
  | error e t =>
    rw [assign] at assigned
    exact shown.trans assigned
  | ok _ t =>
    rw [assign] at assigned
    have carries := shown.trans assigned
    have last : Within (Carries L [] n) t ends := (ended t).imp fun u => by
      rintro ⟨world, rfl⟩
      exact ((Level.of_world world).carries rfl carries.tidy).mono
        (carries.current ▸ carries.deep)
    unfold Within at last
    dsimp only
    cases ending : ends t with
    | ok _ u =>
      rw [ending] at last
      exact carries.trans_quiet last
    | error e u =>
      rw [ending] at last
      exact carries.trans_quiet last

theorem checkpoint_within (tidy : s.Tidy L) (deep : n ≤ (s.callsOf s.current).length) (p : Proto)
    (ip : Nat) : Within (Carries L (s.stopWrites p ip) n) s (checkpoint p ip) := by
  have refl : Carries L [] n s s := .refl tidy deep
  unfold checkpoint State.stopWrites
  apply within_get
  cases s.world.debugger with
  | none => exact refl
  | some observer =>
    cases p.span? ip with
    | none => exact refl
    | some span =>
      dsimp only
      split
      · exact observe_within tidy deep ..
      · exact refl

end Exec

/-! ## Turns -/

/-- An instruction as it takes effect, in the state that its frame has made of the stack. -/
structure Turn (ν : Type) where
  address : Nat
  proto : Proto
  scope : Scope
  instruction : Instruction
  state : State ν

/-- The instruction at an address of the top frame, if it takes effect. -/
def State.turn? (s : State ν) (ip : Nat) : Option (Turn ν) :=
  match Exec.prepare ip s with
  | .ok (some x) t => some ⟨ip, x.1.1, x.1.2, x.2, t⟩
  | _ => none

def State.openSlots (s : State ν) : List Nat :=
  (s.processor.frames.back?.elim [] Frame.cells).filterMap fun x => (s.cell x).slot?

/-- A local slot that the symbol names is in the stack. -/
def Symbol.Inside (scope : Scope) (height : Nat) : Symbol → Prop
  | .slot index _ => scope.base + index < height
  | .upvalue _ _ | .defaultEnv | .global _ _ => True

instance (scope : Scope) (height : Nat) : (sym : Symbol) → Decidable (sym.Inside scope height)
  | .slot index _ => inferInstanceAs (Decidable (scope.base + index < height))
  | .upvalue _ _ | .defaultEnv | .global _ _ => inferInstanceAs (Decidable True)

namespace Turn

/-- How many of the topmost slots the instruction pops, replaces or passes to a call. -/
def reach (t : Turn ν) : Nat := t.instruction.reach (Exec.top t.state)

def height (t : Turn ν) : Nat := t.state.heightOf t.state.current

def child? (t : Turn ν) : Option Proto :=
  (t.state.closure t.scope.closure).proto.protos[Exec.operand t.instruction.a]?

def captured (t : Turn ν) : List Symbol :=
  if t.instruction.op = .closure then t.child?.elim [] Proto.upvalues else []

def reuses (t : Turn ν) : Bool :=
  match Exec.mayReuseFrame (Exec.operand t.instruction.a) t.state with
  | .ok reuse _ => reuse
  | .error _ _ => false

/-- The instruction reaches for no captured slot of its frame, and for none below. -/
structure Careful (t : Turn ν) : Prop where
  /-- A function begins before any of its slots is captured. -/
  fresh : t.instruction.op = .beginFn → t.state.openSlots = []
  /-- It does not reach below the base. -/
  above : t.scope.base + t.reach ≤ t.height
  /-- It does not reach for a captured slot. -/
  clear : ∀ k ∈ t.state.openSlots, k + t.reach < t.height
  /-- What is captured is there. -/
  inside : ∀ sym ∈ t.captured, sym.Inside t.scope t.height

instance (t : Turn ν) : Decidable t.Careful :=
  decidable_of_iff ((t.instruction.op = .beginFn → t.state.openSlots = []) ∧
    t.scope.base + t.reach ≤ t.height ∧ (∀ k ∈ t.state.openSlots, k + t.reach < t.height) ∧
    ∀ sym ∈ t.captured, sym.Inside t.scope t.height)
    ⟨fun ⟨fresh, above, clear, inside⟩ => ⟨fresh, above, clear, inside⟩,
      fun h => ⟨h.fresh, h.above, h.clear, h.inside⟩⟩

/-- The instruction leaves a slot of its frame alone, apart from writes, and the slot stays the same
variable. -/
def Spares (t : Turn ν) (k : Nat) : Prop :=
  if t.instruction.op = .beginFn ∨ t.instruction.op = .ret then False
  else if t.instruction.op = .closeUpvalues then
    k < t.scope.base + Exec.operand t.instruction.a ∨
      t.scope.base + Exec.operand t.instruction.b < k
  else (t.instruction.op = .tailCall → t.reuses = false) ∧ k + t.reach < t.height

instance (t : Turn ν) (k : Nat) : Decidable (t.Spares k) := by
  unfold Spares
  infer_instance

/-- What a store stores. -/
def stored (t : Turn ν) : Option Value :=
  (t.state.processor.stack.peek? 0).map fun v =>
    if 0 < t.instruction.b then (v.items[(t.instruction.b.toInt - 1).toNat]?.getD .nil).scalar
    else v.scalar

def writes (t : Turn ν) : List Write :=
  if t.instruction.op = .store then
    match t.proto.symbols[Exec.operand t.instruction.a]?, t.stored with
    | some sym, some v => t.state.writesOf t.scope v sym
    | _, _ => []
  else []

end Turn

namespace Exec

/-- Before an instruction takes effect, nothing is written but by a debugger. -/
theorem prepare_leads (tidy : s.Tidy L) (ip : Nat) :
    Leads (fun s' t => t.framesOf s'.current = s'.framesOf s'.current ∧
        Carries L (s.beforehand ip) (s.callsOf s.current).length s' t) s (prepare ip)
      fun r _ => ∀ x, r = some x → s.instructionAt ip = .ok x := by
  have approached := approach_leads tidy ip
  have kept : ∀ {t : State ν}, Level s t → t.framesOf s.current = s.framesOf s.current :=
    fun level => congrArg (List.map Frame.outline) (level.shallow.calls _)
  have start : prepare ip s = (approach ip >>= fun
    | none => pure none
    | some x => do
      checkpoint x.1.1 ip
      return some x : Exec ν (Option ((Proto × Scope) × Instruction))) s := by
    rw [prepare_eq_approach]
  simp only [bind, EStateM.bind] at start
  unfold State.beforehand
  cases run : approach ip s with
  | error e t =>
    rw [run] at start
    obtain ⟨level, carries⟩ := approached.error e t run
    exact leads_of_error e t start ⟨kept level, carries⟩
  | ok r t =>
    rw [run] at start
    obtain ⟨⟨level, carries⟩, found⟩ := approached.ok r t run
    cases r with
    | none => exact leads_of_ok none t start ⟨kept level, carries⟩ nofun
    | some x =>
      have deep : (s.callsOf s.current).length ≤ (t.callsOf t.current).length := by
        rw [carries.current]
        exact carries.deep
      have checked := checkpoint_within carries.tidy deep x.1.1 ip
      have rigid := keeps_checkpoint (s := t) x.1.1 ip
      dsimp only at start ⊢
      unfold Within at checked
      unfold Keeps at rigid
      cases check : checkpoint x.1.1 ip t with
      | error e u =>
        rw [check] at checked rigid
        simp only [EStateM.bind, check] at start
        exact leads_of_error e u start
          ⟨(rigid.frames _).trans (kept level), carries.trans checked⟩
      | ok _ u =>
        rw [check] at checked rigid
        simp only [EStateM.bind, check] at start
        exact leads_of_ok (some x) u start
          ⟨(rigid.frames _).trans (kept level), carries.trans checked⟩ found

/-- An instruction takes effect in the state of its turn. -/
theorem executeAt_of_turn {t : Turn ν} {ip : Nat} (turn : s.turn? ip = some t) :
    t.address = ip ∧ prepare ip s = .ok (some ((t.proto, t.scope), t.instruction)) t.state ∧
      executeAt ip s =
        (do return some (← execute t.proto t.scope ip t.instruction)) t.state := by
  unfold State.turn? at turn
  rw [executeAt_eq_prepare]
  simp only [bind, EStateM.bind]
  split at turn
  · rename_i x u prepared
    rw [prepared]
    cases turn
    exact ⟨rfl, rfl, rfl⟩
  · cases turn

/-- No instruction takes effect. -/
theorem executeAt_of_none {ip : Nat} (turn : s.turn? ip = none) :
    (∃ e t, prepare ip s = .error e t ∧ executeAt ip s = .error e t) ∨
      ∃ t, prepare ip s = .ok none t ∧ executeAt ip s = .ok none t := by
  unfold State.turn? at turn
  rw [executeAt_eq_prepare]
  simp only [bind, EStateM.bind]
  cases prepared : prepare ip s with
  | error e t => exact .inl ⟨e, t, rfl, rfl⟩
  | ok r t =>
    rw [prepared] at turn
    cases r with
    | none => exact .inr ⟨t, rfl, rfl⟩
    | some x => cases turn

end Exec

/-! ## What instructions do -/

/-- The turn is that of a script frame, in a tidy state. -/
structure Turn.Sits (L : Locals) (t : Turn ν) (f : Frame) (rest : List Frame) : Prop where
  tidy : t.state.Tidy L
  here : t.state.HasCurrent
  calls : t.state.callsOf t.state.current = f :: rest
  script : f.isNative = false
  base : t.scope.base = f.base

/-- The operands of what an instruction asks for are above pinned slots. -/
def Effect.Fits (L : Locals) (e : Effect) (s : State ν) : Prop :=
  ∃ b, s.Clear L b (s.callsOf s.current).length ∧ b + e.operands ≤ s.heightOf s.current

theorem State.Tidy.clear (tidy : s.Tidy L) (here : s.HasCurrent) :
    s.Clear L (s.heightOf s.current) (s.callsOf s.current).length :=
  ⟨tidy, here, tidy.pinned _, rfl⟩

/-- Without operands there is nothing to look at. -/
theorem Effect.fits_of_operands {e : Effect} (none : e.operands = 0) (tidy : s.Tidy L)
    (here : s.HasCurrent) : e.Fits L s :=
  ⟨_, tidy.clear here, Nat.le_of_eq (by rw [none]; rfl)⟩

theorem State.mem_openSlots {f : Frame} {rest : List Frame} {x : CellId} {o : ThreadId} {k : Nat}
    (calls : s.callsOf s.current = f :: rest) (member : x ∈ f.cells) (h : s.cell x = .opened o k) :
    k ∈ s.openSlots := by
  unfold openSlots
  rw [back?_of_calls calls]
  exact List.mem_filterMap.2 ⟨x, member, by rw [h]; rfl⟩

namespace Turn

variable {t : Turn ν} {f : Frame} {rest : List Frame}

/-- What a careful instruction reaches for is above pinned slots. -/
theorem Sits.clear (sits : t.Sits L f rest) (careful : t.Careful)
    (spared : ∀ k, L t.state.current (rest.length + 1) k → k + t.reach < t.height) :
    t.state.Clear L (t.height - t.reach) (rest.length + 1) where
  tidy := sits.tidy
  here := sits.here
  deep := congrArg List.length sits.calls
  pinned := by
    have top := sits.tidy.pinned t.state.current
    rw [sits.calls] at top ⊢
    have := careful.above
    have : f.activation.base = t.scope.base := sits.base.symm
    have := f.activation.floor_le_base
    refine ⟨⟨fun x hx o k hk => ?_, fun k hk => ?_⟩, top.2.mono ?_⟩
    · obtain ⟨script, own, low, -⟩ := top.1.cells x hx o k hk
      have := careful.clear k (State.mem_openSlots sits.calls hx hk)
      exact ⟨script, own, low, by omega⟩
    · obtain ⟨script, low, -⟩ := top.1.locals k hk
      have := spared k hk
      exact ⟨script, low, by omega⟩
    · omega

end Turn

/-- What a write to a symbol changes does not depend on the stack. -/
theorem Shallow.writesOf (h : Shallow s s') (current : s'.current = s.current) (scope : Scope)
    (v : Value) (sym : Symbol) : s'.writesOf scope v sym = s.writesOf scope v sym := by
  have open_ : ∀ c k, s'.openCell? c k = s.openCell? c k := fun c k => by
    simp only [State.openCell?, State.findOpenCell, h.calls, h.cell]
  have upvalue : ∀ g i, s'.upvalueCell g i = s.upvalueCell g i := fun g i => by
    simp only [State.upvalueCell, State.closure, h.closures]
  cases sym <;> simp only [State.writesOf, open_, upvalue, current, h.cell]

namespace Exec

variable {scope : Scope} {ip : Nat}

/-- Work that does the same in related states does so next to itself. -/
theorem Mirrors.shallow {work : Exec ν Effect}
    (h : Mirrors (Fixed Shallow s) s s work work (Asked (Fixed Shallow s))) :
    Within Shallow s work := by
  unfold Mirrors at h
  unfold Within
  cases run : work s with
  | ok a t =>
    rw [run] at h
    obtain ⟨_, -, -, shallow⟩ := h.of_ok
    exact shallow
  | error e t =>
    rw [run] at h
    obtain ⟨_, -, -, shallow⟩ := h.of_error
    exact shallow

/-- Operands that an instruction asks a call for are above what it reaches for. -/
theorem leads_of_stays {work : Exec ν Effect} (clear : s.Clear L b m)
    (stays : Stays True b unwritten s work (Asks True b ip)) (shallow : Within Shallow s work) :
    Leads (Carries L [] m) s work fun e t => e.Fits L t :=
  (stays.leads shallow clear fun _ _ asks => Nat.le_trans (Nat.le_add_right ..)
    (asks.2.height trivial)).imp (fun _ => id) fun _ _ _ ⟨asks, clear⟩ =>
      ⟨b, { clear with deep := rfl }, asks.2.height trivial⟩

/-- What an instruction that works on operands does. -/
theorem plain_leads {t : Turn ν} (clear : t.state.Clear L (t.height - t.reach) m)
    (reach : t.reach ≤ t.height) (plain : t.instruction.op.isPlain = true) :
    Leads (Carries L [] m) t.state (execute t.proto t.scope ip t.instruction)
      fun e s => e.Fits L s := by
  have room : t.state.Room True (t.height - t.reach) (t.instruction.reach (top t.state)) :=
    ⟨clear.here, fun _ => Nat.le_of_eq (Nat.sub_add_cancel reach)⟩
  refine leads_of_stays clear (execute_stays_plain _ _ _ room plain) ?_
  exact Mirrors.shallow (execute_mirrors_plain (Shallow.mirror t.scope t.state) t.proto
    t.instruction ⟨rfl, .refl _⟩ plain)

/-- A write to a variable other than a global. -/
theorem writeSymbol_leads (clear : s.Clear L b m) (scope : Scope) (sym : Symbol) (v : Value)
    (variable_ : ∀ name env, sym ≠ .global name env) :
    Leads (Carries L (s.writesOf scope v sym) m) s
      (writeSymbol scope sym v >>= fun _ => pure Effect.next) fun e t => e.Fits L t := by
  cases run : s.writeSymbol scope v sym with
  | error e =>
    have none : s.writesOf scope v sym = [] := by
      cases sym with
      | slot => cases run
      | defaultEnv => rfl
      | global name env => exact absurd rfl (variable_ name env)
      | upvalue index name =>
        simp only [State.writeSymbol] at run
        cases found : s.upvalueCell scope.closure index with
        | error => simp only [State.writesOf, found]
        | ok x =>
          rw [found] at run
          cases run
    rw [none]
    refine leads_of_error e s ?_ clear.refl
    simp only [writeSymbol, bind, EStateM.bind, get, getThe, MonadStateOf.get, EStateM.get, run]
    rfl
  | ok t =>
    have carries := carries_writeSymbol clear.tidy run
    rw [clear.deep] at carries
    refine leads_of_ok .next t ?_ carries
      (Effect.fits_of_operands rfl carries.tidy (carries.hasCurrent clear.here))
    simp only [writeSymbol, bind, EStateM.bind, get, getThe, MonadStateOf.get, EStateM.get, run]
    rfl

/-- A store to a variable writes it. -/
theorem storeSymbol_leads (clear : s.Clear L b m) (high : b ≤ s.heightOf s.current)
    (scope : Scope) (sym : Symbol) (v : Value) (ip : Nat) :
    Leads (Carries L (s.writesOf scope v sym) m) s (storeSymbol scope sym v (ip + 1))
      fun e t => e.Fits L t := by
  cases sym with
  | global name env =>
    have room : s.Room True b 0 := ⟨clear.here, fun _ => high⟩
    have stays : Stays True b unwritten s (storeSymbol scope (.global name env) v (ip + 1))
        (Asks True b ip) :=
      stays_bind (stays_readSymbol scope env room) fun object _ _ same =>
        stays_storeIndex object _ v (same ▸ room)
    have mirrors : Mirrors (Fixed Shallow s) s s (storeSymbol scope (.global name env) v (ip + 1))
        (storeSymbol scope (.global name env) v (ip + 1)) (Asked (Fixed Shallow s)) :=
      mirrors_bind (mirrors_readSymbol (n := 0) (Shallow.mirror scope s) env ⟨rfl, .refl s⟩)
        fun object _ _ h => mirrors_storeIndex (Shallow.mirror scope s) object _ v h
    exact leads_of_stays clear stays mirrors.shallow
  | slot | upvalue | defaultEnv => exact writeSymbol_leads clear scope _ v nofun

/-- Work goes on after a change that writes nothing. -/
theorem leads_after {work work' : Exec ν α} {post : α → State ν → Prop}
    (carries : Carries L [] m s s') (h : Leads (Carries L ws m) s' work post)
    (same : work' s = work s') : Leads (Carries L ws m) s work' post :=
  ⟨fun a t run => ⟨carries.trans (h.ok a t (same.symm.trans run)).1,
      (h.ok a t (same.symm.trans run)).2⟩,
   fun e t run => carries.trans (h.error e t (same.symm.trans run))⟩

theorem peek_run (i : Nat) (s : State ν) :
    peek i s = present (s.processor.stack.peek? i) s := rfl

theorem shallow_popScalar : Within Shallow s popScalar :=
  within_shallow_bind shallow_pop fun _ s => Shallow.refl s

/-- **A store** writes the variable that it names. -/
theorem store_leads {t : Turn ν} (clear : t.state.Clear L (t.height - t.reach) m)
    (reach : t.reach ≤ t.height) (store : t.instruction.op = .store) :
    Leads (Carries L t.writes m) t.state (execute t.proto t.scope ip t.instruction)
      fun e s => e.Fits L s := by
  obtain ⟨address, p, scope, ⟨op, a, c⟩, s⟩ := t
  obtain rfl : op = .store := store
  have start : execute p scope ip ⟨.store, a, c⟩ s = (symbolOperand p a >>= fun sym =>
      (if 0 < c then peek 0 >>= fun v => pure (v.items[(c.toInt - 1).toNat]?.getD .nil).scalar
        else popScalar) >>= fun v => storeSymbol scope sym v (ip + 1) : Exec ν Effect) s := by
    simp only [execute]
    split <;> simp
  simp only [Turn.height, Turn.reach, Turn.writes, Turn.stored] at clear reach ⊢
  cases found : p.symbols[operand a]? with
  | none =>
    refine leads_of_error (.defect (.symbolOutOfRange a.toInt)) s ?_ clear.refl
    rw [start]
    simp only [symbolOperand, bind, EStateM.bind, found]
    rfl
  | some sym =>
    have start : execute p scope ip ⟨.store, a, c⟩ s =
        ((if 0 < c then peek 0 >>= fun v => pure (v.items[(c.toInt - 1).toNat]?.getD .nil).scalar
          else popScalar) >>= fun v => storeSymbol scope sym v (ip + 1) : Exec ν Effect) s := by
      rw [start]
      simp only [symbolOperand, bind, EStateM.bind, found]
      rfl
    cases top : s.processor.stack.peek? 0 with
    | none =>
      refine leads_of_error (.defect .stackUnderflow) s ?_ clear.refl
      rw [start]
      split
      · simp only [bind, EStateM.bind, peek_run, top]
        rfl
      · simp only [bind, EStateM.bind, popScalar_eq, top]
    | some v =>
      by_cases item : 0 < c
      · simp only [Instruction.reach, item, ↓reduceIte, Option.map_some] at clear reach start ⊢
        refine (storeSymbol_leads clear (Nat.sub_le ..) scope sym _ ip).congr ?_
        rw [start]
        simp only [bind, EStateM.bind, peek_run, top]
        rfl
      · simp only [Instruction.reach, item, ↓reduceIte, Option.map_some] at clear reach start ⊢
        have room : s.Room True (s.heightOf s.current - 1) (0 + 1) :=
          ⟨clear.here, fun _ => by omega⟩
        have popped := (stays_popScalar (w := unwritten) room).leads shallow_popScalar clear
          fun _ _ room => room.height trivial
        have run := popScalar_eq s
        rw [top] at run
        obtain ⟨carries, room, clear⟩ := popped.ok _ _ run
        rw [← (Shallow.of_stack (s := s) _).writesOf rfl]
        refine leads_after carries (storeSymbol_leads clear (room.height trivial) scope sym _ ip) ?_
        rw [start]
        simp only [bind, EStateM.bind, run]

/-- After work that asks for nothing comes the next instruction. -/
theorem leads_next {work : Exec ν Unit} {post : Unit → State ν → Prop} (here : s.HasCurrent)
    (h : Leads (Carries L [] n) s work post) :
    Leads (Carries L [] n) s (work >>= fun _ => pure Effect.next) fun e t => e.Fits L t :=
  leads_bind h (fun _ _ => Carries.trans) fun _ t _ carries _ =>
    leads_of_ok .next t rfl
      (.refl carries.tidy (carries.current ▸ carries.deep))
      (Effect.fits_of_operands rfl carries.tidy (carries.hasCurrent here))

/-- Whether a frame may be taken over is a question. -/
theorem mayReuseFrame_same (argc : Nat) (s : State ν) :
    (∃ reuse, mayReuseFrame argc s = .ok reuse s) ∨ ∃ e, mayReuseFrame argc s = .error e s := by
  simp only [mayReuseFrame, bind, EStateM.bind, get, getThe, MonadStateOf.get, EStateM.get]
  cases s.processor.frames.back? with
  | none => exact .inl ⟨false, rfl⟩
  | some frame =>
    dsimp only
    split
    · simp only [EStateM.bind, peek_run]
      cases s.processor.stack.peek? argc with
      | none => exact .inr ⟨_, rfl⟩
      | some v => cases v <;> exact .inl ⟨_, rfl⟩
    · exact .inl ⟨false, rfl⟩

section Frames

variable {t : Turn ν} {f : Frame} {rest : List Frame} (sits : t.Sits L f rest)
  (careful : t.Careful) (spared : ∀ k, L t.state.current (rest.length + 1) k → t.Spares k)

include sits careful spared

/-- What an instruction does that is neither a return nor a tail call. -/
theorem execute_leads_on (hr : t.instruction.op ≠ .ret) (ht : t.instruction.op ≠ .tailCall) :
    Leads (Carries L t.writes rest.length) t.state
      (execute t.proto t.scope ip t.instruction) fun e s => e.Fits L s := by
  have reach : t.reach ≤ t.height := Nat.le_trans (Nat.le_add_left ..) careful.above
  have clear : t.instruction.op ≠ .beginFn → t.instruction.op ≠ .closeUpvalues →
      t.state.Clear L (t.height - t.reach) (rest.length + 1) := fun hb hc =>
    sits.clear careful fun k hk => by
      have spares := spared k hk
      simp only [Turn.Spares, hb, hr, hc, or_self, ↓reduceIte] at spares
      exact spares.2
  have quiet : t.instruction.op ≠ .store → t.writes = [] := fun hs => if_neg hs
  have less : rest.length ≤ rest.length + 1 := Nat.le_succ _
  by_cases hs : t.instruction.op = .store
  · exact (store_leads (clear (by simp [hs]) (by simp [hs])) reach hs).imp
      (fun _ carries => carries.mono less) fun _ _ _ => id
  rw [quiet hs]
  by_cases hc : t.instruction.op = .closure
  · have run : execute t.proto t.scope ip t.instruction =
        (makeClosure t.scope (operand t.instruction.a) >>= fun _ => pure Effect.next :
          Exec ν Effect) := by
      simp only [execute, hc]
    rw [run]
    refine leads_next sits.here (makeClosure_leads sits.tidy sits.here sits.calls sits.script
      sits.base fun child found index name member => ?_)
    have inside := careful.inside (.slot index name)
    simp only [Turn.captured, Turn.child?, hc, ↓reduceIte, found] at inside
    exact inside member
  by_cases hu : t.instruction.op = .closeUpvalues
  · have run : execute t.proto t.scope ip t.instruction =
        (closeLocals t.scope (operand t.instruction.a) (operand t.instruction.b) >>=
          fun _ => pure Effect.next : Exec ν Effect) := by
      simp only [execute, hu]
    rw [run]
    refine leads_next sits.here (closeLocals_leads sits.tidy sits.here sits.calls sits.base _ _
      fun k hk => ?_)
    have spares := spared k hk
    simpa [Turn.Spares, hu] using spares
  by_cases hb : t.instruction.op = .beginFn
  · have run : execute t.proto t.scope ip t.instruction =
        (beginFunction t.proto t.scope t.instruction >>= fun _ => pure Effect.next :
          Exec ν Effect) := by
      simp only [execute, hb]
    rw [run]
    have begun := beginFunction_leads sits.tidy sits.here sits.calls sits.base
      (fun x hx o k hk => by
        have member := State.mem_openSlots sits.calls hx hk
        rw [careful.fresh hb] at member
        cases member)
      (fun k hk => by simpa [Turn.Spares, hb] using spared k hk) t.proto t.instruction
    rw [sits.calls] at begun
    exact leads_next sits.here (begun.imp (fun _ carries => carries.mono less) fun _ _ _ => id)
  · have plain : t.instruction.op.isPlain = true := by
      generalize t.instruction.op = op at *
      cases op <;> first | rfl | contradiction
    exact (plain_leads (clear hb hu) reach plain).imp (fun _ carries => carries.mono less)
      fun _ _ _ => id

/-- A return pops the frame. -/
theorem return_leads (ret : t.instruction.op = .ret) :
    Leads (Carries L [] rest.length) t.state
      (execute t.proto t.scope ip t.instruction) fun e s => e.Fits L s := by
  have alone : ∀ k, ¬ L t.state.current (rest.length + 1) k := fun k hk => by
    simpa [Turn.Spares, ret] using spared k hk
  have clear := sits.clear careful fun k hk => absurd hk (alone k)
  have reach : t.reach ≤ t.height := Nat.le_trans (Nat.le_add_left ..) careful.above
  -- the frame is popped after the value it returns
  have leaves : ∀ {s : State ν} (v : Value), Carries L [] rest.length t.state s →
      s.callsOf t.state.current = f :: rest → Leads (Carries L [] rest.length) s
        (popFrame >>= fun frame => pure (Effect.leave frame v)) fun e s => e.Fits L s := by
    intro s v carries calls
    rw [← carries.current] at calls alone
    obtain ⟨g, u, run, popped, -⟩ :=
      popFrame_carries carries.tidy (carries.hasCurrent sits.here) calls alone
    refine leads_of_ok (.leave g v) u ?_ popped (Effect.fits_of_operands rfl popped.tidy
      (popped.hasCurrent (carries.hasCurrent sits.here)))
    simp only [bind, EStateM.bind, run]
    rfl
  have refl : Carries L [] rest.length t.state t.state :=
    clear.refl.mono (Nat.le_succ _)
  by_cases none : t.instruction.a = 0
  · have run : execute t.proto t.scope ip t.instruction =
        (popFrame >>= fun frame => pure (Effect.leave frame .void) : Exec ν Effect) := by
      simp only [execute, ret, none, ↓reduceIte, pure_bind]
    rw [run]
    exact leaves _ refl sits.calls
  · have run : execute t.proto t.scope ip t.instruction = (pop >>= fun v =>
        popFrame >>= fun frame => pure (Effect.leave frame v) : Exec ν Effect) := by
      simp only [execute, ret, none, ↓reduceIte]
    have one : t.reach = 1 := by simp [Turn.reach, Instruction.reach, ret, none]
    have room : t.state.Room True (t.height - t.reach) (0 + 1) :=
      ⟨sits.here, fun _ => by change _ ≤ t.height; omega⟩
    have popped := (stays_pop (w := unwritten) room).leads shallow_pop clear
      fun _ _ room => room.height trivial
    rw [run]
    refine leads_bind (popped.imp (fun _ carries => carries.mono (Nat.le_succ _)) fun _ _ _ => id)
      (fun _ _ => Carries.trans) fun v s run carries _ => leaves v carries ?_
    rw [(shallow_pop.ok run).calls]
    exact sits.calls

/-- A frame is taken over: it is popped from under the operands of the call. -/
theorem takeOver_leads (call : t.instruction.op = .tailCall) (reuses : t.reuses = true)
    (name : Option String) :
    let argc := operand t.instruction.a
    Leads (Carries L [] rest.length) t.state (splitOff (t.height - argc - 1) >>= fun operands =>
      popFrame >>= fun frame => pushAll operands >>= fun _ => pure (Effect.call
        { argc, returnAddress := frame.returnAddress
          flags := frame.flags.inherited.union { tailCall := true }, name }))
      fun e s => e.Fits L s := by
  intro argc
  have alone : ∀ k, ¬ L t.state.current (rest.length + 1) k := fun k hk => by
    simpa [Turn.Spares, call, reuses] using spared k hk
  have clear := sits.clear careful fun k hk => absurd hk (alone k)
  have above := careful.above
  have reaches : t.reach = argc + 1 := by simp [Turn.reach, Instruction.reach, call, argc]
  have start : t.height - argc - 1 = t.height - t.reach := by omega
  have tall : t.state.Tall True t.height := ⟨sits.here, fun _ => rfl⟩
  rw [start]
  have split := (stays_splitOff_tall (w := unwritten) (b := t.height - t.reach) tall
    fun _ => ⟨Nat.le_refl _, Nat.sub_le ..⟩).leads (shallow_splitOff _) clear
      fun _ _ h => Nat.le_of_eq (h.1.height trivial).symm
  refine leads_bind (split.imp (fun _ carries => carries.mono (Nat.le_succ _)) fun _ _ _ => id)
    (fun _ _ => Carries.trans) fun operands s run carries hp => ?_
  obtain ⟨⟨tall, length⟩, -⟩ := hp
  have calls : s.callsOf s.current = f :: rest := by
    rw [(shallow_splitOff (s := t.state) _ |>.ok run).calls, carries.current]
    exact sits.calls
  rw [← carries.current] at alone
  obtain ⟨g, u, run, popped, own, height⟩ :=
    popFrame_carries carries.tidy tall.hasCurrent calls alone
  have here := popped.hasCurrent tall.hasCurrent
  rw [← popped.current] at own height
  have pinned := popped.tidy.pinned u.current
  obtain ⟨pushed, height'⟩ := carries_pushAll popped.tidy here operands
  have shallow : Shallow u (u.modifyStack (·.pushAll operands)) := .of_stack _
  have depth : (u.callsOf u.current).length = rest.length := congrArg List.length own
  let asked : Effect := .call { argc, returnAddress := g.returnAddress
                                flags := g.flags.inherited.union { tailCall := true }, name }
  refine leads_of_ok asked (u.modifyStack (·.pushAll operands)) ?_
    (popped.trans (depth ▸ pushed)) ⟨u.heightOf u.current, ⟨pushed.tidy, pushed.hasCurrent here,
      shallow.pinned pinned, rfl⟩, ?_⟩
  · simp only [bind, EStateM.bind, run]
    rfl
  · have := length trivial
    change u.heightOf u.current + (argc + 1) ≤
      (u.modifyStack (·.pushAll operands)).heightOf u.current
    omega

/-- A tail call leaves the frame as it is, or pops it. -/
theorem tailCall_leads (call : t.instruction.op = .tailCall) :
    Leads (Carries L [] rest.length) t.state
      (execute t.proto t.scope ip t.instruction) fun e s => e.Fits L s := by
  have refl : Carries L [] rest.length t.state t.state :=
    .refl sits.tidy (by rw [sits.calls]; exact Nat.le_succ _)
  have run : execute t.proto t.scope ip t.instruction =
      (mayReuseFrame (operand t.instruction.a) >>= fun reuse =>
        if reuse then height >>= fun height =>
          splitOff (height - operand t.instruction.a - 1) >>= fun operands =>
          popFrame >>= fun frame => pushAll operands >>= fun _ => pure (Effect.call
            { argc := operand t.instruction.a, returnAddress := frame.returnAddress
              flags := frame.flags.inherited.union { tailCall := true }
              name := calleeName t.proto t.instruction.b })
        else pure (Effect.call
          { argc := operand t.instruction.a, returnAddress := ip + 1
            name := calleeName t.proto t.instruction.b }) : Exec ν Effect) := by
    simp only [execute, call, tailCall]
  rw [run]
  obtain ⟨reuse, may⟩ | ⟨e, may⟩ := mayReuseFrame_same (operand t.instruction.a) t.state
  · cases reuse with
    | true =>
      have reuses : t.reuses = true := by simp only [Turn.reuses, may]
      have takes := takeOver_leads sits careful spared call reuses
        (calleeName t.proto t.instruction.b)
      refine takes.congr ?_
      simp only [bind, EStateM.bind, may]
      rfl
    | false =>
      have reuses : t.reuses = false := by simp only [Turn.reuses, may]
      have clear := sits.clear careful fun k hk => by
        have spares := spared k hk
        simp [Turn.Spares, call, reuses] at spares
        exact spares
      have above := careful.above
      have reaches : t.reach = operand t.instruction.a + 1 := by
        simp [Turn.reach, Instruction.reach, call]
      refine leads_of_ok (.call { argc := operand t.instruction.a, returnAddress := ip + 1
                                  name := calleeName t.proto t.instruction.b }) t.state ?_ refl
        ⟨t.height - t.reach, { clear with deep := rfl }, ?_⟩
      · simp only [bind, EStateM.bind, may]
        rfl
      · change t.height - t.reach + (operand t.instruction.a + 1) ≤ t.height
        omega
  · refine leads_of_error e t.state ?_ refl
    simp only [bind, EStateM.bind, may]

end Frames

/-- **A careful instruction** changes the variable that it writes, and asks for operands of its
own. If it fails, its frame is still there. -/
theorem execute_leads {t : Turn ν} {f : Frame} {rest : List Frame} (sits : t.Sits L f rest)
    (careful : t.Careful) (spared : ∀ k, L t.state.current (rest.length + 1) k → t.Spares k)
    (ip : Nat) :
    Leads (Carries L t.writes rest.length) t.state (execute t.proto t.scope ip t.instruction)
      fun e s => e.Fits L s := by
  have quiet : t.instruction.op ≠ .store → t.writes = [] := fun hs => if_neg hs
  by_cases hr : t.instruction.op = .ret
  · exact quiet (by simp [hr]) ▸ return_leads sits careful spared hr
  by_cases ht : t.instruction.op = .tailCall
  · exact quiet (by simp [ht]) ▸ tailCall_leads sits careful spared ht
  · exact execute_leads_on sits careful spared hr ht

theorem execute_failed {p : Proto} {scope : Scope} {i : Instruction} {e : Fault}
    (run : execute p scope ip i s = .error e s') : Rigid s s' := by
  have executed : Executed s ip _ := execute_executed p scope i (Rigid.refl s)
  simp only [bind, EStateM.bind, run] at executed
  cases executed with
  | failed rigid => exact rigid

/-- An instruction takes effect on the frame on top. -/
theorem prepare_sits {t : Turn ν} (tidy : s.Tidy L) (here : s.HasCurrent)
    (turn : s.turn? ip = some t) :
    ∃ f rest, t.Sits L f rest ∧ (s.callsOf s.current).length = rest.length + 1 ∧
      t.state.framesOf s.current = s.framesOf s.current ∧
      Carries L (s.beforehand ip) (rest.length + 1) s t.state := by
  obtain ⟨-, prepared, -⟩ := executeAt_of_turn turn
  obtain ⟨⟨frames, carries⟩, found⟩ := (prepare_leads tidy ip).ok _ _ prepared
  obtain ⟨g, top, script, base⟩ := State.runs_of_instructionAt (found _ rfl)
  obtain ⟨fs, hfs⟩ := Array.back?_eq_some_iff.1 top
  have calls : s.callsOf s.current = g :: fs.toList.reverse := by
    simp only [State.processor] at hfs
    simp [State.callsOf, hfs]
  have outlines := frames
  rw [s.framesOf_eq, calls, t.state.framesOf_eq] at outlines
  obtain ⟨f, rest, calls', outline, below⟩ := List.map_eq_cons_iff.1 outlines
  have length : rest.length = fs.toList.reverse.length := by
    simpa using congrArg List.length below
  rw [calls, List.length_cons, ← length] at carries ⊢
  refine ⟨f, rest, ⟨carries.tidy, carries.hasCurrent here, carries.current ▸ calls', ?_, ?_⟩, rfl,
    frames, carries⟩
  · exact (congrArg Frame.isNative outline).trans script
  · exact base.symm.trans (congrArg Frame.base outline).symm

end Exec

namespace Machine

open Exec

variable {library : Library ν} {k : Kont ν .step} {ip : Nat} {mark : Mark}

/-- **What an instruction asks for** changes no variable. -/
theorem perform_upholds {e : Effect} (ready : (Kont.loop mark ip k).Ready L s n)
    (fits : e.Fits L s) : Upholds L [] s (perform library ip mark k (some e) s) := by
  cases e with
  | next => exact .of_clears ready.tidy (ready.relabel _).high.clears
  | jump target => exact .of_clears ready.tidy (ready.relabel _).high.clears
  | leave frame v => exact finishFrame_upholds ready frame v false
  | nested function arguments after =>
    have waits : (Kont.instruction after ip (.loop mark ip k)).Ready L s n := { ready with }
    exact callNested_upholds waits ..
  | call spec =>
    obtain ⟨b, clear, room⟩ := fits
    have enough : b + (spec.argc + 1) ≤ s.heightOf s.current := room
    have clear : s.Clear L (s.heightOf s.current - spec.argc - 1) _ :=
      { clear with pinned := clear.pinned.mono (by omega) }
    exact performCall_upholds ready clear (by omega)

/-- **An instruction in its turn** writes what a debugger assigns before it and what it stores. -/
theorem execute_upholds (ready : (Kont.loop mark ip k).Ready L s n)
    (entry : EntryAt mark.frames (s.callsOf s.current))
    (above : mark.frames < (s.callsOf s.current).length)
    (careful : ∀ t, s.turn? ip = some t →
      t.Careful ∧ ∀ j, L s.current (s.callsOf s.current).length j → t.Spares j)
    (spared : ∀ d j, L s.current d j →
      d ≤ ((advance library (.execute ip mark k) s).2.callsOf s.current).length) :
    Upholds L (s.beforehand ip ++ (s.turn? ip).elim [] Turn.writes) s
      (advance library (.execute ip mark k) s) := by
  have advances : advance library (.execute ip mark k) s = (executeAt ip).andThen
    (fun effect => perform library ip mark k effect) (fun e => unwind library e ip mark k) s := rfl
  have prepared := prepare_leads ready.tidy ip
  have low := ready.high.low
  rw [advances] at spared ⊢
  -- a fault is unwound from where the frames are still as they were
  have unwound : ∀ {ws : List Write} {e : Fault} {u : State ν}, Carries L ws mark.frames s u →
      u.framesOf s.current = s.framesOf s.current →
      (∀ d j, L s.current d j → d ≤ ((unwind library e ip mark k u).2.callsOf s.current).length) →
      Upholds L ws s (unwind library e ip mark k u) := by
    intro ws e u carries frames spared
    rw [← carries.current] at spared
    have entry : EntryAt mark.frames (u.callsOf u.current) :=
      entry.congr (carries.current ▸ frames)
    exact .since carries (unwind_upholds (low.carry carries) entry e spared)
  cases turn : s.turn? ip with
  | none =>
    obtain ⟨e, u, prepare, run⟩ | ⟨u, prepare, run⟩ := executeAt_of_none turn
    · obtain ⟨frames, carries⟩ := prepared.error e u prepare
      simp only [andThen, run, Option.elim_none, List.append_nil] at spared ⊢
      exact unwound (carries.mono (Nat.le_of_lt above)) frames spared
    · obtain ⟨⟨-, carries⟩, -⟩ := prepared.ok none u prepare
      simp only [andThen, run]
      exact .after carries (.step (ready.of_loop.high.carry carries) _)
  | some t =>
    obtain ⟨f, rest, sits, depth, frames, carries⟩ := prepare_sits ready.tidy ready.here turn
    obtain ⟨careful, spares⟩ := careful t turn
    rw [depth, ← carries.current] at spares
    have executed := execute_leads sits careful spares ip
    obtain ⟨-, -, run⟩ := executeAt_of_turn turn
    simp only [bind, EStateM.bind] at run
    have below : mark.frames ≤ rest.length := by omega
    cases effect : execute t.proto t.scope ip t.instruction t.state with
    | error e u =>
      have rigid := execute_failed effect
      rw [effect] at run
      simp only [andThen, run, Option.elim_some] at spared ⊢
      have all := (carries.mono (Nat.le_succ _)).trans (executed.error e u effect)
      refine unwound (all.mono below) ?_ spared
      rw [rigid.frames, frames]
    | ok e u =>
      obtain ⟨carries', fits⟩ := executed.ok e u effect
      rw [effect] at run
      have all := ((carries.mono (Nat.le_succ _)).trans carries').mono below
      simp only [andThen, run, Option.elim_some]
      exact .since all (perform_upholds (low.carry all) fits)

end Machine

end ScriptMachine
