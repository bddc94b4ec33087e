import ScriptMachine.Proofs.Machine.Chain
import ScriptMachine.Proofs.Machine.Overtaking

/-!
# Discreet routines

A routine is discreet if it does not look at how deep calls are nested, at the traces of errors, or
at how many instructions have been executed.

* `Concurs`: outcomes that differ in traces at most.
* `State.Resembles`: states that differ in what a discreet routine does not look at.
* `Program.Agrees`: programs that do the same where outcomes concur and states resemble each other.
* `Library.Discreet`: each routine agrees with itself. `Manner.discreet`: so does what it goes on
  with.
* `State.Trims.resembles`: a frame that can be spared makes no difference to a discreet routine.
-/

namespace ScriptMachine

variable {ν α β : Type} {x : Option Spare} {s t : State ν}

def Fault.untraced : Fault → Fault
  | .script e => .script { e with trace := [] }
  | e => e

/-- The outcomes differ in the traces of errors at most. -/
inductive Concurs : Except Fault α → Except Fault α → Prop
  | ok (a : α) : Concurs (.ok a) (.ok a)
  | error {e e' : Fault} : e.untraced = e'.untraced → Concurs (.error e) (.error e')

namespace Concurs

theorem refl (r : Except Fault α) : Concurs r r := by
  cases r with
  | ok a => exact .ok a
  | error e => exact .error rfl

theorem symm {r r' : Except Fault α} (h : Concurs r r') : Concurs r' r := by
  cases h with
  | ok a => exact .ok a
  | error same => exact .error same.symm

theorem trans {r r' r'' : Except Fault α} (h : Concurs r r') (h' : Concurs r' r'') :
    Concurs r r'' := by
  cases h with
  | ok a => exact h'
  | error same =>
    cases h' with
    | error same' => exact .error (same.trans same')

theorem map {r r' : Except Fault α} (h : Concurs r r') (f : α → β) :
    Concurs (r.map f) (r'.map f) := by
  cases h with
  | ok a => exact .ok (f a)
  | error same => exact .error same

/-- What a call makes of the outcome of a loop. -/
theorem expectReturn {r r' : Except Fault Step} (h : Concurs r r') :
    Concurs (Machine.expectReturn r) (Machine.expectReturn r') := by
  cases h with
  | ok a => exact .refl _
  | error same => exact .error same

/-- What a resumption makes of the outcome of a loop. -/
theorem resumeOutcome {r r' : Except Fault Step} (h : Concurs r r') :
    (Machine.resumeOutcome r').1 = (Machine.resumeOutcome r).1 ∧
      Concurs (Machine.resumeOutcome r).2 (Machine.resumeOutcome r').2 := by
  cases h with
  | ok a => exact ⟨rfl, .refl _⟩
  | error same => exact ⟨rfl, .error same⟩

end Concurs

/-- A fault without its trace is a script error or none. -/
theorem Fault.untraced_script {e : ScriptError} {fault : Fault}
    (same : (Fault.script e).untraced = fault.untraced) :
    ∃ trace, fault = .script { e with trace } := by
  cases fault with
  | script e' =>
    obtain ⟨cause, decoration, address, trace, settled⟩ := e'
    simp only [untraced, Fault.script.injEq, ScriptError.mk.injEq] at same
    obtain ⟨rfl, rfl, rfl, -, rfl⟩ := same
    exact ⟨trace, rfl⟩
  | _ => cases same

theorem Fault.untraced_other {fault fault' : Fault} (other : ∀ e, fault ≠ .script e)
    (same : fault.untraced = fault'.untraced) : fault' = fault := by
  cases fault with
  | script e => exact absurd rfl (other e)
  | _ => cases fault' <;> simp_all [untraced]

/-- The states differ in the numbers of frames, slots and instructions, in where variables are kept,
and in how deep stacks are when frames are taken over. -/
structure State.Resembles (s t : State ν) : Prop where
  world : t.world = s.world
  options : { t.options with tailCallThreshold := s.options.tailCallThreshold } = s.options
  closures : t.closures = s.closures
  coroutines : t.coroutines = s.coroutines
  active : t.active = s.active
  current : t.current = s.current
  entries : t.entries = s.entries
  threads : t.processors.size = s.processors.size
  cellCount : t.cells.size = s.cells.size
  readCell : ∀ y, t.readCell y = s.readCell y
  nestedCalls : ∀ c, (t.processorOf c).nestedCalls = (s.processorOf c).nestedCalls
  asyncMode : ∀ c, (t.processorOf c).asyncMode = (s.processorOf c).asyncMode
  findSymbol : ∀ name, t.findSymbol name = s.findSymbol name
  evaluate : ∀ e, t.evaluate e = s.evaluate e

/-- The function that a frame runs, with its slots. -/
def Frame.scope? (f : Frame) : Option Scope := f.closure?.map fun closure => ⟨closure, f.base⟩

theorem Frame.scope?_lowered (f : Frame) (n : Nat) :
    (f.lowered n).scope? = f.scope?.map (·.lowered n) := by
  cases f with
  | mk base argc returnAddress callee => cases callee <;> rfl

theorem Frame.floor_le_scope {f : Frame} {scope : Scope} (h : f.scope? = some scope) :
    f.activation.floor ≤ scope.base := by
  obtain ⟨closure, -, rfl⟩ := Option.map_eq_some_iff.1 h
  exact f.activation.floor_le_base

/-- The innermost function is the same, with its slots further down. -/
theorem FramesTrim.scope {fs gs : List Frame} (h : FramesTrim x fs gs) :
    gs.findSome? Frame.scope? =
        (fs.findSome? Frame.scope?).map (·.lowered (x.elim {} Spare.cut).gap) ∧
      ∀ scope, fs.findSome? Frame.scope? = some scope →
        (x.elim {} Spare.cut).high ≤ scope.base := by
  induction h with
  | @same fs =>
    refine ⟨?_, fun _ _ => Nat.zero_le _⟩
    change _ = (fs.findSome? Frame.scope?).map fun scope => scope
    exact Option.map_id'.symm
  | @called z f calls =>
    obtain ⟨scope, found⟩ : ∃ scope, f.scope? = some scope := by
      have script := calls.script
      unfold Frame.isNative at script
      unfold Frame.scope? Frame.closure?
      cases hc : f.callee with
      | script c => exact ⟨_, rfl⟩
      | native c =>
        rw [hc] at script
        cases script
    have taken : (z.taken f).scope? = some (scope.lowered z.slots) :=
      (f.scope?_lowered z.slots).trans (by rw [found]; rfl)
    rw [List.findSome?_cons, List.findSome?_cons, found, taken]
    refine ⟨rfl, ?_⟩
    rintro _ ⟨⟩
    exact Nat.le_trans (Nat.le_of_eq calls.floor.symm) (Frame.floor_le_scope found)
  | @above z f fs gs below high ih =>
    have lowered := f.scope?_lowered z.slots
    rw [List.findSome?_cons, List.findSome?_cons, lowered]
    cases found : f.scope? with
    | none => exact ih
    | some scope =>
      refine ⟨rfl, ?_⟩
      rintro _ ⟨⟩
      exact Nat.le_trans high (Frame.floor_le_scope found)

namespace State.Trims

variable (h : s.Trims x t)

include h

/-- The innermost function is the same, with its slots further down. -/
theorem scope :
    t.scope? = s.scope?.map (·.lowered (Spare.part x s.current).gap) ∧
      ∀ scope, s.scope? = some scope → (Spare.part x s.current).high ≤ scope.base :=
  h.frames.scope

theorem findSymbol (name : String) : t.findSymbol name = s.findSymbol name := by
  obtain ⟨same, -⟩ := h.scope
  unfold State.findSymbol
  rw [same]
  cases s.scope? with
  | none => rfl
  | some scope =>
    simp only [Option.map_some, Scope.lowered, h.closure]

theorem evaluate (e : WatchExpr) : t.evaluate e = s.evaluate e := by
  have value : ∀ sym, t.symbolValue sym = s.symbolValue sym := fun sym => by
    obtain ⟨same, high⟩ := h.scope
    unfold State.symbolValue
    rw [same]
    cases found : s.scope? with
    | none => simp only [Option.map_none, h.world, h.heap]
    | some scope => exact h.readSymbol (high scope found) sym
  induction e with
  | constant | call => rfl
  | index object key ho hk => simp only [State.evaluate, ho, hk, h.heap]
  | _ => simp only [State.evaluate, h.findSymbol, value]

/-- A frame that can be spared makes no difference to a discreet routine. -/
theorem resembles : s.Resembles t where
  world := h.world
  options := by rw [h.options]
  closures := h.closures
  coroutines := h.coroutines
  active := h.active
  current := h.current
  entries := h.entries
  threads := h.size
  cellCount := h.cellCount
  readCell := h.readCell
  nestedCalls c := (h.processors c).nestedCalls
  asyncMode c := (h.processors c).asyncMode
  findSymbol := h.findSymbol
  evaluate := h.evaluate

end State.Trims

/-- Both programs do the same, and go on with programs that agree when the outcomes concur. An
asynchronous call is refused where frames stand. -/
inductive Program.Agrees : Program ν → Program ν → Prop
  | finish {r r' : Except Fault Value} : Concurs r r' → Agrees (.finish r) (.finish r')
  | change {action action' : World ν → Except Fault Value × World ν}
      {next next' : Except Fault Value → Program ν} :
      (∀ w, Concurs (action w).1 (action' w).1 ∧ (action' w).2 = (action w).2) →
      (∀ r r', Concurs r r' → Agrees (next r) (next' r')) →
      Agrees (.change action next) (.change action' next')
  | ask {query query' : State ν → Except Fault Value} {next next' : Except Fault Value → Program ν} :
      (∀ s t, State.Resembles s t → Concurs (query s) (query' t)) →
      (∀ r r', Concurs r r' → Agrees (next r) (next' r')) →
      Agrees (.ask query next) (.ask query' next')
  | print {values : List Value} {next next' : Program ν} : Agrees next next' →
      Agrees (.print values next) (.print values next')
  | spawn {function : Value} {next next' : Except Fault Value → Program ν} :
      (∀ r r', Concurs r r' → Agrees (next r) (next' r')) →
      Agrees (.spawn function next) (.spawn function next')
  | autoYield {c : ThreadId} {next next' : Program ν} : Agrees next next' →
      Agrees (.autoYield c 0 next) (.autoYield c 0 next')
  | undump {bytes : List UInt8} {next next' : Except Fault Value → Program ν} :
      (∀ r r', Concurs r r' → Agrees (next r) (next' r')) →
      Agrees (.undump bytes next) (.undump bytes next')
  | assign {name : String} {v : Value} {next next' : Except Fault Value → Program ν} :
      (∀ r r', Concurs r r' → Agrees (next r) (next' r')) →
      Agrees (.assign name v next) (.assign name v next')
  | call {function : Value} {arguments : List Value} {next next' : Except Fault Value → Program ν} :
      (∀ r r', Concurs r r' → Agrees (next r) (next' r')) →
      Agrees (.call function arguments next) (.call function arguments next')
  | index {object key : Value} {next next' : Except Fault Value → Program ν} :
      (∀ r r', Concurs r r' → Agrees (next r) (next' r')) →
      Agrees (.index object key next) (.index object key next')
  | resume {c : ThreadId} {arguments : List Value} {next next' : Except Fault Value → Program ν} :
      (∀ r r', Concurs r r' → Agrees (next r) (next' r')) →
      Agrees (.resume c arguments next) (.resume c arguments next')
  | enter {function : Value} {arguments : List Value} {next next' : Except Fault Value → Program ν} :
      (∀ r r', Concurs r r' → Agrees (next r) (next' r')) →
      Agrees (.enter function arguments next) (.enter function arguments next')
  | enterMethod {object : Value} {method : String} {arguments : List Value}
      {next next' : Except Fault Value → Program ν} :
      (∀ r r', Concurs r r' → Agrees (next r) (next' r')) →
      Agrees (.enterMethod object method arguments next) (.enterMethod object method arguments next')

/-- What programs go on with agrees when the outcomes concur. -/
def NextAgrees (next next' : Except Fault Value → Program ν) : Prop :=
  ∀ r r', Concurs r r' → (next r).Agrees (next' r')

/-- No routine of the library looks at the depth of calls, the traces of errors or the count of
instructions, and none sets a share of instructions. -/
def Library.Discreet (library : Library ν) : Prop := ∀ r i, (library r i).Agrees (library r i)

namespace Program

theorem tableNext_agrees (i : Invocation) : (tableNext i : Program ν).Agrees (tableNext i) := by
  unfold tableNext
  cases i.arguments.check 0 "next" .table {} with
  | error e => exact .finish (.refl _)
  | ok v =>
    refine .ask (fun s t resembles => ?_) fun r r' concurs => .finish concurs
    have heap : t.heap = s.heap := congrArg World.heap resembles.world
    rw [heap]
    exact .refl _

theorem rangeNext_agrees (i : Invocation) : (rangeNext i : Program ν).Agrees (rangeNext i) := by
  unfold rangeNext
  split
  · split <;> exact .finish (.refl _)
  · exact .finish (.refl _)

/-- The iterators are discreet as well. -/
theorem ofRoutine_agrees {library : Library ν} (discreet : library.Discreet) (r : Routine ν)
    (i : Invocation) : (ofRoutine library r i).Agrees (ofRoutine library r i) := by
  cases r with
  | tableNext => exact tableNext_agrees i
  | rangeNext => exact rangeNext_agrees i
  | host r => exact discreet r i

end Program

/-- Routines agree with themselves, and so does what they go on with. -/
def Manner.discreet {library : Library ν} (discreet : library.Discreet) : Manner library where
  program p := p.Agrees p
  next n := NextAgrees n n
  invoked := Program.ofRoutine_agrees discreet
  goes next r := next r r (.refl r)
  does agrees does := by
    cases does with
    | change r | ask r | spawn r | undump r | assign r =>
      cases agrees
      rename_i next
      exact next r r (.refl r)
    | print | autoYield =>
      cases agrees
      assumption
  waits agrees waits := by
    cases waits <;> cases agrees <;> assumption

end ScriptMachine
