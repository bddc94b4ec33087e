import ScriptMachine.Host.Library
import ScriptMachine.Proofs.Machine.Discretion

/-!
# Heedless routines

A routine is heedless if it does not look at the traces of errors.

* `Program.Accords`: programs that do the same where outcomes concur.
* `Library.Heedless`: each routine accords with itself. `Host.library_heedless`: those of the host.
-/

namespace ScriptMachine

variable {ν : Type}

/-- Both programs do the same, and go on with programs that accord when the outcomes concur. -/
inductive Program.Accords : Program ν → Program ν → Prop
  | finish {r r' : Except Fault Value} : Concurs r r' → Accords (.finish r) (.finish r')
  | change {action action' : World ν → Except Fault Value × World ν}
      {next next' : Except Fault Value → Program ν} :
      (∀ w, Concurs (action w).1 (action' w).1 ∧ (action' w).2 = (action w).2) →
      (∀ r r', Concurs r r' → Accords (next r) (next' r')) →
      Accords (.change action next) (.change action' next')
  | ask {query query' : State ν → Except Fault Value}
      {next next' : Except Fault Value → Program ν} :
      (∀ s, Concurs (query s) (query' s)) →
      (∀ r r', Concurs r r' → Accords (next r) (next' r')) →
      Accords (.ask query next) (.ask query' next')
  | print {values : List Value} {next next' : Program ν} : Accords next next' →
      Accords (.print values next) (.print values next')
  | spawn {function : Value} {next next' : Except Fault Value → Program ν} :
      (∀ r r', Concurs r r' → Accords (next r) (next' r')) →
      Accords (.spawn function next) (.spawn function next')
  | autoYield {c : ThreadId} {budget : Nat} {next next' : Program ν} : Accords next next' →
      Accords (.autoYield c budget next) (.autoYield c budget next')
  | undump {bytes : List UInt8} {next next' : Except Fault Value → Program ν} :
      (∀ r r', Concurs r r' → Accords (next r) (next' r')) →
      Accords (.undump bytes next) (.undump bytes next')
  | assign {name : String} {v : Value} {next next' : Except Fault Value → Program ν} :
      (∀ r r', Concurs r r' → Accords (next r) (next' r')) →
      Accords (.assign name v next) (.assign name v next')
  | call {function : Value} {arguments : List Value} {next next' : Except Fault Value → Program ν} :
      (∀ r r', Concurs r r' → Accords (next r) (next' r')) →
      Accords (.call function arguments next) (.call function arguments next')
  | index {object key : Value} {next next' : Except Fault Value → Program ν} :
      (∀ r r', Concurs r r' → Accords (next r) (next' r')) →
      Accords (.index object key next) (.index object key next')
  | resume {c : ThreadId} {arguments : List Value} {next next' : Except Fault Value → Program ν} :
      (∀ r r', Concurs r r' → Accords (next r) (next' r')) →
      Accords (.resume c arguments next) (.resume c arguments next')
  | enter {function : Value} {arguments : List Value}
      {next next' : Except Fault Value → Program ν} :
      (∀ r r', Concurs r r' → Accords (next r) (next' r')) →
      Accords (.enter function arguments next) (.enter function arguments next')
  | enterMethod {object : Value} {method : String} {arguments : List Value}
      {next next' : Except Fault Value → Program ν} :
      (∀ r r', Concurs r r' → Accords (next r) (next' r')) →
      Accords (.enterMethod object method arguments next)
        (.enterMethod object method arguments next')
  | enterAsync {function : Value} {arguments : List Value}
      {next next' : Except Fault Value → Program ν} :
      (∀ r r', Concurs r r' → Accords (next r) (next' r')) →
      Accords (.enterAsync function arguments next) (.enterAsync function arguments next')

/-- What programs go on with accords when the outcomes concur. -/
def NextAccords (next next' : Except Fault Value → Program ν) : Prop :=
  ∀ r r', Concurs r r' → (next r).Accords (next' r')

/-- No routine of the library looks at the traces of errors. -/
def Library.Heedless (library : Library ν) : Prop := ∀ r i, (library r i).Accords (library r i)

/-- The iterators are heedless as well. -/
theorem Program.ofRoutine_accords {library : Library ν} (heedless : library.Heedless)
    (r : Routine ν) (i : Invocation) :
    (ofRoutine library r i).Accords (ofRoutine library r i) := by
  cases r with
  | tableNext =>
    change (tableNext i).Accords (tableNext i)
    unfold tableNext
    cases i.arguments.check 0 "next" .table {} with
    | error e => exact .finish (.refl _)
    | ok v => exact .ask (fun _ => .refl _) fun _ _ concurs => .finish concurs
  | rangeNext =>
    change (rangeNext i).Accords (rangeNext i)
    unfold rangeNext
    split
    · split <;> exact .finish (.refl _)
    · exact .finish (.refl _)
  | host r => exact heedless r i

theorem Program.andThen_accords {α : Type} (r : Except Fault α) {next : α → Program ν}
    (accords : ∀ a, (next a).Accords (next a)) : (andThen r next).Accords (andThen r next) := by
  cases r with
  | ok a => exact accords a
  | error e => exact .finish (.refl _)

namespace Host

theorem finish_accords : NextAccords (.finish : Except Fault Value → Routines) .finish :=
  fun _ _ concurs => .finish concurs

theorem protected?_accords : NextAccords (fun r => (.finish (protected? r) : Routines))
    fun r => .finish (protected? r) := by
  intro r r' concurs
  refine .finish ?_
  cases concurs with
  | ok v => exact .refl _
  | @error e e' same =>
    by_cases script : ∃ e₁, e = .script e₁
    · obtain ⟨e₁, rfl⟩ := script
      obtain ⟨trace, rfl⟩ := Fault.untraced_script same
      exact .refl _
    · obtain rfl := Fault.untraced_other (fun e₁ same => script ⟨e₁, same⟩) same
      exact .refl _

theorem look_accords (query : HostState → Except Fault Value) : (look query).Accords (look query) :=
  .ask (fun _ => .refl _) finish_accords

theorem change_accords (action : HostWorld → Except Fault Value × HostWorld) :
    (Program.change action .finish : Routines).Accords (.change action .finish) :=
  .change (fun _ => ⟨.refl _, rfl⟩) finish_accords

/-- No built-in routine looks at the traces of errors. -/
theorem Builtin.run_accords (b : Builtin) (i : Invocation) : (b.run i).Accords (b.run i) := by
  cases b <;> unfold Builtin.run <;> dsimp only
  case coauto =>
    refine Program.andThen_accords _ fun _ => Program.andThen_accords _ fun _ => ?_
    exact .autoYield (.finish (.refl _))
  case print => exact .print (.finish (.refl _))
  case undump =>
    refine Program.andThen_accords _ fun _ => ?_
    split
    · exact .undump finish_accords
    · exact .finish (.refl _)
  case raise =>
    refine Program.andThen_accords _ fun _ => ?_
    split
    · exact look_accords _
    · exact .finish (.refl _)
  all_goals
    repeat refine Program.andThen_accords _ fun _ => ?_
    first
    | exact .finish (.refl _)
    | exact look_accords _
    | exact change_accords _
    | exact .spawn finish_accords
    | exact .call finish_accords
    | exact .call protected?_accords
    | exact .index finish_accords
    | exact .resume protected?_accords
    | exact .enter finish_accords
    | exact .enterMethod finish_accords
    | exact .enterAsync finish_accords
    | exact .assign finish_accords

theorem Handler.run_accords (h : Handler) (i : Invocation) : (h.run i).Accords (h.run i) := by
  cases h <;> first
    | exact .finish (.refl _)
    | exact look_accords _
    | exact change_accords _

/-- No routine of the host looks at the traces of errors. -/
theorem library_heedless : library.Heedless
  | .builtin b, i => b.run_accords i
  | .handler h, i => h.run_accords i

end Host

end ScriptMachine
