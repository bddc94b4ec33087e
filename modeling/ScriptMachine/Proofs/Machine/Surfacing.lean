import ScriptMachine.Host.Library
import ScriptMachine.Proofs.Machine.Chain

/-!
# Uncatchable faults surface

A fault that is no script error passes all who wait, from any depth: loops drop their frames, guards
and resumptions hand it on, and routines return it. The host gets it as the outcome of its call,
unless a decorator was running: what becomes of a decorator is not looked at.

* `Library.Candid`: the routines return the uncatchable faults that they get.
* `Machine.Raises`: a fault is on its way, or a routine gets it on the spot.
* `Kont.Passes`: a fault on its way past those who wait, none of whom calls anything.
* `Kont.Chain.surfaces`: whoever waits hands the fault on, down to the host.
-/

namespace ScriptMachine

variable {ν : Type}

/-- The program returns the fault without entering the machine again. -/
def Program.Returns (e : Fault) : Program ν → Prop
  | .finish outcome => outcome = .error e
  | .change _ next | .ask _ next => ∀ r, (next r).Returns e
  | .print _ next | .autoYield _ _ next => next.Returns e
  | _ => False

/-- Whatever uncatchable fault the machine answers with, the program returns it. -/
def Program.Candid : Program ν → Prop
  | .finish _ => True
  | .change _ next | .ask _ next => ∀ r, (next r).Candid
  | .print _ next | .autoYield _ _ next => next.Candid
  | .spawn _ next | .undump _ next | .assign _ _ next | .call _ _ next | .index _ _ next
  | .resume _ _ next | .enter _ _ next | .enterMethod _ _ _ next | .enterAsync _ _ next =>
    (∀ e, e.isCatchable = false → (next (.error e)).Returns e) ∧ ∀ r, (next r).Candid

def Library.Candid (library : Library ν) : Prop := ∀ r i, (library r i).Candid

theorem Program.candid_andThen {α : Type} (r : Except Fault α) {next : α → Program ν}
    (h : ∀ a, (next a).Candid) : (andThen r next).Candid := by
  cases r with
  | ok a => exact h a
  | error e => trivial

theorem Program.candid_ofRoutine {library : Library ν} (candid : library.Candid) (r : Routine ν)
    (i : Invocation) : (ofRoutine library r i).Candid := by
  cases r with
  | tableNext => exact candid_andThen _ fun _ _ => trivial
  | rangeNext =>
    change (rangeNext i).Candid
    unfold rangeNext
    split
    · split <;> trivial
    · trivial
  | host r => exact candid r i

def Library.Candid.manner {library : Library ν} (candid : library.Candid) : Manner library where
  program := Program.Candid
  next n := (∀ e : Fault, e.isCatchable = false → (n (.error e)).Returns e) ∧ ∀ r, (n r).Candid
  invoked := Program.candid_ofRoutine candid
  goes h := h.2
  does h does := by
    cases does with
    | change r | ask r => exact h r
    | print | autoYield => exact h
    | spawn r | undump r | assign r => exact h.2 r
  waits h waits := by
    cases waits <;> exact h

/-- A decorator is among those who are waited for. -/
def Kont.decorates : {a : Awaited} → Kont ν a → Bool
  | _, .host => false
  | _, .decorator .. => true
  | _, .routine _ k | _, .collapse k | _, .method _ _ _ k | _, .asyncMethod _ _ k | _, .exit k
  | _, .nested k | _, .drive _ k | _, .resumed _ _ _ k => k.decorates
  | _, .native k | _, .finish _ k | _, .instruction _ _ k | _, .task _ k | _, .loop _ _ k
  | _, .protect _ _ _ k => k.decorates

/-- A decorator is running. -/
def Control.decorates : Control ν → Bool
  | .execute _ _ k | .step _ k => k.decorates
  | .run _ k | .value _ k | .await _ k => k.decorates

/-- What a routine has done on the spot, and how it goes on. -/
def Program.work? : Program ν → Option (Exec ν Value × (Except Fault Value → Program ν))
  | .spawn function next => some (Exec.spawn function, next)
  | .undump bytes next => some (Exec.undump bytes, next)
  | .assign name v next => some ((do Exec.assignAll [(name, v)]; return .void), next)
  | _ => none

def Kont.failing (e : Fault) : {a : Awaited} → Kont ν a → Control ν
  | .value, k => .value (.error e) k
  | .step, k => .step (.error e) k

def Kont.behind? : {a : Awaited} → Kont ν a → Option ((b : Awaited) × Kont ν b)
  | _, .host => none
  | _, .routine _ k | _, .collapse k | _, .method _ _ _ k | _, .asyncMethod _ _ k | _, .exit k
  | _, .nested k | _, .drive _ k | _, .resumed _ _ _ k => some ⟨_, k⟩
  | _, .native k | _, .finish _ k | _, .instruction _ _ k | _, .decorator _ _ _ _ k | _, .task _ k
  | _, .loop _ _ k | _, .protect _ _ _ k => some ⟨_, k⟩

/-- A fault passes those who wait: one of them gets it, or a routine among them is about to return
it. Nothing is called. -/
inductive Kont.Passes (e : Fault) : {a : Awaited} → Kont ν a → Control ν → Prop
  | handed {a : Awaited} {k : Kont ν a} : k.Passes e (k.failing e)
  | returning {next : Except Fault Value → Program ν} {k : Kont ν .value} {p : Program ν} :
      p.Returns e → (Kont.routine next k).Passes e (.run p k)
  | behind {a b : Awaited} {k : Kont ν a} {k' : Kont ν b} {control : Control ν} :
      k.behind? = some ⟨b, k'⟩ → k'.Passes e control → k.Passes e control

namespace Machine

/-- A fault is on its way, or a routine gets it from work done on the spot. -/
inductive Raises (e : Fault) (m : Machine ν) : Prop
  | handed : m.control.fault? = some e → Raises e m
  | refused {program : Program ν} {k : Kont ν .value} {work : Exec ν Value}
      {next : Except Fault Value → Program ν} {s : State ν} : m.control = .run program k →
      program.work? = some (work, next) → work m.state = .error e s → Raises e m

variable {library : Library ν} {m m' m'' : Machine ν}

/-- The machine gets there. -/
def Leads (library : Library ν) (m m' : Machine ν) : Prop := ∃ n, (step library)^[n] m = m'

theorem Leads.refl (m : Machine ν) : Leads library m m := ⟨0, rfl⟩

theorem Leads.next (leads : Leads library (m.step library) m') : Leads library m m' := by
  obtain ⟨n, rfl⟩ := leads
  exact ⟨n + 1, Function.iterate_succ_apply ..⟩

theorem Leads.trans (leads : Leads library m m') (leads' : Leads library m' m'') :
    Leads library m m'' := by
  obtain ⟨n, rfl⟩ := leads
  obtain ⟨n', rfl⟩ := leads'
  exact ⟨n' + n, Function.iterate_add_apply ..⟩

/-- The machine gets there, and its controls on the way are such. -/
def LeadsWhile (library : Library ν) (P : Control ν → Prop) (m m' : Machine ν) : Prop :=
  ∃ n, (step library)^[n] m = m' ∧ ∀ j, j ≤ n → P ((step library)^[j] m).control

namespace LeadsWhile

variable {P Q : Control ν → Prop}

theorem leads (h : LeadsWhile library P m m') : Leads library m m' :=
  h.imp fun _ => And.left

theorem refl (now : P m.control) : LeadsWhile library P m m :=
  ⟨0, rfl, fun j hj => by rwa [Nat.le_zero.1 hj]⟩

theorem next (now : P m.control) (h : LeadsWhile library P (m.step library) m') :
    LeadsWhile library P m m' := by
  obtain ⟨n, rfl, all⟩ := h
  refine ⟨n + 1, rfl, fun j hj => ?_⟩
  cases j with
  | zero => exact now
  | succ j => exact all j (Nat.le_of_succ_le_succ hj)

theorem trans (h : LeadsWhile library P m m') (h' : LeadsWhile library P m' m'') :
    LeadsWhile library P m m'' := by
  obtain ⟨n, rfl, all⟩ := h
  obtain ⟨n', rfl, all'⟩ := h'
  refine ⟨n' + n, Function.iterate_add_apply .., fun j hj => ?_⟩
  obtain before | after := Nat.le_total j n
  · exact all j before
  · obtain ⟨i, rfl⟩ := Nat.exists_eq_add_of_le after
    rw [Nat.add_comm, Function.iterate_add_apply]
    exact all' i (by omega)

theorem mono (h : LeadsWhile library P m m') (imp : ∀ control, P control → Q control) :
    LeadsWhile library Q m m' :=
  h.imp fun _ ⟨reached, all⟩ => ⟨reached, fun j hj => imp _ (all j hj)⟩

end LeadsWhile

variable (library) in
/-- A routine that returns a fault gets there. -/
theorem leads_returns {e : Fault} {program : Program ν} (returns : program.Returns e)
    (next : Except Fault Value → Program ν) (k : Kont ν .value) (s : State ν) :
    ∃ s', LeadsWhile library ((Kont.routine next k).Passes e) ⟨.run program k, s⟩
      ⟨.value (.error e) k, s'⟩ := by
  have now : (Kont.routine next k).Passes e (.run program k) := .returning returns
  induction program generalizing s with
  | finish outcome =>
    obtain rfl := returns
    exact ⟨s, .next now (.refl (.behind rfl .handed))⟩
  | change action rest ih =>
    obtain ⟨s', leads⟩ := ih _ (returns _) { s with world := (action s.world).2 }
      (.returning (returns _))
    exact ⟨s', .next now leads⟩
  | ask query rest ih =>
    obtain ⟨s', leads⟩ := ih _ (returns _) s (.returning (returns _))
    exact ⟨s', .next now leads⟩
  | print values rest ih =>
    obtain ⟨s', leads⟩ := ih returns (s.record (.printed (Snapshot.ofValues s.scene values)))
      (.returning returns)
    exact ⟨s', .next now leads⟩
  | autoYield c budget rest ih =>
    obtain ⟨s', leads⟩ := ih returns (Exec.setAutoYield c budget s).2 (.returning returns)
    exact ⟨s', .next now leads⟩
  | _ => exact returns.elim

variable (library) in
/-- A loop drops its frames, and the fault leaves it. -/
theorem unwind_uncatchable {e : Fault} (uncatchable : e.isCatchable = false) (ip : Nat)
    (mark : Mark) (k : Kont ν .step) (s : State ν) :
    unwind library e ip mark k s = (.step (.error e) k, (abandon mark s).2) := by
  cases e with
  | script error => cases uncatchable
  | _ => rfl

end Machine

open Machine

/-- **Whoever waits hands the fault on, down to the host.** -/
theorem Kont.Chain.surfaces {library : Library ν} {candid : library.Candid} {a : Awaited}
    {k : Kont ν a} {ts : List ThreadId} {e : Fault} (chain : k.Chain candid.manner ts)
    (clear : k.decorates = false) (uncatchable : e.isCatchable = false) (s : State ν) :
    ∃ s', LeadsWhile library (k.Passes e) ⟨k.failing e, s⟩ ⟨.value (.error e) .host, s'⟩ := by
  induction chain generalizing s with
  | host => exact ⟨s, .refl .handed⟩
  | @routine next k _ hn _ ih =>
    obtain ⟨s', returned⟩ := leads_returns library (hn.1 e uncatchable) next k s
    obtain ⟨s', surfaced⟩ := ih clear s'
    exact ⟨s', .next .handed (returned.trans (surfaced.mono fun _ => .behind rfl))⟩
  | native _ ih | finish _ ih | instruction _ ih | collapse _ ih | method _ ih
  | asyncMethod _ ih =>
    obtain ⟨s', surfaced⟩ := ih clear s
    exact ⟨s', .next .handed (surfaced.mono fun _ => .behind rfl)⟩
  | decorator _ ih => cases clear
  | exit _ ih =>
    obtain ⟨s', surfaced⟩ := ih clear { s with entries := s.entries - 1 }
    exact ⟨s', .next .handed (surfaced.mono fun _ => .behind rfl)⟩
  | @loop mark ip k _ _ ih =>
    obtain ⟨s', surfaced⟩ := ih clear (abandon mark s).2
    have left : step library ⟨(Kont.loop mark ip k).failing e, s⟩ =
        ⟨k.failing e, (abandon mark s).2⟩ := by
      have unwound := unwind_uncatchable library uncatchable ip mark k s
      change (⟨(unwind library e ip mark k s).1, (unwind library e ip mark k s).2⟩ : Machine ν) = _
      rw [unwound]
      rfl
    exact ⟨s', .next .handed (left ▸ surfaced.mono fun _ => .behind rfl)⟩
  | @protect frame handler mark k _ _ ih =>
    obtain ⟨s', surfaced⟩ := ih clear s
    have left : step library ⟨(Kont.protect frame handler mark k).failing e, s⟩ =
        ⟨k.failing e, s⟩ := by
      change (⟨(handStep library (.error e) (.protect frame handler mark k) s).1,
        (handStep library (.error e) (.protect frame handler mark k) s).2⟩ : Machine ν) = _
      rw [handStep_protect_uncaught uncatchable]
      rfl
    exact ⟨s', .next .handed (left ▸ surfaced.mono fun _ => .behind rfl)⟩
  | nested _ ih =>
    obtain ⟨s', surfaced⟩ := ih clear
      (s.modifyProcessor fun p => { p with nestedCalls := p.nestedCalls - 1 })
    exact ⟨s', .next .handed (surfaced.mono fun _ => .behind rfl)⟩
  | @drive previous k _ _ ih =>
    obtain ⟨s', surfaced⟩ := ih clear (s.modifyProcessor fun p => { p with asyncMode := previous })
    exact ⟨s', .next .handed (surfaced.mono fun _ => .behind rfl)⟩
  | @resumed mode c previous k _ _ ih =>
    obtain ⟨s'', ended, -⟩ := endResume_switches (s := s) mode c previous (.error e) k
    obtain ⟨s', surfaced⟩ := ih clear s''
    have final : ∀ task, (.error e : Except Fault Step) ≠ .ok (.suspend (.await task)) :=
      fun _ => nofun
    have left : step library ⟨(Kont.resumed mode c previous k).failing e, s⟩ =
        ⟨k.failing e, s''⟩ := by
      have handed : handStep library (.error e) (.resumed mode c previous k) s =
          (.value (.error e) k, s'') := (handStep_resumed (.inr final)).trans ended
      change (⟨(handStep library (.error e) (.resumed mode c previous k) s).1,
        (handStep library (.error e) (.resumed mode c previous k) s).2⟩ : Machine ν) = _
      rw [handed]
      rfl
    exact ⟨s', .next .handed (left ▸ surfaced.mono fun _ => .behind rfl)⟩

namespace Machine

variable {library : Library ν} {m : Machine ν} {e : Fault} {s : State ν}

theorem runProgram_work {program : Program ν} {work : Exec ν Value}
    {next : Except Fault Value → Program ν} (h : program.work? = some (work, next))
    (k : Kont ν .value) : runProgram library k program = runProgram.direct k work next := by
  cases program with
  | spawn | undump | assign =>
    obtain ⟨rfl, rfl⟩ := Prod.mk.inj (Option.some.inj h)
    rfl
  | _ => contradiction

theorem candid_work {program : Program ν} {work : Exec ν Value}
    {next : Except Fault Value → Program ν} (h : program.work? = some (work, next))
    (candid : program.Candid) (uncatchable : e.isCatchable = false) :
    (next (.error e)).Returns e := by
  cases program with
  | spawn | undump | assign =>
    obtain ⟨rfl, rfl⟩ := Prod.mk.inj (Option.some.inj h)
    exact candid.1 e uncatchable
  | _ => contradiction

variable (library) in
/-- A task that failed is handed to the frame that waits for it. -/
theorem resumePending_failed {c : ThreadId} {k : Kont ν .step} (parked : s.Parked c)
    (inRange : c.index < s.processors.size) :
    ∃ mark ip s', resumePending library (.error e) true k { s with current := c } =
      (.step (.error e) (.loop mark ip k), s') := by
  obtain ⟨frame, mark, pending⟩ := parked
  have here : ({ s with current := c } : State ν).HasCurrent := inRange
  have picks : Picks library (.error e) true k _ _ := resumePending_picks (.error e) true k here
  generalize resumePending library (.error e) true k { s with current := c } = x at picks
  cases picks with
  | nothing none => exact absurd (pending.symm.trans none) nofun
  | instruction other => exact absurd (pending.symm.trans other) nofun
  | delivered _ ok => contradiction
  | failed _ same =>
    cases same
    exact ⟨_, _, _, rfl⟩

/-- A fault on its way gets to the host. -/
theorem Raises.surfaces {candid : library.Candid} (raised : m.Raises e)
    (linked : Links candid.manner (m.control, m.state)) (uncatchable : e.isCatchable = false)
    (clear : m.control.decorates = false) :
    ∃ s', Leads library m ⟨.value (.error e) .host, s'⟩ := by
  obtain ⟨control, s⟩ := m
  obtain ⟨ts, sound, linked⟩ := linked
  dsimp only at linked sound
  cases raised with
  | @refused program k work next s₁ running works failed =>
    dsimp only at running failed
    subst running
    cases linked with
    | run hp chain =>
      obtain ⟨s₂, returned⟩ := leads_returns library
        (candid_work works hp uncatchable) next k s₁
      obtain ⟨s', surfaced⟩ := chain.surfaces clear uncatchable s₂
      refine ⟨s', .next ?_⟩
      change Leads library
        ⟨(runProgram library k program s).1, (runProgram library k program s).2⟩ _
      rw [runProgram_work works, runProgram.direct, Exec.andThen, failed]
      exact returned.leads.trans surfaced.leads
  | handed fault =>
    dsimp only at fault
    cases linked with
    | @step r k _ _ chain =>
      cases r with
      | ok _ => contradiction
      | error e =>
        cases fault
        obtain ⟨s', surfaced⟩ := chain.surfaces clear uncatchable s
        exact ⟨s', surfaced.leads⟩
    | @value r k _ chain =>
      cases r with
      | ok _ => contradiction
      | error e =>
        cases fault
        obtain ⟨s', surfaced⟩ := chain.surfaces clear uncatchable s
        exact ⟨s', surfaced.leads⟩
    | @settled r c k us parked chain =>
      cases r with
      | ok _ => contradiction
      | error e =>
        cases fault
        obtain ⟨mark, ip, s₁, failed⟩ := resumePending_failed library (e := e) (k := k) parked
          (sound.inRange (List.mem_cons_self ..))
        have chain : (Kont.loop mark ip k).Chain candid.manner (c :: us) := .loop chain
        obtain ⟨s', surfaced⟩ := chain.surfaces clear uncatchable s₁
        refine ⟨s', .next ?_⟩
        change Leads library
          ⟨(resumePending library (.error e) true k { s with current := c }).1,
            (resumePending library (.error e) true k { s with current := c }).2⟩ _
        rw [failed]
        exact surfaced.leads
    | _ => contradiction

/-- A call of the host that gets there ends with the outcome. -/
theorem perform?_of_leads {move : Move ν (Control ν)} {i : Nat} {outcome : Except Fault Value}
    {s' : State ν} (leads : Leads library (run library i ⟨(move s).1, (move s).2⟩)
      ⟨.value outcome .host, s'⟩) :
    ∃ n, ∀ steps, n ≤ steps → perform? library steps move s = (.done outcome, s') := by
  obtain ⟨n, leads⟩ := leads
  rw [run_eq_iterate, ← Function.iterate_add_apply] at leads
  refine ⟨n + i, fun steps enough => ?_⟩
  obtain ⟨more, rfl⟩ := Nat.exists_eq_add_of_le' enough
  have ended : run library (more + (n + i)) ⟨(move s).1, (move s).2⟩ =
      ⟨.value outcome .host, s'⟩ := by
    rw [run_eq_iterate, Function.iterate_add_apply, leads]
    exact Function.iterate_fixed (step_of_halted rfl) more
  change (ending (run library (more + (n + i)) ⟨(move s).1, (move s).2⟩),
    (run library (more + (n + i)) ⟨(move s).1, (move s).2⟩).state) = _
  rw [ended]
  rfl

/-- **An uncatchable fault is what the host gets.** The host makes a call, and no routine hides an
uncatchable fault that the machine answers with. If such a fault is raised at any step of the call,
at any depth, while no decorator is running, the call ends with it. -/
theorem uncatchable_faults_surface (candid : library.Candid) (root : s.AtRoot)
    {move : Move ν (Control ν)} (hm : HostCall library move) {i : Nat}
    (raised : (run library i ⟨(move s).1, (move s).2⟩).Raises e)
    (uncatchable : e.isCatchable = false)
    (clear : (run library i ⟨(move s).1, (move s).2⟩).control.decorates = false) :
    ∃ n s', ∀ steps, n ≤ steps → perform? library steps move s = (.done (.error e), s') := by
  have linked := run_linked (hostCall_linked (M := candid.manner) root hm) i
  obtain ⟨s', leads⟩ := raised.surfaces linked uncatchable clear
  obtain ⟨n, ends⟩ := perform?_of_leads leads
  exact ⟨n, s', ends⟩

end Machine

namespace Sample

/-- A function is loaded that calls a routine, which calls another function. Five instructions may
be executed. -/
def limited : State Unit :=
  { (loaded caller).state with options := { instructionLimit := some 5 } }

end Sample

namespace Machine

/-- The innermost function exceeds the limit. -/
theorem uncatchable_faults_surface_nested :
    let move := call Sample.library (.function ⟨0⟩) [Sample.apply]
    let s := Sample.limited
    (run Sample.library 9 ⟨(move s).1, (move s).2⟩).Raises .instructionLimit ∧
    ∃ n s', ∀ steps, n ≤ steps →
      perform? Sample.library steps move s = (.done (.error .instructionLimit), s') := by
  intro move s
  have raised : (run Sample.library 9 ⟨(move s).1, (move s).2⟩).Raises .instructionLimit :=
    .handed (by decide +kernel)
  have candid : Sample.library.Candid := fun _ _ => ⟨fun _ _ => rfl, fun _ => trivial⟩
  exact ⟨raised, uncatchable_faults_surface candid ⟨rfl, rfl⟩ (.call ..) raised rfl
    (by decide +kernel)⟩

end Machine

namespace Host

theorem protected?_uncatchable {e : Fault} (uncatchable : e.isCatchable = false) :
    protected? (.error e) = .error e := by
  cases e with
  | script error => cases uncatchable
  | _ => rfl

/-- The host's routines hide no uncatchable fault. -/
theorem library_candid : library.Candid := by
  rintro (b | h) i
  · cases b
    case npcall => exact ⟨fun _ => protected?_uncatchable, fun _ => trivial⟩
    case coresume =>
      exact Program.candid_andThen _ fun _ => ⟨fun _ => protected?_uncatchable, fun _ => trivial⟩
    -- the others check their arguments, and end with the answer to one operation or with none
    all_goals repeat' first
      | exact trivial
      | exact fun _ => trivial
      | exact ⟨fun _ _ => rfl, fun _ => trivial⟩
      | refine Program.candid_andThen _ fun _ => ?_
      | split
  · cases h <;> first | exact trivial | exact fun _ => trivial

def Builtin.global (b : Builtin) : Value := .native ⟨2 + Builtin.all.idxOf b⟩

end Host

namespace Machine

open Host

/-- A protected call fails, and its decorator meets a defect. The handler's result is what the host
gets, and not the defect. -/
theorem decorator_hides_defect :
    let move := call Host.library (Builtin.global .xpcall)
      [Builtin.global .error, Builtin.global .internal, .string "x"]
    let s := Host.newState {}
    Host.library.Candid ∧ HostCall Host.library move ∧
    (run Host.library 10 ⟨(move s).1, (move s).2⟩).Raises (.defect (.reported "x")) ∧
    (perform? Host.library 30 move s).1 matches
      .done (.ok (.tuple [.boolean false, .string "x"])) :=
  ⟨library_candid, .call .., .handed (by decide +kernel), by decide +kernel⟩

end Machine

end ScriptMachine
