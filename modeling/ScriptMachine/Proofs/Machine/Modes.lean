import ScriptMachine.Proofs.Machine.Blind
import ScriptMachine.Proofs.Machine.Outline

/-!
# The two modes of a call

A host may block on a call, or let it be suspended on host tasks. Where a call blocks, its processor
has one nested call more, and another waits for the end; nothing else is different until the
outermost activation waits for a task.

* `State.blocking`: a suspending call's state, as it looks where the call blocks.
* `Kont.Grafts`: those who wait in the two modes. They part where the call ends, or where a
  suspension has cut off those who waited in the outermost loop.
* `Twin`: the two machines do the same. `advance_onward`: and go on doing so, until one of them
  reaches the place where they part, or the outermost activation waits.
-/

namespace ScriptMachine

variable {ν α : Type}

/-- A processor that may be suspended, as it looks in a call that blocks. -/
def Guise.blocking : Guise where
  nestedCalls n := n + 1
  asyncMode _ := false

/-- The root as it looks in a call that blocks. -/
abbrev State.blocking (s : State ν) : State ν := s.guised .root .blocking

/-- The routine does not observe in which mode the root was called. -/
inductive Program.Modeless : Program ν → Prop
  | finish (outcome : Except Fault Value) : Modeless (.finish outcome)
  | change {action : World ν → Except Fault Value × World ν}
      {next : Except Fault Value → Program ν} :
      (∀ r, Modeless (next r)) → Modeless (.change action next)
  | ask {query : State ν → Except Fault Value} {next : Except Fault Value → Program ν} :
      (∀ s, query s.blocking = query s) → (∀ r, Modeless (next r)) →
      Modeless (.ask query next)
  | print {values : List Value} {next : Program ν} : Modeless next → Modeless (.print values next)
  | spawn {function : Value} {next : Except Fault Value → Program ν} :
      (∀ r, Modeless (next r)) → Modeless (.spawn function next)
  | autoYield {c : ThreadId} {budget : Nat} {next : Program ν} :
      Modeless next → Modeless (.autoYield c budget next)
  | undump {bytes : List UInt8} {next : Except Fault Value → Program ν} :
      (∀ r, Modeless (next r)) → Modeless (.undump bytes next)
  | assign {name : String} {v : Value} {next : Except Fault Value → Program ν} :
      (∀ r, Modeless (next r)) → Modeless (.assign name v next)
  | call {function : Value} {arguments : List Value} {next : Except Fault Value → Program ν} :
      (∀ r, Modeless (next r)) → Modeless (.call function arguments next)
  | index {object key : Value} {next : Except Fault Value → Program ν} :
      (∀ r, Modeless (next r)) → Modeless (.index object key next)
  | resume {c : ThreadId} {arguments : List Value} {next : Except Fault Value → Program ν} :
      (∀ r, Modeless (next r)) → Modeless (.resume c arguments next)
  | enter {function : Value} {arguments : List Value} {next : Except Fault Value → Program ν} :
      (∀ r, Modeless (next r)) → Modeless (.enter function arguments next)
  | enterMethod {object : Value} {method : String} {arguments : List Value}
      {next : Except Fault Value → Program ν} :
      (∀ r, Modeless (next r)) → Modeless (.enterMethod object method arguments next)
  | enterAsync {function : Value} {arguments : List Value}
      {next : Except Fault Value → Program ν} :
      (∀ r, Modeless (next r)) → Modeless (.enterAsync function arguments next)

/-- No routine of the library observes in which mode the root was called. -/
def Library.Modeless (library : Library ν) : Prop := ∀ r i, (library r i).Modeless

/-- Where those who wait in the two modes part. -/
inductive Graft (ν : Type)
  /-- At the end of the call. -/
  | whole
  /-- In the outermost loop, whose suspension left nobody to wait but a loop at this address. -/
  | cut (k : Kont ν .step) (ip : Nat)

namespace Graft

def blocking : Graft ν → Kont ν .step
  | whole => .nested (.exit .host)
  | cut k _ => k

def suspending : Graft ν → Kont ν .step
  | whole => .drive false (.exit .host)
  | cut _ ip => .loop {} ip (.drive false (.exit .host))

def inLoop : Graft ν → Bool
  | whole => false
  | cut .. => true

end Graft

/-- Those who wait where the call blocks, and where it may be suspended. There are `n` calls nested
in activations of the root above the place where they part; the thread `c` runs; and they stand in
one of its loops, or outside. Outermost loops have the empty mark. -/
inductive Kont.Grafts (G : Graft ν) :
    Nat → ThreadId → Bool → {a : Awaited} → Kont ν a → Kont ν a → Prop
  | base {n : Nat} {c : ThreadId} {inLoop : Bool} {k k' : Kont ν .step} : n = 0 → c = .root →
      inLoop = G.inLoop → k = G.blocking → k' = G.suspending → Grafts G n c inLoop k k'
  | routine {n : Nat} {c : ThreadId} {next : Except Fault Value → Program ν}
      {k k' : Kont ν .value} : (∀ r, (next r).Modeless) → Grafts G n c false k k' →
      Grafts G n c false (.routine next k) (.routine next k')
  | native {n : Nat} {c : ThreadId} {k k' : Kont ν .step} : Grafts G n c true k k' →
      Grafts G n c false (.native k) (.native k')
  | finish {n : Nat} {c : ThreadId} {frame : Frame} {k k' : Kont ν .step} :
      Grafts G n c true k k' → Grafts G n c false (.finish frame k) (.finish frame k')
  | instruction {n : Nat} {c : ThreadId} {after : After} {ip : Nat} {k k' : Kont ν .step} :
      Grafts G n c true k k' →
      Grafts G n c false (.instruction after ip k) (.instruction after ip k')
  | decorator {n : Nat} {c : ThreadId} {error : ScriptError} {others : List Value}
      {caught : Bool} {mark : Mark} {k k' : Kont ν .step} : (n = 0 → c = .root → mark = {}) →
      Grafts G n c false k k' → Grafts G n c false (.decorator error others caught mark k)
        (.decorator error others caught mark k')
  | collapse {n : Nat} {c : ThreadId} {k k' : Kont ν .value} : Grafts G n c false k k' →
      Grafts G n c false (.collapse k) (.collapse k')
  | method {n : Nat} {c : ThreadId} {object : Value} {name : String} {arguments : List Value}
      {k k' : Kont ν .value} : Grafts G n c false k k' →
      Grafts G n c false (.method object name arguments k) (.method object name arguments k')
  | exit {n : Nat} {c : ThreadId} {k k' : Kont ν .value} : Grafts G n c false k k' →
      Grafts G n c false (.exit k) (.exit k')
  | task {n : Nat} {c : ThreadId} {k k' : Kont ν .step} : c ≠ .root → Grafts G n c false k k' →
      Grafts G n c false (.task c k) (.task c k')
  | loop {n : Nat} {c : ThreadId} {mark : Mark} {ip : Nat} {k k' : Kont ν .step} :
      (n = 0 → c = .root → mark = {}) → Grafts G n c false k k' →
      Grafts G n c true (.loop mark ip k) (.loop mark ip k')
  | protect {n : Nat} {c : ThreadId} {frame : Frame} {handler : NativeId} {mark : Mark}
      {k k' : Kont ν .step} : Grafts G n c true k k' →
      Grafts G n c true (.protect frame handler mark k) (.protect frame handler mark k')
  | nested {n m : Nat} {c : ThreadId} {k k' : Kont ν .value} :
      n = (if c = .root then m + 1 else m) → Grafts G m c false k k' →
      Grafts G n c false (.nested k) (.nested k')
  | drive {n : Nat} {c : ThreadId} {previous : Bool} {k k' : Kont ν .value} : c ≠ .root →
      Grafts G n c false k k' → Grafts G n c false (.drive previous k) (.drive previous k')
  | resumed {n : Nat} {c previous : ThreadId} {k k' : Kont ν .value} : c ≠ .root →
      Grafts G n previous false k k' →
      Grafts G n c false (.resumed .synchronous c previous k) (.resumed .synchronous c previous k')

/-- What the machines of the two modes do next. No processor that blocks is suspended. -/
inductive Control.Grafts (G : Graft ν) (n : Nat) (c : ThreadId) : Control ν → Control ν → Prop
  | execute {ip : Nat} {mark : Mark} {k k' : Kont ν .step} : (n = 0 → c = .root → mark = {}) →
      k.Grafts G n c false k' → Grafts G n c (.execute ip mark k) (.execute ip mark k')
  | run {p : Program ν} {k k' : Kont ν .value} : p.Modeless → k.Grafts G n c false k' →
      Grafts G n c (.run p k) (.run p k')
  | step {r : Except Fault Step} {inLoop : Bool} {k k' : Kont ν .step} :
      (∀ reason, r = .ok (.suspend reason) → c ≠ .root) → k.Grafts G n c inLoop k' →
      Grafts G n c (.step r k) (.step r k')
  | value {r : Except Fault Value} {k k' : Kont ν .value} : k.Grafts G n c false k' →
      Grafts G n c (.value r k) (.value r k')
  | await {task : Task} {k k' : Kont ν .value} : k.Grafts G n c false k' →
      Grafts G n c (.await task k) (.await task k')

/-- The root is in a call that may be suspended, with so many calls nested in it. If `w` holds,
tasks are awaited where a call blocks. -/
structure State.Suspends (w : Prop) (s : State ν) (n : Nat) : Prop where
  inRange : ThreadId.root.index < s.processors.size
  nested : (s.processorOf .root).nestedCalls = n
  async : (s.processorOf .root).asyncMode = true
  waitless : (s.processorOf .root).pending = none
  unmetered : w → (s.processorOf .root).sinceResume = 0
  awaits : w → s.options.autoAwait = true

/-- The machine that blocks, and the one that may be suspended. They do the same. -/
inductive Twin (w : Prop) (G : Graft ν) : Control ν × State ν → Control ν × State ν → Prop
  | mk {n : Nat} {s : State ν} {control control' : Control ν} : s.Suspends w n →
      control.Grafts G n s.current control' →
      Twin w G (control, s.blocking) (control', s)

/-- The state in which a frame waits for its result in the processor that runs. -/
def State.parking (s : State ν) (frame : Frame) : State ν :=
  s.modifyProcessor fun p => { p with pending := some (.deliver frame, {}) }

/-- The two machines do the same, or the outermost activation waits for a task: in place, or
suspended. -/
inductive Onward (w : Prop) (G : Graft ν) : Control ν × State ν → Control ν × State ν → Prop
  | twin {x y : Control ν × State ν} : Twin w G x y → Onward w G x y
  | awaits {s : State ν} {task : Task} {frame : Frame} {k k' : Kont ν .step} : w →
      s.Suspends w 0 → s.current = .root → k.Grafts G 0 .root true k' →
      Onward w G (.await task (.finish frame k), s.blocking)
        (.step (.ok (.suspend (.await task))) k', s.parking frame)

namespace State

variable {w : Prop} {s s' : State ν} {n : Nat}

theorem Suspends.quiet (h : s.Suspends w n) (quiet : Quiet .root s s') : s'.Suspends w n := by
  have bare := quiet.bare
  simp only [Processor.bare, Processor.mk.injEq] at bare
  obtain ⟨-, -, nested, async, waitless, -, unmetered⟩ := bare
  exact ⟨quiet.size ▸ h.inRange, nested.trans h.nested, async.trans h.async,
    waitless.trans h.waitless, fun waits => unmetered.trans (h.unmetered waits),
    fun waits => (congrArg Options.autoAwait quiet.options).trans (h.awaits waits)⟩

theorem Suspends.congr (h : s.Suspends w n) (processors : s'.processors = s.processors)
    (options : s'.options = s.options) : s'.Suspends w n := by
  have same : s'.processorOf .root = s.processorOf .root := by
    rw [processorOf, processors]
    rfl
  exact ⟨processors ▸ h.inRange, same ▸ h.nested, same ▸ h.async, same ▸ h.waitless,
    same ▸ h.unmetered, options ▸ h.awaits⟩

/-- Other processors do not matter. -/
theorem Suspends.modify {c : ThreadId} (h : s.Suspends w n) (f : Processor → Processor)
    (other : c ≠ .root) : (s.modifyProcessorOf c f).Suspends w n := by
  have same : (s.modifyProcessorOf c f).processorOf .root = s.processorOf .root :=
    s.processorOf_modifyProcessorOf_ne f other.symm
  exact ⟨by simpa [modifyProcessorOf] using h.inRange, same ▸ h.nested, same ▸ h.async,
    same ▸ h.waitless, same ▸ h.unmetered, h.awaits⟩

/-- The count of calls nested in the root. -/
theorem Suspends.count (h : s.Suspends w n) (root : s.current = .root) (f : Nat → Nat) :
    (s.modifyProcessor fun p => { p with nestedCalls := f p.nestedCalls }).Suspends w (f n) := by
  have shown := s.processorOf_modifyProcessorOf
    (fun p => { p with nestedCalls := f p.nestedCalls }) h.inRange
  unfold modifyProcessor
  rw [root]
  refine ⟨by simpa [modifyProcessorOf] using h.inRange, ?_, ?_, ?_, ?_, h.awaits⟩ <;> rw [shown]
  · exact congrArg f h.nested
  · exact h.async
  · exact h.waitless
  · exact h.unmetered

/-- A nested call ends. As there is one, it makes no difference that another is counted. -/
theorem Suspends.end_nested (h : s.Suspends w (n + 1)) (root : s.current = .root) :
    (s.blocking.modifyProcessor fun p => { p with nestedCalls := p.nestedCalls - 1 }) =
      (s.modifyProcessor fun p => { p with nestedCalls := p.nestedCalls - 1 }).blocking := by
  let pred (p : Processor) : Processor := { p with nestedCalls := p.nestedCalls - 1 }
  have agree : pred ((s.processorOf .root).guised .blocking) =
      (pred (s.processorOf .root)).guised .blocking := by
    simp only [pred, Processor.guised, Guise.blocking, h.nested]
    rfl
  change s.blocking.modifyProcessorOf s.current pred =
    (s.modifyProcessorOf s.current pred).blocking
  rw [root]
  calc (s.modifyProcessorOf .root (·.guised .blocking)).modifyProcessorOf .root pred
    _ = s.modifyProcessorOf .root fun p => pred (p.guised .blocking) :=
      s.modifyProcessorOf_twice ..
    _ = s.modifyProcessorOf .root fun p => (pred p).guised .blocking :=
      modifyProcessorOf_congr s agree
    _ = (s.modifyProcessorOf .root pred).modifyProcessorOf .root (·.guised .blocking) :=
      (s.modifyProcessorOf_twice .root pred (·.guised .blocking)).symm

theorem processor_blocking (h : s.Suspends w n) (root : s.current = .root) :
    s.blocking.processor = s.processor.guised .blocking := by
  have shown := s.processorOf_modifyProcessorOf (·.guised .blocking) h.inRange
  rw [← root] at shown
  simp only [blocking, guised, ← root]
  exact shown

theorem processor_blocking_ne (other : s.current ≠ .root) :
    s.blocking.processor = s.processor :=
  s.processorOf_modifyProcessorOf_ne _ other

theorem Suspends.nested_current (h : s.Suspends w n) (root : s.current = .root) :
    s.processor.nestedCalls = n := by
  rw [processor, root]
  exact h.nested

end State

theorem Kont.Grafts.quiet {G : Graft ν} {n : Nat} {s s' : State ν} {a : Awaited} {inLoop : Bool}
    {k k' : Kont ν a} (h : k.Grafts G n s.current inLoop k') (quiet : Quiet .root s s') :
    k.Grafts G n s'.current inLoop k' := quiet.current ▸ h

namespace Machine

variable {library : Library ν} {w : Prop} {G : Graft ν} {n : Nat} {s : State ν}

/-! ## Twins -/

theorem twin_step {r : Except Fault Step} {inLoop : Bool} {k k' : Kont ν .step}
    (suspends : s.Suspends w n) (grafts : k.Grafts G n s.current inLoop k')
    (stays : ∀ reason, r = .ok (.suspend reason) → s.current ≠ .root) :
    Twin w G (.step r k, s.blocking) (.step r k', s) :=
  .mk suspends (.step stays grafts)

theorem twin_value {r : Except Fault Value} {k k' : Kont ν .value} (suspends : s.Suspends w n)
    (grafts : k.Grafts G n s.current false k') :
    Twin w G (.value r k, s.blocking) (.value r k', s) :=
  .mk suspends (.value grafts)

theorem twin_fails {e : Fault} {inLoop : Bool} {k k' : Kont ν .step} (suspends : s.Suspends w n)
    (grafts : k.Grafts G n s.current inLoop k') :
    Twin w G (.step (.error e) k, s.blocking) (.step (.error e) k', s) :=
  twin_step suspends grafts fun _ => nofun

section Rules

variable {R : Control ν × State ν → Control ν × State ν → Prop}

/-- Work that a guise does not affect has the same outcome in both modes. -/
theorem andThen_blocking {work : Exec ν α}
    {ok ok' : α → Move ν (Control ν)} {error error' : Fault → Move ν (Control ν)}
    (blind : work.Blind .root .blocking s)
    (hok : ∀ a s', Quiet .root s s' → R (ok a s'.blocking) (ok' a s'))
    (herror : ∀ e s', Quiet .root s s' → R (error e s'.blocking) (error' e s')) :
    R (work.andThen ok error s.blocking) (work.andThen ok' error' s) := by
  have agree := blind s (.refl s)
  unfold Exec.Mirrors at agree
  unfold Exec.andThen
  generalize work s = x at agree
  generalize work (s.guised .root .blocking) = y at agree
  cases agree with
  | ok h =>
    obtain ⟨rfl, quiet⟩ := h
    exact hok _ _ quiet
  | error h =>
    obtain ⟨rfl, quiet⟩ := h
    exact herror _ _ quiet

theorem get_blocking {f f' : State ν → Move ν (Control ν)}
    (h : R (f s.blocking s.blocking) (f' s s)) :
    R ((get >>= f) s.blocking) ((get >>= f') s) := h

theorem modify_blocking {f : State ν → State ν} {rest rest' : Move ν (Control ν)}
    (commutes : f s.blocking = (f s).blocking)
    (h : R (rest ((f s).blocking)) (rest' (f s))) :
    R ((do modify f; rest) s.blocking) ((do modify f; rest') s) := by
  change R (rest (f s.blocking)) (rest' (f s))
  rw [commutes]
  exact h

end Rules

/-! ## Calls -/

theorem modeless_ofRoutine (modeless : library.Modeless) (r : Routine ν) (i : Invocation) :
    (Program.ofRoutine library r i).Modeless := by
  have replies : ∀ {α : Type} (r : Except Fault α) (next : α → Program ν),
      (∀ a, (next a).Modeless) → (Program.andThen r next).Modeless := by
    intro α r next h
    cases r with
    | ok a => exact h a
    | error e => exact .finish _
  cases r with
  | tableNext => exact replies _ _ fun v => .ask (fun _ => rfl) fun _ => .finish _
  | rangeNext =>
    change (Program.rangeNext i).Modeless
    unfold Program.rangeNext
    split
    · split <;> exact .finish _
    · exact .finish _
  | host r => exact modeless r i

section Calls

variable (modeless : library.Modeless) (suspends : s.Suspends w n)

include modeless suspends

theorem invoke_twin {k k' : Kont ν .value} (grafts : k.Grafts G n s.current false k')
    (f : NativeId) (operands : List Value) (isMethod : Bool) :
    Twin w G (invoke library f operands isMethod k s.blocking)
      (invoke library f operands isMethod k' s) :=
  .mk suspends (.run (modeless_ofRoutine modeless _ _) grafts)

theorem performCall_twin {k k' : Kont ν .step} (grafts : k.Grafts G n s.current true k')
    (spec : CallSpec) :
    Twin w G (performCall library spec k s.blocking) (performCall library spec k' s) := by
  refine andThen_blocking (Exec.blind_enterCall spec) (fun entered s' quiet => ?_)
    fun e s' quiet => twin_fails (suspends.quiet quiet) (grafts.quiet quiet)
  have suspends := suspends.quiet quiet
  have grafts := grafts.quiet quiet
  cases entered with
  | script => exact twin_step suspends grafts fun _ => nofun
  | native f operands => exact invoke_twin modeless suspends (.native grafts) ..

theorem executeCall_twin {k k' : Kont ν .step} (grafts : k.Grafts G n s.current false k')
    (outermost : n = 0 → s.current = .root → mark s = {}) (function : Value)
    (arguments : List Value) (flags : FrameFlags) (name : Option String) :
    Twin w G (executeCall library function arguments flags name k s.blocking)
      (executeCall library function arguments flags name k' s) := by
  have quiet : Quiet .root s (s.modifyStack fun stack => (stack.push function).pushAll arguments) :=
    quiet_modifyStack ..
  have loop : ∀ ip, (Kont.loop (mark s) ip k).Grafts G n s.current true (.loop (mark s) ip k') :=
    fun _ => .loop outermost grafts
  have called : Twin w G (performCall library _ (.loop (mark s) 0 k)
      ((s.modifyStack fun stack => (stack.push function).pushAll arguments).blocking)) _ :=
    performCall_twin modeless (suspends.quiet quiet) ((loop 0).quiet quiet)
      { argc := arguments.length, returnAddress := 0, flags := flags.union { entryPoint := true },
        name }
  have same : mark s.blocking = mark s := s.mark_guised ..
  apply get_blocking
  rw [same]
  exact modify_blocking (s.modifyStack_guised ..) called

/-- A call is nested in an activation of the root, or of another thread. -/
theorem nest_twin {k k' : Kont ν .value} (grafts : k.Grafts G n s.current false k')
    (function : Value) (arguments : List Value) (flags : FrameFlags) (name : Option String) :
    Twin w G ((do beginNested; executeCall library function arguments flags name (.nested k) :
        Move ν (Control ν)) s.blocking)
      ((do beginNested; executeCall library function arguments flags name (.nested k') :
        Move ν (Control ν)) s) := by
  let inner := s.modifyProcessor fun p => { p with nestedCalls := p.nestedCalls + 1 }
  have entered : ∀ m, inner.Suspends w m → m = (if s.current = .root then n + 1 else n) →
      Twin w G (executeCall library function arguments flags name (.nested k) (inner.blocking))
        (executeCall library function arguments flags name (.nested k') inner) := by
    intro m within hm
    refine executeCall_twin modeless within (.nested hm grafts) (fun zero root => ?_) ..
    rw [zero, if_pos (show s.current = .root from root)] at hm
    contradiction
  refine modify_blocking (s.modifyProcessorOf_guised .root s.current _ _ fun _ _ => rfl) ?_
  by_cases root : s.current = .root
  · exact entered (n + 1) (suspends.count root (· + 1)) (if_pos root).symm
  · exact entered n (suspends.modify _ root) (if_neg root).symm

/-- A nested call is made in both modes, unless too many are nested already. -/
theorem callNested_twin {k k' : Kont ν .value} (grafts : k.Grafts G n s.current false k')
    (room : s.current = .root → n + 1 < maxNestedCalls) (function : Value)
    (arguments : List Value) :
    Twin w G (callNested library function arguments k s.blocking)
      (callNested library function arguments k' s) := by
  have entered : Twin w G ((do
        beginNested
        executeCall library function arguments {} none (.nested k) : Move ν (Control ν))
        s.blocking) _ := nest_twin modeless suspends grafts ..
  apply get_blocking
  by_cases root : s.current = .root
  · have least := room root
    have nested := suspends.nested_current root
    have depth : s.blocking.processor.nestedCalls = n + 1 := by
      rw [State.processor_blocking suspends root]
      exact congrArg (· + 1) nested
    rw [nested, depth, if_neg (Nat.not_le.2 least),
      if_neg (Nat.not_le.2 (Nat.lt_of_succ_lt least))]
    exact entered
  · rw [State.processor_blocking_ne root]
    split
    · exact twin_value suspends grafts
    · exact entered

theorem indexNested_twin {k k' : Kont ν .value} (grafts : k.Grafts G n s.current false k')
    (room : s.current = .root → n + 1 < maxNestedCalls) (object key : Value) :
    Twin w G (indexNested library object key k s.blocking)
      (indexNested library object key k' s) := by
  apply get_blocking
  rw [State.resolveIndex_congr (s.world_guised ..)]
  cases s.resolveIndex key State.maxChain object with
  | error e => exact twin_value suspends grafts
  | ok found =>
    cases found with
    | value v => exact twin_value suspends grafts
    | call handler receiver =>
      exact callNested_twin modeless suspends (.collapse grafts) room ..

end Calls

/-! ## Results -/

section Results

variable (modeless : library.Modeless) (suspends : s.Suspends w n)

include suspends in
theorem deliver_twin {k k' : Kont ν .step} (grafts : k.Grafts G n s.current true k')
    (flags : FrameFlags) (returnAddress : Nat) (v : Value) :
    Twin w G (deliver flags returnAddress v k s.blocking)
      (deliver flags returnAddress v k' s) := by
  unfold deliver
  generalize (if flags.scalarResult then v.scalar else v) = v
  dsimp only
  split
  · exact twin_step suspends grafts fun _ => nofun
  · split
    · have quiet : Quiet .root s (s.modifyStack (·.push v)) := quiet_modifyStack ..
      exact modify_blocking (s.modifyStack_guised ..)
        (twin_step (suspends.quiet quiet) (grafts.quiet quiet) fun _ => nofun)
    · exact twin_step suspends grafts fun _ => nofun

include modeless suspends in
theorem performTailRequest_twin {k k' : Kont ν .step} (grafts : k.Grafts G n s.current true k')
    (frame : Frame) (request : TailCall) :
    Twin w G (performTailRequest library frame request k s.blocking)
      (performTailRequest library frame request k' s) := by
  unfold performTailRequest
  generalize (if frame.handlers.isEmpty = true then _ else frame.handlers) = handlers
  dsimp only
  split
  · exact twin_fails suspends grafts
  · apply get_blocking
    rw [State.mark_guised]
    have quiet : Quiet .root s (s.modifyStack fun stack =>
      (stack.push request.function).pushAll request.arguments) := quiet_modifyStack ..
    refine modify_blocking (s.modifyStack_guised ..)
      (performCall_twin modeless (suspends.quiet quiet) (Kont.Grafts.quiet ?_ quiet) _)
    cases handlers.errorHandler with
    | none => exact grafts
    | some handler => exact .protect grafts

include suspends in
/-- A thread other than the root is suspended in both modes alike. -/
theorem suspendOn_twin {inLoop : Bool} {k k' : Kont ν .step}
    (grafts : k.Grafts G n s.current inLoop k') (other : s.current ≠ .root) (frame : Frame)
    (reason : Suspension) :
    Twin w G (suspendOn frame reason k s.blocking) (suspendOn frame reason k' s) :=
  modify_blocking (s.modifyProcessorOf_guised .root s.current _ _ fun e => absurd e other)
    (twin_step (suspends.modify _ other) grafts fun _ _ => other)

include suspends in
theorem suspendForYield_twin {inLoop : Bool} {k k' : Kont ν .step}
    (grafts : k.Grafts G n s.current inLoop k') (frame : Frame) (values : List Value) :
    Twin w G (suspendForYield frame values k s.blocking)
      (suspendForYield frame values k' s) := by
  apply get_blocking
  rw [show s.blocking.inCoroutine = s.inCoroutine from rfl]
  cases coroutine : s.inCoroutine with
  | false => exact twin_fails suspends grafts
  | true =>
    have other : s.current ≠ .root := by
      intro root
      simp [State.inCoroutine, root, ThreadId.root] at coroutine
    rw [State.processor_blocking_ne other]
    simp only [Bool.not_true, Bool.false_eq_true, ↓reduceIte]
    split
    · exact twin_fails suspends grafts
    · exact suspendOn_twin suspends grafts other ..

include suspends in
/-- **Waiting for a task.** Where the outermost activation of the root waits, the modes part. -/
theorem handleAwait_onward (asked : w) {k k' : Kont ν .step}
    (grafts : k.Grafts G n s.current true k') (frame : Frame) (request : RequestId) :
    Onward w G (handleAwait frame request k s.blocking) (handleAwait frame request k' s) := by
  apply get_blocking
  rw [show s.blocking.heap = s.heap from rfl]
  cases s.heap.takeTask request with
  | error e => exact .twin (twin_fails suspends grafts)
  | ok taken =>
    obtain ⟨task, heap⟩ := taken
    have quiet : Quiet .root s (s.setHeap heap) := quiet_of_eq rfl
    have suspends' := suspends.quiet quiet
    have grafts' := grafts.quiet quiet
    have waits : Onward w G (.await task (.finish frame k), (s.setHeap heap).blocking)
        (.await task (.finish frame k'), s.setHeap heap) :=
      .twin (.mk suspends' (.await (.finish grafts')))
    have awaits : s.options.autoAwait = true := suspends.awaits asked
    suffices rest : Onward w G
        ((if s.blocking.processor.asyncMode && s.blocking.processor.nestedCalls == 0 then
          suspendOn frame (.await task) k
        else if s.options.autoAwait then return .await task (.finish frame k)
        else return .step (.error (.raise .awaitInSynchronousCall)) k : Move ν (Control ν))
          ((s.setHeap heap).blocking))
        ((if s.processor.asyncMode && s.processor.nestedCalls == 0 then
          suspendOn frame (.await task) k'
        else if s.options.autoAwait then return .await task (.finish frame k')
        else return .step (.error (.raise .awaitInSynchronousCall)) k' : Move ν (Control ν))
          (s.setHeap heap)) from rest
    rw [awaits]
    by_cases root : s.current = .root
    · have async : s.processor.asyncMode = true := by
        rw [State.processor, root]
        exact suspends.async
      rw [State.processor_blocking suspends root, async, suspends.nested_current root]
      cases n with
      | zero =>
        rw [root] at grafts
        exact .awaits asked suspends' root grafts
      | succ n => exact waits
    · rw [State.processor_blocking_ne root]
      split
      · exact .twin (suspendOn_twin suspends' grafts' root ..)
      · exact waits

include modeless suspends in
theorem finishFrame_onward {k k' : Kont ν .step} (grafts : k.Grafts G n s.current true k')
    (frame : Frame) (v : Value) (fromNative : Bool)
    (calm : ∀ r, fromNative = true → v = .await r → w) :
    Onward w G (finishFrame library frame v fromNative k s.blocking)
      (finishFrame library frame v fromNative k' s) := by
  unfold finishFrame
  split
  · exact .twin (performTailRequest_twin modeless suspends grafts ..)
  · exact .twin (suspendForYield_twin suspends grafts ..)
  · exact handleAwait_onward suspends (calm _ rfl rfl) grafts ..
  · cases frame.handlers.continuation with
    | some f => exact .twin (invoke_twin modeless suspends (.finish grafts) ..)
    | none => exact .twin (deliver_twin suspends grafts ..)

end Results

/-! ## Unwinding -/

/-- The move does the same in both modes, and leaves the threads alone. -/
def Alike (s : State ν) (move : Move ν α) : Prop :=
  move s.blocking = ((move s).1, (move s).2.blocking) ∧ Quiet .root s (move s).2

theorem alike_bind {R : Control ν × State ν → Control ν × State ν → Prop} {move : Move ν α}
    {rest rest' : α → Move ν (Control ν)} (alike : Alike s move)
    (h : R (rest (move s).1 ((move s).2.blocking)) (rest' (move s).1 (move s).2)) :
    R ((move >>= rest) s.blocking) ((move >>= rest') s) := by
  change R (rest (move s.blocking).1 (move s.blocking).2) _
  rw [alike.1]
  exact h

theorem dropFrame_alike : Alike s dropFrame := by
  have popped := Exec.blind_popFrame (c := .root) (g := .blocking) s (.refl s)
  unfold Exec.Mirrors at popped
  unfold Alike dropFrame
  generalize Exec.popFrame s = x at popped
  generalize Exec.popFrame (s.guised .root .blocking) = y at popped
  cases popped with
  | ok h | error h =>
    obtain ⟨rfl, quiet⟩ := h
    exact ⟨rfl, quiet⟩

theorem dropFrames_alike (count : Nat) : Alike s (dropFrames count) := by
  induction count generalizing s with
  | zero => exact ⟨rfl, .refl s⟩
  | succ count ih =>
    have alike : Alike s dropFrame := dropFrame_alike
    obtain ⟨rest, quiet⟩ := ih (s := (dropFrame s).2)
    refine ⟨?_, alike.2.trans quiet⟩
    change dropFrames count (dropFrame s.blocking).2 = _
    rw [alike.1]
    exact rest

theorem abandon_alike (mark : Mark) : Alike s (abandon mark) := by
  have alike : Alike s (dropFrames (s.callDepth - mark.frames)) := dropFrames_alike _
  have cut : Quiet .root _ _ :=
    quiet_modifyStack (dropFrames (s.callDepth - mark.frames) s).2 (·.truncate mark.stack)
  refine ⟨?_, alike.2.trans cut⟩
  change ((), ((dropFrames (s.blocking.callDepth - mark.frames) s.blocking).2).modifyStack
    (·.truncate mark.stack)) = _
  rw [State.callDepth_guised, alike.1, State.modifyStack_guised]
  rfl

section Unwinding

variable (modeless : library.Modeless) (suspends : s.Suspends w n) {mark : Mark}

include suspends in
theorem giveUp_twin {k k' : Kont ν .step} (grafts : k.Grafts G n s.current false k')
    (e : ScriptError) :
    Twin w G (popToHandler.giveUp e mark k s.blocking) (popToHandler.giveUp e mark k' s) := by
  have quiet : Quiet .root s (s.modifyStack (·.truncate mark.stack)) := quiet_modifyStack ..
  exact modify_blocking (s.modifyStack_guised ..)
    (twin_fails (suspends.quiet quiet) (grafts.quiet quiet))

include modeless suspends in
theorem popToHandler_twin {k k' : Kont ν .step} (grafts : k.Grafts G n s.current false k')
    (outermost : n = 0 → s.current = .root → mark = {}) (e : ScriptError) (count : Nat) :
    Twin w G (popToHandler library e mark k count s.blocking)
      (popToHandler library e mark k' count s) := by
  induction count generalizing s with
  | zero => exact giveUp_twin suspends grafts e
  | succ count ih =>
    have alike : Alike s dropFrame := dropFrame_alike
    refine alike_bind alike ?_
    have suspends := suspends.quiet alike.2
    have grafts := grafts.quiet alike.2
    rw [← alike.2.current] at outermost
    cases (dropFrame s).1 with
    | none => exact giveUp_twin suspends grafts e
    | some frame =>
      dsimp only
      cases frame.handlers.errorHandler with
      | some handler =>
        exact invoke_twin modeless suspends (.finish (.loop outermost grafts)) ..
      | none =>
        dsimp only
        split
        · exact giveUp_twin suspends grafts e
        · exact ih suspends grafts outermost

include modeless suspends in
theorem runDecorators_twin {k k' : Kont ν .step} (grafts : k.Grafts G n s.current false k')
    (room : s.current = .root → n + 1 < maxNestedCalls)
    (outermost : n = 0 → s.current = .root → mark = {}) (e : ScriptError) (caught : Bool)
    (decorators : List Value) :
    Twin w G (runDecorators library e caught mark k decorators s.blocking)
      (runDecorators library e caught mark k' decorators s) := by
  cases decorators with
  | nil =>
    apply get_blocking
    rw [State.callDepth_guised]
    exact popToHandler_twin modeless suspends grafts outermost ..
  | cons decorator others =>
    exact callNested_twin modeless suspends (.decorator outermost grafts) room ..

include modeless suspends in
theorem unwind_twin {k k' : Kont ν .step} (grafts : k.Grafts G n s.current false k')
    (room : s.current = .root → n + 1 < maxNestedCalls)
    (outermost : n = 0 → s.current = .root → mark = {}) (fault : Fault) (ip : Nat) :
    Twin w G (unwind library fault ip mark k s.blocking)
      (unwind library fault ip mark k' s) := by
  have abandoned : ∀ fault : Fault, Twin w G
      ((do abandon mark; return .step (.error fault) k : Move ν (Control ν)) s.blocking)
      ((do abandon mark; return .step (.error fault) k' : Move ν (Control ν)) s) := by
    intro fault
    have alike : Alike s (abandon mark) := abandon_alike mark
    exact alike_bind alike (twin_fails (suspends.quiet alike.2) (grafts.quiet alike.2))
  cases fault with
  | script e =>
    apply get_blocking
    rw [State.decorate_guised, State.framesAbove_guised, State.callDepth_guised]
    generalize (if e.isDecorated = true then e else s.decorate e ip) = e
    dsimp only
    split
    · exact popToHandler_twin modeless suspends grafts outermost ..
    · exact runDecorators_twin modeless suspends grafts room outermost ..
  | _ => exact abandoned _

end Unwinding

/-! ## Coroutines -/

section Coroutines

variable (modeless : library.Modeless) (suspends : s.Suspends w n)

include modeless suspends in
theorem resumePending_onward {k k' : Kont ν .step} (grafts : k.Grafts G n s.current false k')
    (other : s.current ≠ .root) (input : Except Fault Value) (fromTask : Bool)
    (calm : ∀ r, fromTask = true → input = .ok (.await r) → w) :
    Onward w G (resumePending library input fromTask k s.blocking)
      (resumePending library input fromTask k' s) := by
  apply get_blocking
  rw [State.pending_guised]
  cases s.processor.pending with
  | none => exact .twin (twin_fails suspends grafts)
  | some x =>
    obtain ⟨resumption, mark⟩ := x
    have picked := suspends.modify
      (fun p => { p with pending := none, sinceResume := 0 }) other
    refine modify_blocking
      (s.modifyProcessorOf_guised .root s.current _ _ fun e => absurd e other) ?_
    have elsewhere : n = 0 → s.current = .root → mark = {} := fun _ root => absurd root other
    cases resumption with
    | instruction ip => exact .twin (.mk picked (.execute elsewhere grafts))
    | deliver frame =>
      have loop : (Kont.loop mark (frame.returnAddress - 1) k).Grafts G n s.current true
          (.loop mark (frame.returnAddress - 1) k') := .loop elsewhere grafts
      cases input with
      | ok v =>
        exact finishFrame_onward modeless picked loop frame v fromTask
          fun r task awaits => calm r task (congrArg Except.ok awaits)
      | error e => exact .twin (twin_fails picked loop)

include modeless suspends in
theorem resumeFrom_onward {k k' : Kont ν .step} (grafts : k.Grafts G n s.current false k')
    (other : s.current ≠ .root) (function : Value) (state : CoroutineState)
    (arguments : List Value) :
    Onward w G (resumeFrom library function state arguments k s.blocking)
      (resumeFrom library function state arguments k' s) := by
  let s' := s.modifyProcessor fun p => { p with sinceResume := 0 }
  have suspends' : s'.Suspends w n := suspends.modify _ other
  refine modify_blocking (f := fun s => s.modifyProcessor fun p => { p with sinceResume := 0 })
    (s.modifyProcessorOf_guised .root s.current _ _ fun e => absurd e other) ?_
  cases state with
  | notStarted =>
    exact .twin (executeCall_twin (s := s') modeless suspends' grafts
      (fun _ root => absurd root other) ..)
  | suspended | forceSuspended =>
    exact resumePending_onward (s := s') modeless suspends' grafts other _ false fun _ => nofun
  | running | dead => exact .twin (twin_fails (s := s') suspends' grafts)

include modeless suspends in
theorem resume_onward {k k' : Kont ν .value} (grafts : k.Grafts G n s.current false k')
    (d : ThreadId) (arguments : List Value) :
    Onward w G (resume library .synchronous d arguments k s.blocking)
      (resume library .synchronous d arguments k' s) := by
  have same : s.blocking.coroutineState d = s.coroutineState d := rfl
  cases refusal : resumeRefusal (s.coroutineState d) arguments with
  | some cause =>
    rw [resume_refused refusal, resume_refused (same ▸ refusal)]
    exact .twin (twin_value suspends grafts)
  | none =>
    -- the root counts as a dead coroutine
    have other : d ≠ .root := by
      rintro rfl
      cases refusal
    rw [resume_accepted refusal, resume_accepted (same ▸ refusal)]
    exact resumeFrom_onward (s := s.resuming d) modeless
      (suspends.congr rfl rfl) (.resumed other grafts) other ..

include suspends in
theorem endResume_twin {c previous : ThreadId} {k k' : Kont ν .value}
    (grafts : k.Grafts G n previous false k') (outcome : Except Fault Step) :
    Twin w G (endResume .synchronous c previous outcome k s.blocking)
      (endResume .synchronous c previous outcome k' s) := by
  let s' : State ν :=
    { s.setCoroutineState c (resumeOutcome outcome).1 with
      active := s.active.tail, current := previous, entries := s.entries - 1 }
  exact Twin.mk (s := s') (suspends.congr rfl rfl) (.value grafts)

end Coroutines

/-! ## Routines -/

section Routines

variable (modeless : library.Modeless) (suspends : s.Suspends w n)

include modeless suspends in
/-- An asynchronous call is refused where the root runs. -/
theorem driveAsync_twin {k k' : Kont ν .value} (grafts : k.Grafts G n s.current false k')
    (busy : s.current = .root → 0 < n ∨ 0 < s.processor.frames.size) (function : Value)
    (arguments : List Value) :
    Twin w G (driveAsync library function arguments k s.blocking)
      (driveAsync library function arguments k' s) := by
  apply get_blocking
  rw [State.frames_guised]
  by_cases root : s.current = .root
  · have nested := suspends.nested_current root
    rw [State.processor_blocking suspends root]
    have refused : (decide (0 < s.processor.nestedCalls) || decide (0 < s.processor.frames.size)) =
        true := by
      simpa [nested] using busy root
    rw [refused]
    have refused' : (decide (0 < (s.processor.guised .blocking).nestedCalls) ||
        decide (0 < s.processor.frames.size)) = true := by
      simp [Processor.guised, Guise.blocking]
    rw [refused']
    exact twin_value suspends grafts
  · rw [State.processor_blocking_ne root]
    split
    · exact twin_value suspends grafts
    · exact modify_blocking
        (s.modifyProcessorOf_guised .root s.current _ _ fun e => absurd e root)
        (executeCall_twin (s := s.modifyProcessor fun p => { p with asyncMode := true }) modeless
          (suspends.modify _ root) (.drive root grafts) (fun _ here => absurd here root) ..)

include suspends in
theorem direct_twin {work : Exec ν Value} {k k' : Kont ν .value}
    (grafts : k.Grafts G n s.current false k') (blind : work.Blind .root .blocking s)
    {next : Except Fault Value → Program ν} (goes : ∀ r, (next r).Modeless) :
    Twin w G (runProgram.direct k work next s.blocking)
      (runProgram.direct k' work next s) :=
  andThen_blocking blind
    (fun _ _ quiet => .mk (suspends.quiet quiet) (.run (goes _) (grafts.quiet quiet)))
    fun _ _ quiet => .mk (suspends.quiet quiet) (.run (goes _) (grafts.quiet quiet))

include suspends in
theorem spawn_twin {k k' : Kont ν .value} (grafts : k.Grafts G n s.current false k')
    (function : Value) {next : Except Fault Value → Program ν} (goes : ∀ r, (next r).Modeless) :
    Twin w G (runProgram.direct k (Exec.spawn function) next s.blocking)
      (runProgram.direct k' (Exec.spawn function) next s) := by
  have made : s.blocking.newCoroutine function =
      ((s.newCoroutine function).1, (s.newCoroutine function).2.blocking) :=
    Exec.newCoroutine_guised function suspends.inRange
  have same : (s.newCoroutine function).2.processorOf .root = s.processorOf .root := by
    simp only [State.newCoroutine, State.processorOf, Array.getElem?_push]
    rw [if_neg (Nat.ne_of_lt suspends.inRange)]
  rw [direct_spawn, direct_spawn, made]
  split
  · refine .mk ⟨?_, same ▸ suspends.nested, same ▸ suspends.async, same ▸ suspends.waitless,
      same ▸ suspends.unmetered, suspends.awaits⟩
      (.run (goes _) grafts)
    simpa [State.newCoroutine] using Nat.lt_succ_of_lt suspends.inRange
  · exact .mk suspends (.run (goes _) grafts)

include suspends in
theorem setAutoYield_twin {k k' : Kont ν .value} (grafts : k.Grafts G n s.current false k')
    (c : ThreadId) (budget : Nat) {next : Program ν} (goes : next.Modeless) :
    Twin w G ((do Exec.setAutoYield c budget; return .run next k : Move ν (Control ν))
        s.blocking)
      ((do Exec.setAutoYield c budget; return .run next k' : Move ν (Control ν)) s) := by
  let f (p : Processor) : Processor := { p with autoYield := budget }
  let made (s : State ν) : State ν :=
    if s.coroutineState c = .running then s else s.modifyProcessorOf c f
  have shared : made s.blocking = (made s).blocking := by
    have commutes : s.blocking.modifyProcessorOf c f =
        (s.modifyProcessorOf c f).blocking :=
      s.modifyProcessorOf_guised .root c _ f fun _ _ => rfl
    change (if s.coroutineState c = .running then s.blocking else _) = _
    rw [commutes]
    by_cases running : s.coroutineState c = .running <;> simp only [made, running, ↓reduceIte]
  have suspends : (made s).Suspends w n ∧ (made s).current = s.current := by
    unfold made
    split
    · exact ⟨suspends, rfl⟩
    · exact ⟨⟨by simpa [State.modifyProcessorOf] using suspends.inRange,
        (s.view_modifyProcessorOf f c .root Processor.nestedCalls fun _ => rfl).trans
          suspends.nested,
        (s.view_modifyProcessorOf f c .root Processor.asyncMode fun _ => rfl).trans suspends.async,
        (s.view_modifyProcessorOf f c .root Processor.pending fun _ => rfl).trans suspends.waitless,
        fun waits => (s.view_modifyProcessorOf f c .root Processor.sinceResume fun _ => rfl).trans
          (suspends.unmetered waits), suspends.awaits⟩, rfl⟩
  exact modify_blocking shared (.mk suspends.1 (.run goes (suspends.2 ▸ grafts)))

include modeless suspends in
theorem runProgram_onward {k k' : Kont ν .value} (grafts : k.Grafts G n s.current false k')
    {program : Program ν} (hp : program.Modeless)
    (room : s.current = .root → n + 1 < maxNestedCalls)
    (busy : ∀ f args next, program = .enterAsync f args next → s.current = .root →
      0 < n ∨ 0 < s.processor.frames.size) :
    Onward w G (runProgram library k program s.blocking) (runProgram library k' program s) := by
  have entered : State.Suspends w { s with entries := s.entries + 1 } n := suspends.congr rfl rfl
  have changed : ∀ (world : World ν) {p : Program ν}, p.Modeless →
      Onward w G (.run p k, State.blocking { s with world }) (.run p k', { s with world }) :=
    fun world p hp => .twin (.mk (s := { s with world }) (suspends.congr rfl rfl) (.run hp grafts))
  cases hp with
  | finish outcome => exact .twin (twin_value suspends grafts)
  | change goes => exact changed _ (goes _)
  | @ask query next same goes =>
    have asked : Onward w G (.run (next (query s.blocking)) k, s.blocking)
        (.run (next (query s)) k', s) := by
      rw [same s]
      exact .twin (.mk suspends (.run (goes _) grafts))
    exact asked
  | print goes => exact changed _ goes
  | spawn goes => exact .twin (spawn_twin suspends grafts _ goes)
  | @autoYield c budget next goes =>
    exact .twin (setAutoYield_twin suspends grafts c budget goes)
  | undump goes => exact .twin (direct_twin suspends grafts (Exec.blind_undump _) goes)
  | assign goes =>
    exact .twin (direct_twin suspends grafts
      (Exec.blind_bind (Exec.blind_assignAll _) fun _ _ => Exec.blind_pure _) goes)
  | call goes => exact .twin (callNested_twin modeless suspends (.routine goes grafts) room ..)
  | index goes => exact .twin (indexNested_twin modeless suspends (.routine goes grafts) room ..)
  | resume goes => exact resume_onward modeless suspends (.routine goes grafts) ..
  | enter goes =>
    exact .twin (callNested_twin (s := { s with entries := s.entries + 1 }) modeless entered
      (.exit (.routine goes grafts)) room ..)
  | enterMethod goes =>
    exact .twin (indexNested_twin (s := { s with entries := s.entries + 1 }) modeless entered
      (.method (.exit (.routine goes grafts))) room ..)
  | enterAsync goes =>
    exact .twin (driveAsync_twin (s := { s with entries := s.entries + 1 }) modeless entered
      (.exit (.routine goes grafts)) (busy _ _ _ rfl) ..)

end Routines

/-! ## Steps -/

section Steps

variable (modeless : library.Modeless) (suspends : s.Suspends w n)
  (room : s.current = .root → n + 1 < maxNestedCalls)

include modeless suspends room in
theorem handValue_onward {k k' : Kont ν .value} (grafts : k.Grafts G n s.current false k')
    (outcome : Except Fault Value) (calm : ∀ r, outcome = .ok (.await r) → w) :
    Onward w G (handValue library outcome k s.blocking) (handValue library outcome k' s) := by
  cases grafts with
  | routine goes grafts => exact .twin (.mk suspends (.run (goes _) grafts))
  | native grafts =>
    cases outcome with
    | error e => exact .twin (twin_fails suspends grafts)
    | ok v =>
      exact andThen_blocking Exec.blind_popFrame
        (fun frame _ quiet =>
          finishFrame_onward modeless (suspends.quiet quiet) (grafts.quiet quiet) frame v true
            fun r _ awaits => calm r (congrArg Except.ok awaits))
        fun _ _ quiet => .twin (twin_fails (suspends.quiet quiet) (grafts.quiet quiet))
  | finish grafts =>
    cases outcome with
    | error e => exact .twin (twin_fails suspends grafts)
    | ok v =>
      exact finishFrame_onward modeless suspends grafts _ v true
        fun r _ awaits => calm r (congrArg Except.ok awaits)
  | @instruction _ _ after ip _ _ grafts =>
    cases outcome with
    | error e => exact .twin (twin_fails suspends grafts)
    | ok v =>
      exact andThen_blocking (Exec.blind_finishNested after v)
        (fun _ _ quiet =>
          .twin (twin_step (suspends.quiet quiet) (grafts.quiet quiet) fun _ => nofun))
        fun _ _ quiet => .twin (twin_fails (suspends.quiet quiet) (grafts.quiet quiet))
  | decorator outermost grafts =>
    exact .twin (runDecorators_twin modeless suspends grafts room outermost ..)
  | collapse grafts => exact .twin (twin_value suspends grafts)
  | method grafts =>
    cases outcome with
    | error e => exact .twin (twin_value suspends grafts)
    | ok method => exact .twin (nest_twin modeless suspends grafts ..)
  | exit grafts =>
    exact .twin (twin_value (s := { s with entries := s.entries - 1 }) (suspends.congr rfl rfl)
      grafts)
  | task other grafts =>
    exact resumePending_onward (s := { s with current := s.current }) modeless suspends grafts other
      outcome true fun r _ => calm r

include modeless suspends room in
theorem handStep_onward {inLoop : Bool} {k k' : Kont ν .step}
    (grafts : k.Grafts G n s.current inLoop k') {outcome : Except Fault Step}
    (stays : ∀ reason, outcome = .ok (.suspend reason) → s.current ≠ .root) :
    (n = 0 ∧ s.current = .root ∧ k = G.blocking ∧ k' = G.suspending) ∨
      Onward w G (handStep library outcome k s.blocking) (handStep library outcome k' s) := by
  cases grafts with
  | base zero root _ hk hk' => exact .inl ⟨zero, root, hk, hk'⟩
  | loop outermost grafts =>
    refine .inr (.twin ?_)
    match outcome with
    | .ok (.proceed next) => exact .mk suspends (.execute outermost grafts)
    | .ok (.return v) => exact twin_step suspends grafts fun _ => nofun
    | .ok (.suspend reason) => exact twin_step suspends grafts stays
    | .error e => exact unwind_twin modeless suspends grafts room outermost ..
  | @protect _ _ frame handler mark _ _ grafts =>
    refine .inr (.twin ?_)
    cases outcome with
    | ok step => exact twin_step suspends grafts stays
    | error e =>
      cases e with
      | script e =>
        apply get_blocking
        rw [State.callDepth_guised]
        split
        · have quiet : Quiet .root s (s.modifyStack (·.truncate mark.stack)) := quiet_modifyStack ..
          exact modify_blocking (s.modifyStack_guised ..)
            (invoke_twin modeless (suspends.quiet quiet) (.finish (grafts.quiet quiet)) ..)
        · exact twin_fails suspends grafts
      | _ => exact twin_fails suspends grafts
  | nested depth grafts =>
    refine .inr (.twin ?_)
    by_cases root : s.current = .root
    · rw [if_pos root] at depth
      subst depth
      exact modify_blocking (suspends.end_nested root)
        (twin_value (suspends.count root (· - 1)) grafts)
    · rw [if_neg root] at depth
      subst depth
      exact modify_blocking (s.modifyProcessorOf_guised .root s.current _ _ fun e => absurd e root)
        (twin_value (suspends.modify _ root) grafts)
  | drive other grafts =>
    refine .inr (.twin ?_)
    match outcome with
    | .ok (.suspend (.await task)) =>
      exact .mk suspends (.await (.task other (.drive other grafts)))
    | .ok (.proceed _) | .ok (.return _) | .ok (.suspend (.yield _)) | .ok (.suspend .forced)
    | .error _ =>
      exact modify_blocking (s.modifyProcessorOf_guised .root s.current _ _ fun e => absurd e other)
        (twin_value (suspends.modify _ other) grafts)
  | resumed _ grafts => exact .inr (.twin (endResume_twin suspends grafts outcome))

include modeless suspends room in
theorem perform_onward {mark : Mark} {k k' : Kont ν .step}
    (grafts : k.Grafts G n s.current false k')
    (outermost : n = 0 → s.current = .root → mark = {}) (ip : Nat) (effect : Option Effect)
    (forced : effect = none → s.current ≠ .root) :
    Onward w G (perform library ip mark k effect s.blocking)
      (perform library ip mark k' effect s) := by
  match effect with
  | none => exact .twin (twin_step suspends grafts fun _ _ => forced rfl)
  | some .next | some (.jump _) => exact .twin (.mk suspends (.execute outermost grafts))
  | some (.call spec) => exact .twin (performCall_twin modeless suspends (.loop outermost grafts) _)
  | some (.leave frame v) =>
    exact finishFrame_onward (k := .loop mark ip k) modeless suspends (.loop outermost grafts)
      frame v false fun _ => nofun
  | some (.nested function arguments after) =>
    exact .twin (callNested_twin modeless suspends (.instruction (.loop outermost grafts)) room ..)

include suspends in
/-- No yield is forced on the root. -/
theorem executeAt_none {ip : Nat} {s' : State ν}
    (h : Exec.executeAt ip s.blocking = .ok none s') : s.current ≠ .root := by
  intro root
  have here : s.blocking.HasCurrent := by
    change s.current.index < s.blocking.processors.size
    rw [root]
    simpa [State.guised, State.modifyProcessorOf] using suspends.inRange
  have executed := Exec.executed ip here
  rw [h] at executed
  cases executed with
  | forced alone _ =>
    have nested : s.blocking.processor.nestedCalls = 0 := alone
    rw [State.processor_blocking suspends root] at nested
    contradiction

include modeless suspends room in
theorem execute_onward {mark : Mark} {k k' : Kont ν .step}
    (grafts : k.Grafts G n s.current false k')
    (outermost : n = 0 → s.current = .root → mark = {}) (ip : Nat) :
    Onward w G (advance library (.execute ip mark k) s.blocking)
      (advance library (.execute ip mark k') s) := by
  have agree : Exec.Agree (fun _ => Guised .root .blocking s 0)
      (Guised .root .blocking s 0) (Exec.executeAt ip s)
      (Exec.executeAt ip s.blocking) :=
    Exec.blind_executeAt (fun _ => rfl) rfl ip s (.refl s)
  have forced : ∀ s', Exec.executeAt ip s.blocking = .ok none s' → s.current ≠ .root :=
    fun _ => executeAt_none suspends
  simp only [advance, Exec.andThen]
  generalize Exec.executeAt ip s = x at agree
  generalize Exec.executeAt ip s.blocking = y at agree forced
  cases agree with
  | @ok effect s' t h =>
    obtain ⟨rfl, quiet⟩ := h
    have suspends := suspends.quiet quiet
    have grafts := grafts.quiet quiet
    rw [← quiet.current] at room outermost forced
    refine perform_onward modeless suspends room grafts outermost ip effect fun none => ?_
    exact forced _ (congrArg (EStateM.Result.ok · _) none)
  | error h =>
    obtain ⟨rfl, quiet⟩ := h
    have suspends := suspends.quiet quiet
    have grafts := grafts.quiet quiet
    rw [← quiet.current] at room outermost
    exact .twin (unwind_twin modeless suspends grafts room outermost ..)

/-- What the two modes do at the place where they part. -/
inductive Parted (G : Graft ν) : Control ν → Control ν → Prop
  | mk {r : Except Fault Step} : (∀ reason, r ≠ .ok (.suspend reason)) →
      Parted G (.step r G.blocking) (.step r G.suspending)

include modeless suspends room in
/-- **One step of both modes.** They do the same, unless they have reached the place where they
part. -/
theorem advance_onward {control control' : Control ν}
    (grafts : control.Grafts G n s.current control')
    (busy : ∀ f args next k, control = .run (.enterAsync f args next) k → s.current = .root →
      0 < n ∨ 0 < s.processor.frames.size)
    (calm : ∀ r k, control = .value (.ok (.await r)) k → w) :
    (n = 0 ∧ s.current = .root ∧ Parted G control control') ∨
      Onward w G (advance library control s.blocking) (advance library control' s) := by
  cases grafts with
  | execute outermost grafts =>
    exact .inr (execute_onward modeless suspends room grafts outermost _)
  | run hp grafts =>
    exact .inr (runProgram_onward modeless suspends grafts hp room
      fun f args next e => busy f args next _ (congrArg (Control.run · _) e))
  | step stays grafts =>
    obtain ⟨zero, root, rfl, rfl⟩ | onward :=
      handStep_onward modeless suspends room grafts stays
    · exact .inl ⟨zero, root, .mk fun reason e => stays reason e root⟩
    · exact .inr onward
  | value grafts =>
    exact .inr (handValue_onward modeless suspends room grafts _
      fun r awaits => calm r _ (congrArg (Control.value · _) awaits))
  | await grafts =>
    rename_i task _ _
    cases task with
    | settles outcome => exact .inr (.twin (twin_value suspends grafts))
    | never => exact .inr (.twin (.mk suspends (.await grafts)))

end Steps

end Machine

end ScriptMachine
