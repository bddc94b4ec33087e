import ScriptMachine.Proofs.Machine.Storing

/-!
# Moves that uphold variables

What calls, returns, suspensions and unwinding do to variables: nothing.

* `Kont.Ready`: those who wait need some of the frames that are there.
* `Upholds`: a move has kept variables, apart from writes, and those who wait in its control still
  cut the stack above pinned slots.
* One lemma for each function of the machine, in the order of their calls.
-/

namespace ScriptMachine

variable {ν α β : Type} {L : Locals} {ws ws' : List Write} {s s' : State ν} {a : Awaited}
  {k : Kont ν a} {n m b : Nat}

/-- Those who wait need the `n` lowest frames of the thread that runs, and cut its stack above
pinned slots. -/
structure Kont.Ready (L : Locals) (s : State ν) {a : Awaited} (k : Kont ν a) (n : Nat) : Prop where
  tidy : s.Tidy L
  here : s.HasCurrent
  absent : s.current ∉ k.threads
  clears : k.Clears L s s.current n
  deep : n ≤ (s.callsOf s.current).length

/-- A move has kept variables, apart from writes, and left a control whose waiters cut the stack
above pinned slots. -/
structure Upholds (L : Locals) (ws : List Write) (s : State ν) (x : Control ν × State ν) :
    Prop where
  faithful : Faithful ws s x.2
  tidy : x.2.Tidy L
  followed : ∀ c d k, L c d k → Remains ws c k s x.2
  clears : x.1.Clears L x.2

namespace Kont.Ready

theorem carry (ready : k.Ready L s n) (carries : Carries L ws n s s') : k.Ready L s' n where
  tidy := carries.tidy
  here := carries.hasCurrent ready.here
  absent := carries.current ▸ ready.absent
  clears := ready.clears.carry ready.tidy ready.absent carries
  deep := carries.current ▸ carries.deep

theorem high (ready : k.Ready L s n) : k.Ready L s (s.callsOf s.current).length :=
  { ready with
    clears := ready.clears.mono ready.deep
    deep := Nat.le_refl _ }

theorem level (ready : k.Ready L s n) (level : Level s s') (current : s'.current = s.current) :
    k.Ready L s' n :=
  ready.carry ((level.carries current ready.tidy).mono ready.deep)

end Kont.Ready

namespace Upholds

variable {x : Control ν × State ν} {control : Control ν}

theorem after (carries : Carries L ws n s s') (h : Upholds L ws' s' x) :
    Upholds L (ws ++ ws') s x where
  faithful := carries.faithful.trans h.faithful
  tidy := h.tidy
  followed c d k hk := (carries.followed c d k hk).trans (h.followed c d k hk)
  clears := h.clears

theorem since (carries : Carries L ws n s s') (h : Upholds L [] s' x) : Upholds L ws s x :=
  List.append_nil ws ▸ .after carries h

theorem level (level : Level s s') (h : Upholds L ws s' x) : Upholds L ws s x where
  faithful := level.faithful.trans h.faithful
  tidy := h.tidy
  followed c d k hk := (level.remains c k).trans (h.followed c d k hk)
  clears := h.clears

/-- The control changes, and not the state. -/
theorem of_clears (tidy : s.Tidy L) (clears : control.Clears L s) : Upholds L [] s (control, s) :=
  ⟨.refl s, tidy, fun _ _ _ _ => .refl s, clears⟩

theorem run {k : Kont ν .value} (ready : k.Ready L s n) (p : Program ν) :
    Upholds L [] s (.run p k, s) := .of_clears ready.tidy ready.high.clears

theorem value {k : Kont ν .value} (ready : k.Ready L s n) (r : Except Fault Value) :
    Upholds L [] s (.value r k, s) := .of_clears ready.tidy ready.high.clears

theorem step {k : Kont ν .step} (ready : k.Ready L s n) (r : Except Fault Step) :
    Upholds L [] s (.step r k, s) := .of_clears ready.tidy ready.high.clears

theorem await {k : Kont ν .value} (ready : k.Ready L s n) (task : Task) :
    Upholds L [] s (.await task k, s) := .of_clears ready.tidy ready.high.clears

end Upholds

theorem State.callDepth_eq_calls (s : State ν) : s.callDepth = (s.callsOf s.current).length := by
  simp [callDepth, callsOf, processor]

/-- The stack is as high as the mark, and the frames that are there pin nothing above it. -/
theorem Kont.Clears.pinned_mark (tidy : s.Tidy L) :
    Pinned L s.cell s.current (bottom (Machine.mark s).frames (s.callsOf s.current))
      (Machine.mark s).stack := by
  have all : bottom (Machine.mark s).frames (s.callsOf s.current) = s.callsOf s.current :=
    bottom_self s.callDepth_eq_calls.symm
  rw [all]
  exact tidy.pinned s.current

namespace Kont.Ready

/-- A loop begins. -/
theorem loop {k : Kont ν .step} (ready : k.Ready L s n) (ip : Nat) :
    (Kont.loop (Machine.mark s) ip k).Ready L s (s.callsOf s.current).length where
  tidy := ready.tidy
  here := ready.here
  absent := ready.absent
  clears := ⟨Nat.le_of_eq s.callDepth_eq_calls, Kont.Clears.pinned_mark ready.tidy,
    ready.clears.mono (Nat.le_trans ready.deep (Nat.le_of_eq s.callDepth_eq_calls.symm))⟩
  deep := Nat.le_refl _

/-- A guard waits for a call whose function is yet to come. -/
theorem protect {k : Kont ν .step} (ready : k.Ready L s n) (frame : Frame) (handler : NativeId) :
    (Kont.protect frame handler (Machine.mark s) k).Ready L s (s.callsOf s.current).length :=
  { ready.loop 0 with }

/-- Whoever waits for a loop needs less. -/
theorem of_loop {k : Kont ν .step} {mark : Mark} {ip : Nat}
    (ready : (Kont.loop mark ip k).Ready L s n) : k.Ready L s mark.frames :=
  { ready with
    clears := ready.clears.2.2
    deep := Nat.le_trans ready.clears.1 ready.deep }

theorem pinned_of_loop {k : Kont ν .step} {mark : Mark} {ip : Nat}
    (ready : (Kont.loop mark ip k).Ready L s n) :
    Pinned L s.cell s.current (bottom mark.frames (s.callsOf s.current)) mark.stack :=
  ready.clears.2.1

/-- A loop needs the same at each of its instructions. -/
theorem relabel {k : Kont ν .step} {mark : Mark} {ip : Nat}
    (ready : (Kont.loop mark ip k).Ready L s n) (at_ : Nat) :
    (Kont.loop mark at_ k).Ready L s n := { ready with }

/-- The native frame that was pushed waits for its result. -/
theorem native {k : Kont ν .step} (ready : k.Ready L s n)
    (deep : (s.callsOf s.current).length = n + 1) :
    (Kont.native k).Ready L s (n + 1) :=
  { ready with
    clears := ⟨Nat.succ_pos n, ready.clears⟩
    deep := Nat.le_of_eq deep.symm }

/-- A popped frame waits for its result. -/
theorem finish {k : Kont ν .step} (ready : k.Ready L s n) (frame : Frame) :
    (Kont.finish frame k).Ready L s n := { ready with }

/-- A loop needs as little as its mark. -/
theorem low {k : Kont ν .step} {mark : Mark} {ip : Nat}
    (ready : (Kont.loop mark ip k).Ready L s n) : (Kont.loop mark ip k).Ready L s mark.frames :=
  { ready with
    clears := ⟨Nat.le_refl _, ready.clears.2⟩
    deep := Nat.le_trans ready.clears.1 ready.deep }

end Kont.Ready

/-- Nothing is pinned from a height of the stack that runs on. There are `n` frames. -/
structure State.Clear (L : Locals) (b n : Nat) (s : State ν) : Prop where
  tidy : s.Tidy L
  here : s.HasCurrent
  pinned : Pinned L s.cell s.current (s.callsOf s.current) b
  deep : (s.callsOf s.current).length = n

namespace Shallow

theorem pinned {c : ThreadId} (h : Shallow s s') (pinned : Pinned L s.cell c (s.callsOf c) n) :
    Pinned L s'.cell c (s'.callsOf c) n := by
  rw [funext h.cell, h.calls]
  exact pinned

/-- Work on operands and the world changes the stack that runs only. -/
theorem mirror (scope : Scope) (s₀ : State ν) :
    OperandMirror (Exec.Fixed Shallow s₀) scope scope where
  weaken h _ := h
  world h := by rw [h.1]
  arrange world h := by
    obtain ⟨rfl, before⟩ := h
    exact ⟨rfl, before.trans (.of_world world)⟩
  pushAll vs h := by
    obtain ⟨rfl, before⟩ := h
    exact ⟨rfl, before.trans (.of_stack _)⟩
  peek h _ := by rw [h.1]
  taken h := by rw [h.1]
  drop h := by
    obtain ⟨rfl, before⟩ := h
    exact ⟨rfl, before.trans (.of_stack _)⟩
  poke v h _ := by
    obtain ⟨rfl, before⟩ := h
    exact ⟨rfl, before.trans (.of_stack _)⟩
  read sym h := by rw [h.1]

end Shallow

namespace State.Clear

theorem refl (clear : s.Clear L b n) : Carries L [] n s s :=
  .refl clear.tidy (Nat.le_of_eq clear.deep.symm)

theorem after (clear : s.Clear L b n) (carries : Carries L [] n s s') (shallow : Shallow s s') :
    s'.Clear L b n where
  tidy := carries.tidy
  here := carries.hasCurrent clear.here
  pinned := carries.current.symm ▸ shallow.pinned clear.pinned
  deep := by rw [carries.current, shallow.calls, clear.deep]

end State.Clear

namespace Exec

variable {work : Exec ν α} {post : α → State ν → Prop}

/-- Work on the stack that runs stays above pinned slots. -/
theorem Stays.leads (stays : Stays True b unwritten s work post) (shallow : Within Shallow s work)
    (clear : s.Clear L b n) (high : ∀ a t, post a t → b ≤ t.heightOf t.current) :
    Leads (Carries L [] n) s work fun a t => post a t ∧ t.Clear L b n := by
  have carried : ∀ {t}, Shallow s t → Steady True b unwritten s t → b ≤ t.heightOf t.current →
      Carries L [] n s t := fun shallow steady high =>
    clear.deep ▸ shallow.carries steady.toLocal clear.tidy clear.pinned (steady.current ▸ high)
  constructor
  · intro a t run
    obtain ⟨steady, hp⟩ := stays.ok a t run
    have carries := carried (shallow.ok run) steady (high a t hp)
    exact ⟨carries, hp, clear.after carries (shallow.ok run)⟩
  · intro e t run
    obtain ⟨steady, -, room⟩ := stays.error e t run
    exact carried (shallow.error run) steady (room.height trivial)

theorem leads_get {R : State ν → State ν → Prop} {f : State ν → Exec ν α}
    (h : Leads R s (f s) post) : Leads R s (get >>= f) post := ⟨h.ok, h.error⟩

theorem leads_height (clear : s.Clear L b n) :
    Leads (Carries L [] n) s height fun h t => s = t ∧ h = s.heightOf s.current :=
  leads_of_ok _ s rfl clear.refl ⟨rfl, rfl⟩

theorem within_shallow_bind {f : α → Exec ν β} (hx : Within Shallow s work)
    (hf : ∀ a s', Within Shallow s' (f a)) : Within Shallow s (work >>= f) := by
  unfold Within
  simp only [bind, EStateM.bind]
  cases run : work s with
  | error e t => exact hx.error run
  | ok a t =>
    have rest := hf a t
    dsimp only
    cases next : f a t with
    | error e u => exact (hx.ok run).trans (rest.error next)
    | ok c u => exact (hx.ok run).trans (rest.ok next)

theorem shallow_peek (i : Nat) : Within Shallow s (peek i) := by
  change Within Shallow s (present (s.processor.stack.peek? i))
  cases s.processor.stack.peek? i <;> exact Shallow.refl s

theorem shallow_pop : Within Shallow s pop :=
  within_shallow_bind (shallow_peek 0) fun _ _ =>
    within_shallow_bind (Shallow.of_stack _) fun _ s => Shallow.refl s

theorem shallow_splitOff (start : Nat) : Within Shallow s (splitOff start) := by
  unfold Within splitOff
  simp only [stack, truncate, bind, EStateM.bind, get, getThe, MonadStateOf.get, EStateM.get, pure,
    EStateM.pure]
  cases s.processor.stack.above? start with
  | none => exact .refl s
  | some vs => exact .of_stack _

theorem shallow_findCallee (name : Option String) (budget argc : Nat) :
    Within Shallow s (Machine.findCallee name budget argc) := by
  induction budget generalizing s argc with
  | zero =>
    unfold Machine.findCallee
    refine within_shallow_bind (shallow_peek argc) fun v s => ?_
    split <;> exact Shallow.refl s
  | succ budget ih =>
    unfold Machine.findCallee
    refine within_shallow_bind (shallow_peek argc) fun v s => ?_
    split
    · exact Shallow.refl s
    · exact Shallow.refl s
    · apply within_get
      split
      · exact Shallow.refl s
      · refine within_shallow_bind (Shallow.refl s) fun height s => ?_
        refine within_shallow_bind (shallow_splitOff _) fun operands s => ?_
        refine within_shallow_bind (Shallow.of_stack _) fun _ s => ?_
        exact within_shallow_bind (Shallow.of_stack _) fun _ s => ih _

end Exec

namespace Machine

open Exec

/-- A frame is pushed for a call. -/
theorem leads_pushFrame {f : Frame} {entered : Entered} (clear : s.Clear L b n)
    (empty : f.cells = []) (floor : f.activation.floor = b) :
    Exec.Leads (Carries L [] n) s (do
      modify fun s => s.modifyFrames (·.push f)
      return entered) fun _ t => (t.callsOf t.current).length = n + 1 := by
  obtain ⟨carries, calls⟩ := carries_pushFrame clear.tidy clear.here empty (floor ▸ clear.pinned)
  refine leads_of_ok entered _ rfl (clear.deep ▸ carries) ?_
  rw [← clear.deep]
  exact congrArg List.length calls

/-- **A call** enters a frame whose floor is the slot of the function. -/
theorem enterCall_leads {spec : CallSpec} (clear : s.Clear L b n)
    (height : s.heightOf s.current = b + spec.argc + 1) :
    Exec.Leads (Carries L [] n) s (enterCall spec) fun _ t =>
      (t.callsOf t.current).length = n + 1 := by
  have found := (findCallee_stays spec.name s.options.maxCallChain spec.argc
    ⟨clear.here, fun _ => height⟩).leads (shallow_findCallee ..) clear fun r t tall => by
      rw [tall.height trivial]
      omega
  unfold enterCall
  refine leads_get (leads_bind found (fun _ _ => Carries.trans) ?_)
  rintro ⟨callee, argc⟩ t - - ⟨tall, clear⟩
  have height : t.heightOf t.current = b + argc + 1 := tall.height trivial
  cases callee with
  | script c =>
    refine leads_get ?_
    split
    · exact leads_of_error _ t rfl clear.refl
    · refine leads_bind (leads_height clear) (fun _ _ => Carries.trans) ?_
      rintro _ _ - - ⟨rfl, rfl⟩
      refine leads_pushFrame clear rfl ?_
      change t.heightOf t.current - argc - 1 = b
      omega
  | native c =>
    refine leads_bind (leads_height clear) (fun _ _ => Carries.trans) ?_
    rintro _ _ - - ⟨rfl, rfl⟩
    have within : True → b ≤ b + 1 ∧ b + 1 ≤ b + argc + 1 := fun _ => by omega
    have split := (stays_splitOff_tall (w := unwritten) tall within).leads (shallow_splitOff _)
      clear fun _ u hp => by
        rw [hp.1.height trivial]
        omega
    have start : t.heightOf t.current - argc = b + 1 := by omega
    rw [start]
    refine leads_bind split (fun _ _ => Carries.trans) ?_
    rintro operands t - - ⟨⟨tall, -⟩, clear⟩
    have popped := (stays_pop_tall (w := unwritten) (b := b) tall fun _ => by omega).leads
      shallow_pop clear fun _ u tall => by
        rw [tall.height trivial]
        omega
    refine leads_bind popped (fun _ _ => Carries.trans) ?_
    rintro _ t - - ⟨tall, clear⟩
    refine leads_bind (leads_height clear) (fun _ _ => Carries.trans) ?_
    rintro _ _ - - ⟨rfl, rfl⟩
    exact leads_pushFrame clear rfl (tall.height trivial)

section Calls

variable {library : Library ν} {k : Kont ν .step} {l : Kont ν .value}

theorem invoke_upholds (ready : l.Ready L s n) (f : NativeId) (operands : List Value)
    (isMethod : Bool) : Upholds L [] s (invoke library f operands isMethod l s) := .run ready _

theorem performCall_upholds {spec : CallSpec} (ready : k.Ready L s n) (clear : s.Clear L b m)
    (height : s.heightOf s.current = b + spec.argc + 1) :
    Upholds L [] s (performCall library spec k s) := by
  have entered := enterCall_leads clear height
  have ready := ready.high
  rw [clear.deep] at ready
  unfold performCall Exec.andThen
  cases run : enterCall spec s with
  | error e t =>
    have carries := entered.error e t run
    exact .after carries (.step (ready.carry carries) _)
  | ok entry t =>
    obtain ⟨carries, deep⟩ := entered.ok entry t run
    have ready := ready.carry carries
    cases entry with
    | script => exact .after carries (.step ready _)
    | native f operands => exact .after carries (invoke_upholds (ready.native deep) ..)

/-- A function and its operands are pushed. -/
theorem carries_call (tidy : s.Tidy L) (here : s.HasCurrent) (function : Value)
    (arguments : List Value) :
    let t := s.modifyStack fun stack => (stack.push function).pushAll arguments
    Carries L [] (s.callsOf s.current).length s t ∧
      t.Clear L (s.heightOf s.current) (s.callsOf s.current).length ∧
      t.heightOf t.current = s.heightOf s.current + arguments.length + 1 := by
  obtain ⟨carries, height⟩ := carries_pushAll tidy here (function :: arguments)
  have shallow : Shallow s (s.modifyStack (·.pushAll (function :: arguments))) := .of_stack _
  exact ⟨carries, ⟨carries.tidy, carries.hasCurrent here, shallow.pinned (tidy.pinned s.current),
    congrArg List.length (shallow.calls _)⟩, height⟩

theorem executeCall_upholds (ready : k.Ready L s n) (function : Value) (arguments : List Value)
    (flags : FrameFlags) (name : Option String) :
    Upholds L [] s (executeCall library function arguments flags name k s) := by
  obtain ⟨carries, clear, height⟩ := carries_call ready.tidy ready.here function arguments
  exact .after carries (performCall_upholds ((ready.loop 0).carry carries) clear height)

/-- A processor is treated or counted differently. -/
theorem level_modifyProcessorOf (s : State ν) (c : ThreadId) (f : Processor → Processor)
    (same : ∀ p, (f p).stack = p.stack ∧ (f p).frames = p.frames) :
    Level s (s.modifyProcessorOf c f) where
  cells := rfl
  closures := rfl
  size := by simp [State.modifyProcessorOf]
  sameStack d := State.view_modifyProcessorOf s f _ d Processor.stack fun p => (same p).1
  frames d := State.view_modifyProcessorOf s f _ d Processor.frames fun p => (same p).2

theorem level_modifyProcessor (s : State ν) (f : Processor → Processor)
    (same : ∀ p, (f p).stack = p.stack ∧ (f p).frames = p.frames) :
    Level s (s.modifyProcessor f) := level_modifyProcessorOf s s.current f same

theorem nestedCall_upholds (ready : l.Ready L s n) (function : Value) (arguments : List Value)
    (flags : FrameFlags) (name : Option String) :
    Upholds L [] s
      (executeCall library function arguments flags name (.nested l) (beginNested s).2) := by
  have level := level_modifyProcessor s
    (fun p => { p with nestedCalls := p.nestedCalls + 1 }) fun _ => ⟨rfl, rfl⟩
  have nested : (Kont.nested l).Ready L s n := { ready with }
  exact .level level (executeCall_upholds (nested.level level rfl) ..)

theorem callNested_upholds (ready : l.Ready L s n) (function : Value) (arguments : List Value) :
    Upholds L [] s (callNested library function arguments l s) := by
  change Upholds L [] s ((if _ then _ else _ : Move ν (Control ν)) s)
  split
  · exact .value ready _
  · exact nestedCall_upholds ready ..

theorem indexNested_upholds (ready : l.Ready L s n) (object key : Value) :
    Upholds L [] s (indexNested library object key l s) := by
  have collapse : (Kont.collapse l).Ready L s n := { ready with }
  rw [indexNested_eq]
  cases s.resolveIndex key State.maxChain object with
  | error x => exact .value ready _
  | ok found =>
    cases found with
    | value v => exact .value ready _
    | call handler receiver => exact callNested_upholds collapse ..

theorem callMethod_upholds (ready : l.Ready L s n) (object : Value) (name : String)
    (arguments : List Value) (method : Value) :
    Upholds L [] s (callMethod library object name arguments method l s) :=
  nestedCall_upholds ready ..

theorem driveAsync_upholds (ready : l.Ready L s n) (function : Value) (arguments : List Value) :
    Upholds L [] s (driveAsync library function arguments l s) := by
  change Upholds L [] s
    ((if 0 < s.processor.nestedCalls || 0 < s.processor.frames.size then _ else _ :
      Move ν (Control ν)) s)
  split
  · exact .value ready _
  · rename_i free
    have level := level_modifyProcessor s
      (fun p => { p with asyncMode := true }) fun _ => ⟨rfl, rfl⟩
    -- there is no frame that the one who drives could need
    have empty : s.processor.frames = #[] := And.right (by simpa using free)
    have none : n = 0 := by
      have deep := ready.deep
      rw [← State.callDepth_eq_calls, State.callDepth, empty] at deep
      exact Nat.le_zero.1 deep
    have drive : (Kont.drive s.processor.asyncMode l).Ready L s n :=
      { ready with clears := none ▸ ready.clears }
    exact .level level (executeCall_upholds (drive.level level rfl) ..)

theorem deliver_upholds (ready : k.Ready L s n) (flags : FrameFlags) (returnAddress : Nat)
    (v : Value) : Upholds L [] s (deliver flags returnAddress v k s) := by
  unfold deliver
  dsimp only
  generalize (if flags.scalarResult then v.scalar else v) = result
  split
  · exact .step ready _
  · change Upholds L [] s ((if _ then _ else _ : Move ν (Control ν)) s)
    split
    · obtain ⟨carries, -⟩ := carries_pushAll ready.tidy ready.here [result]
      exact .after carries (.step (ready.high.carry carries) _)
    · exact .step ready _

theorem performTailRequest_upholds (ready : k.Ready L s n) (frame : Frame) (request : TailCall) :
    Upholds L [] s (performTailRequest library frame request k s) := by
  obtain ⟨carries, clear, height⟩ :=
    carries_call ready.tidy ready.here request.function request.arguments
  change Upholds L [] s ((if _ then _ else _ : Move ν (Control ν)) s)
  split
  · exact .step ready _
  · refine .after carries (performCall_upholds (n := (s.callsOf s.current).length) ?_ clear height)
    split
    · exact (ready.protect _ _).carry carries
    · exact ready.high.carry carries

theorem suspendOn_upholds (ready : k.Ready L s n) (frame : Frame) (suspension : Suspension) :
    Upholds L [] s (suspendOn frame suspension k s) := by
  have level := level_modifyProcessor s
    (fun p => { p with pending := some (.deliver frame, {}) }) fun _ => ⟨rfl, rfl⟩
  exact .level level (.step (ready.level level rfl) _)

theorem suspendForYield_upholds (ready : k.Ready L s n) (frame : Frame) (values : List Value) :
    Upholds L [] s (suspendForYield frame values k s) := by
  change Upholds L [] s ((if _ then _ else if _ then _ else _ : Move ν (Control ν)) s)
  split
  · exact .step ready _
  · split
    · exact .step ready _
    · exact suspendOn_upholds ready ..

theorem handleAwait_upholds (ready : k.Ready L s n) (frame : Frame) (request : RequestId) :
    Upholds L [] s (handleAwait frame request k s) := by
  rw [handleAwait_eq]
  cases s.heap.takeTask request with
  | error x => exact .step ready _
  | ok taken =>
    obtain ⟨task, heap⟩ := taken
    have level : Level s (s.setHeap heap) := .of_world _
    have ready := ready.level level rfl
    refine .level level ?_
    change Upholds L [] (s.setHeap heap)
      ((if _ then _ else if _ then _ else _ : Move ν (Control ν)) (s.setHeap heap))
    split
    · exact suspendOn_upholds ready ..
    · split
      · exact .await (ready.finish frame) _
      · exact .step ready _

/-- **The result of a popped frame.** -/
theorem finishFrame_upholds (ready : k.Ready L s n) (frame : Frame) (v : Value)
    (fromNative : Bool) : Upholds L [] s (finishFrame library frame v fromNative k s) := by
  unfold finishFrame
  split
  · exact performTailRequest_upholds ready ..
  · exact suspendForYield_upholds ready ..
  · exact handleAwait_upholds ready ..
  · cases frame.handlers.continuation with
    | some f => exact invoke_upholds (ready.finish _) ..
    | none => exact deliver_upholds ready ..

/-- A suspended processor goes on, in a loop that needs none of its frames. -/
theorem resumePending_upholds (ready : k.Ready L s 0)
    (blank : ∀ r mark, s.processor.pending = some (r, mark) → mark = {})
    (input : Except Fault Value) (fromTask : Bool) :
    Upholds L [] s (resumePending library input fromTask k s) := by
  have level := level_modifyProcessor s
    (fun p => { p with pending := none, sinceResume := 0 }) fun _ => ⟨rfl, rfl⟩
  have empty : bottom 0 (s.callsOf s.current) = [] := List.drop_length
  have looped : ∀ ip, (Kont.loop {} ip k).Ready L s 0 := fun ip =>
    { ready with
      clears := ⟨Nat.le_refl 0, by rw [empty]; trivial, ready.clears⟩ }
  cases pending : s.processor.pending with
  | none =>
    rw [resumePending_nothing library input fromTask k pending]
    exact .step ready _
  | some waiting =>
    obtain ⟨resumption, mark⟩ := waiting
    obtain rfl := blank resumption mark pending
    cases resumption with
    | instruction ip =>
      rw [resumePending_instruction library input fromTask k pending]
      have ready := (looped ip).level level rfl
      exact .level level (.of_clears ready.tidy ready.high.clears)
    | deliver frame =>
      rw [resumePending_deliver library input fromTask k pending]
      have ready := (looped (frame.returnAddress - 1)).level level rfl
      refine .level level ?_
      cases input with
      | ok v => exact finishFrame_upholds ready ..
      | error e => exact .step ready _

end Calls

end Machine

end ScriptMachine
