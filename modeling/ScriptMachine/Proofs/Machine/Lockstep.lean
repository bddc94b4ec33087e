import ScriptMachine.Proofs.Machine.Trimming

/-!
# Two machines in lockstep

What the functions of the machine do with and without a frame that can be spared.

* `mirrors_findCallee`, `mirrors_enterFound`: a call finds the same function and pushes its frame.
* `Lockstep`: two moves lead to controls and states that belong to each other.
* `lockstep_performCall`: a call. `lockstep_finishFrame`: a result is handed on.
* `lockstep_resumePending`: a suspended thread goes on.
-/

namespace ScriptMachine

variable {ν α β : Type} {x : Option Spare} {s t : State ν} {c : ThreadId} {n : Nat}

namespace Machine

open Exec

section

variable {R : Nat → State ν → State ν → Prop} {scope scope' : Scope}

/-- As many of the topmost values as are asked for are taken off. -/
theorem mirrors_takeExactly (M : OperandMirror R scope scope')
    (tall : ∀ n s t, R n s t → n ≤ s.processor.stack.size) {m : Nat}
    {f f' : List Value → Exec ν β} {post : β → State ν → State ν → Prop} (h : R (n + m) s t)
    (hf : ∀ vs s' t', vs.length = m → R n s' t' → Mirrors R s' t' (f vs) (f' vs) post) :
    Mirrors R s t (height >>= fun h => splitOff (h - m) >>= f)
      (height >>= fun h => splitOff (h - m) >>= f') post := by
  have high := tall _ _ _ h
  have all := M.taken h
  have length : ∀ vs, s.processor.stack.above? (s.processor.stack.size - m) = some vs →
      vs.length = m := fun vs above => by
    obtain rfl : (s.processor.stack.values.extract (s.processor.stack.size - m)).toList = vs := by
      simpa [ValueStack.above?] using above
    simp only [ValueStack.size] at *
    simp
    omega
  obtain ⟨vs, above⟩ : ∃ vs, s.processor.stack.above? (s.processor.stack.size - m) = some vs :=
    ⟨_, if_pos (Nat.sub_le ..)⟩
  have dropped := M.drop h
  have run : ∀ (s : State ν) (f : List Value → Exec ν β),
      s.processor.stack.above? (s.processor.stack.size - m) = some vs →
      (height >>= fun h => splitOff (h - m) >>= f) s =
        f vs (s.modifyStack (·.truncate (s.processor.stack.size - m))) := fun s f above => by
    simp only [height, stack, splitOff, truncate, bind, EStateM.bind, get, getThe, MonadStateOf.get,
      EStateM.get, pure, EStateM.pure, above, present, modify, modifyGet, MonadStateOf.modifyGet,
      EStateM.modifyGet]
  unfold Mirrors
  rw [run s f above, run t f' (all.trans above)]
  exact hf vs _ _ (length vs above) dropped

/-- The function that is called is found in the same way. -/
theorem mirrors_findCallee (M : OperandMirror R scope scope')
    (tall : ∀ n s t, R n s t → n ≤ s.processor.stack.size) (name : Option String)
    (budget argc : Nat) (h : R (argc + 1) s t) :
    Mirrors R s t (findCallee name budget argc) (findCallee name budget argc)
      fun found => R (found.2 + 1) := by
  induction budget generalizing argc s t with
  | zero =>
    unfold findCallee
    apply mirrors_bind (mirrors_peek M h (Nat.lt_succ_self _))
    intro v s t h
    cases v with
    | function c | native c => exact mirrors_pure h
    | _ => exact mirrors_raise M h
  | succ budget ih =>
    unfold findCallee
    apply mirrors_bind (mirrors_peek M h (Nat.lt_succ_self _))
    intro v s t h
    cases v with
    | function c | native c => exact mirrors_pure h
    | _ =>
      apply mirrors_get
      rw [State.unaryMetamethod_congr (M.world h)]
      split
      · exact mirrors_raise M h
      · have all : R (0 + (argc + 1)) s t := (Nat.zero_add (argc + 1)).symm ▸ h
        simp only [Nat.sub_sub]
        refine mirrors_takeExactly M tall all fun vs s t length h => ?_
        refine mirrors_bind (mirrors_push M _ h) fun _ s t h => ?_
        refine mirrors_bind (mirrors_pushAll M _ h) fun _ s t h => ?_
        exact ih (argc + 1) (M.weaken h (by omega))

end

end Machine

theorem Spared.tall (h : Spared x c n s t) : n ≤ s.processor.stack.size :=
  Nat.le_trans (Nat.le_add_left ..) h.room

theorem Spared.weaken (h : Spared x c n s t) : Spared x c 0 s t :=
  { h with room := Nat.le_trans (Nat.le_add_right ..) h.room }

/-- The scope that a function would have whose slots are all above those that are taken out. -/
def Spare.above (x : Option Spare) (c : ThreadId) : Scope := ⟨default, (Spare.part x c).high⟩

theorem Spare.operands (x : Option Spare) (c : ThreadId) : OperandMirror (Spared (ν := ν) x c)
    (Spare.above x c) ((Spare.above x c).lowered (Spare.part x c).gap) :=
  spared_operands x c (Nat.le_refl _)

/-- There are as many frames, but for the one that can be spared. -/
theorem FramesTrim.length {y : Option Spare} {fs gs : List Frame} (h : FramesTrim y fs gs) :
    (y = none → gs.length = fs.length) ∧
      ∀ z ∈ y, z.depth + 2 ≤ fs.length ∧ gs.length + 1 = fs.length := by
  induction h with
  | same => exact ⟨fun _ => rfl, fun z hz => absurd hz (Option.not_mem_none z)⟩
  | called => 
    refine ⟨nofun, fun z hz => ?_⟩
    obtain rfl := Option.some.inj hz
    exact ⟨Nat.le_refl _, rfl⟩
  | above below high ih =>
    refine ⟨nofun, fun z hz => ?_⟩
    obtain ⟨deep, fewer⟩ := ih.2 z hz
    exact ⟨Nat.le_succ_of_le deep, congrArg Nat.succ fewer⟩

/-- A loop that is entered now is entered one frame lower. -/
theorem State.Trims.mark (h : s.Trims x t) :
    MarkTrims (Spare.on x s.current) (Machine.mark s) (Machine.mark t) := by
  have frames := h.frames.length
  have stack := h.stack
  simp only [List.length_reverse, Array.length_toList] at frames
  cases hy : Spare.on x s.current with
  | none =>
    rw [Spare.part, hy] at stack
    have height : t.processor.stack.size = s.processor.stack.size := stack.size
    rw [Machine.mark, Machine.mark, frames.1 hy, height]
    exact .none _
  | some z =>
    rw [Spare.part, hy] at stack
    obtain ⟨deep, fewer⟩ := frames.2 z hy
    have size : t.processor.stack.size + z.slots = s.processor.stack.size := stack.size
    have high := MarkTrims.high (m := Machine.mark s) deep stack.room
    have same : Machine.mark t = ⟨(Machine.mark s).frames - 1, (Machine.mark s).stack - z.slots⟩ := by
      simp only [Machine.mark, Mark.mk.injEq]
      omega
    rwa [same]

theorem State.Trims.callDepth (h : s.Trims x t) : t.callDepth ≤ s.callDepth := by
  have frames := h.frames.length
  simp only [List.length_reverse, Array.length_toList] at frames
  unfold State.callDepth
  cases hy : Spare.on x s.current with
  | none => exact Nat.le_of_eq (frames.1 hy)
  | some z => exact Nat.le_of_succ_le (Nat.le_of_eq (frames.2 z hy).2)

/-- A frame is pushed above the one that can be spared. -/
theorem State.Trims.pushFrame (h : s.Trims x t) {f : Frame}
    (high : (Spare.part x s.current).high ≤ f.activation.floor) :
    (s.modifyFrames (·.push f)).Trims x
      (t.modifyFrames (·.push (f.lowered (Spare.part x s.current).gap))) := by
  refine h.modifyFrames ?_
  rw [reverse_push, reverse_push]
  exact h.frames.push high

theorem Spared.pushFrame (h : Spared x c n s t) {f : Frame} (empty : f.cells = [])
    (high : (Spare.part x c).high ≤ f.activation.floor) :
    Spared x c n (s.modifyFrames (·.push f))
      (t.modifyFrames (·.push (f.lowered (Spare.part x c).gap))) := by
  obtain rfl := h.current
  refine h.of_level rfl ?_ ?_ ((State.Change.pushed empty).becomes.keeps h.kept).1
    (h.trims.pushFrame high)
  · simp [State.modifyFrames, State.modifyProcessor, State.modifyProcessorOf]
  · rw [State.stackOf_modifyFrames]

/-- The processor that runs changes, but not its stack and frames. -/
theorem Spared.modifyProcessor (h : Spared x c n s t) {f f' : Processor → Processor}
    (changed : ∀ p p', p.Trims (Spare.on x c) p' → (f p).Trims (Spare.on x c) (f' p'))
    (same : ∀ p, (f p).stack = p.stack) (frames : ∀ p, (f p).frames = p.frames) :
    Spared x c n (s.modifyProcessor f) (t.modifyProcessor f') := by
  obtain ⟨rfl, here, kept, trims, room⟩ := h
  have stack := State.view_modifyProcessorOf s f s.current s.current Processor.stack same
  have trims' : (s.modifyProcessor f).Trims x (t.modifyProcessor f') := by
    unfold State.modifyProcessor
    rw [trims.current]
    exact trims.modifyProcessorOf (changed _ _ (trims.processors _)) fun i _ => by rw [same]; rfl
  refine ⟨rfl, (s.likewise_modifyProcessor f).hasCurrent here,
    ((becomes_modifyProcessorOf s s.current frames).keeps kept).1, trims', ?_⟩
  change _ ≤ ((s.modifyProcessor f).stackOf s.current).size
  rw [State.stackOf, State.modifyProcessor, stack]
  exact room

theorem Spared.nestedCalls (h : Spared x c n s t) :
    t.processor.nestedCalls = s.processor.nestedCalls := by
  unfold State.processor
  rw [h.trims.current]
  exact (h.trims.processors _).nestedCalls

theorem Spared.asyncMode (h : Spared x c n s t) : t.processor.asyncMode = s.processor.asyncMode := by
  unfold State.processor
  rw [h.trims.current]
  exact (h.trims.processors _).asyncMode

theorem Spared.countNested (h : Spared x c n s t) (f : Nat → Nat) :
    Spared x c n (s.modifyProcessor fun p => { p with nestedCalls := f p.nestedCalls })
      (t.modifyProcessor fun p => { p with nestedCalls := f p.nestedCalls }) :=
  h.modifyProcessor (fun _ _ trims => { trims with nestedCalls := congrArg f trims.nestedCalls })
    (fun _ => rfl) fun _ => rfl

theorem Spared.setAsync (h : Spared x c n s t) (mode : Bool) :
    Spared x c n (s.modifyProcessor fun p => { p with asyncMode := mode })
      (t.modifyProcessor fun p => { p with asyncMode := mode }) :=
  h.modifyProcessor (fun _ _ trims => { trims with asyncMode := rfl }) (fun _ => rfl) fun _ => rfl

namespace Exec

theorem mirrors_height {R : Nat → State ν → State ν → Prop} {f f' : Nat → Exec ν β}
    {post : β → State ν → State ν → Prop}
    (h : Mirrors R s t (f s.processor.stack.size) (f' t.processor.stack.size) post) :
    Mirrors R s t (height >>= f) (height >>= f') post := h

end Exec

namespace Machine

open Exec

def enterFound (spec : CallSpec) (found : Callee × Nat) : Exec ν Entered := do
  let (callee, argc) := found
  let frame (base : Nat) : Frame :=
    { base, argc, returnAddress := spec.returnAddress, callee, name := spec.name,
      handlers := spec.handlers, flags := spec.flags }
  match callee with
  | .script _ =>
    let s ← get
    if s.options.maxCallDepth ≤ s.callDepth then Exec.raise .stackOverflow
    else
      let height ← Exec.height
      modify fun s => s.modifyFrames (·.push (frame (height - argc)))
      return .script
  | .native n =>
    let operands ← Exec.splitOff ((← Exec.height) - argc)
    let _ ← Exec.pop
    let height ← Exec.height
    modify fun s => s.modifyFrames (·.push (frame height))
    return .native n operands

theorem enterCall_eq (spec : CallSpec) : (enterCall spec : Exec ν Entered) =
    (get >>= fun s => findCallee spec.name s.options.maxCallChain spec.argc >>=
      enterFound spec) := rfl

theorem enterFound_full (spec : CallSpec) (f : ClosureId) (argc : Nat)
    (full : s.options.maxCallDepth ≤ s.callDepth) :
    enterFound spec (.script f, argc) s = .error (.raise .stackOverflow) s := by
  simp only [enterFound, bind, EStateM.bind, get, getThe, MonadStateOf.get, EStateM.get,
    if_pos full]
  rfl

theorem enterFound_script (spec : CallSpec) (f : ClosureId) (argc : Nat)
    (fewer : ¬ s.options.maxCallDepth ≤ s.callDepth) :
    enterFound spec (.script f, argc) s = .ok .script (s.modifyFrames (·.push
      { base := s.processor.stack.size - argc, argc, returnAddress := spec.returnAddress,
        callee := .script f, name := spec.name, handlers := spec.handlers,
        flags := spec.flags })) := by
  simp only [enterFound, bind, EStateM.bind, get, getThe, MonadStateOf.get, EStateM.get,
    if_neg fewer]
  rfl

/-- From two states, two moves lead to controls and states that belong to each other. -/
def Lockstep (x : Option Spare) (s t : State ν) (move move' : Move ν (Control ν)) : Prop :=
  Tallies x (move s) (move' t)

theorem lockstep_get {f f' : State ν → Move ν (Control ν)} (h : Lockstep x s t (f s) (f' t)) :
    Lockstep x s t (get >>= f) (get >>= f') := h

theorem lockstep_modify {g g' : State ν → State ν} {f f' : PUnit → Move ν (Control ν)}
    (h : Lockstep x (g s) (g' t) (f ⟨⟩) (f' ⟨⟩)) :
    Lockstep x s t (modify g >>= f) (modify g' >>= f') := h

/-- The frame of a function that was found is pushed. -/
theorem mirrors_enterFound {spec : CallSpec} {found : Callee × Nat}
    (h : Spared x c (found.2 + 1) s t)
    (fewer : ∀ f, found.1 = .script f → s.callDepth < s.options.maxCallDepth) :
    Mirrors (Spared x c) s t (enterFound spec found) (enterFound spec found)
      fun _ => Spared x c 0 := by
  have M := Spare.operands (ν := ν) x c
  obtain ⟨callee, argc⟩ := found
  cases callee with
  | script f =>
    have room := h.room
    have size := h.stack.size
    have depth := h.trims.callDepth
    have most : t.options.maxCallDepth = s.options.maxCallDepth := by rw [h.trims.options]
    have fewer : s.callDepth < s.options.maxCallDepth := fewer f rfl
    refine mirrors_get ?_
    rw [if_neg (Nat.not_le_of_lt fewer), if_neg (by rw [most]; omega)]
    refine mirrors_height ?_
    refine mirrors_bind (mirrors_modify (f := fun s => s.modifyFrames _) ?_) fun _ _ _ h =>
      mirrors_pure h
    let f : Frame := ⟨s.processor.stack.size - argc, argc, spec.returnAddress, .script f, spec.name,
      [], spec.handlers, spec.flags⟩
    have lowered : f.lowered (Spare.part x c).gap =
        { f with base := t.processor.stack.size - argc } := by
      simp only [Frame.lowered, f, Frame.mk.injEq, and_true]
      omega
    have pushed := h.pushFrame (f := f) rfl (by
      change _ ≤ s.processor.stack.size - argc - 1
      omega)
    rw [lowered] at pushed
    exact pushed.weaken
  | native f =>
    refine mirrors_takeTop M (n := 1) (m := argc) (Nat.add_comm argc 1 ▸ h) fun operands s t h => ?_
    refine mirrors_bind (mirrors_pop M h) fun _ s t h => ?_
    have size := h.stack.size
    refine mirrors_height ?_
    refine mirrors_bind (mirrors_modify (f := fun s => s.modifyFrames _) ?_) fun _ _ _ h =>
      mirrors_pure h
    let f : Frame := ⟨s.processor.stack.size, argc, spec.returnAddress, .native f, spec.name,
      [], spec.handlers, spec.flags⟩
    have lowered : f.lowered (Spare.part x c).gap = { f with base := t.processor.stack.size } := by
      simp only [Frame.lowered, f, Frame.mk.injEq, and_true]
      omega
    have pushed := h.pushFrame (f := f) rfl h.stack.room
    rwa [lowered] at pushed

theorem lockstep_set {s' t' : State ν} {move move' : Move ν (Control ν)} (h : Spared x c n s' t')
    (next : Spared x c n s' t' → Lockstep x s' t' move move') :
    Lockstep x s t (do set s'; move) (do set t'; move') := next h

section Lockstep

variable {library : Library ν}

theorem lockstep_value {r r' : Except Fault Value} {k k' : Kont ν .value} (h : Spared x c n s t)
    (concurs : Concurs r r') (hk : Kont.Trims x c k k') :
    Lockstep x s t (pure (.value r k)) (pure (.value r' k')) := by
  obtain ⟨rfl, -, -, trims, -⟩ := h
  exact .same (.value concurs hk) trims

theorem lockstep_run {p p' : Program ν} {k k' : Kont ν .value} (h : Spared x c n s t)
    (agrees : p.Agrees p') (hk : Kont.Trims x c k k') :
    Lockstep x s t (pure (.run p k)) (pure (.run p' k')) := by
  obtain ⟨rfl, -, -, trims, -⟩ := h
  exact .same (.run agrees hk) trims

theorem lockstep_step {r r' : Except Fault Step} {k k' : Kont ν .step} (h : Spared x c n s t)
    (concurs : Concurs r r') (waits : RootAwaits c r) (hk : Kont.Trims x c k k') :
    Lockstep x s t (pure (.step r k)) (pure (.step r' k')) := by
  obtain ⟨rfl, -, -, trims, -⟩ := h
  exact .same (.step concurs waits hk) trims

theorem lockstep_proceed {ip : Nat} {k k' : Kont ν .step} (h : Spared x c n s t)
    (hk : Kont.Trims x c k k') :
    Lockstep x s t (pure (.step (.ok (.proceed ip)) k)) (pure (.step (.ok (.proceed ip)) k')) :=
  lockstep_step h (.ok _) (fun _ same => by cases same) hk

theorem lockstep_error {e e' : Fault} {k k' : Kont ν .step} (h : Spared x c n s t)
    (same : e.untraced = e'.untraced) (hk : Kont.Trims x c k k') :
    Lockstep x s t (pure (.step (.error e) k)) (pure (.step (.error e') k')) :=
  lockstep_step h (.error same) (fun _ same => by cases same) hk

/-- Fallible work is done in both states. -/
theorem lockstep_andThen {work work' : Exec ν α} {post : α → State ν → State ν → Prop}
    {ok ok' : α → Move ν (Control ν)} {error error' : Fault → Move ν (Control ν)}
    (h : Mirrors (Spared x c) s t work work' post)
    (hok : ∀ a s t, post a s t → Lockstep x s t (ok a) (ok' a))
    (herror : ∀ e s t, Spared x c 0 s t → Lockstep x s t (error e) (error' e)) :
    Lockstep x s t (work.andThen ok error) (work'.andThen ok' error') := by
  unfold Lockstep Exec.andThen
  unfold Mirrors at h
  generalize work s = a at h
  generalize work' t = b at h
  cases h with
  | ok h => exact hok _ _ _ h
  | error h => exact herror _ _ _ h

section Calls

variable (discreet : library.Discreet)

include discreet

theorem lockstep_invoke {k k' : Kont ν .value} (h : Spared x c n s t) (f : NativeId)
    (operands : List Value) (isMethod : Bool) (hk : Kont.Trims x c k k') :
    Lockstep x s t (invoke library f operands isMethod k)
      (invoke library f operands isMethod k') := by
  have native : t.native f = s.native f := by simp only [State.native, h.trims.world]
  refine lockstep_get ?_
  rw [native]
  exact lockstep_run h (Program.ofRoutine_agrees discreet ..) hk

/-- **A call** enters the same function, unless there are too many frames. -/
theorem lockstep_performCall {spec : CallSpec} {k k' : Kont ν .step}
    (h : Spared x c (spec.argc + 1) s t) (hk : Kont.Trims x c k k') :
    Lockstep x s t (performCall library spec k) (performCall library spec k') := by
  have M := Spare.operands (ν := ν) x c
  have found := mirrors_findCallee M (fun _ _ _ => Spared.tall) spec.name
    s.options.maxCallChain spec.argc h
  have chain : t.options.maxCallChain = s.options.maxCallChain := by rw [h.trims.options]
  unfold Lockstep performCall Exec.andThen
  rw [enterCall_eq]
  simp only [bind, EStateM.bind, get, getThe, MonadStateOf.get, EStateM.get]
  rw [chain]
  unfold Exec.Mirrors at found
  generalize findCallee spec.name s.options.maxCallChain spec.argc s = a at found
  generalize findCallee spec.name s.options.maxCallChain spec.argc t = b at found
  cases found with
  | error h => exact lockstep_error h rfl hk
  | @ok found s t h =>
    dsimp only
    by_cases fewer : ∀ f, found.1 = .script f → s.callDepth < s.options.maxCallDepth
    · have entered : Mirrors (Spared x c) s t (enterFound spec found) (enterFound spec found) _ :=
        mirrors_enterFound h fewer
      unfold Exec.Mirrors at entered
      generalize enterFound spec found s = a at entered
      generalize enterFound spec found t = b at entered
      cases entered with
      | error h => exact lockstep_error h rfl hk
      | @ok entered s t h =>
        cases entered with
        | script => exact lockstep_proceed h hk
        | native f operands => exact lockstep_invoke discreet h f operands _ (.native hk)
    · obtain ⟨callee, argc⟩ := found
      obtain ⟨f, rfl, full⟩ : ∃ f, callee = .script f ∧ s.options.maxCallDepth ≤ s.callDepth := by
        simpa using fewer
      have refused := enterFound_full spec f argc full
      rw [refused]
      refine .overflows rfl ?_
      by_cases full' : t.options.maxCallDepth ≤ t.callDepth
      · rw [enterFound_full spec f argc full']
        exact nofun
      · rw [enterFound_script spec f argc full']
        exact nofun

/-- A function is called with these arguments. -/
theorem lockstep_executeCall {k k' : Kont ν .step} (h : Spared x c n s t) (function : Value)
    (arguments : List Value) (flags : FrameFlags) (name : Option String)
    (hk : Kont.Trims x c k k') :
    Lockstep x s t (executeCall library function arguments flags name k)
      (executeCall library function arguments flags name k') := by
  have marks := h.trims.mark
  rw [h.current] at marks
  have M := Spare.operands (ν := ν) x c
  have operands := M.weaken (M.pushAll (function :: arguments) h)
    (Nat.le_add_left (arguments.length + 1) n)
  let spec : CallSpec :=
    { argc := arguments.length, returnAddress := 0, flags := flags.union { entryPoint := true },
      name }
  have waits : Kont.Trims x c (.loop (mark s) 0 k) (.loop (mark t) 0 k') := .loop marks hk
  exact lockstep_performCall discreet operands waits

theorem lockstep_callNested {k k' : Kont ν .value} (h : Spared x c n s t) (function : Value)
    (arguments : List Value) (hk : Kont.Trims x c k k') :
    Lockstep x s t (callNested library function arguments k)
      (callNested library function arguments k') := by
  refine lockstep_get ?_
  rw [h.nestedCalls]
  split
  · exact lockstep_value h (.refl _) hk
  · exact lockstep_modify (lockstep_executeCall discreet (h.countNested (· + 1)) _ _ _ _
      (.nested hk))

theorem lockstep_indexNested {k k' : Kont ν .value} (h : Spared x c n s t) (object key : Value)
    (hk : Kont.Trims x c k k') :
    Lockstep x s t (indexNested library object key k) (indexNested library object key k') := by
  refine lockstep_get ?_
  rw [State.resolveIndex_congr h.trims.world]
  split
  · exact lockstep_value h (.refl _) hk
  · exact lockstep_callNested discreet h _ _ (.collapse hk)
  · exact lockstep_value h (.refl _) hk

/-- A method that was found is called. -/
theorem lockstep_callMethod {k k' : Kont ν .value} (h : Spared x c n s t) (object : Value)
    (name : String) (arguments : List Value) (method : Value) (hk : Kont.Trims x c k k') :
    Lockstep x s t (callMethod library object name arguments method k)
      (callMethod library object name arguments method k') :=
  lockstep_modify (lockstep_executeCall discreet (h.countNested (· + 1)) _ _ _ _ (.nested hk))

/-- An asynchronous call is refused where frames stand, and there stand as many frames or one
less. -/
theorem lockstep_driveAsync {k k' : Kont ν .value} (h : Spared x .root n s t) (function : Value)
    (arguments : List Value) (hk : Kont.Trims x .root k k') :
    Lockstep x s t (driveAsync library function arguments k)
      (driveAsync library function arguments k') := by
  have none : 0 < t.processor.frames.size ↔ 0 < s.processor.frames.size := by
    have empty := h.trims.frames.nil_iff
    simp only [List.reverse_eq_nil_iff, Array.toList_eq_nil_iff] at empty
    rw [Array.size_pos_iff, Array.size_pos_iff, ne_eq, ne_eq, empty]
  refine lockstep_get ?_
  simp only [h.nestedCalls, h.asyncMode, none]
  split
  · exact lockstep_value h (.refl _) hk
  · exact lockstep_modify (lockstep_executeCall discreet (h.setAsync true) _ _ _ _ (.drive hk))

end Calls

/-- A result is handed to the caller of a frame. -/
theorem lockstep_deliver {k k' : Kont ν .step} (h : Spared x c n s t) (flags : FrameFlags)
    (returnAddress : Nat) (v : Value) (hk : Kont.Trims x c k k') :
    Lockstep x s t (deliver flags returnAddress v k) (deliver flags returnAddress v k') := by
  unfold deliver
  generalize (if flags.scalarResult then v.scalar else v) = v
  dsimp only
  split
  · exact lockstep_step h (.ok _) (fun _ same => by cases same) hk
  · split
    · exact lockstep_modify (lockstep_proceed ((Spare.operands x c).pushAll [v] h) hk)
    · exact lockstep_proceed h hk

theorem lockstep_suspendOn {k k' : Kont ν .step} (h : Spared x c n s t) (frame : Frame)
    (base : Nat) (suspension : Suspension)
    (waits : (∀ task, suspension ≠ .await task) → c ≠ .root) (hk : Kont.Trims x c k k') :
    Lockstep x s t (suspendOn frame suspension k)
      (suspendOn { frame with base } suspension k') := by
  have paused : Spared x c n
      (s.modifyProcessor fun p => { p with pending := some (.deliver frame, {}) })
      (t.modifyProcessor fun p => { p with pending := some (.deliver { frame with base }, {}) }) :=
    h.modifyProcessor (fun _ _ trims => { trims with pending := .deliver base }) (fun _ => rfl)
      fun _ => rfl
  refine lockstep_modify (lockstep_step paused (.ok _) ?_ hk)
  rintro reason ⟨⟩ other
  exact waits other

theorem lockstep_suspendForYield {k k' : Kont ν .step} (h : Spared x c n s t) (frame : Frame)
    (base : Nat) (values : List Value) (hk : Kont.Trims x c k k') :
    Lockstep x s t (suspendForYield frame values k)
      (suspendForYield { frame with base } values k') := by
  have inCoroutine : t.inCoroutine = s.inCoroutine := by
    unfold State.inCoroutine
    rw [h.trims.current]
  refine lockstep_get ?_
  rw [inCoroutine, h.nestedCalls]
  split
  · exact lockstep_error h rfl hk
  · rename_i inside
    split
    · exact lockstep_error h rfl hk
    · refine lockstep_suspendOn h frame base _ (fun _ root => ?_) hk
      simp [State.inCoroutine, h.current, root, ThreadId.root] at inside

theorem lockstep_handleAwait {k k' : Kont ν .step} (h : Spared x c n s t) (frame : Frame)
    (base : Nat) (request : RequestId) (hk : Kont.Trims x c k k') :
    Lockstep x s t (handleAwait frame request k) (handleAwait { frame with base } request k') := by
  have autoAwait : t.options.autoAwait = s.options.autoAwait := by rw [h.trims.options]
  refine lockstep_get ?_
  rw [h.trims.heap, h.asyncMode, h.nestedCalls, autoAwait]
  cases s.heap.takeTask request with
  | error e => exact lockstep_error h rfl hk
  | ok taken =>
    obtain ⟨task, heap⟩ := taken
    refine lockstep_set ((Spare.operands x c).setHeap heap h) fun h => ?_
    split
    · exact lockstep_suspendOn h frame base _ (fun other => absurd rfl (other task)) hk
    · split
      · obtain ⟨rfl, -, -, trims, -⟩ := h
        exact .same (.await (.finish base hk)) trims
      · exact lockstep_error h rfl hk

section Finishing

variable (discreet : library.Discreet)

include discreet

theorem lockstep_performTailRequest {k k' : Kont ν .step} (h : Spared x c n s t) (frame : Frame)
    (base : Nat) (request : TailCall) (hk : Kont.Trims x c k k') :
    Lockstep x s t (performTailRequest library frame request k)
      (performTailRequest library { frame with base } request k') := by
  have marks := h.trims.mark
  rw [h.current] at marks
  have M := Spare.operands (ν := ν) x c
  have operands := M.weaken (M.pushAll (request.function :: request.arguments) h)
    (Nat.le_add_left (request.arguments.length + 1) n)
  have waits : ∀ handlers : Handlers, Kont.Trims x c (guarded handlers frame (mark s) k)
      (guarded handlers { frame with base } (mark t) k') := fun handlers => by
    unfold guarded
    cases handlers.errorHandler with
    | none => exact hk
    | some handler => exact .protect base marks hk
  unfold performTailRequest
  dsimp only
  split
  · exact lockstep_error h rfl hk
  · exact lockstep_get (lockstep_modify (lockstep_performCall discreet operands (waits _)))

/-- **The result** of a frame that is popped is handed on, or acted on if it is a request. -/
theorem lockstep_finishFrame {k k' : Kont ν .step} (h : Spared x c n s t) (frame : Frame)
    (base : Nat) (v : Value) (fromNative : Bool) (hk : Kont.Trims x c k k') :
    Lockstep x s t (finishFrame library frame v fromNative k)
      (finishFrame library { frame with base } v fromNative k') := by
  unfold finishFrame
  split
  · refine lockstep_get ?_
    rw [h.trims.heap]
    exact lockstep_performTailRequest discreet h frame base _ hk
  · refine lockstep_get ?_
    rw [h.trims.heap]
    exact lockstep_suspendForYield h frame base _ hk
  · exact lockstep_handleAwait h frame base _ hk
  · dsimp only
    cases frame.handlers.continuation with
    | some f => exact lockstep_invoke discreet h f _ _ (.finish base hk)
    | none => exact lockstep_deliver h _ _ v hk

/-- A suspended thread goes on with a result. -/
theorem lockstep_resumePending {r r' : Except Fault Value} {k k' : Kont ν .step}
    (h : Spared x c n s t) (concurs : Concurs r r') (fromTask : Bool) (hk : Kont.Trims x c k k') :
    Lockstep x s t (resumePending library r fromTask k) (resumePending library r' fromTask k') := by
  have pending : PendingTrim s.processor.pending t.processor.pending := by
    unfold State.processor
    rw [h.trims.current]
    exact (h.trims.processors _).pending
  refine lockstep_get ?_
  generalize s.processor.pending = p at pending
  generalize t.processor.pending = q at pending
  cases pending with
  | none => exact lockstep_error h rfl hk
  | @deliver frame base =>
    have awake : Spared x c n
        (s.modifyProcessor fun p => { p with pending := none, sinceResume := 0 })
        (t.modifyProcessor fun p => { p with pending := none, sinceResume := 0 }) :=
      h.modifyProcessor (fun _ _ trims => { trims with pending := .none }) (fun _ => rfl)
        fun _ => rfl
    have waits : Kont.Trims x c (.loop {} (frame.returnAddress - 1) k)
        (.loop {} (frame.returnAddress - 1) k') := .loop (.low fun _ _ => Nat.zero_le _) hk
    refine lockstep_modify ?_
    cases concurs with
    | ok v => exact lockstep_finishFrame discreet awake frame base v fromTask waits
    | error same => exact lockstep_error awake same waits

end Finishing

end Lockstep

end Machine

end ScriptMachine
