import ScriptMachine.Proofs.Machine.Returning

/-!
# Frames are taken over

What a tail call does with and without a frame that can be spared.

* `tailCall_kept`, `tailCall_taken`: a tail call that is a call, and one that takes its frame over.
* `tailCall_above`, `tailCall_called`: where both frames are taken over, the machines stay in lockstep.
* `tailCall_takenOver`: where only one is, the other can be spared from now on.
-/

namespace ScriptMachine

variable {ν : Type} {x : Option Spare} {s t : State ν} {c : ThreadId} {n : Nat}
  {library : Library ν} {f : Frame}

def Value.isScript : Value → Bool
  | .function _ => true
  | _ => false

/-- A tail call of that value takes over its frame. -/
def State.reuses (s : State ν) (f : Frame) (v : Value) : Bool :=
  s.options.tailCallThreshold < s.processor.stack.size &&
    s.options.tailCallThreshold < s.processor.frames.size && f.handlers.isEmpty && v.isScript

/-- The frame on top gives way to the operands of what is called in its place. -/
def State.dissolve (s : State ν) (f : Frame) (start : Nat) (operands : List Value) : State ν :=
  ((s.modifyStack (·.truncate start)).popTop f).modifyStack (·.pushAll operands)

/-- The call that takes the frame over. -/
def Frame.handedOn (f : Frame) (argc : Nat) (name : Option String) : CallSpec :=
  { argc
    returnAddress := f.returnAddress
    flags := f.flags.inherited.union { tailCall := true }
    name }

theorem Frame.inherited_handedOn (f : Frame) (argc : Nat) (name : Option String) :
    (f.handedOn argc name).flags.inherited = f.flags.inherited := by
  simp [handedOn, FrameFlags.inherited, FrameFlags.inter, FrameFlags.inheritable, FrameFlags.union]

namespace Exec

theorem mayReuseFrame_eq {argc : Nat} {v : Value} (top : s.processor.frames.back? = some f)
    (called : s.processor.stack.peek? argc = some v) :
    mayReuseFrame argc s = .ok (s.reuses f v) s := by
  unfold mayReuseFrame State.reuses
  simp only [bind, EStateM.bind, get, getThe, MonadStateOf.get, EStateM.get, top]
  cases room : (decide (s.options.tailCallThreshold < s.processor.stack.size) &&
    decide (s.options.tailCallThreshold < s.processor.frames.size) && f.handlers.isEmpty) with
  | false =>
    rw [if_neg nofun]
    rfl
  | true =>
    rw [if_pos rfl]
    simp only [peek, stack, bind, EStateM.bind, get, getThe, MonadStateOf.get, EStateM.get, pure,
      EStateM.pure, called, present, Bool.true_and]
    cases v <;> rfl

variable {argc ip : Nat} {name : Option String} {v : Value}

/-- A tail call that keeps its frame is a call. -/
theorem tailCall_kept (top : s.processor.frames.back? = some f)
    (called : s.processor.stack.peek? argc = some v) (keeps : s.reuses f v = false) :
    tailCall argc name ip s = .ok (.call { argc, returnAddress := ip + 1, name }) s := by
  unfold tailCall
  simp only [bind, EStateM.bind, mayReuseFrame_eq top called, keeps]
  rfl

/-- A tail call that takes its frame over returns where that would have returned. -/
theorem tailCall_taken (top : s.processor.frames.back? = some f)
    (called : s.processor.stack.peek? argc = some v) (takes : s.reuses f v = true)
    {operands : List Value} {start : Nat} (place : s.processor.stack.size - argc - 1 = start)
    (above : s.processor.stack.above? start = some operands) {g : Frame} {s' : State ν}
    (popped : popFrame (s.modifyStack (·.truncate start)) = .ok g s') :
    tailCall argc name ip s =
      .ok (.call (g.handedOn argc name)) (s'.modifyStack (·.pushAll operands)) := by
  subst place
  have split : splitOff (s.processor.stack.size - argc - 1) s =
      .ok operands (s.modifyStack (·.truncate (s.processor.stack.size - argc - 1))) := by
    simp only [splitOff, stack, bind, EStateM.bind, get, getThe, MonadStateOf.get, EStateM.get,
      pure, EStateM.pure, above, present]
    rfl
  have height : (Exec.height : Exec ν Nat) s = .ok s.processor.stack.size s := rfl
  unfold tailCall
  simp only [bind, EStateM.bind, mayReuseFrame_eq top called, takes, if_true, height, split, popped]
  rfl

end Exec

namespace Machine

open Exec

variable {spec : CallSpec} {k : Kont ν .step}

def frameOf (spec : CallSpec) (g : ClosureId) (size : Nat) : Frame :=
  { base := size - spec.argc, argc := spec.argc, returnAddress := spec.returnAddress,
    callee := .script g, name := spec.name, handlers := spec.handlers, flags := spec.flags }

theorem findCallee_script {g : ClosureId} {argc : Nat} (name : Option String) (budget : Nat)
    (called : s.processor.stack.peek? argc = some (.function g)) :
    findCallee name budget argc s = .ok (.script g, argc) s := by
  unfold findCallee
  simp only [peek, Exec.stack, bind, EStateM.bind, get, getThe, MonadStateOf.get, EStateM.get, pure,
    EStateM.pure, called, present]

/-- A call of a function is refused where there are too many frames. -/
theorem performCall_full {g : ClosureId} (called : s.processor.stack.peek? spec.argc = some (.function g))
    (full : s.options.maxCallDepth ≤ s.callDepth) :
    performCall library spec k s = (.step (.error (.raise .stackOverflow)) k, s) := by
  unfold performCall Exec.andThen
  rw [enterCall_eq]
  simp only [bind, EStateM.bind, get, getThe, MonadStateOf.get, EStateM.get,
    findCallee_script _ _ called, enterFound_full spec g _ full]
  rfl

/-- A call of a function pushes its frame. -/
theorem performCall_script {g : ClosureId}
    (called : s.processor.stack.peek? spec.argc = some (.function g))
    (fewer : ¬ s.options.maxCallDepth ≤ s.callDepth) :
    performCall library spec k s =
      (.step (.ok (.proceed 0)) k,
        s.modifyFrames (·.push (frameOf spec g s.processor.stack.size))) := by
  unfold performCall Exec.andThen
  rw [enterCall_eq]
  simp only [bind, EStateM.bind, get, getThe, MonadStateOf.get, EStateM.get,
    findCallee_script _ _ called, enterFound_script spec g _ fewer]
  rfl

end Machine

namespace State

variable {operands : List Value} {start : Nat}

theorem stack_dissolve (here : s.HasCurrent) (f : Frame) (start : Nat) (operands : List Value) :
    (s.dissolve f start operands).processor.stack =
      ((s.processor.stack.truncate start).truncate f.activation.floor).pushAll operands := by
  have here₁ : (s.modifyStack (·.truncate start)).HasCurrent :=
    (s.likewise_modifyProcessor _).hasCurrent here
  have here₂ := (likewise_popTop (s.modifyStack (·.truncate start)) f).hasCurrent here₁
  have pushed := congrArg Processor.stack (processor_modifyProcessor here₂
    fun p => { p with stack := p.stack.pushAll operands })
  refine pushed.trans (congrArg (ValueStack.pushAll · operands) ?_)
  have cut := congrArg Processor.stack
    (processor_modifyProcessor here fun p => { p with stack := p.stack.truncate start })
  rw [processor, current_popTop, processorOf_popTop here₁, if_pos rfl]
  exact congrArg (ValueStack.truncate · f.activation.floor) cut

theorem likewise_dissolve (s : State ν) (f : Frame) (start : Nat) (operands : List Value) :
    s.Likewise (s.dissolve f start operands) :=
  ((s.likewise_modifyProcessor _).trans (likewise_popTop _ f)).trans (likewise_modifyProcessor _ _)

theorem frames_dissolve (here : s.HasCurrent) (f : Frame) (start : Nat) (operands : List Value) :
    (s.dissolve f start operands).processor.frames = s.processor.frames.pop := by
  have here₁ : (s.modifyStack (·.truncate start)).HasCurrent :=
    (s.likewise_modifyProcessor _).hasCurrent here
  refine (frames_modifyStack _ _).trans ((frames_popTop here₁ f).trans ?_)
  rw [frames_modifyStack]

/-- The frame is gone. -/
theorem callDepth_dissolve (here : s.HasCurrent) {fs : List Frame}
    (frames : s.processor.frames.toList.reverse = f :: fs) (start : Nat) (operands : List Value) :
    (s.dissolve f start operands).callDepth = fs.length := by
  have left := congrArg List.length (reverse_pop frames)
  rw [List.length_reverse, Array.length_toList] at left
  rw [callDepth, frames_dissolve here]
  exact left

end State

namespace ValueStack

theorem length_of_above? {v : ValueStack} {operands : List Value} {start : Nat}
    (above : v.above? start = some operands) : start + operands.length = v.size := by
  unfold above? at above
  split at above
  · obtain rfl := Option.some.inj above
    simp only [Array.toList_extract, size] at *
    simp
    omega
  · cases above

/-- What is called is below its operands, wherever they are. -/
theorem peek?_pushAll_above {v w : ValueStack} {operands : List Value} {argc : Nat}
    (tall : argc < v.size) (above : v.above? (v.size - argc - 1) = some operands) :
    (w.pushAll operands).peek? argc = v.peek? argc := by
  have length := length_of_above? above
  unfold above? at above
  rw [if_pos (by omega)] at above
  obtain rfl := Option.some.inj above
  rw [peek?, peek?, if_pos (by rw [size_pushAll]; omega), if_pos tall]
  simp only [pushAll, size, List.foldl_push_eq_append', Array.size_append, List.size_toArray] at *
  rw [Array.getElem?_append_right (by omega)]
  simp only [Array.toList_extract, List.getElem?_toArray, List.extract_eq_take_drop,
    List.getElem?_take, List.getElem?_drop, Array.getElem?_toList] at *
  rw [if_pos (by omega)]
  congr 1
  omega

end ValueStack

/-- What is called stays below its operands. -/
theorem State.peek?_dissolve (here : s.HasCurrent) (f : Frame) {argc start : Nat} {v : Value}
    {operands : List Value} (tall : argc < s.processor.stack.size)
    (place : s.processor.stack.size - argc - 1 = start)
    (above : s.processor.stack.above? start = some operands)
    (called : s.processor.stack.peek? argc = some v) :
    (s.dissolve f start operands).processor.stack.peek? argc = some v := by
  rw [stack_dissolve here, ValueStack.peek?_pushAll_above tall (place ▸ above), called]

namespace Exec

variable {argc ip : Nat} {name : Option String} {v : Value}

theorem exists_above? {w : ValueStack} {m : Nat} (le : m ≤ w.size) :
    ∃ operands, w.above? m = some operands := ⟨_, if_pos le⟩

/-- A frame above the one that can be spared is taken over on both sides. -/
theorem tailCall_above (room : Spared x c (argc + 1) s t) {fs fs' : List Frame}
    (frames : s.processor.frames.toList.reverse = f :: fs)
    (frames' : t.processor.frames.toList.reverse = f.lowered (Spare.part x c).gap :: fs')
    (below : FramesTrim (Spare.on x c) fs fs') (high : (Spare.part x c).high ≤ f.activation.floor)
    (called : s.processor.stack.peek? argc = some v) (takes : s.reuses f v = true)
    (takes' : t.reuses (f.lowered (Spare.part x c).gap) v = true) :
    ∃ spec s' t', tailCall argc name ip s = .ok (.call spec) s' ∧
      tailCall argc name ip t = .ok (.call spec) t' ∧ Spared x c (spec.argc + 1) s' t' := by
  have tall := room.room
  have size := room.stack.size
  obtain ⟨operands, above⟩ := exists_above? (w := s.processor.stack)
    (m := s.processor.stack.size - argc - 1) (by omega)
  have called' : t.processor.stack.peek? argc = some v :=
    (room.stack.peek? tall (Nat.lt_succ_self argc)).trans called
  have start : (Spare.part x c).high ≤ s.processor.stack.size - argc - 1 := by omega
  have above' := (room.stack.above? start).trans above
  have cut := room.truncate start
  rw [← s.frames_modifyStack (·.truncate (s.processor.stack.size - argc - 1))] at frames
  rw [← t.frames_modifyStack (·.truncate (s.processor.stack.size - argc - 1 - (Spare.part x c).gap))]
    at frames'
  obtain ⟨popped, popped', left⟩ := popFrame_above cut frames frames' below high
  rw [s.frames_modifyStack] at frames
  rw [t.frames_modifyStack] at frames'
  have pushed := (Spare.operands x c).pushAll operands left
  have length := ValueStack.length_of_above? above
  have run : tailCall argc name ip s = _ := tailCall_taken (back?_of_reverse frames) called takes rfl
    above popped
  have run' : tailCall argc name ip t = _ := tailCall_taken (back?_of_reverse frames') called' takes'
    (by omega) above' popped'
  refine ⟨_, _, _, run, run', ?_⟩
  exact (Spare.operands x c).weaken pushed (by change argc + 1 ≤ _; omega)

end Exec

namespace Machine

open Exec

variable {argc ip : Nat} {name : Option String}

/-- A call of a function has its outcome at once. -/
theorem performCall_function {g : ClosureId}
    (called : s.processor.stack.peek? spec.argc = some (.function g)) :
    ∃ r, (performCall library spec k s).1 = .step r k := by
  by_cases full : s.options.maxCallDepth ≤ s.callDepth
  · exact ⟨_, congrArg Prod.fst (performCall_full called full)⟩
  · exact ⟨_, congrArg Prod.fst (performCall_script called full)⟩

/-- A function is called on both sides, unless there are too many frames. -/
theorem lockstep_pushed {spec spec' : CallSpec} {g : ClosureId} {l l' : Kont ν .step}
    (called : s.processor.stack.peek? spec.argc = some (.function g))
    (called' : t.processor.stack.peek? spec'.argc = some (.function g))
    (options : t.options.maxCallDepth = s.options.maxCallDepth) (depth : t.callDepth ≤ s.callDepth)
    (pushed : (s.modifyFrames (·.push (frameOf spec g s.processor.stack.size))).Trims x
      (t.modifyFrames (·.push (frameOf spec' g t.processor.stack.size))))
    (hl : Kont.Trims x s.current l l') :
    Lockstep x s t (performCall library spec l) (performCall library spec' l') := by
  unfold Lockstep
  by_cases full : s.options.maxCallDepth ≤ s.callDepth
  · rw [performCall_full called full]
    refine .overflows rfl ?_
    by_cases full' : t.options.maxCallDepth ≤ t.callDepth
    · rw [performCall_full called' full']
      exact nofun
    · rw [performCall_script called' full']
      exact nofun
  · have fewer : ¬ t.options.maxCallDepth ≤ t.callDepth := fun full' =>
      full (options ▸ Nat.le_trans full' depth)
    rw [performCall_script called full, performCall_script called' fewer]
    exact .same (.step (.ok _) (fun reason other => by cases other) hl) pushed

theorem frameOf_taken {z : Spare} {spec spec' : CallSpec} (g : ClosureId) {size size' : Nat}
    (argc : spec'.argc = spec.argc) (name : spec'.name = spec.name)
    (handlers : spec'.handlers = spec.handlers) (address : spec'.returnAddress = z.frame.returnAddress)
    (flags : spec'.flags = z.frame.flags.inherited.union { tailCall := true })
    (slots : size' + z.slots = size) :
    frameOf spec' g size' = z.taken (frameOf spec g size) := by
  have base : size' - spec.argc = size - spec.argc - z.slots := by omega
  simp only [frameOf, Spare.taken, Frame.lowered, argc, name, handlers, address, flags, base]

/-- A frame that was called from the one that can be spared is taken over on both sides, and so is
what is called. -/
theorem tailCall_called {z : Spare} {g : ClosureId}
    (room : Spared (some z) z.thread (argc + 1) s t) (calls : z.Calls f)
    (frames : s.processor.frames.toList.reverse = f :: z.frame :: z.rest)
    (frames' : t.processor.frames.toList.reverse = z.taken f :: z.rest)
    (called : s.processor.stack.peek? argc = some (.function g))
    (takes : s.reuses f (.function g) = true) (takes' : t.reuses (z.taken f) (.function g) = true) :
    ∃ spec spec' s' t', tailCall argc name ip s = .ok (.call spec) s' ∧
      tailCall argc name ip t = .ok (.call spec') t' ∧
      ∀ (library : Library ν) l l', Kont.Trims (some z) z.thread l l' →
        Lockstep (some z) s' t' (performCall library spec l) (performCall library spec' l') := by
  have part := z.part_self
  have tall := room.room
  have size := room.stack.size
  have high : z.cut.high = z.cut.low + z.slots := rfl
  have gap : z.cut.gap = z.slots := rfl
  rw [part] at tall size
  obtain ⟨start, place⟩ : ∃ start, s.processor.stack.size - argc - 1 = start := ⟨_, rfl⟩
  obtain ⟨operands, above⟩ := exists_above? (w := s.processor.stack) (m := start) (by omega)
  have length := ValueStack.length_of_above? above
  have called' : t.processor.stack.peek? argc = some (.function g) :=
    (room.stack.peek? room.room (Nat.lt_succ_self argc)).trans called
  have above' : t.processor.stack.above? (start - z.slots) = some operands := by
    have same := room.stack.above? (n := start) (by rw [part]; omega)
    rw [part] at same
    exact same.trans above
  have cut : Spared (some z) z.thread 0 (s.modifyStack (·.truncate start))
      (t.modifyStack (·.truncate (start - z.slots))) := by
    have cut := room.truncate (m := start) (by rw [part]; omega)
    rwa [part] at cut
  have own : z.thread = (s.modifyStack (·.truncate start)).current := cut.current.symm
  have framesₛ := frames
  have framesₜ := frames'
  rw [← s.frames_modifyStack (·.truncate start)] at framesₛ
  rw [← t.frames_modifyStack (·.truncate (start - z.slots))] at framesₜ
  have popped := popFrame_eq (back?_of_reverse framesₛ) (cut.kept.owner (back?_of_reverse framesₛ))
  have popped' := popFrame_eq (back?_of_reverse framesₜ)
    (cut.trims.owner_taken cut.kept own calls framesₛ)
  refine ⟨f.handedOn argc name, (z.taken f).handedOn argc name, s.dissolve f start operands,
    t.dissolve (z.taken f) (start - z.slots) operands,
    tailCall_taken (g := { f with cells := [] }) (back?_of_reverse frames) called takes place above
      popped,
    tailCall_taken (g := { z.taken f with cells := [] }) (back?_of_reverse frames') called' takes'
      (by omega) above' popped',
    fun library l l' hl => ?_⟩
  -- what is called is above what is left, with its operands
  have here := room.here
  have here' := room.trims.hasCurrent here
  have stack := State.stack_dissolve here f start operands
  have stack' := State.stack_dissolve here' (z.taken f) (start - z.slots) operands
  have room₁ := congrArg ValueStack.size stack
  have room₁' := congrArg ValueStack.size stack'
  simp only [ValueStack.size_pushAll, ValueStack.size_truncate, calls.floor,
    Spare.floor_taken calls] at room₁ room₁'
  have found := State.peek?_dissolve here f (by omega) place above called
  have place' : t.processor.stack.size - argc - 1 = start - z.slots := by omega
  have found' := State.peek?_dissolve here' (z.taken f) (by omega) place' above' called'
  have next : z.Calls (frameOf (f.handedOn argc name) g
      (s.dissolve f start operands).processor.stack.size) := by
    refine ⟨rfl, rfl, ?_, ?_, calls.returnAddress, ?_⟩
    · exact (f.inherited_handedOn argc name).trans calls.flags
    · simp [frameOf, Frame.handedOn, calls.flags, FrameFlags.union]
    · change _ - argc - 1 = z.cut.high
      omega
  have current := (State.likewise_dissolve s f start operands).current
  refine lockstep_pushed found found' ?_ ?_ ?_ (current.trans room.current ▸ hl)
  · rw [(State.likewise_dissolve t ..).options, (State.likewise_dissolve s ..).options,
      room.trims.options]
  · rw [State.callDepth_dissolve here' frames', State.callDepth_dissolve here frames]
    exact Nat.le_succ _
  · have taken := cut.trims.retake cut.kept own calls next framesₛ framesₜ operands
    have flags : ((z.taken f).handedOn argc name).flags =
        z.frame.flags.inherited.union { tailCall := true } := by
      change (z.taken f).flags.inherited.union _ = _
      rw [Spare.inherited_taken]
    have same : frameOf ((z.taken f).handedOn argc name) g
        (t.dissolve (z.taken f) (start - z.slots) operands).processor.stack.size =
        z.taken (frameOf (f.handedOn argc name) g
          (s.dissolve f start operands).processor.stack.size) :=
      frameOf_taken g rfl rfl rfl rfl flags (by omega)
    rw [← same] at taken
    exact taken

/-- The captured slots of a frame are below what is called in its place, and those of the frames
that wait are below it. -/
theorem fits_of_opened {z : Spare} (kept : s.Kept) (thread : z.thread = s.current)
    (frames : s.processor.frames.toList.reverse = z.frame :: z.rest)
    (returns : ∃ fn i, s.closures[z.closure.index]? = some fn ∧
      fn.proto.code[z.address]? = some i ∧ i.op = .ret ∧ i.a ≠ 0)
    (below : ∀ q ∈ z.rest, ∀ y ∈ q.cells, ∀ k, s.cell y = .opened s.current k → k < z.cut.low)
    (own : ∀ y ∈ z.frame.cells, ∀ k, s.cell y = .opened s.current k → k < z.cut.high) :
    z.Fits s.closures s.cells := by
  have opened : ∀ {y : CellId} {k : Nat}, s.cells[y.index]? = some (.opened z.thread k) →
      s.cell y = .opened s.current k := fun held => by
    rw [State.cell, held, thread]
    rfl
  refine ⟨returns, fun q hq y hy => ?_, fun q hq y hy k held => below q hq y hy k (opened held),
    fun y hy k held => own y hy k (opened held)⟩
  have member : q ∈ s.callsOf s.current := by
    change q ∈ s.processor.frames.toList.reverse
    rwa [frames]
  obtain ⟨-, k, held, -⟩ := kept.own_calls member hy
  exact State.index_lt_of_opened held

/-- **A frame that is taken over on one side only** can be spared from now on, if its captured slots
are below what is called, and those of the frames that wait are below it. -/
theorem tailCall_takenOver (ip : Nat) (name : Option String) (room : Spared none c (argc + 1) s t) {rest : List Frame}
    (frames : s.processor.frames.toList.reverse = f :: rest) {g h : ClosureId}
    (callee : f.callee = .script h) (called : s.processor.stack.peek? argc = some (.function g))
    (keeps : s.reuses f (.function g) = false) (takes : t.reuses f (.function g) = true)
    (returns : ∃ fn i, s.closures[h.index]? = some fn ∧ fn.proto.code[ip + 1]? = some i ∧
      i.op = .ret ∧ i.a ≠ 0)
    (seated : f.activation.floor < s.processor.stack.size - argc - 1)
    (own : ∀ y ∈ f.cells, ∀ k, s.cell y = .opened c k → k < s.processor.stack.size - argc - 1)
    (below : ∀ q ∈ rest, ∀ y ∈ q.cells, ∀ k, s.cell y = .opened c k → k < f.activation.floor) :
    ∃ z spec spec' t', z.thread = c ∧ z.frame = f ∧ z.rest = rest ∧
      tailCall argc name ip s = .ok (.call spec) s ∧
      tailCall argc name ip t = .ok (.call spec') t' ∧
      ∀ (library : Library ν) l l', Kont.Trims (some z) c l l' →
        (∃ r, (performCall library spec l s).1 = .step r l) ∧
        Lockstep (some z) s t' (performCall library spec l) (performCall library spec' l') := by
  obtain rfl := room.current
  have here := room.here
  have here' := room.trims.hasCurrent here
  have stack : t.processor.stack = s.processor.stack := room.stack.eq
  have frames' := room.trims.frames_eq.trans frames
  have top := back?_of_reverse frames
  have top' := back?_of_reverse frames'
  have bare : f.handlers.isEmpty = true := by
    simp only [State.reuses, Bool.and_eq_true] at takes
    exact takes.1.2
  obtain ⟨start, place⟩ : ∃ start, s.processor.stack.size - argc - 1 = start := ⟨_, rfl⟩
  rw [place] at seated own
  let z : Spare :=
    { thread := s.current, frame := f, closure := h, rest, slots := start - f.activation.floor,
      address := ip + 1, callee, bare, room := Nat.sub_pos_of_lt seated }
  have high : z.cut.high = start := Nat.add_sub_cancel' (Nat.le_of_lt seated)
  have slots : z.slots = start - f.activation.floor := rfl
  have tall : argc + 1 ≤ s.processor.stack.size := Nat.le_trans (Nat.le_add_left ..) room.room
  obtain ⟨operands, above⟩ := exists_above? (w := s.processor.stack) (m := start) (by omega)
  have length := ValueStack.length_of_above? above
  have above' : t.processor.stack.above? start = some operands := stack ▸ above
  have called' : t.processor.stack.peek? argc = some (.function g) := stack ▸ called
  have owner : f.Owner t.cell := fun y hy => by
    rw [room.trims.cell_eq]
    exact room.kept.owner top y hy
  have popped := popFrame_eq (s := t.modifyStack (·.truncate start))
    (t.frames_modifyStack _ ▸ top') owner
  refine ⟨z, { argc, returnAddress := ip + 1, name }, f.handedOn argc name,
    t.dissolve f start operands, rfl, rfl, rfl, tailCall_kept top called keeps,
    tailCall_taken (g := { f with cells := [] }) top' called' takes (stack ▸ place) above' popped,
    fun library l l' hl => ?_⟩
  have stack' := State.stack_dissolve here' f start operands
  have room' := congrArg ValueStack.size stack'
  simp only [ValueStack.size_pushAll, ValueStack.size_truncate, stack] at room'
  have found := State.peek?_dissolve here' f (by rw [stack]; omega) (stack ▸ place) above' called'
  have next : z.Calls (frameOf { argc, returnAddress := ip + 1, name } g s.processor.stack.size) := by
    refine ⟨rfl, rfl, rfl, rfl, rfl, ?_⟩
    change _ - argc - 1 = z.cut.high
    rw [high, place]
  have fits : z.Fits s.closures s.cells :=
    fits_of_opened room.kept rfl frames returns below fun y hy k opened => high ▸ own y hy k opened
  refine ⟨performCall_function called, lockstep_pushed called found ?_ ?_ ?_ hl⟩
  · rw [(State.likewise_dissolve t ..).options, room.trims.options]
  · have depth := congrArg List.length frames
    rw [List.length_reverse, Array.length_toList] at depth
    rw [State.callDepth_dissolve here' frames', State.callDepth, depth]
    exact Nat.le_succ _
  · have taken := room.trims.takeOver room.kept here rfl frames next (high ▸ above) fits
    rw [high] at taken
    have same : frameOf (f.handedOn argc name) g (t.dissolve f start operands).processor.stack.size =
        z.taken (frameOf { argc, returnAddress := ip + 1, name } g s.processor.stack.size) :=
      frameOf_taken g rfl rfl rfl rfl rfl (by omega)
    rw [← same] at taken
    exact taken

end Machine

end ScriptMachine
