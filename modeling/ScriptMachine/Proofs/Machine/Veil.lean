import ScriptMachine.Proofs.Machine.Disguise
import ScriptMachine.Proofs.Machine.Lockstep

/-!
# Frames that look entered from outside

A handler may run in a frame of the loop that is under way, or in one that a loop of its own was
entered with. All that its processor shows of this is in one frame, and in the count of nested
calls.

* `Frame.asEntry`: a frame as it looks where a loop was entered with it.
* `Veil`, `State.veiled`: a thread with such a frame at some depth, in one nested call more.
* `Exec.popFrame_veiled`, `Exec.enterCall_veiled`, `Exec.executeAt_veiled`: frames come and go
  alike.
-/

namespace ScriptMachine

variable {ν α β : Type}

namespace FrameFlags

/-- The flags of a frame with which a loop was entered, whose result is handed on as it is. -/
def asEntry (g : FrameFlags) : FrameFlags := { g with entryPoint := true, scalarResult := false }

end FrameFlags

/-- The frame as it looks where a loop was entered with it. -/
def Frame.asEntry (name : Option String) (f : Frame) : Frame :=
  if f.flags.entryPoint then f else { f with returnAddress := 0, name, flags := f.flags.asEntry }

def CallSpec.asEntry (name : Option String) (spec : CallSpec) : CallSpec :=
  if spec.flags.entryPoint then spec
  else { spec with returnAddress := 0, name, flags := spec.flags.asEntry }

/-- Where a thread looks as if a loop had been entered, how the call was named, and what its meter
shows. -/
structure Veil where
  thread : ThreadId
  /-- The frames below. -/
  depth : Nat
  name : Option String
  sinceResume : Nat

namespace Veil

variable (v : Veil)

/-- A frame with so many frames below. -/
def dress (i : Nat) (f : Frame) : Frame := if i = v.depth then f.asEntry v.name else f

def frames (fs : Array Frame) : Array Frame := fs.modify v.depth (Frame.asEntry v.name)

theorem dress_alike (i : Nat) (f : Frame) : f.Alike (v.dress i f) := by
  unfold dress Frame.asEntry
  split
  · split <;> exact ⟨rfl, rfl, rfl, rfl, rfl⟩
  · exact .refl f

theorem dress_cells (i : Nat) (f : Frame) (cells : List CellId) :
    v.dress i { f with cells } = { v.dress i f with cells } := by
  unfold dress Frame.asEntry
  split
  · split <;> rfl
  · rfl

@[simp] theorem size_frames (fs : Array Frame) : (v.frames fs).size = fs.size := by
  simp [frames]

theorem getElem?_frames (fs : Array Frame) (i : Nat) :
    (v.frames fs)[i]? = fs[i]?.map (v.dress i) := by
  rw [frames, Array.getElem?_modify]
  split
  · rename_i same
    subst same
    exact congrArg (Option.map · _) (funext fun f => (if_pos rfl).symm)
  · rename_i other
    have dressed : v.dress i = id := funext fun f => if_neg (Ne.symm other)
    rw [dressed, Option.map_id]
    rfl

theorem back?_frames (fs : Array Frame) :
    (v.frames fs).back? = fs.back?.map (v.dress (fs.size - 1)) := by
  rw [Array.back?_eq_getElem?, Array.back?_eq_getElem?, size_frames, getElem?_frames]

theorem frames_push (fs : Array Frame) (f : Frame) :
    v.frames (fs.push f) = (v.frames fs).push (v.dress fs.size f) := by
  apply Array.ext_getElem?
  intro i
  rw [getElem?_frames, Array.getElem?_push, Array.getElem?_push, size_frames]
  split
  · rename_i last
    rw [last]
    rfl
  · rw [getElem?_frames]

theorem frames_pop (fs : Array Frame) : v.frames fs.pop = (v.frames fs).pop := by
  apply Array.ext_getElem?
  intro i
  rw [getElem?_frames, Array.getElem?_pop, Array.getElem?_pop, size_frames]
  split
  · rw [getElem?_frames]
  · rfl

theorem frames_set (fs : Array Frame) (i : Nat) (f : Frame) :
    v.frames (fs.setIfInBounds i f) = (v.frames fs).setIfInBounds i (v.dress i f) := by
  apply Array.ext_getElem?
  intro j
  rw [getElem?_frames, Array.getElem?_setIfInBounds, Array.getElem?_setIfInBounds, size_frames,
    getElem?_frames]
  split
  · rename_i same
    subst same
    split <;> rfl
  · rfl

theorem frames_of_size_le {fs : Array Frame} (bare : fs.size ≤ v.depth) : v.frames fs = fs := by
  apply Array.ext_getElem?
  intro i
  rw [getElem?_frames]
  by_cases stands : i < fs.size
  · have below : i ≠ v.depth := by omega
    have dressed : v.dress i = id := funext fun f => if_neg below
    rw [dressed, Option.map_id]
    rfl
  · rw [Array.getElem?_eq_none (Nat.not_lt.1 stands)]
    rfl

/-- No function looks different for it. -/
def disguise : Disguise where
  apply p := { p with
    frames := v.frames p.frames, nestedCalls := p.nestedCalls + 1, sinceResume := v.sinceResume }
  stack _ := rfl
  setStack _ _ := rfl
  size p := v.size_frames p.frames
  top p f top := by
    refine ⟨v.dress (p.frames.size - 1) f, ?_, v.dress_alike _ f, fun cells => ?_⟩
    · rw [v.back?_frames, top]
      rfl
    · simp only [Processor.withTop, Processor.mk.injEq, true_and, and_true, size_frames]
      rw [← v.dress_cells]
      exact v.frames_set ..
  scope p := by
    have same : (v.frames p.frames).map (fun f => f.closure?.map fun closure =>
          (⟨closure, f.base⟩ : Scope)) =
        p.frames.map fun f => f.closure?.map fun closure => ⟨closure, f.base⟩ := by
      apply Array.ext_getElem?
      intro i
      rw [Array.getElem?_map, Array.getElem?_map, v.getElem?_frames, Option.map_map]
      refine congrArg (Option.map · _) (funext fun f => ?_)
      have alike := v.dress_alike i f
      simp only [Function.comp, Frame.closure?, alike.callee, alike.base]
    have lists := congrArg (fun xs : Array (Option Scope) => xs.toList.reverse.findSome? id) same
    simp only [Array.toList_map, ← List.map_reverse, List.findSome?_map] at lists
    exact lists

end Veil

namespace State

variable (s : State ν) (v : Veil)

abbrev veiled : State ν := s.disguised v.thread v.disguise

/-- The frame that stands, or would stand, on top of the frames of the thread that runs. -/
def dressed (f : Frame) : Frame := if s.current = v.thread then v.dress s.callDepth f else f

theorem framesAt_veiled (c : ThreadId) : ((s.veiled v).processorOf c).frames =
    if c = v.thread then v.frames (s.processorOf c).frames else (s.processorOf c).frames := by
  split
  · rename_i own
    subst own
    by_cases inRange : v.thread.index < s.processors.size
    · exact congrArg Processor.frames (s.processorOf_modifyProcessorOf v.disguise.apply inRange)
    · simp [veiled, disguised, modifyProcessorOf, processorOf, Veil.frames, inRange]
  · rename_i other
    exact congrArg Processor.frames
      (s.processorOf_modifyProcessorOf_ne v.disguise.apply other)

theorem processorOf_veiled {c : ThreadId} (other : c ≠ v.thread) :
    (s.veiled v).processorOf c = s.processorOf c :=
  s.processorOf_modifyProcessorOf_ne v.disguise.apply other

theorem processorOf_veiled_own (inRange : v.thread.index < s.processors.size) :
    (s.veiled v).processorOf v.thread = v.disguise.apply (s.processorOf v.thread) :=
  s.processorOf_modifyProcessorOf v.disguise.apply inRange

/-- The frame at the depth looks entered. -/
theorem framesOf_veiled {us low : List Frame} {b : Frame}
    (frames : s.framesOf v.thread = us ++ b :: low) (depth : low.length = v.depth) :
    (s.veiled v).framesOf v.thread = us ++ b.asEntry v.name :: low := by
  have looks := s.framesAt_veiled v v.thread
  rw [if_pos rfl] at looks
  simp only [framesOf, outlineOf, Processor.outline, looks] at frames ⊢
  rw [Veil.frames, Array.toList_modify]
  generalize (s.processorOf v.thread).frames.toList = fs at frames ⊢
  have high : v.depth < fs.length := by
    have length := congrArg List.length frames
    simp only [List.length_map, List.length_reverse, List.length_append, List.length_cons] at length
    omega
  obtain ⟨below, f, above, rfl, count, changed⟩ := List.exists_of_modify (Frame.asEntry v.name) high
  rw [changed]
  simp only [List.reverse_append, List.reverse_cons, List.append_assoc, List.map_append,
    List.map_cons, List.singleton_append] at frames ⊢
  obtain ⟨rfl, rest⟩ := List.append_inj' frames (by
    simp only [List.length_cons, List.length_map, List.length_reverse]
    omega)
  obtain ⟨rfl, rfl⟩ := List.cons.inj rest
  have same : (f.asEntry v.name).outline = f.outline.asEntry v.name := by
    by_cases entry : f.flags.entryPoint = true <;> simp [Frame.asEntry, Frame.outline, entry]
  rw [same]

/-- Where no frame stands at the depth, it does not matter how the call was named. -/
theorem veiled_rename (name : Option String)
    (bare : (s.processorOf v.thread).frames.size ≤ v.depth) :
    s.veiled { v with name } = s.veiled v := by
  have same : ({ v with name } : Veil).disguise.apply (s.processorOf v.thread) =
      v.disguise.apply (s.processorOf v.thread) := by
    simp only [Veil.disguise]
    rw [v.frames_of_size_le bare, Veil.frames_of_size_le { v with name } bare]
  have changed := s.modifyProcessorOf_congr same
  simp only [veiled, disguised]
  rw [changed]
  rfl

/-- A frame is pushed on the thread that runs. -/
theorem push_veiled (f : Frame) :
    (s.veiled v).modifyFrames (·.push (s.dressed v f)) =
      (s.modifyFrames (·.push f)).veiled v := by
  unfold dressed
  split
  · rename_i own
    have changed : (s.modifyProcessorOf s.current v.disguise.apply).modifyProcessorOf s.current
          (fun p => { p with frames := p.frames.push (v.dress s.callDepth f) }) =
        (s.modifyProcessorOf s.current fun p =>
          { p with frames := p.frames.push f }).modifyProcessorOf s.current v.disguise.apply := by
      rw [modifyProcessorOf_twice, modifyProcessorOf_twice]
      refine s.modifyProcessorOf_congr ?_
      simp only [Veil.disguise, v.frames_push, Processor.mk.injEq, true_and, and_true]
      rfl
    unfold veiled
    rw [← own]
    exact changed
  · rename_i other
    exact s.modifyProcessorOf_disguised v.thread s.current v.disguise _ fun e => absurd e other

/-- The frame on top is popped from the thread that runs. -/
theorem pop_veiled :
    (s.veiled v).modifyFrames Array.pop = (s.modifyFrames Array.pop).veiled v :=
  s.modifyProcessorOf_disguised v.thread s.current v.disguise _ fun _ p => by
    simp only [Veil.disguise, v.frames_pop]

theorem back?_veiled : (s.veiled v).processor.frames.back? =
    s.processor.frames.back?.map ((s.modifyFrames Array.pop).dressed v) := by
  have frames : (s.veiled v).processor.frames =
      if s.current = v.thread then v.frames s.processor.frames else s.processor.frames :=
    s.framesAt_veiled v s.current
  rw [frames]
  unfold dressed
  change _ = s.processor.frames.back?.map fun f =>
    if s.current = v.thread then v.dress (s.modifyFrames Array.pop).callDepth f else f
  split
  · rw [v.back?_frames]
    cases top : s.processor.frames.back? with
    | none => rfl
    | some f =>
      have here := hasCurrent_of_back? top
      have popped := processor_modifyProcessor here fun p => { p with frames := p.frames.pop }
      have depth : (s.modifyFrames Array.pop).callDepth = s.processor.frames.size - 1 :=
        (congrArg (fun p : Processor => p.frames.size) popped).trans Array.size_pop
      rw [depth]
  · exact Option.map_id'.symm

theorem dressed_alike (f : Frame) : f.Alike (s.dressed v f) := by
  unfold dressed
  split
  · exact v.dress_alike ..
  · exact .refl f

theorem dressed_cells (f : Frame) (cells : List CellId) :
    s.dressed v { f with cells } = { s.dressed v f with cells } := by
  unfold dressed
  split
  · exact v.dress_cells ..
  · rfl

theorem dressed_congr {s' : State ν} (current : s'.current = s.current)
    (depth : s'.callDepth = s.callDepth) : s'.dressed v = s.dressed v := by
  funext f
  rw [dressed, current, depth, dressed]

end State

namespace Exec

variable {s : State ν}

/-- The frame on top is popped: its cells are closed, and its slots dropped. -/
theorem popFrame_some {f : Frame} (top : s.processor.frames.back? = some f) :
    let s₁ := s.modifyFrames Array.pop
    let closed := s₁.closeCells (fun slot => f.base ≤ slot) f.cells
    popFrame s = if f.isNative then .ok f (s₁.modifyStack (·.truncate f.base))
      else .ok { f with cells := closed.1 } (closed.2.modifyStack (·.truncate (f.base - 1))) := by
  unfold popFrame
  by_cases native : f.isNative = true
  · simp only [topFrame?, bind, EStateM.bind, get, getThe, MonadStateOf.get, EStateM.get, pure,
      EStateM.pure, top, native]
    rfl
  · simp only [topFrame?, bind, EStateM.bind, get, getThe, MonadStateOf.get, EStateM.get, pure,
      EStateM.pure, top, native]
    rfl

theorem popFrame_none (bare : s.processor.frames.back? = none) :
    popFrame s = .error (.defect .executionUnderflow) s := by
  simp only [popFrame, topFrame?, bind, EStateM.bind, get, getThe, MonadStateOf.get, EStateM.get,
    pure, EStateM.pure, bare]
  rfl

/-- **A frame is popped alike.** -/
theorem popFrame_veiled (s : State ν) (v : Veil) :
    (popFrame s = .error (.defect .executionUnderflow) s ∧
      popFrame (s.veiled v) = .error (.defect .executionUnderflow) (s.veiled v)) ∨
    ∃ f s', popFrame s = .ok f s' ∧ popFrame (s.veiled v) = .ok (s'.dressed v f) (s'.veiled v) := by
  have look := s.back?_veiled v
  cases top : s.processor.frames.back? with
  | none =>
    rw [top] at look
    exact .inl ⟨popFrame_none top, popFrame_none look⟩
  | some f =>
    rw [top] at look
    refine .inr ?_
    let s₁ := s.modifyFrames Array.pop
    have truncated : ∀ (s : State ν) (n : Nat),
        (s.modifyStack (·.truncate n)).dressed v = s.dressed v := fun s n =>
      s.dressed_congr v rfl (State.view_modifyProcessorOf s _ s.current s.current
        (fun p => p.frames.size) fun _ => rfl)
    have alike := s₁.dressed_alike v f
    have native : (s₁.dressed v f).isNative = f.isNative := by
      rw [Frame.isNative, alike.callee, Frame.isNative]
    have run := popFrame_some top
    have run' := popFrame_some look
    dsimp only at run run'
    rw [native, State.pop_veiled, alike.base, alike.cells, State.closeCells_disguised] at run'
    by_cases hf : f.isNative = true
    · rw [if_pos hf] at run run'
      refine ⟨_, _, run, ?_⟩
      rw [run', truncated, State.modifyStack_disguised]
    · rw [if_neg hf] at run run'
      refine ⟨_, _, run, ?_⟩
      have closed :
          (s₁.closeCells (fun slot => f.base ≤ slot) f.cells).2.dressed v = s₁.dressed v :=
        s₁.dressed_congr v (view_closeCells State.current (fun _ _ => rfl) ..)
          (view_closeCells State.callDepth (fun _ _ => rfl) ..)
      rw [run', truncated, State.modifyStack_disguised]
      refine congrArg (EStateM.Result.ok · _) ?_
      rw [closed, s₁.dressed_cells v f (s₁.closeCells _ f.cells).1]
      rw [Frame.mk.injEq]
      exact ⟨alike.base.symm, rfl, rfl, rfl, rfl, rfl, rfl, rfl⟩

/-! ## Calls -/

/-- The outcomes are the same, but for the name of what could not be called. -/
def Renamed (name name' : Option String) (x x' : EStateM.Result Fault (State ν) α) : Prop :=
  x' = x ∨ ∃ type s, x = .error (.raise (.callOf type name)) s ∧
    x' = .error (.raise (.callOf type name')) s

section Renamed

variable {name name' : Option String}

theorem renamed_bind (work : Exec ν α) {f f' : α → Exec ν β}
    (h : ∀ a s', Renamed name name' (f a s') (f' a s')) :
    Renamed name name' ((work >>= f) s) ((work >>= f') s) := by
  simp only [bind, EStateM.bind]
  cases work s with
  | error e s' => exact .inl rfl
  | ok a s' => exact h a s'

theorem renamed_callHandler {budget argc : Nat} (v : Value)
    (further : ∀ s : State ν, Renamed name name' (Machine.findCallee name budget (argc + 1) s)
      (Machine.findCallee name' budget (argc + 1) s)) :
    Renamed name name'
      ((do
        match (← get).unaryMetamethod v "__call" with
        | none => raise (.callOf v.typeName name)
        | some handler =>
          let operands ← splitOff ((← height) - argc - 1)
          push handler
          pushAll operands
          Machine.findCallee name budget (argc + 1) : Exec ν (Callee × Nat)) s)
      ((do
        match (← get).unaryMetamethod v "__call" with
        | none => raise (.callOf v.typeName name')
        | some handler =>
          let operands ← splitOff ((← height) - argc - 1)
          push handler
          pushAll operands
          Machine.findCallee name' budget (argc + 1) : Exec ν (Callee × Nat)) s) := by
  refine renamed_bind get fun s s' => ?_
  cases s.unaryMetamethod v "__call" with
  | none => exact .inr ⟨v.typeName, s', rfl, rfl⟩
  | some handler =>
    refine renamed_bind height fun _ _ => ?_
    refine renamed_bind (splitOff _) fun operands _ => ?_
    refine renamed_bind (push handler) fun _ _ => ?_
    exact renamed_bind (pushAll operands) fun _ s => further s

variable (name name') in
theorem findCallee_renamed (budget argc : Nat) (s : State ν) :
    Renamed name name' (Machine.findCallee name budget argc s)
      (Machine.findCallee name' budget argc s) := by
  induction budget generalizing s argc with
  | zero =>
    unfold Machine.findCallee
    refine renamed_bind (peek argc) fun v s => ?_
    cases v <;> exact .inl rfl
  | succ budget ih =>
    unfold Machine.findCallee
    refine renamed_bind (peek argc) fun v s => ?_
    have handled := renamed_callHandler (s := s) v (ih (argc + 1))
    cases v <;> first | exact .inl rfl | exact handled

end Renamed

/-- The second state is the first behind the veil, and the frames are those of an earlier one. -/
def Behind (v : Veil) (s₀ : State ν) (_ : Nat) (s t : State ν) : Prop := t = s.veiled v ∧ Rigid s₀ s

theorem behind_work {v : Veil} {s₀ : State ν} {work : Exec ν α}
    (h : Unaffected v.thread v.disguise s work) (keeps : Keeps s work) (before : Rigid s₀ s) :
    Mirrors (Behind v s₀) s (s.veiled v) work work fun _ => Behind v s₀ 0 := by
  unfold Unaffected at h
  unfold Mirrors at h ⊢
  generalize hy : work (s.veiled v) = y at h
  cases run : work s with
  | ok a s' =>
    rw [run] at h
    obtain ⟨t, rfl, veiled⟩ := h.of_ok
    exact .ok ⟨veiled, before.trans (keeps.ok run)⟩
  | error e s' =>
    rw [run] at h
    obtain ⟨t, rfl, veiled⟩ := h.of_error
    exact .error ⟨veiled, before.trans (keeps.error run)⟩

end Exec

def State.dressedCall (s : State ν) (v : Veil) (spec : CallSpec) : CallSpec :=
  if s.current = v.thread ∧ s.callDepth = v.depth then spec.asEntry v.name else spec

/-- The frame of a call. -/
def CallSpec.frame (spec : CallSpec) (base argc : Nat) (callee : Callee) : Frame :=
  { base, argc, returnAddress := spec.returnAddress, callee, name := spec.name,
    handlers := spec.handlers, flags := spec.flags }

theorem State.frame_dressedCall {s s' : State ν} (rigid : Rigid s s') (v : Veil) (spec : CallSpec)
    (base argc : Nat) (callee : Callee) :
    (s.dressedCall v spec).frame base argc callee = s'.dressed v (spec.frame base argc callee) := by
  have depth : s'.callDepth = s.callDepth := by
    rw [State.callDepth_eq_length, State.callDepth_eq_length, rigid.current, rigid.frames]
  unfold State.dressedCall State.dressed Veil.dress CallSpec.asEntry Frame.asEntry
  rw [rigid.current, depth]
  by_cases own : s.current = v.thread <;> by_cases at_ : s.callDepth = v.depth <;>
    by_cases entry : spec.flags.entryPoint = true <;> simp [own, at_, entry, CallSpec.frame]

namespace Exec

variable {s : State ν}

/-- The frame of a function that was found is pushed alike. -/
theorem enterFound_veiled {s₀ : State ν} (v : Veil) (spec : CallSpec) (found : Callee × Nat)
    (rigid : Rigid s₀ s) :
    Mirrors (Behind v s₀) s (s.veiled v) (Machine.enterFound spec found)
      (Machine.enterFound (s₀.dressedCall v spec) found)
      fun _ => Disguised v.thread v.disguise 0 := by
  obtain ⟨callee, argc⟩ := found
  have pushed : ∀ {s : State ν} (base : Nat) (callee : Callee), Rigid s₀ s →
      (s.veiled v).modifyFrames (·.push ((s₀.dressedCall v spec).frame base argc callee)) =
        (s.modifyFrames (·.push (spec.frame base argc callee))).veiled v := by
    intro s base callee rigid
    rw [State.frame_dressedCall rigid]
    exact s.push_veiled v _
  have pushes : ∀ {s : State ν} (base : Nat) (callee : Callee), Rigid s₀ s →
      Mirrors (Behind v s₀) s (s.veiled v)
        (modify fun s => s.modifyFrames (·.push (spec.frame base argc callee)))
        (modify fun s => s.modifyFrames (·.push ((s₀.dressedCall v spec).frame base argc callee)))
        fun _ => Disguised v.thread v.disguise 0 :=
    fun base callee rigid => mirrors_modify (pushed base callee rigid)
  cases callee with
  | script f =>
    refine mirrors_get ?_
    rw [State.callDepth_disguised, State.options_disguised]
    split
    · exact .error ⟨rfl, rigid⟩
    · refine mirrors_bind (behind_work unaffected_height keeps_height rigid) ?_
      rintro height s _ ⟨rfl, rigid⟩
      exact mirrors_bind (pushes _ _ rigid) fun _ _ _ h => mirrors_pure h
  | native f =>
    refine mirrors_bind (behind_work unaffected_height keeps_height rigid) ?_
    rintro height s _ ⟨rfl, rigid⟩
    refine mirrors_bind (behind_work (unaffected_splitOff _) (keeps_splitOff _) rigid) ?_
    rintro operands s _ ⟨rfl, rigid⟩
    refine mirrors_bind (behind_work unaffected_pop keeps_pop rigid) ?_
    rintro _ s _ ⟨rfl, rigid⟩
    refine mirrors_bind (behind_work unaffected_height keeps_height rigid) ?_
    rintro height s _ ⟨rfl, rigid⟩
    exact mirrors_bind (pushes _ _ rigid) fun _ _ _ h => mirrors_pure h

/-- **A call is entered alike**, but for the name of what could not be called. -/
theorem enterCall_veiled (s : State ν) (v : Veil) (spec : CallSpec) :
    (∃ type s', Rigid s s' ∧
      Machine.enterCall spec s = .error (.raise (.callOf type spec.name)) s' ∧
      Machine.enterCall (s.dressedCall v spec) (s.veiled v) =
        .error (.raise (.callOf type (s.dressedCall v spec).name)) (s'.veiled v)) ∨
    Mirrors (Behind v s) s (s.veiled v) (Machine.enterCall spec)
      (Machine.enterCall (s.dressedCall v spec)) fun _ => Disguised v.thread v.disguise 0 := by
  have argc : (s.dressedCall v spec).argc = spec.argc := by
    unfold State.dressedCall CallSpec.asEntry
    split
    · split <;> rfl
    · rfl
  have enters : ∀ (spec : CallSpec) (s : State ν), Machine.enterCall spec s =
      (Machine.findCallee spec.name s.options.maxCallChain spec.argc >>=
        Machine.enterFound spec) s := fun _ _ => rfl
  have found := behind_work (s := s)
    (unaffected_findCallee (c := v.thread) (D := v.disguise) (s.dressedCall v spec).name
      s.options.maxCallChain spec.argc)
    (Machine.keeps_findCallee ..) (.refl s)
  obtain same | ⟨type, s', run, run'⟩ := findCallee_renamed spec.name (s.dressedCall v spec).name
    s.options.maxCallChain spec.argc s
  · refine .inr ?_
    unfold Mirrors at found ⊢
    rw [same] at found
    rw [enters, enters, argc, State.options_disguised]
    simp only [bind, EStateM.bind]
    generalize Machine.findCallee (s.dressedCall v spec).name s.options.maxCallChain spec.argc
      (s.veiled v) = y at found
    cases run : Machine.findCallee spec.name s.options.maxCallChain spec.argc s with
    | error e s' =>
      rw [run] at found
      obtain ⟨t, rfl, behind⟩ := found.of_error
      exact .error behind
    | ok callee s' =>
      rw [run] at found
      obtain ⟨t, rfl, rfl, rigid⟩ := found.of_ok
      exact enterFound_veiled v spec callee rigid
  · refine .inl ⟨type, s', ?_, ?_, ?_⟩
    · exact (Machine.keeps_findCallee ..).error run
    · rw [enters]
      simp only [bind, EStateM.bind, run]
    · unfold Mirrors at found
      rw [run'] at found
      obtain ⟨t, run'', rfl, -⟩ := found.of_error
      rw [enters, argc, State.options_disguised]
      simp only [bind, EStateM.bind, run'']

end Exec

/-! ## Instructions -/

/-- What is asked when the frame is gone that looks entered. -/
def Effect.asEntry (name : Option String) : Effect → Effect
  | .leave f v => .leave (f.asEntry name) v
  | .call spec => .call (spec.asEntry spec.name)
  | e => e

/-- What is asked behind the veil. -/
def State.dressedEffect (s : State ν) (v : Veil) (e : Effect) : Effect :=
  if s.current = v.thread ∧ s.callDepth = v.depth then e.asEntry v.name else e

/-- What an instruction comes to behind the veil. A yield may be forced in front of it only. -/
inductive Veils (v : Veil) : EStateM.Result Fault (State ν) (Option Effect) →
    EStateM.Result Fault (State ν) (Option Effect) → Prop
  | failed {e : Fault} {s : State ν} : Veils v (.error e s) (.error e (s.veiled v))
  | asked {e : Effect} {s : State ν} :
      Veils v (.ok (some e) s) (.ok (some (s.dressedEffect v e)) (s.veiled v))
  | forced {s : State ν} {y : EStateM.Result Fault (State ν) (Option Effect)} :
      s.current = v.thread → Veils v (.ok none s) y
  | yields {s : State ν} : Veils v (.ok none s) (.ok none (s.veiled v))

namespace Exec

variable {s s₀ : State ν} {v : Veil}

theorem veils_bind {work : Exec ν α} {f f' : α → Exec ν (Option Effect)}
    (h : Unaffected v.thread v.disguise s work) (keeps : Keeps s work) (before : Rigid s₀ s)
    (hf : ∀ a s', Rigid s₀ s' → Veils v (f a s') (f' a (s'.veiled v))) :
    Veils v ((work >>= f) s) ((work >>= f') (s.veiled v)) := by
  have agree := behind_work h keeps before
  unfold Mirrors at agree
  simp only [bind, EStateM.bind]
  generalize work (s.veiled v) = y at agree
  cases run : work s with
  | ok a s' =>
    rw [run] at agree
    obtain ⟨t, rfl, rfl, rigid⟩ := agree.of_ok
    exact hf a s' rigid
  | error e s' =>
    rw [run] at agree
    obtain ⟨t, rfl, rfl, -⟩ := agree.of_error
    exact .failed

/-- The frame that stands is above the depth. -/
theorem dressedEffect_above (above : s₀.current = v.thread → v.depth < s₀.callDepth)
    (rigid : Rigid s₀ s) (e : Effect) : s.dressedEffect v e = e := by
  refine if_neg fun h => ?_
  have depth : s.callDepth = s₀.callDepth := by
    rw [State.callDepth_eq_length, State.callDepth_eq_length, rigid.current, rigid.frames]
  have higher := above (rigid.current ▸ h.1)
  omega

theorem veils_asked (above : s₀.current = v.thread → v.depth < s₀.callDepth)
    (rigid : Rigid s₀ s) (e : Effect) :
    Veils v ((pure (some e) : Exec ν (Option Effect)) s)
      ((pure (some e) : Exec ν (Option Effect)) (s.veiled v)) := by
  have asked := Veils.asked (v := v) (e := e) (s := s)
  rw [dressedEffect_above above rigid] at asked
  exact asked

theorem dressedEffect_leave (f : Frame) (w : Value) :
    s.dressedEffect v (.leave f w) = .leave (s.dressed v f) w := by
  unfold State.dressedEffect State.dressed Veil.dress
  by_cases own : s.current = v.thread <;> by_cases at_ : s.callDepth = v.depth <;>
    simp [own, at_, Effect.asEntry]

/-- The frame that returns is popped alike. -/
theorem veils_leave (x : Value) :
    Veils v ((popFrame >>= fun frame => pure (some (Effect.leave frame x))) s)
      ((popFrame >>= fun frame => pure (some (Effect.leave frame x))) (s.veiled v)) := by
  simp only [bind, EStateM.bind]
  obtain ⟨run, run'⟩ | ⟨f, s', run, run'⟩ := popFrame_veiled s v
  · rw [run, run']
    exact .failed
  · rw [run, run']
    have asked := Veils.asked (v := v) (e := .leave f x) (s := s')
    rwa [dressedEffect_leave] at asked

def takeOverCall (argc : Nat) (name : Option String) (frame : Frame) : CallSpec :=
  { argc, returnAddress := frame.returnAddress,
    flags := frame.flags.inherited.union { tailCall := true }, name }

theorem takeOverCall_asEntry (argc : Nat) (name name' : Option String) (f : Frame) :
    takeOverCall argc name (f.asEntry name') = (takeOverCall argc name f).asEntry name := by
  by_cases entry : f.flags.entryPoint = true <;>
    simp [takeOverCall, Frame.asEntry, CallSpec.asEntry, entry, FrameFlags.inherited,
      FrameFlags.inter, FrameFlags.inheritable, FrameFlags.union, FrameFlags.asEntry]

/-- The frame that is taken over is popped alike. -/
theorem veils_takeOver (argc : Nat) (name : Option String) (operands : List Value) :
    Veils v
      ((popFrame >>= fun frame => pushAll operands >>= fun _ =>
        pure (some (Effect.call (takeOverCall argc name frame)))) s)
      ((popFrame >>= fun frame => pushAll operands >>= fun _ =>
        pure (some (Effect.call (takeOverCall argc name frame)))) (s.veiled v)) := by
  simp only [bind, EStateM.bind]
  obtain ⟨run, run'⟩ | ⟨f, s', run, run'⟩ := popFrame_veiled s v
  · rw [run, run']
    exact .failed
  · rw [run, run']
    let pushed := s'.modifyStack (·.pushAll operands)
    have asked := Veils.asked (v := v) (e := .call (takeOverCall argc name f)) (s := pushed)
    have depth : pushed.callDepth = s'.callDepth :=
      State.view_modifyProcessorOf s' _ s'.current s'.current (fun p => p.frames.size) fun _ => rfl
    have same : pushed.dressedEffect v (.call (takeOverCall argc name f)) =
        .call (takeOverCall argc name (s'.dressed v f)) := by
      unfold State.dressedEffect State.dressed Veil.dress
      rw [depth, show pushed.current = s'.current from rfl]
      by_cases own : s'.current = v.thread <;> by_cases at_ : s'.callDepth = v.depth <;>
        simp [own, at_, Effect.asEntry, takeOverCall_asEntry]
      rfl
    have moved : pushed.veiled v = (s'.veiled v).modifyStack (·.pushAll operands) :=
      (s'.modifyStack_disguised v.thread v.disguise _).symm
    rw [same, moved] at asked
    exact asked

/-- What an instruction that is executed asks for. -/
theorem veils_execute (p : Proto) (scope : Scope) (ip : Nat) (i : Instruction)
    (above : s₀.current = v.thread → v.depth < s₀.callDepth) (before : Rigid s₀ s) :
    Veils v ((do return some (← execute p scope ip i) : Exec ν (Option Effect)) s)
      ((do return some (← execute p scope ip i) : Exec ν (Option Effect)) (s.veiled v)) := by
  obtain ⟨op, a, b⟩ := i
  by_cases hr : op = .ret
  · subst hr
    simp only [execute]
    split
    · simp only [bind_assoc, pure_bind]
      exact veils_leave _
    · simp only [bind_assoc, pure_bind]
      exact veils_bind unaffected_pop keeps_pop before fun x _ _ => veils_leave x
  by_cases ht : op = .tailCall
  · subst ht
    simp only [execute, tailCall, bind_assoc]
    refine veils_bind (unaffected_mayReuseFrame _) (keeps_mayReuseFrame _) before
      fun reuse s' rigid => ?_
    cases reuse with
    | false => exact veils_asked above rigid _
    | true =>
      simp only [↓reduceIte, bind_assoc, pure_bind]
      refine veils_bind unaffected_height keeps_height rigid fun height s' rigid => ?_
      refine veils_bind (unaffected_splitOff _) (keeps_splitOff _) rigid fun operands s' _ => ?_
      exact veils_takeOver _ _ operands
  · exact veils_bind (unaffected_execute p scope ip _ hr ht) (keeps_execute p scope ip _ hr ht)
      before fun e s' rigid => veils_asked above rigid e

theorem veils_takeTurn (ip : Nat) (x : (Proto × Scope) × Instruction)
    (above : s₀.current = v.thread → v.depth < s₀.callDepth) (before : Rigid s₀ s) :
    Veils v (takeTurn ip x s) (takeTurn ip x (s.veiled v)) :=
  veils_bind (unaffected_checkpoint _ _) (keeps_checkpoint _ _) before fun _ _ rigid =>
    veils_execute _ _ _ _ above rigid

/-- The meter of the thread is hidden. -/
theorem veiled_meter (s : State ν) (v : Veil) (own : s.current = v.thread) :
    (s.modifyProcessor fun p => { p with sinceResume := p.sinceResume + 1 }).veiled v =
      s.veiled v := by
  have changed : (s.modifyProcessorOf s.current fun p =>
        { p with sinceResume := p.sinceResume + 1 }).modifyProcessorOf s.current v.disguise.apply =
      s.modifyProcessorOf s.current v.disguise.apply := by
    rw [State.modifyProcessorOf_twice]
    exact s.modifyProcessorOf_congr rfl
  unfold State.veiled
  rw [← own]
  exact changed

/-- The thread is counted against its share, or a yield is forced. -/
theorem shareUsedUp_own_cases (ip : Nat) (s : State ν) :
    (∃ s', shareUsedUp ip s = .ok true s' ∧ s'.current = s.current) ∨
      shareUsedUp ip s = .ok false s ∨
      shareUsedUp ip s =
        .ok false (s.modifyProcessor fun p => { p with sinceResume := p.sinceResume + 1 }) := by
  by_cases shared : (decide (0 < s.processor.autoYield) && s.isYieldable) = true
  · by_cases used : s.processor.autoYield < s.processor.sinceResume + 1
    · refine .inl ⟨s.modifyProcessor fun p =>
        { p with sinceResume := 0, pending := some (.instruction ip, {}) }, ?_, rfl⟩
      simp only [shareUsedUp, bind, EStateM.bind, get, getThe, MonadStateOf.get, EStateM.get,
        shared, used, ↓reduceIte]
      rfl
    · refine .inr (.inr ?_)
      simp only [shareUsedUp, bind, EStateM.bind, get, getThe, MonadStateOf.get, EStateM.get,
        shared, used, ↓reduceIte]
      rfl
  · refine .inr (.inl ?_)
    simp only [shareUsedUp, bind, EStateM.bind, get, getThe, MonadStateOf.get, EStateM.get, shared]
    rfl

/-- The share of another thread is counted alike. -/
theorem unaffected_shareUsedUp (ip : Nat) (other : s.current ≠ v.thread) :
    Unaffected v.thread v.disguise s (shareUsedUp ip) := by
  have same : (s.veiled v).processor = s.processor := s.processorOf_veiled v other
  have yieldable : (s.veiled v).isYieldable = s.isYieldable := by
    simp only [State.isYieldable, same]
    rfl
  have changed : ∀ f : Processor → Processor,
      Unaffected v.thread v.disguise s (modify fun s => s.modifyProcessor f) := fun f =>
    unaffected_modify (s.modifyProcessorOf_disguised v.thread s.current v.disguise f
      fun e => absurd e other)
  apply unaffected_get
  rw [yieldable, same]
  dsimp only
  split
  · split
    · exact unaffected_bind (changed _) fun _ _ => unaffected_pure _
    · exact unaffected_bind (changed _) fun _ _ => unaffected_pure _
  · exact unaffected_pure _

/-- In a nested call no yield is forced. -/
theorem shareUsedUp_veiled (ip : Nat) (own : s.current = v.thread)
    (inRange : v.thread.index < s.processors.size) :
    shareUsedUp ip (s.veiled v) = .ok false (s.veiled v) := by
  have looks : (s.veiled v).processor = v.disguise.apply s.processor := by
    have shown := s.processorOf_veiled_own v inRange
    rw [← own] at shown
    simp only [State.processor, ← own] at *
    exact shown
  have nested : (s.veiled v).isYieldable = false := by
    simp [State.isYieldable, looks, Veil.disguise]
  simp only [shareUsedUp, bind, EStateM.bind, get, getThe, MonadStateOf.get, EStateM.get, nested,
    Bool.and_false]
  rfl

theorem veils_turn (ip : Nat) (x : (Proto × Scope) × Instruction)
    (above : s₀.current = v.thread → v.depth < s₀.callDepth) (before : Rigid s₀ s)
    (here : s.HasCurrent) (inRange : v.thread.index < s.processors.size) :
    Veils v (turn ip x s) (turn ip x (s.veiled v)) := by
  by_cases own : s.current = v.thread
  · have shown := shareUsedUp_veiled ip own inRange
    rw [turn_of_share shown]
    obtain ⟨s', used, current⟩ | free | counted := shareUsedUp_own_cases ip s
    · simp only [turn, bind, EStateM.bind, used]
      exact .forced (current.trans own)
    · rw [turn_of_share free]
      exact veils_takeTurn ip x above before
    · rw [turn_of_share counted, ← veiled_meter s v own]
      exact veils_takeTurn ip x above (before.trans (rigid_modifyProcessorOf s s.current
        (f := fun p => { p with sinceResume := p.sinceResume + 1 }) fun _ => rfl))
  · have agree := unaffected_shareUsedUp ip own
    unfold Unaffected Mirrors at agree
    have paced := shareUsedUp_outline ip here
    cases run : shareUsedUp ip s with
    | error e s' =>
      rw [run] at paced
      obtain ⟨_, used, -⟩ | ⟨_, used, -⟩ := paced <;> cases used
    | ok used s' =>
      rw [run] at agree paced
      obtain ⟨t, run', rfl⟩ := agree.of_ok
      cases used with
      | true =>
        simp only [turn, bind, EStateM.bind, run, run']
        exact .yields
      | false =>
        have rigid : Rigid s s' := by
          obtain ⟨_, used, -⟩ | ⟨_, used, rigid⟩ := paced
          · cases used
          · cases used
            exact rigid
        rw [turn_of_share run, turn_of_share run']
        exact veils_takeTurn ip x above (before.trans rigid)

theorem unaffected_countInstruction : Unaffected v.thread v.disguise s countInstruction := by
  apply unaffected_get
  refine unaffected_set (t := s.counted) ?_
  split
  · split
    · exact unaffected_throw _
    · exact unaffected_pure _
  · exact unaffected_pure _

/-- **An instruction is executed alike**, unless a yield is forced in front of it. -/
theorem executeAt_veiled (ip : Nat) (here : s.HasCurrent)
    (above : s.current = v.thread → v.depth < s.callDepth)
    (inRange : v.thread.index < s.processors.size) :
    Veils v (executeAt ip s) (executeAt ip (s.veiled v)) := by
  rw [executeAt_eq, executeAt_eq, State.instructionAt_disguised]
  refine veils_bind (unaffected_ofExcept _) (within_ofExcept rigid_tolerant _) (.refl s)
    fun x s' rigid => ?_
  refine veils_bind unaffected_countInstruction keeps_countInstruction rigid fun _ s' rigid => ?_
  exact veils_turn ip x above rigid (rigid.hasCurrent here) (rigid.size ▸ inRange)

end Exec

end ScriptMachine
