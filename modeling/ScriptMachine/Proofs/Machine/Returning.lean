import ScriptMachine.Proofs.Machine.Orderly

/-!
# Returns in lockstep

What a return does with and without a frame that can be spared.

* `Spared.cases_top`: the frame on top is above the one that can be spared, or was called from it.
* `lockstep_return`: a return from a frame above.
* `advance_returns`: where the frame on top was called from the one that can be spared, both return,
  one after the other, which takes three steps instead of one.
-/

namespace ScriptMachine

variable {ν α : Type} {x : Option Spare} {s t : State ν} {c : ThreadId} {n : Nat}
  {library : Library ν} {f : Frame}

/-- The frame on top is above the one that can be spared, or was called from it. -/
theorem Spared.cases_top (h : Spared x c n s t) (top : s.processor.frames.back? = some f) :
    (∃ fs fs', s.processor.frames.toList.reverse = f :: fs ∧
      t.processor.frames.toList.reverse = f.lowered (Spare.part x c).gap :: fs' ∧
      FramesTrim (Spare.on x c) fs fs' ∧ (Spare.part x c).high ≤ f.activation.floor) ∨
    ∃ z, x = some z ∧ c = z.thread ∧ z.Calls f ∧
      s.processor.frames.toList.reverse = f :: z.frame :: z.rest ∧
      t.processor.frames.toList.reverse = z.taken f :: z.rest := by
  obtain ⟨fs, frames⟩ := reverse_eq_of_back? top
  have trim := h.trims.frames
  rw [h.current, frames] at trim
  obtain ⟨fs', frames', below, high⟩ | ⟨z, own, calls, rfl, frames'⟩ := trim.tail
  · exact .inl ⟨fs, fs', frames, frames', below, high⟩
  · obtain ⟨member, thread⟩ := Spare.mem_on own
    exact .inr ⟨z, member, thread, calls, frames, frames'⟩

theorem State.frames_modifyStack (s : State ν) (g : ValueStack → ValueStack) :
    (s.modifyStack g).processor.frames = s.processor.frames :=
  State.view_modifyProcessorOf s (fun p => { p with stack := g p.stack }) s.current s.current
    Processor.frames fun _ => rfl

namespace Exec

def returned (i : Instruction) : Exec ν Value := if i.a = 0 then pure .void else pop

theorem execute_ret {i : Instruction} (ret : i.op = .ret) (p : Proto) (scope : Scope) (ip : Nat) :
    (execute p scope ip i : Exec ν Effect) =
      (returned i >>= fun v => popFrame >>= fun frame => pure (.leave frame v)) := by
  simp only [execute, returned, ret]
  split <;> rfl

theorem pop_of_pos (tall : 0 < s.processor.stack.size) :
    ∃ v, pop s = .ok v (s.modifyStack fun stack => stack.truncate (stack.size - 1)) := by
  obtain ⟨v, top⟩ : ∃ v, s.processor.stack.peek? 0 = some v := by
    have inside : s.processor.stack.size - 1 < s.processor.stack.values.size :=
      Nat.sub_lt tall Nat.one_pos
    refine ⟨s.processor.stack.values[s.processor.stack.size - 1], ?_⟩
    rw [ValueStack.peek?, if_pos tall, Nat.sub_zero]
    exact Array.getElem?_eq_getElem inside
  refine ⟨v, ?_⟩
  simp only [pop, peek, stack, bind, EStateM.bind, get, getThe, MonadStateOf.get, EStateM.get, pure,
    EStateM.pure, top, present, modify, modifyGet, MonadStateOf.modifyGet, EStateM.modifyGet]

/-- What a return takes from the stack is there. The frames stay. -/
theorem returned_spared {i : Instruction} (ret : i.op = .ret) (h : Spared x c i.span s t) :
    ∃ v s' t', returned i s = .ok v s' ∧ returned i t = .ok v t' ∧ Spared x c 0 s' t' ∧
      s'.processor.frames = s.processor.frames := by
  by_cases none : i.a = 0
  · refine ⟨.void, s, t, ?_, ?_, h.weaken, rfl⟩ <;> simp only [returned, none, if_true] <;> rfl
  · have span : i.span = 0 + 1 := by simp [Instruction.span, Instruction.reach, ret, none]
    rw [span] at h
    have tall : 0 < s.processor.stack.size := Nat.lt_of_lt_of_le Nat.one_pos h.tall
    obtain ⟨v, popped⟩ := pop_of_pos tall
    have mirrors := mirrors_pop (Spare.operands x c) h
    unfold Mirrors at mirrors
    rw [popped] at mirrors
    obtain ⟨t', popped', spared⟩ := mirrors.of_ok
    refine ⟨v, _, t', ?_, ?_, spared, s.frames_modifyStack _⟩ <;>
      simp only [returned, none, if_false]
    · exact popped
    · exact popped'

end Exec

namespace Machine

open Exec

variable {mark mark' : Mark} {k k' : Kont ν .step} {i : Instruction}

/-- The effect of an instruction is done. -/
theorem andThen_of_ok {work : Exec ν α} {ok : α → Move ν (Control ν)}
    {error : Fault → Move ν (Control ν)} {a : α} {s' : State ν} (run : work s = .ok a s') : work.andThen ok error s = ok a s' := by
  unfold Exec.andThen
  rw [run]

/-- A return takes its value and pops its frame. -/
theorem execute_ret_eq (ret : i.op = .ret) {p : Proto} {scope : Scope} {ip : Nat} {v : Value}
    {s' s'' : State ν} (taken : returned i s = .ok v s') (popped : popFrame s' = .ok f s'') :
    execute p scope ip i s = .ok (.leave f v) s'' := by
  rw [execute_ret ret]
  simp only [bind, EStateM.bind, taken, popped]
  rfl

/-- **A return** from a frame above the one that can be spared does the same. -/
theorem lockstep_return (discreet : library.Discreet) (ret : i.op = .ret) {p : Proto}
    {scope scope' : Scope} {ip : Nat} (h : Spared x c i.span s t) {fs : List Frame}
    (frames : s.processor.frames.toList.reverse = f :: fs)
    (apart : ∀ z, x = some z → c = z.thread → fs ≠ z.frame :: z.rest)
    (marks : MarkTrims (Spare.on x c) mark mark') (hk : Kont.Trims x c k k')
    {error error' : Fault → Move ν (Control ν)} :
    Lockstep x s t
      ((execute p scope ip i).andThen (fun e => perform library ip mark k (some e)) error)
      ((execute p scope' ip i).andThen (fun e => perform library ip mark' k' (some e)) error') := by
  obtain ⟨v, s', t', taken, taken', spared, same⟩ := returned_spared ret h
  rw [← same] at frames
  obtain ⟨fs, fs', frames', trimmed, below, high⟩ | ⟨z, own, thread, -, frames', -⟩ :=
    spared.cases_top (back?_of_reverse frames)
  · obtain ⟨popped, popped', left⟩ := Exec.popFrame_above spared frames' trimmed below high
    unfold Lockstep
    rw [andThen_of_ok (execute_ret_eq ret taken popped),
      andThen_of_ok (execute_ret_eq ret taken' popped')]
    exact lockstep_finishFrame discreet left { f with cells := [] } _ v false (.loop marks hk)
  · exact absurd (List.cons.inj (frames.symm.trans frames')).2 (apart z own thread)

end Machine

/-- The next instruction is not counted, and reaches for no slot below its frame. -/
structure State.Modest (s : State ν) (ip : Nat) : Prop where
  free : s.Unmetered
  spans : s.Spans ip

def State.AtTail (s : State ν) (ip : Nat) : Prop :=
  ∃ p scope i, s.instructionAt ip = .ok ((p, scope), i) ∧ i.op = .tailCall

namespace State

theorem closeCells_counted (s : State ν) (p : Nat → Bool) (ys : List CellId) :
    s.counted.closeCells p ys = ((s.closeCells p ys).1, (s.closeCells p ys).2.counted) := by
  induction ys generalizing s with
  | nil => rfl
  | cons y rest ih =>
    have same : s.counted.cell y = s.cell y := rfl
    have closed : s.counted.closeCell y = (s.closeCell y).counted := rfl
    unfold closeCells
    rw [same]
    split
    · split
      · rw [closed, ih]
      · rw [ih]
    · exact ih s

theorem popTop_counted (s : State ν) (f : Frame) : s.counted.popTop f = (s.popTop f).counted := by
  have frames : s.counted.modifyFrames Array.pop = (s.modifyFrames Array.pop).counted := rfl
  unfold popTop dropTop
  rw [frames, closeCells_counted]
  rfl

theorem Unmetered.likewise {s' : State ν} (free : s.Unmetered) (likewise : s.Likewise s')
    (share : s'.processor.autoYield = s.processor.autoYield) : s'.Unmetered :=
  ⟨likewise.options ▸ free.limit, share.trans free.share, likewise.world ▸ free.debugger⟩

theorem Unmetered.popTop (free : s.Unmetered) (here : s.HasCurrent) : (s.popTop f).Unmetered := by
  refine free.likewise (s.likewise_popTop f) ?_
  rw [State.processor, current_popTop, processorOf_popTop here, if_pos rfl]
  rfl

theorem Unmetered.counted (free : s.Unmetered) : s.counted.Unmetered :=
  ⟨free.limit, free.share, free.debugger⟩

theorem Unmetered.modifyStack (free : s.Unmetered) (g : ValueStack → ValueStack) :
    (s.modifyStack g).Unmetered :=
  free.likewise (s.likewise_modifyProcessor _)
    (State.view_modifyProcessorOf s (fun p => { p with stack := g p.stack }) s.current s.current
      Processor.autoYield fun _ => rfl)

end State

theorem ValueStack.truncate_push (v : ValueStack) (a : Value) :
    (v.push a).truncate ((v.push a).size - 1) = v := by
  simp [ValueStack.truncate, ValueStack.push, ValueStack.size]

theorem ValueStack.peek?_push (v : ValueStack) (a : Value) : (v.push a).peek? 0 = some a := by
  simp [ValueStack.peek?, ValueStack.push, ValueStack.size]

theorem State.modifyStack_id (s : State ν) : s.modifyStack (fun v => v) = s := by
  simp only [modifyStack, modifyProcessor, modifyProcessorOf]
  congr 1
  apply Array.ext_getElem?
  intro i
  rw [Array.getElem?_modify]
  split
  · cases s.processors[i]? <;> rfl
  · rfl

namespace Exec

/-- What was pushed is popped. -/
theorem pop_push (here : s.HasCurrent) (v : Value) : pop (s.modifyStack (·.push v)) = .ok v s := by
  have stack : (s.modifyStack (·.push v)).processor.stack = s.processor.stack.push v :=
    congrArg Processor.stack (State.processor_modifyProcessor here _)
  have top := ValueStack.peek?_push s.processor.stack v
  rw [← stack] at top
  have twice : (s.modifyStack (·.push v)).modifyStack (fun u => u.truncate (u.size - 1)) =
      s.modifyStack fun u => u := by
    refine (s.modifyProcessorOf_twice s.current _ _).trans ?_
    simp only [ValueStack.truncate_push]
    rfl
  simp only [pop, peek, Exec.stack, bind, EStateM.bind, get, getThe, MonadStateOf.get, EStateM.get,
    pure, EStateM.pure, top, present, modify, modifyGet, MonadStateOf.modifyGet, EStateM.modifyGet]
  rw [twice, s.modifyStack_id]

end Exec

/-- A return takes its value from the stack, and nothing else changes. -/
theorem State.Unmetered.returned {i : Instruction} {v : Value} {s' : State ν} (free : s.Unmetered)
    (taken : Exec.returned i s.counted = .ok v s') : s'.Unmetered := by
  unfold Exec.returned at taken
  split at taken
  · cases taken
    exact free.counted
  · simp only [Exec.pop, Exec.peek, Exec.stack, bind, EStateM.bind, get, getThe, MonadStateOf.get,
      EStateM.get, pure, EStateM.pure, modify, modifyGet, MonadStateOf.modifyGet,
      EStateM.modifyGet] at taken
    cases top : s.counted.processor.stack.peek? 0 with
    | none =>
      rw [top] at taken
      cases taken
    | some a =>
      rw [top] at taken
      cases taken
      exact free.counted.modifyStack _

/-- A frame that inherits nothing was called by a function. -/
theorem FrameFlags.plain_of_inherited {flags : FrameFlags} (plain : flags.inherited = {}) :
    flags.entryPoint = false ∧ flags.discardResult = false ∧ flags.scalarResult = false := by
  simp only [FrameFlags.inherited, FrameFlags.inter, FrameFlags.inheritable, Bool.and_true,
    FrameFlags.mk.injEq] at plain
  exact ⟨plain.2.2.1, plain.2.2.2.2⟩

theorem Spare.inherited_taken (z : Spare) (f : Frame) :
    (z.taken f).flags.inherited = z.frame.flags.inherited := by
  simp [Spare.taken, FrameFlags.union, FrameFlags.inherited, FrameFlags.inter, FrameFlags.inheritable]

namespace Machine

open Exec

variable {mark mark' : Mark} {k k' : Kont ν .step} {i : Instruction}

/-- A frame without handlers only hands its result on. -/
theorem finishFrame_bare (bare : f.handlers.isEmpty = true) (v : Value) (k : Kont ν .step) :
    finishFrame library f v false k = deliver f.flags f.returnAddress v k := by
  unfold finishFrame
  rw [Handlers.eq_empty bare]

/-- A result is handed to the function that made the call. -/
theorem deliver_plain {flags : FrameFlags} (plain : flags.inherited = {}) (address : Nat) (v : Value)
    (k : Kont ν .step) : deliver flags address v k s =
      (.step (.ok (.proceed address)) k, s.modifyStack (·.push v)) := by
  obtain ⟨entry, discards, scalar⟩ := FrameFlags.plain_of_inherited plain
  unfold deliver
  rw [scalar, entry, discards]
  rfl

/-- Whether a result goes to the host, to a function or nowhere, is inherited. -/
theorem deliver_congr {flags flags' : FrameFlags} (same : flags'.inherited = flags.inherited)
    (address : Nat) (v : Value) (k : Kont ν .step) :
    deliver flags' address v k = deliver flags address v k := by
  simp only [FrameFlags.inherited, FrameFlags.inter, FrameFlags.inheritable, Bool.and_true,
    FrameFlags.mk.injEq] at same
  obtain ⟨-, -, entry, -, discards, scalar⟩ := same
  unfold deliver
  rw [entry, discards, scalar]

/-- The same is handed on in both states, to loops that may be at other addresses. -/
theorem exists_deliver (h : Spared none c n s t) (flags : FrameFlags) (address : Nat) (v : Value) :
    ∃ o s' t', (∀ reason, o ≠ .suspend reason) ∧ Spared none c 0 s' t' ∧
      (∀ k : Kont ν .step, deliver flags address v k s = (.step (.ok o) k, s')) ∧
      ∀ k : Kont ν .step, deliver flags address v k t = (.step (.ok o) k, t') := by
  unfold deliver
  cases flags.entryPoint with
  | true => exact ⟨_, s, t, (fun reason other => by cases other), h.weaken, fun _ => rfl, fun _ => rfl⟩
  | false =>
    cases flags.discardResult with
    | true =>
      exact ⟨_, s, t, (fun reason other => by cases other), h.weaken, fun _ => rfl, fun _ => rfl⟩
    | false =>
      have pushed := (Spare.operands none c).pushAll [if flags.scalarResult then v.scalar else v] h
      exact ⟨_, _, _, (fun reason other => by cases other), pushed.weaken, fun _ => rfl, fun _ => rfl⟩

/-- The instruction of the top frame at an address. -/
theorem instructionAt_script (top : s.processor.frames.back? = some f) {g : ClosureId}
    (callee : f.callee = .script g) {ip : Nat} (code : (s.closure g).proto.code[ip]? = some i) :
    s.instructionAt ip = .ok (((s.closure g).proto, ⟨g, f.base⟩), i) := by
  unfold State.instructionAt
  rw [top]
  dsimp only
  rw [callee]
  dsimp only
  rw [code]

/-- **Two returns instead of one.** Where the frame on top was called from the one that can be
spared, its return leads to that of the frame below, with the same result. -/
theorem advance_returns {z : Spare} (h : Spared (some z) z.thread n s t) (free : s.Unmetered)
    {ip : Nat} {p : Proto} {scope scope' : Scope} (found : s.instructionAt ip = .ok ((p, scope), i))
    (found' : t.instructionAt ip = .ok ((p, scope'), i)) (ret : i.op = .ret)
    (room : Spared (some z) z.thread i.span s.counted t.counted)
    (calls : z.Calls f) (frames : s.processor.frames.toList.reverse = f :: z.frame :: z.rest) :
    ∃ o s₁ s₃ t₁, (∀ reason, o ≠ .suspend reason) ∧ Spared none z.thread 0 s₃ t₁ ∧
      (¬ s₁.AtTail z.address) ∧
      (∀ (library : Library ν) mark k, advance library (.execute ip mark k) s =
        (.step (.ok (.proceed z.address)) (.loop mark ip k), s₁)) ∧
      (∀ (library : Library ν) mark k, advance library (.execute z.address mark k) s₁ =
        (.step (.ok o) (.loop mark z.address k), s₃)) ∧
      ∀ (library : Library ν) mark k, advance library (.execute ip mark k) t =
        (.step (.ok o) (.loop mark ip k), t₁) := by
  obtain ⟨v, s', t', taken, taken', spared, same⟩ := returned_spared ret room
  have frames₀ : s'.processor.frames.toList.reverse = f :: z.frame :: z.rest :=
    (congrArg (fun fs => fs.toList.reverse) same).trans frames
  obtain ⟨fs, fs', frames₁, -, below, -⟩ | ⟨z', own, -, -, -, frames'⟩ :=
    spared.cases_top (back?_of_reverse frames₀)
  · obtain ⟨-, rfl⟩ := List.cons.inj (frames₀.symm.trans frames₁)
    have deep := (below.length.2 z (Spare.on_self z)).1
    simp [Spare.depth] at deep
  obtain rfl := Option.some.inj own
  have current : z.thread = s'.current := spared.current.symm
  -- what the first return leaves
  let u := s'.popTop f
  have kept : u.Kept := State.wanes_popTop (back?_of_reverse frames₀) spared.kept
  have here : u.HasCurrent := (s'.likewise_popTop f).hasCurrent spared.here
  have framesᵤ : u.processor.frames.toList.reverse = z.frame :: z.rest := by
    rw [State.frames_popTop spared.here]
    exact reverse_pop frames₀
  have topᵤ : u.processor.frames.back? = some z.frame := back?_of_reverse framesᵤ
  have popped : popFrame s' = .ok { f with cells := [] } u :=
    popFrame_eq (back?_of_reverse frames₀) (spared.kept.owner (back?_of_reverse frames₀))
  have popped' : popFrame t' = .ok { z.taken f with cells := [] } (t'.popTop (z.taken f)) :=
    popFrame_eq (back?_of_reverse frames')
      (spared.trims.owner_taken spared.kept current calls frames₀)
  have trims := spared.trims.popTop_called spared.kept spared.here current calls frames₀ frames'
  -- the second return takes what the first one left
  have free' : s'.Unmetered := State.Unmetered.returned free taken
  have freeᵤ : u.Unmetered := free'.popTop spared.here
  have pushed : u.processor.frames = (u.modifyStack (·.push v)).processor.frames :=
    (u.frames_modifyStack _).symm
  obtain ⟨g, j, held, code, op, some⟩ := (spared.trims.fits z rfl).returns
  have closure : (u.modifyStack (·.push v)).closure z.closure = g := by
    have same : u.closures = s'.closures := (s'.likewise_popTop f).closures
    change (u.closures[z.closure.index]?).getD default = g
    rw [same, held]
    rfl
  have next : (u.modifyStack (·.push v)).instructionAt z.address =
      .ok ((g.proto, ⟨z.closure, z.frame.base⟩), j) := by
    have at_ : (u.modifyStack (·.push v)).instructionAt z.address = _ :=
      instructionAt_script (pushed ▸ topᵤ) z.callee (by rw [closure]; exact code)
    rwa [closure] at at_
  have takes : returned j (u.modifyStack (·.push v)).counted = .ok v u.counted := by
    have run := pop_push (s := u.counted) here v
    unfold returned
    rw [if_neg some]
    exact run
  have owner : z.frame.Owner u.counted.cell := kept.owner topᵤ
  have poppedᵤ : popFrame u.counted = .ok { z.frame with cells := [] } (u.popTop z.frame).counted := by
    have popped := popFrame_eq (s := u.counted) topᵤ owner
    rwa [State.popTop_counted] at popped
  have last : Spared none z.thread 0 (u.popTop z.frame).counted (t'.popTop (z.taken f)) := by
    have current' : (u.popTop z.frame).current = z.thread := by
      rw [State.current_popTop, State.current_popTop, current]
    refine ⟨current', (u.likewise_popTop z.frame).hasCurrent here,
      ((State.Change.counted.becomes.keeps (State.wanes_popTop topᵤ kept)).1), { trims with },
      Nat.zero_le _⟩
  obtain ⟨o, s₃, t₁, goes, final, delivers, delivers'⟩ :=
    exists_deliver last z.frame.flags z.frame.returnAddress v
  refine ⟨o, u.modifyStack (·.push v), s₃, t₁, goes, final, ?_, fun library mark k => ?_,
    fun library mark k => ?_, fun library mark k => ?_⟩
  · rintro ⟨p', scope', i', found, tail⟩
    obtain ⟨-, rfl⟩ := Prod.mk.inj (Except.ok.inj (next.symm.trans found))
    cases op.symm.trans tail
  · rw [advance_unmetered free found, andThen_of_ok (execute_ret_eq ret taken popped)]
    change finishFrame library _ v false _ _ = _
    rw [finishFrame_bare (f := { f with cells := [] }) calls.bare, deliver_plain calls.flags,
      calls.returnAddress]
  · rw [advance_unmetered (freeᵤ.modifyStack _) next, andThen_of_ok (execute_ret_eq op takes poppedᵤ)]
    change finishFrame library _ v false _ _ = _
    rw [finishFrame_bare (f := { z.frame with cells := [] }) z.bare, delivers]
  · rw [advance_unmetered (h.trims.unmetered free) found',
      andThen_of_ok (execute_ret_eq ret taken' popped')]
    change finishFrame library _ v false _ _ = _
    rw [finishFrame_bare (f := { z.taken f with cells := [] }) calls.bare]
    change deliver (z.taken f).flags z.frame.returnAddress v _ _ = _
    rw [deliver_congr (Spare.inherited_taken z f), delivers']

end Machine

end ScriptMachine
