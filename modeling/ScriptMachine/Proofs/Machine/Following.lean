import ScriptMachine.Proofs.Machine.TakingOver

/-!
# A machine with a frame less

What a step of a machine is matched by on one that has a frame less.

* `Machine.Trims`: where the machines are. `Machine.Firm`: what is known of a machine in order.
* `follows_step`: where no tail call is next, the machine with the frame takes a step as well, or
  three where two frames return.
* `follows_tail`: a tail call takes one step on both.
-/

namespace ScriptMachine

variable {ν : Type} {x : Option Spare} {s t : State ν} {library : Library ν} {f : Frame}

/-- The function, the instruction and the frame that an address belongs to. -/
theorem exists_frame_of_instructionAt {ip : Nat} {p : Proto} {scope : Scope} {i : Instruction}
    (found : s.instructionAt ip = .ok ((p, scope), i)) :
    ∃ f g, s.processor.frames.back? = some f ∧ f.callee = .script g ∧ p = (s.closure g).proto ∧
      scope = ⟨g, f.base⟩ ∧ p.code[ip]? = some i := by
  unfold State.instructionAt at found
  cases top : s.processor.frames.back? with
  | none =>
    rw [top] at found
    cases found
  | some f =>
    rw [top] at found
    dsimp only at found
    cases callee : f.callee with
    | native n =>
      rw [callee] at found
      cases found
    | script g =>
      rw [callee] at found
      dsimp only at found
      cases code : (s.closure g).proto.code[ip]? with
      | none =>
        rw [code] at found
        cases found
      | some j =>
        rw [code] at found
        cases found
        exact ⟨f, g, rfl, callee, rfl, rfl, code⟩

/-- A tail call can do without its frame: its result is returned, the captured slots of the frame
are below what is called, and those of the frames that wait are below the frame. -/
def State.Settled (s : State ν) (ip : Nat) : Prop :=
  ∀ p scope i f rest, s.instructionAt ip = .ok ((p, scope), i) → i.op = .tailCall →
    s.processor.frames.toList.reverse = f :: rest →
    (∃ j, p.code[ip + 1]? = some j ∧ j.op = .ret ∧ j.a ≠ 0) ∧ 0 < f.base ∧
    (∀ y ∈ f.cells, ∀ k, s.cell y = .opened s.current k →
      k < s.processor.stack.size - Exec.operand i.a - 1) ∧
    ∀ q ∈ rest, ∀ y ∈ q.cells, ∀ k, s.cell y = .opened s.current k → k < f.activation.floor

theorem State.framesOf_current (s : State ν) :
    s.framesOf s.current = s.processor.frames.toList.reverse.map Frame.outline := rfl

namespace Machine

/-- The machines are where they are with a frame more and a frame less. -/
structure Trims (x : Option Spare) (m w : Machine ν) : Prop where
  control : m.control.Trims x m.state.current w.control
  state : m.state.Trims x w.state

/-- What a machine must keep to, for one with a frame less to go where it goes. -/
def Modest (m : Machine ν) : Prop :=
  ∀ ip mark k, m.control = .execute ip mark k → m.state.Modest ip

def AtTail (m : Machine ν) : Prop :=
  ∃ ip mark k, m.control = .execute ip mark k ∧ m.state.AtTail ip

/-- A tail call that is next can do without its frame. -/
def Settled (m : Machine ν) : Prop :=
  ∀ ip mark k, m.control = .execute ip mark k → m.state.Settled ip

/-- What is known of a machine in order. -/
structure Firm (x : Option Spare) (m : Machine ν) : Prop where
  stance : Stance x m.control m.state
  rises : ∀ ip mark k, m.control = .execute ip mark k →
    Rises mark.frames (m.state.framesOf m.state.current)
  cut : ∀ ip mark k, m.control = .execute ip mark k → ∀ y, Undercut y m.state mark k

end Machine

/-- A loop executes the instructions of the frames above its mark, above those who wait. -/
theorem Orderly.executes {M : Manner library} {ip : Nat} {mark : Mark} {k : Kont ν .step}
    (h : Orderly M (.execute ip mark k, s)) :
    Rises mark.frames (s.framesOf s.current) ∧ ∀ y, Undercut y s mark k := by
  obtain ⟨-, ts, L, sound, linked, -, aligned⟩ := h
  cases linked with
  | execute chain =>
    cases aligned with
    | execute _ rises fits =>
      exact ⟨rises, fun y => Orderly.undercut sound chain (fun _ _ _ => rises)
        (length_bottom (Nat.le_of_lt rises.lt)) fits⟩

/-- **A machine in order** is firm. -/
theorem Orderly.firm {M : Manner library} {m : Machine ν} (h : Orderly M (m.control, m.state))
    (trims : m.state.Trims x t) : m.Firm x := by
  obtain ⟨control, s⟩ := m
  refine ⟨h.stance trims, ?_, ?_⟩ <;> rintro ip mark k rfl
  · exact h.executes.1
  · exact h.executes.2

namespace Machine

open Exec

variable {m w : Machine ν}

/-- Where a step of both machines leads. -/
def Follows (x : Option Spare) (m w : Machine ν) : Prop :=
  Tallies x (m.control, m.state) (w.control, w.state)

/-- Two frames return on one machine while one does on the other, whatever the library is. -/
def Rejoins (m w : Machine ν) : Prop :=
  ∃ o ip address mark k l s₁ s₃ t₁, ¬ s₁.AtTail address ∧
    (∀ library, m.step library = ⟨.step (.ok (.proceed address)) (.loop mark ip k), s₁⟩) ∧
    (∀ library, step library ⟨.execute address mark k, s₁⟩ = ⟨.step (.ok o) (.loop mark address k), s₃⟩) ∧
    (∀ library, w.step library = ⟨.step (.ok o) l, t₁⟩) ∧
    Trims none ⟨.step (.ok o) (.loop mark address k), s₃⟩ ⟨.step (.ok o) l, t₁⟩

/-- **An instruction** other than a tail call takes one step on both sides, or three where a frame
returns that was called from the one that can be spared. -/
theorem follows_execute {ip : Nat} {mark mark' : Mark} {k k' : Kont ν .step}
    (firm : Firm x ⟨.execute ip mark k, s⟩) (trims : s.Trims x t) (modest : s.Modest ip)
    (stays : ¬ s.AtTail ip) (marks : MarkTrims (Spare.on x s.current) mark mark')
    (hk : Kont.Trims x s.current k k') :
    (∀ library : Library ν, library.Discreet →
      Follows x (step library ⟨.execute ip mark k, s⟩) (step library ⟨.execute ip mark' k', t⟩)) ∨
    Rejoins ⟨.execute ip mark k, s⟩ ⟨.execute ip mark' k', t⟩ := by
  have stance := firm.stance
  have spared := spared_of_trims trims stance.kept stance.ready
  have cut := stance.execute ip mark k rfl
  by_cases returns : ∃ p scope i, s.instructionAt ip = .ok ((p, scope), i) ∧ i.op = .ret
  swap
  · -- any other instruction does the same
    refine .inl fun library discreet => ?_
    refine lockstep_execute discreet spared modest.free (fun p scope i found => ⟨fun ret => ?_, ?_⟩)
      modest.spans marks cut hk
    · exact returns ⟨p, scope, i, found, ret⟩
    · exact fun tail => stays ⟨p, scope, i, found, tail⟩
  obtain ⟨p, scope, i, found, ret⟩ := returns
  obtain ⟨e, missing, -⟩ | ⟨p', scope', i', found₁, found', high, -⟩ := trims.instructionAt ip
  · cases found.symm.trans missing
  obtain ⟨⟨⟨⟩, ⟨⟩⟩, ⟨⟩⟩ := Except.ok.inj (found.symm.trans found₁)
  have room : Spared x s.current i.span s.counted t.counted :=
    { spared.counted with
      room := Nat.le_trans (Nat.add_le_add_right high _) (modest.spans _ _ _ found) }
  obtain ⟨f, -, top, -⟩ := exists_frame_of_instructionAt found
  obtain ⟨fs, frames⟩ := reverse_eq_of_back? top
  by_cases called : ∃ z, x = some z ∧ s.current = z.thread ∧ fs = z.frame :: z.rest
  swap
  · -- the frame is above the one that can be spared
    refine .inl fun library discreet => ?_
    change Tallies x (advance library (.execute ip mark k) s) (advance library (.execute ip mark' k') t)
    rw [advance_unmetered modest.free found, advance_unmetered (trims.unmetered modest.free) found']
    exact lockstep_return discreet ret room frames
      (fun z own thread same => called ⟨z, own, thread, same⟩) marks hk
  obtain ⟨z, rfl, thread, rfl⟩ := called
  rw [thread] at spared room marks hk
  have calls : z.Calls f := by
    obtain ⟨fs, fs', frames₁, -, below, -⟩ | ⟨z', own, -, calls, -, -⟩ := room.cases_top top
    · obtain ⟨-, rfl⟩ := List.cons.inj (frames.symm.trans frames₁)
      have deep := (below.length.2 z (Spare.on_self z)).1
      simp [Spare.depth] at deep
    · exact Option.some.inj own ▸ calls
  obtain ⟨o, s₁, s₃, t₁, goes, popped, passed, first, last, other⟩ :=
    advance_returns spared modest.free found found' ret room calls frames
  -- the loop was entered below the frame, since the one on top is no entry point
  have low : mark.frames ≤ z.depth := by
    have rises := firm.rises ip mark k rfl
    rw [s.framesOf_current, frames] at rises
    cases rises with
    | entry points =>
      cases (FrameFlags.plain_of_inherited calls.flags).1.symm.trans points
    | above _ rises =>
      have lt := rises.lt
      rw [List.length_map] at lt
      exact Nat.le_of_lt_succ lt
  have same : mark' = mark := by
    obtain high | ⟨-, -, same, -⟩ := marks.cases
    · have deep := high.deep z (Spare.on_self z)
      omega
    · exact same
  have hk' : Kont.Trims none z.thread k k' := cut.exchange thread low hk
  refine .inr ⟨o, ip, z.address, mark, k, .loop mark' ip k', s₁, s₃, t₁, passed,
    fun library => ?_, fun library => ?_, fun library => ?_, ?_, popped.trims⟩
  · unfold step
    dsimp only
    rw [first]
  · unfold step
    dsimp only
    rw [last]
  · unfold step
    dsimp only
    rw [other]
  · change Control.Trims none s₃.current _ _
    rw [popped.current, same]
    exact .delivered goes (.none mark) hk'

/-- **A step** other than a tail call is one step on both sides, or three where a frame returns
that was called from the one that can be spared. -/
theorem follows_step (firm : m.Firm x) (trims : m.Trims x w) (modest : m.Modest)
    (stays : ¬ m.AtTail) :
    (∀ library : Library ν, library.Discreet → Follows x (m.step library) (w.step library)) ∨
      Rejoins m w := by
  obtain ⟨control, s⟩ := m
  obtain ⟨control', t⟩ := w
  obtain ⟨same, trims⟩ := trims
  by_cases executes : ∃ ip mark k, control = .execute ip mark k
  · obtain ⟨ip, mark, k, rfl⟩ := executes
    cases same with
    | execute marks hk =>
      exact follows_execute firm trims (modest ip mark k rfl)
        (fun tail => stays ⟨ip, mark, k, rfl, tail⟩) marks hk
  · exact .inl fun library discreet => advance_tallies discreet firm.stance trims same
      fun ip mark k executing => absurd ⟨ip, mark, k, executing⟩ executes

/-! ## Tail calls -/

theorem advance_tail {ip : Nat} {mark : Mark} {k : Kont ν .step} (free : s.Unmetered) {p : Proto}
    {scope : Scope} {i : Instruction} (found : s.instructionAt ip = .ok ((p, scope), i))
    (tail : i.op = .tailCall) {spec : CallSpec} {s' : State ν}
    (run : tailCall (operand i.a) (calleeName p i.b) ip s.counted = .ok (.call spec) s') :
    advance library (.execute ip mark k) s = performCall library spec (.loop mark ip k) s' := by
  rw [advance_unmetered free found]
  have executed : execute p scope ip i s.counted = .ok (.call spec) s' := by
    unfold execute
    rw [tail]
    exact run
  rw [andThen_of_ok executed]
  rfl

/-- With the lowest threshold, every frame without handlers is taken over for a function. -/
theorem reuses_of_zero (zero : s.options.tailCallThreshold = 0) (tall : 0 < s.processor.stack.size)
    {fs : List Frame} (frames : s.processor.frames.toList.reverse = f :: fs) (v : Value) :
    s.reuses f v = (f.handlers.isEmpty && v.isScript) := by
  have deep := congrArg List.length frames
  rw [List.length_reverse, Array.length_toList, List.length_cons] at deep
  simp [State.reuses, zero, tall, deep]

theorem reuses_imp {v : Value} (takes : s.reuses f v = true) :
    f.handlers.isEmpty = true ∧ v.isScript = true := by
  simp only [State.reuses, Bool.and_eq_true] at takes
  exact ⟨takes.1.2, takes.2⟩

theorem exists_function {v : Value} (script : v.isScript = true) : ∃ g, v = .function g := by
  cases v with
  | function g => exact ⟨g, rfl⟩
  | _ => cases script

/-- A tail call of one value is next on both machines. -/
structure TailTurn (x : Option Spare) (s t : State ν) (ip : Nat) (i : Instruction) (f : Frame)
    (h : ClosureId) (v : Value) : Prop where
  found : s.instructionAt ip = .ok (((s.closure h).proto, ⟨h, f.base⟩), i)
  found' : ∃ scope, t.instructionAt ip = .ok (((s.closure h).proto, scope), i)
  tail : i.op = .tailCall
  trims : s.Trims x t
  modest : s.Modest ip
  top : s.counted.processor.frames.back? = some f
  callee : f.callee = .script h
  code : (s.closure h).proto.code[ip]? = some i
  room : Spared x s.current (operand i.a + 1) s.counted t.counted
  called : s.counted.processor.stack.peek? (operand i.a) = some v

theorem exists_tailTurn {ip : Nat} {mark : Mark} {k : Kont ν .step}
    (firm : Firm x ⟨.execute ip mark k, s⟩) (trims : s.Trims x t) (modest : s.Modest ip)
    (tail : s.AtTail ip) : ∃ i f h v, TailTurn x s t ip i f h v := by
  have stance := firm.stance
  have spared := spared_of_trims trims stance.kept stance.ready
  obtain ⟨p, scope, i, found, tail⟩ := tail
  obtain ⟨e, missing, -⟩ | ⟨p', scope', i', found₁, found', high, -⟩ := trims.instructionAt ip
  · cases found.symm.trans missing
  obtain ⟨⟨⟨⟩, ⟨⟩⟩, ⟨⟩⟩ := Except.ok.inj (found.symm.trans found₁)
  have span : i.span = operand i.a + 1 := by simp [Instruction.span, Instruction.reach, tail]
  have room : Spared x s.current (operand i.a + 1) s.counted t.counted :=
    { spared.counted with
      room := Nat.le_trans (Nat.add_le_add_right high _) (span ▸ modest.spans _ _ _ found) }
  have tall := room.room
  obtain ⟨f, h, top, callee, rfl, rfl, code⟩ := exists_frame_of_instructionAt found
  obtain ⟨v, called⟩ : ∃ v, s.counted.processor.stack.peek? (operand i.a) = some v := by
    rw [ValueStack.peek?, if_pos (by omega)]
    exact ⟨_, Array.getElem?_eq_getElem (by unfold ValueStack.size at *; omega)⟩
  exact ⟨i, f, h, v, found, ⟨_, found'⟩, tail, trims, modest, top, callee, code, room, called⟩

namespace TailTurn

variable {ip : Nat} {i : Instruction} {h : ClosureId} {v : Value} {mark mark' : Mark}
  {k k' : Kont ν .step} (turn : TailTurn x s t ip i f h v)

include turn

theorem called' : t.counted.processor.stack.peek? (operand i.a) = some v :=
  (turn.room.stack.peek? turn.room.room (Nat.lt_succ_self _)).trans turn.called

theorem tall : 0 < s.counted.processor.stack.size := by
  have := turn.room.room
  omega

theorem tall' : 0 < t.counted.processor.stack.size := by
  have called := turn.called'
  unfold ValueStack.peek? at called
  split at called
  · omega
  · cases called

theorem zero' : t.counted.options.tailCallThreshold = 0 := by
  change t.options.tailCallThreshold = 0
  rw [turn.trims.options]

/-- Both machines make the call that they ask for. -/
theorem follows {spec spec' : CallSpec} {s' t' : State ν} {y : Option Spare}
    (run : tailCall (operand i.a) (calleeName (s.closure h).proto i.b) ip s.counted =
      .ok (.call spec) s')
    (run' : tailCall (operand i.a) (calleeName (s.closure h).proto i.b) ip t.counted =
      .ok (.call spec') t')
    (same : Lockstep y s' t' (performCall library spec (.loop mark ip k))
      (performCall library spec' (.loop mark' ip k'))) :
    Follows y (step library ⟨.execute ip mark k, s⟩) (step library ⟨.execute ip mark' k', t⟩) := by
  obtain ⟨scope, found'⟩ := turn.found'
  change Tallies y (advance library (.execute ip mark k) s) (advance library (.execute ip mark' k') t)
  rw [advance_tail turn.modest.free turn.found turn.tail run,
    advance_tail (turn.trims.unmetered turn.modest.free) found' turn.tail run']
  exact same

/-- The frame is above the one that can be spared, and is taken over on both machines or on
neither. -/
theorem follows_above {fs fs' : List Frame}
    (frames : s.counted.processor.frames.toList.reverse = f :: fs)
    (frames' : t.counted.processor.frames.toList.reverse =
      f.lowered (Spare.part x s.current).gap :: fs')
    (below : FramesTrim (Spare.on x s.current) fs fs')
    (above : (Spare.part x s.current).high ≤ f.activation.floor)
    (same : t.counted.reuses (f.lowered (Spare.part x s.current).gap) v = s.counted.reuses f v)
    (marks : MarkTrims (Spare.on x s.current) mark mark') (hk : Kont.Trims x s.current k k')
    (discreet : library.Discreet) :
    Follows x (step library ⟨.execute ip mark k, s⟩) (step library ⟨.execute ip mark' k', t⟩) := by
  cases takes : s.counted.reuses f v with
  | true =>
    obtain ⟨spec, s', t', run, run', spared⟩ :=
      tailCall_above turn.room frames frames' below above turn.called takes (same.trans takes)
    exact turn.follows run run' (lockstep_performCall discreet spared (.loop marks hk))
  | false =>
    exact turn.follows (tailCall_kept turn.top turn.called takes)
      (tailCall_kept (back?_of_reverse frames') turn.called' (same.trans takes))
      (lockstep_performCall discreet turn.room (.loop marks hk))

end TailTurn

/-- The frame was called from the one that can be spared, and both are taken over for a function of
the script. -/
theorem TailTurn.follows_called {ip : Nat} {i : Instruction} {h : ClosureId} {v : Value}
    {mark mark' : Mark} {k k' : Kont ν .step} {z : Spare}
    (turn : TailTurn (some z) s t ip i f h v) (thread : s.current = z.thread) (calls : z.Calls f)
    (frames : s.counted.processor.frames.toList.reverse = f :: z.frame :: z.rest)
    (frames' : t.counted.processor.frames.toList.reverse = z.taken f :: z.rest)
    (zero : s.options.tailCallThreshold = 0)
    (marks : MarkTrims (Spare.on (some z) s.current) mark mark')
    (hk : Kont.Trims (some z) s.current k k') (discreet : library.Discreet) :
    Follows (some z) (step library ⟨.execute ip mark k, s⟩)
      (step library ⟨.execute ip mark' k', t⟩) := by
  have takes := reuses_of_zero (s := s.counted) zero turn.tall frames v
  have takes' := reuses_of_zero turn.zero' turn.tall' frames' v
  have bare : (z.taken f).handlers.isEmpty = true := calls.bare
  rw [calls.bare, Bool.true_and] at takes
  rw [bare, Bool.true_and] at takes'
  have room := turn.room
  rw [thread] at room marks hk
  cases script : v.isScript with
  | true =>
    rw [script] at takes takes'
    obtain ⟨g, rfl⟩ := exists_function script
    obtain ⟨spec, spec', s', t', run, run', go⟩ :=
      tailCall_called room calls frames frames' turn.called takes takes'
    exact turn.follows run run' (go library _ _ (.loop marks hk))
  | false =>
    rw [script] at takes takes'
    exact turn.follows (tailCall_kept turn.top turn.called takes)
      (tailCall_kept (back?_of_reverse frames') turn.called' takes')
      (lockstep_performCall discreet room (.loop marks hk))

/-- Only the second machine takes the frame over, which can be spared from now on. -/
theorem TailTurn.follows_takenOver {ip : Nat} {i : Instruction} {h : ClosureId} {v : Value}
    {mark mark' : Mark} {k k' : Kont ν .step} (turn : TailTurn none s t ip i f h v)
    (firm : Firm none ⟨.execute ip mark k, s⟩) (settled : s.Settled ip) {fs : List Frame}
    (frames : s.counted.processor.frames.toList.reverse = f :: fs)
    (keeps : s.counted.reuses f v = false) (takes : t.counted.reuses f v = true)
    (marks : MarkTrims none mark mark') (hk : Kont.Trims none s.current k k') :
    ∃ z, ∀ library : Library ν,
      (∃ r l, (step library ⟨.execute ip mark k, s⟩).control = .step r l) ∧
      Follows (some z) (step library ⟨.execute ip mark k, s⟩)
        (step library ⟨.execute ip mark' k', t⟩) := by
  obtain ⟨g, rfl⟩ := exists_function (reuses_imp takes).2
  obtain ⟨⟨j, next, ret, nonzero⟩, seated, own, waiting⟩ :=
    settled _ _ _ f fs turn.found turn.tail frames
  obtain ⟨fn, held, closure⟩ : ∃ fn, s.closures[h.index]? = some fn ∧ s.closure h = fn := by
    have code := turn.code
    unfold State.closure at code ⊢
    cases held : s.closures[h.index]? with
    | none =>
      rw [held] at code
      have code : (none : Option Instruction) = some i := code
      cases code
    | some fn => exact ⟨fn, rfl, rfl⟩
  have span : i.span = operand i.a + 1 := by simp [Instruction.span, Instruction.reach, turn.tail]
  have spans := turn.modest.spans _ _ _ turn.found
  rw [span] at spans
  have floor : f.activation.floor = f.base - 1 := by
    simp [Activation.floor, Frame.activation, Frame.isNative, turn.callee]
  obtain ⟨z, spec, spec', t', thread, rfl, rfl, run, run', go⟩ :=
    tailCall_takenOver (s := s.counted) (t := t.counted) ip
      (calleeName (s.closure h).proto i.b) turn.room frames turn.callee turn.called keeps takes
      ⟨fn, j, held, closure ▸ next, ret, nonzero⟩ (by
        change _ < s.processor.stack.size - _ - 1
        dsimp only at spans
        omega) own waiting
  -- those who wait have entered their loops below the frame
  have low : mark.frames ≤ z.depth := by
    have rises := firm.rises ip mark k rfl
    rw [s.framesOf_current] at rises
    have lt := (frames ▸ rises).lt
    rw [List.length_map] at lt
    exact Nat.le_of_lt_succ lt
  obtain rfl : mark' = mark := by
    cases marks with
    | low _ => rfl
  have own : z ∈ Spare.on (some z) s.current := by
    rw [show s.current = z.thread from thread.symm, Spare.on_self]
    rfl
  have hl : Kont.Trims (some z) s.current (.loop mark' ip k) (.loop mark' ip k') := by
    refine .loop (.low fun y hy => ?_) (hk.exchange (fun y hy => absurd hy (Option.not_mem_none y))
      fun y hy => ?_)
    · exact Option.some.inj (Spare.mem_on hy).1 ▸ low
    · exact Option.some.inj hy ▸ (firm.cut ip mark' k rfl (some z)).low z own low
  refine ⟨z, fun library => ⟨?_, turn.follows run run' (go library _ _ hl).2⟩⟩
  obtain ⟨r, outcome⟩ := (go library _ _ hl).1
  exact ⟨r, _, (congrArg Prod.fst
    (advance_tail turn.modest.free turn.found turn.tail run)).trans outcome⟩

/-- **A tail call** is one step on both sides. Where only the second machine takes the frame over,
it has a frame less from now on. -/
theorem follows_tail {ip : Nat} {mark mark' : Mark} {k k' : Kont ν .step}
    (firm : Firm x ⟨.execute ip mark k, s⟩) (trims : s.Trims x t) (modest : s.Modest ip)
    (tail : s.AtTail ip)
    (either : s.options.tailCallThreshold = 0 ∨ x = none ∧ s.Settled ip)
    (marks : MarkTrims (Spare.on x s.current) mark mark') (hk : Kont.Trims x s.current k k') :
    (∀ library : Library ν, library.Discreet →
      Follows x (step library ⟨.execute ip mark k, s⟩) (step library ⟨.execute ip mark' k', t⟩)) ∨
    s.options.tailCallThreshold ≠ 0 ∧ ∃ z, ∀ library : Library ν, library.Discreet →
      (∃ r l, (step library ⟨.execute ip mark k, s⟩).control = .step r l) ∧
      Follows (some z) (step library ⟨.execute ip mark k, s⟩)
        (step library ⟨.execute ip mark' k', t⟩) := by
  obtain ⟨i, f, h, v, turn⟩ := exists_tailTurn firm trims modest tail
  obtain ⟨fs, fs', frames, frames', below, above⟩ | ⟨z, rfl, thread, calls, frames, frames'⟩ :=
    turn.room.cases_top turn.top
  swap
  · have zero : s.options.tailCallThreshold = 0 := either.resolve_right fun fresh => by cases fresh.1
    exact .inl fun library => turn.follows_called thread calls frames frames' zero marks hk
  by_cases same : t.counted.reuses (f.lowered (Spare.part x s.current).gap) v = s.counted.reuses f v
  · exact .inl fun library => turn.follows_above frames frames' below above same marks hk
  -- what the first machine takes over, the second one does as well
  have takes' := reuses_of_zero turn.zero' turn.tall' frames' v
  have keeps : s.counted.reuses f v = false := by
    cases takes : s.counted.reuses f v with
    | false => rfl
    | true =>
      have also := reuses_imp takes
      exact absurd (takes'.trans (by rw [Bool.and_eq_true]; exact also)) (takes ▸ same)
  have takes : t.counted.reuses (f.lowered (Spare.part x s.current).gap) v = true :=
    (Bool.eq_false_or_eq_true _).resolve_right fun no => same (no.trans keeps.symm)
  have nonzero : s.options.tailCallThreshold ≠ 0 := fun zero => by
    have first := reuses_of_zero (s := s.counted) (f := f) zero turn.tall frames v
    exact same (takes'.trans first.symm)
  obtain ⟨rfl, settled⟩ := either.resolve_left nonzero
  obtain ⟨z, go⟩ := turn.follows_takenOver firm settled frames keeps takes marks hk
  exact .inr ⟨nonzero, z, fun library _ => go library⟩

end Machine

end ScriptMachine
