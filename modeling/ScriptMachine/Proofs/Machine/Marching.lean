import ScriptMachine.Proofs.Machine.Blind
import ScriptMachine.Proofs.Machine.Dropping
import ScriptMachine.Proofs.Machine.Meter

/-!
# A step in lockstep

What one step of a machine does with and without a frame that can be spared.

* `lockstep_execute`: an instruction other than a return or a tail call.
* `lockstep_runProgram`: a routine. `lockstep_resume`, `lockstep_endResume`: coroutines.
* `lockstep_handValue`, `lockstep_handStep`: outcomes are handed on.
* `Stance`: what a step needs of a machine. `advance_tallies`: one step.
-/

namespace ScriptMachine

variable {ν α β : Type} {x : Option Spare} {s t : State ν} {c : ThreadId} {n : Nat}
  {library : Library ν}

structure State.Unmetered (s : State ν) : Prop where
  limit : s.options.instructionLimit = none
  share : s.processor.autoYield = 0
  debugger : s.world.debugger = none

namespace Exec

/-- An environment is captured in a cell that is closed from the start. -/
theorem mirrors_captureEnvironments (h : Spared x c n s t) (scope scope' : Scope) (count : Nat) :
    Mirrors (Spared x c) s t (captureAll scope (List.replicate count .defaultEnv))
      (captureAll scope' (List.replicate count .defaultEnv)) fun _ => Spared x c n := by
  induction count generalizing s t with
  | zero => exact mirrors_pure h
  | succ count ih =>
    have captured : Mirrors (Spared x c) s t (captureSymbol scope .defaultEnv)
        (captureSymbol scope' .defaultEnv) fun _ => Spared x c n := by
      change Agree _ _
        (.ok (⟨s.cells.size⟩ : CellId) (s.newCell (.closed (.table s.world.globals))).2)
        (.ok (⟨t.cells.size⟩ : CellId) (t.newCell (.closed (.table t.world.globals))).2)
      rw [h.trims.cellCount, h.trims.world]
      exact .ok (h.newClosed _)
    exact mirrors_bind captured fun _ s t h => mirrors_bind (ih h) fun _ _ _ h => mirrors_pure h

theorem mirrors_newClosure (h : Spared x c n s t) (f : Closure) :
    (t.newClosure f).1 = (s.newClosure f).1 ∧
      Spared x c n (s.newClosure f).2 (t.newClosure f).2 := by
  obtain ⟨same, trims⟩ := h.trims.newClosure f
  exact ⟨same, h.of_level rfl rfl rfl ((becomes_tolerant.newClosure s f).keeps h.kept).1 trims⟩

theorem mirrors_load (h : Spared x c n s t) (p : Proto) :
    Mirrors (Spared x c) s t (load p) (load p) fun _ => Spared x c n := by
  unfold load
  split
  · exact mirrors_raise (Spare.operands x c) h
  · rw [List.map_const']
    refine mirrors_bind (mirrors_captureEnvironments h ..) fun cells s t h => ?_
    obtain ⟨same, made⟩ := mirrors_newClosure h ⟨p, cells.toArray⟩
    change Agree _ _ (.ok (s.newClosure ⟨p, cells.toArray⟩).1 (s.newClosure ⟨p, cells.toArray⟩).2)
      (.ok (t.newClosure ⟨p, cells.toArray⟩).1 (t.newClosure ⟨p, cells.toArray⟩).2)
    rw [same]
    exact .ok made

theorem mirrors_undump (h : Spared x c n s t) (bytes : List UInt8) :
    Mirrors (Spared x c) s t (undump bytes) (undump bytes) fun _ => Spared x c n := by
  refine mirrors_get ?_
  rw [h.trims.heap]
  cases Chunk.undump s.heap bytes with
  | error e => exact mirrors_throw (Spare.operands x c) h
  | ok result => exact mirrors_load ((Spare.operands x c).setHeap result.2 h) result.1

/-- A thread is made. -/
theorem mirrors_spawn (h : Spared x c n s t) (function : Value) :
    Mirrors (Spared x c) s t (spawn function) (spawn function) fun _ => Spared x c n := by
  unfold spawn
  split
  · have made : Spared x c n (s.newCoroutine function).2 (t.newCoroutine function).2 := by
      obtain ⟨rfl, here, kept, trims, room⟩ := h
      refine ⟨rfl, ?_, ((becomes_newCoroutine s function).keeps kept).1, ?_, ?_⟩
      · unfold State.HasCurrent at *
        simp only [State.newCoroutine, Array.size_push]
        exact Nat.lt_succ_of_lt here
      · refine { trims with
          coroutines := congrArg (·.push ⟨function, .notStarted⟩) trims.coroutines
          size := ?_
          processors := fun d => ?_
          cells := fun y => ?_ }
        · simp only [State.newCoroutine, Array.size_push, trims.size]
        · rw [Machine.processorOf_newCoroutine, Machine.processorOf_newCoroutine]
          exact trims.processors d
        · refine State.Trims.cells_congr (fun o i _ => ?_) (trims.cells y)
          rw [State.stackOf, Machine.processorOf_newCoroutine]
          rfl
      · rw [State.processor, Machine.processorOf_newCoroutine]
        exact room
    change Agree _ _ (.ok (Value.thread (s.newCoroutine function).1) (s.newCoroutine function).2)
      (.ok (Value.thread (t.newCoroutine function).1) (t.newCoroutine function).2)
    have same : (t.newCoroutine function).1 = (s.newCoroutine function).1 := by
      simp only [State.newCoroutine, h.trims.size]
    rw [same]
    exact .ok made
  · exact mirrors_raise (Spare.operands x c) h

/-- A variable of the innermost function is assigned. -/
theorem mirrors_assignAll (h : Spared x c n s t) (name : String) (v : Value) :
    Mirrors (Spared x c) s t (assignAll [(name, v)]) (assignAll [(name, v)])
      fun _ => Spared x c 0 := by
  have symbol := h.trims.findSymbol name
  obtain ⟨scope, high⟩ := h.trims.scope
  refine mirrors_get ?_
  rw [symbol]
  generalize s.findSymbol name = sym
  unfold State.assignSymbol
  rw [scope]
  cases found : s.scope? with
  | none =>
    cases sym with
    | global name env =>
      cases env with
      | defaultEnv =>
        have heap : Spared x c n
            (s.modifyHeap fun h => h.modifyTable s.world.globals fun t => t.setString name v)
            (t.modifyHeap fun h => h.modifyTable t.world.globals fun t => t.setString name v) := by
          simp only [State.modifyHeap, h.trims.world]
          exact h.arrange _
        exact .ok heap.weaken
      | _ => exact .error h.weaken
    | _ => exact .error h.weaken
  | some scope =>
    obtain rfl := h.current
    change Mirrors _ s t (ofExcept (s.writeSymbol scope v sym) >>= fun s => set s)
      (ofExcept (t.writeSymbol (scope.lowered (Spare.part x s.current).gap) v sym) >>=
        fun s => set s) _
    obtain ⟨e, failed, failed'⟩ | ⟨s', t', written, written', h'⟩ :=
      h.writeSymbol (high scope found) v sym
    · rw [failed, failed']
      exact .error h.weaken
    · rw [written, written']
      exact .ok h'.weaken

theorem mirrors_finishNested (h : Spared x c n s t) (after : After) (v : Value) :
    Mirrors (Spared x c) s t (finishNested after v) (finishNested after v)
      fun _ => Spared x c 0 := by
  have pushes : ∀ vs, Mirrors (Spared x c) s t (pushAll vs) (pushAll vs) fun _ => Spared x c 0 :=
    fun vs => (mirrors_pushAll (Spare.operands x c) vs h).imp fun _ _ _ h => h.weaken
  cases after with
  | pushTruth negated => exact pushes [_]
  | pushMethod receiver => exact pushes _
  | pushIteration => exact pushes _

/-- An instruction is executed, and nothing else. -/
theorem executeAt_unmetered (free : s.Unmetered) {ip : Nat} {p : Proto} {scope : Scope}
    {i : Instruction} (found : s.instructionAt ip = .ok ((p, scope), i)) :
    executeAt ip s = (do return some (← execute p scope ip i)) s.counted := by
  have spent : s.spent = false := by
    unfold State.spent
    rw [free.limit]
  have share : shareUsedUp ip s.counted = .ok false s.counted := shareUsedUp_off ip free.share
  have stop : checkpoint p ip s.counted = .ok () s.counted := by
    have none : s.counted.world.debugger = none := free.debugger
    simp only [checkpoint, bind, EStateM.bind, get, getThe, MonadStateOf.get, EStateM.get, none]
    rfl
  have taken : turn ip ((p, scope), i) s.counted =
      (do return some (← execute p scope ip i)) s.counted := by
    change EStateM.bind (shareUsedUp ip) _ s.counted = _
    unfold EStateM.bind
    rw [share]
    change EStateM.bind (checkpoint p ip) _ s.counted = _
    unfold EStateM.bind
    rw [stop]
  rw [executeAt_eq, found, ← taken]
  change EStateM.bind countInstruction _ s = _
  unfold EStateM.bind
  rw [countInstruction_eq, spent]
  rfl

end Exec

/-- The top frame executes an instruction that neither returns nor calls in tail position. -/
def State.Ordinary (s : State ν) (ip : Nat) : Prop :=
  ∀ p scope i, s.instructionAt ip = .ok ((p, scope), i) → i.op ≠ .ret ∧ i.op ≠ .tailCall

/-- The instruction reaches for no slot below the base of its frame. -/
def State.Spans (s : State ν) (ip : Nat) : Prop :=
  ∀ p scope i, s.instructionAt ip = .ok ((p, scope), i) →
    scope.base + i.span ≤ s.processor.stack.size

/-- The same instruction is executed, with slots further down. -/
theorem State.Trims.instructionAt (h : s.Trims x t) (ip : Nat) :
    (∃ e, s.instructionAt ip = .error e ∧ t.instructionAt ip = .error e) ∨
    ∃ p scope i, s.instructionAt ip = .ok ((p, scope), i) ∧
      t.instructionAt ip = .ok ((p, scope.lowered (Spare.part x s.current).gap), i) ∧
      (Spare.part x s.current).high ≤ scope.base ∧ s.Runs scope := by
  unfold State.instructionAt
  cases top : s.processor.frames.back? with
  | none =>
    rw [h.top_none top]
    exact .inl ⟨_, rfl, rfl⟩
  | some f =>
    obtain ⟨g, top', lowers, -⟩ := h.top top
    have callee : g.callee = f.callee := by rw [lowers.same]
    have base : g.base = f.base - (Spare.part x s.current).gap := by rw [lowers.same]
    have high := Nat.le_trans lowers.high f.activation.floor_le_base
    rw [top']
    dsimp only
    rw [callee]
    cases callee' : f.callee with
    | native m =>
      have native : t.native m = s.native m := by simp only [State.native, h.world]
      dsimp only
      rw [native]
      exact .inl ⟨_, rfl, rfl⟩
    | script f' =>
      dsimp only
      rw [h.closure]
      cases (s.closure f').proto.code[ip]? with
      | none => exact .inl ⟨_, rfl, rfl⟩
      | some i =>
        refine .inr ⟨_, ⟨f', f.base⟩, i, rfl, ?_, high, f, top, ?_, rfl⟩
        · rw [base]
          rfl
        · simp [Frame.isNative, callee']

/-- Nothing is counted on the other side either. -/
theorem State.Trims.unmetered (h : s.Trims x t) (free : s.Unmetered) : t.Unmetered := by
  refine ⟨?_, ?_, ?_⟩
  · rw [h.options]
    exact free.limit
  · unfold State.processor
    exact (h.processors _).autoYield.2
  · rw [h.world]
    exact free.debugger

theorem Undercut.counted {mark : Mark} {k : Kont ν .step} (cut : Undercut x s mark k) :
    Undercut x s.counted mark k :=
  cut.rigid ⟨rfl, rfl, rfl, rfl, rfl, rfl, fun _ => rfl⟩

theorem Spared.counted (h : Spared x c n s t) : Spared x c n s.counted t.counted :=
  ⟨h.current, h.here, (State.Change.counted.becomes.keeps h.kept).1, { h.trims with }, h.room⟩

namespace Machine

open Exec

variable {mark mark' : Mark} {k k' : Kont ν .step}

/-- No instruction is at the address. -/
theorem advance_missing {ip : Nat} {e : Fault} (missing : s.instructionAt ip = .error e) :
    advance library (.execute ip mark k) s = unwind library e ip mark k s := by
  change (executeAt ip).andThen (perform library ip mark k) (unwind library · ip mark k) s = _
  unfold Exec.andThen
  rw [executeAt_fault missing]

/-- The instruction at the address is executed, and what it asks for is done. -/
theorem advance_unmetered {ip : Nat} (free : s.Unmetered) {p : Proto} {scope : Scope}
    {i : Instruction} (found : s.instructionAt ip = .ok ((p, scope), i)) :
    advance library (.execute ip mark k) s =
      (execute p scope ip i).andThen (fun e => perform library ip mark k (some e))
        (unwind library · ip mark k) s.counted := by
  change (executeAt ip).andThen (perform library ip mark k) (unwind library · ip mark k) s = _
  unfold Exec.andThen
  rw [executeAt_unmetered free found]
  simp only [bind, EStateM.bind]
  cases execute p scope ip i s.counted <;> rfl

theorem lockstep_execute_control (h : Spared x c n s t) (ip : Nat)
    (marks : MarkTrims (Spare.on x c) mark mark') (hk : Kont.Trims x c k k') :
    Lockstep x s t (pure (.execute ip mark k)) (pure (.execute ip mark' k')) := by
  obtain ⟨rfl, -, -, trims, -⟩ := h
  exact .same (.execute marks hk) trims

section Steps

variable (discreet : library.Discreet)

include discreet

/-- What an instruction asked for while its frame goes on. -/
theorem lockstep_perform {ip : Nat} {effect : Effect} (h : Spared x c effect.operands s t)
    (stays : ∀ f v, effect ≠ .leave f v) (marks : MarkTrims (Spare.on x c) mark mark')
    (hk : Kont.Trims x c k k') :
    Lockstep x s t (perform library ip mark k (some effect))
      (perform library ip mark' k' (some effect)) := by
  cases effect with
  | next | jump => exact lockstep_execute_control h _ marks hk
  | call spec => exact lockstep_performCall discreet h (.loop marks hk)
  | leave f v => exact absurd rfl (stays f v)
  | nested function arguments after =>
    exact lockstep_callNested discreet h function arguments (.instruction (.loop marks hk))

end Steps

section Steps

variable (discreet : library.Discreet)

include discreet

/-- An instruction is executed on both sides, if there is one. -/
theorem lockstep_turn {ip : Nat} (h : Spared x c n s t) (free : s.Unmetered) (spans : s.Spans ip)
    (marks : MarkTrims (Spare.on x c) mark mark') (cut : Undercut x s mark k)
    (hk : Kont.Trims x c k k')
    (executes : ∀ p scope i, s.instructionAt ip = .ok ((p, scope), i) →
      (Spare.part x c).high ≤ scope.base → Running x c scope i.span s.counted t.counted →
      Lockstep x s.counted t.counted
        ((execute p scope ip i).andThen (fun e => perform library ip mark k (some e))
          (unwind library · ip mark k))
        ((execute p (scope.lowered (Spare.part x c).gap) ip i).andThen
          (fun e => perform library ip mark' k' (some e)) (unwind library · ip mark' k'))) :
    Lockstep x s t (advance library (.execute ip mark k)) (advance library (.execute ip mark' k')) := by
  unfold Lockstep
  obtain ⟨e, missing, missing'⟩ | ⟨p, scope, i, found, found', high, runs⟩ :=
    h.trims.instructionAt ip
  · rw [advance_missing missing, advance_missing missing']
    exact lockstep_unwind discreet h rfl ip marks cut hk
  · rw [h.current] at high found'
    rw [advance_unmetered free found, advance_unmetered (h.trims.unmetered free) found']
    refine executes p scope i found high ⟨{ h.counted with room := ?_ }, runs.same rfl fun _ => rfl⟩
    exact Nat.le_trans (Nat.add_le_add_right high _) (spans p scope i found)

/-- **An instruction** other than a return or a tail call does the same. -/
theorem lockstep_execute {ip : Nat} (h : Spared x c n s t) (free : s.Unmetered)
    (plain : s.Ordinary ip) (spans : s.Spans ip) (marks : MarkTrims (Spare.on x c) mark mark')
    (cut : Undercut x s mark k) (hk : Kont.Trims x c k k') :
    Lockstep x s t (advance library (.execute ip mark k)) (advance library (.execute ip mark' k')) := by
  refine lockstep_turn discreet h free spans marks cut hk fun p scope i found high running => ?_
  obtain ⟨noRet, noTail⟩ := plain p scope i found
  have executed : Mirrors (Running x c scope) s.counted t.counted (execute p scope ip i)
      (execute p (scope.lowered (Spare.part x c).gap) ip i) (Asked (Running x c scope)) :=
    execute_mirrors (running_mirror high) p i running noRet noTail
  have rigid := keeps_execute (s := s.counted) p scope ip i noRet noTail
  have yields : Yields (Effect.Bare ip) (execute (ν := ν) p scope ip i) :=
    execute_bare p scope i noRet noTail
  have bare := yields.result s.counted
  unfold Mirrors at executed
  unfold Keeps at rigid
  unfold Lockstep Exec.andThen
  generalize execute p scope ip i s.counted = a at executed rigid bare
  generalize execute p (scope.lowered (Spare.part x c).gap) ip i t.counted = b at executed
  cases executed with
  | @error e s' t' h' =>
    exact lockstep_unwind discreet h'.1 rfl ip marks (cut.counted.rigid rigid) hk
  | @ok effect s' t' h' =>
    refine lockstep_perform discreet h'.1 ?_ marks hk
    rintro f v rfl
    exact bare _ _ rfl

end Steps

end Machine

/-- Another thread runs from now on, with its own entries and coroutines. -/
theorem State.Trims.switch (h : s.Trims x t) (kept : s.Kept) {d : ThreadId}
    (inRange : d.index < s.processors.size) (coroutines : Array Coroutine)
    (active : List ThreadId) (entries : Nat) :
    Spared x d 0 { s with coroutines, active, current := d, entries }
      { t with coroutines, active, current := d, entries } := by
  have becomes : s.Becomes { s with coroutines, active, current := d, entries } :=
    becomes_of_processors s rfl
  exact ⟨rfl, inRange, (becomes.keeps kept).1,
    { h with coroutines := rfl, active := rfl, current := rfl, entries := rfl },
    (h.processors d).stack.room⟩

theorem Spared.counting (h : Spared x c n s t) (f : Nat → Nat) :
    Spared x c n { s with entries := f s.entries } { t with entries := f t.entries } := by
  have becomes : s.Becomes { s with entries := f s.entries } := becomes_of_processors s rfl
  exact ⟨h.current, h.here, (becomes.keeps h.kept).1,
    { h.trims with entries := congrArg f h.trims.entries }, h.room⟩

theorem State.Trims.coroutineState (h : s.Trims x t) (c : ThreadId) :
    t.coroutineState c = s.coroutineState c := by
  simp only [State.coroutineState, State.coroutine, h.coroutines]

/-- A thread that does not run gets no share of instructions. -/
theorem Spared.setAutoYield (h : Spared x c n s t) (d : ThreadId) :
    Spared x c n (Exec.setAutoYield d 0 s).2 (Exec.setAutoYield d 0 t).2 := by
  change Spared x c n (if s.coroutineState d = .running then s else _)
    (if t.coroutineState d = .running then t else _)
  rw [h.trims.coroutineState]
  split
  · exact h
  · have trims : (s.modifyProcessorOf d fun p => { p with autoYield := 0 }).Trims x
        (t.modifyProcessorOf d fun p => { p with autoYield := 0 }) :=
      h.trims.modifyProcessorOf { h.trims.processors d with autoYield := ⟨rfl, rfl⟩ } fun _ _ => rfl
    have becomes : s.Becomes (s.modifyProcessorOf d fun p => { p with autoYield := 0 }) :=
      becomes_modifyProcessorOf s d fun _ => rfl
    refine h.of_level rfl ?_ ?_ (becomes.keeps h.kept).1 trims
    · simp only [State.modifyProcessorOf, Array.size_modify]
    · exact State.view_modifyProcessorOf s _ d c Processor.stack fun _ => rfl

namespace Machine

section Threads

variable (discreet : library.Discreet)

include discreet

/-- The body of a coroutine is started or goes on. -/
theorem lockstep_resumeFrom {k k' : Kont ν .step} (h : Spared x c n s t) (function : Value)
    (state : CoroutineState) (arguments : List Value) (hk : Kont.Trims x c k k') :
    Lockstep x s t (resumeFrom library function state arguments k)
      (resumeFrom library function state arguments k') := by
  have fresh : Spared x c n (s.modifyProcessor fun p => { p with sinceResume := 0 })
      (t.modifyProcessor fun p => { p with sinceResume := 0 }) :=
    h.modifyProcessor (fun _ _ trims => { trims with }) (fun _ => rfl) fun _ => rfl
  refine lockstep_modify ?_
  cases state with
  | notStarted => exact lockstep_executeCall discreet fresh _ _ _ _ hk
  | suspended => exact lockstep_resumePending discreet fresh (.refl _) _ hk
  | forceSuspended => exact lockstep_resumePending discreet fresh (.refl _) _ hk
  | running | dead => exact lockstep_error fresh rfl hk

/-- A coroutine is resumed. -/
theorem lockstep_resume {k k' : Kont ν .value} (h : Spared x c n s t)
    (size : s.processors.size = s.coroutines.size + 1) (d : ThreadId) (arguments : List Value)
    (hk : Kont.Trims x c k k') :
    Lockstep x s t (resume library .synchronous d arguments k)
      (resume library .synchronous d arguments k') := by
  have same := h.trims.coroutineState d
  unfold Lockstep
  cases refusal : resumeRefusal (s.coroutineState d) arguments with
  | some cause =>
    rw [resume_refused refusal, resume_refused (same ▸ refusal)]
    exact lockstep_value h (.refl _) hk
  | none =>
    have alive : s.coroutineState d ≠ .dead := fun dead => by
      simp [resumeRefusal, dead] at refusal
    have inRange : d.index < s.processors.size := by
      rw [size]
      exact Nat.lt_succ_of_le (State.inRange_of_coroutineState alive).2
    have resumed := h.trims.switch h.kept inRange (s.setCoroutineState d .running).coroutines
      (d :: s.active) (s.entries + 1)
    have function : (t.coroutine d).function = (s.coroutine d).function := by
      simp only [State.coroutine, h.trims.coroutines]
    have resuming : t.resuming d = { t with
        coroutines := (s.setCoroutineState d .running).coroutines, active := d :: s.active,
        current := d, entries := s.entries + 1 } := by
      simp only [State.resuming, State.setCoroutineState, h.trims.coroutines, h.trims.active,
        h.trims.entries]
    rw [resume_accepted refusal, resume_accepted (same ▸ refusal), resuming, function, same,
      h.trims.current, h.current]
    exact lockstep_resumeFrom discreet resumed _ _ _ (.resumed hk)

omit discreet in
/-- A resumption ends. -/
theorem lockstep_endResume {k k' : Kont ν .value} (h : Spared x c n s t) (mode : ResumeMode)
    (d : ThreadId) {previous : ThreadId} (inRange : previous.index < s.processors.size)
    {r r' : Except Fault Step} (concurs : Concurs r r') (hk : Kont.Trims x previous k k') :
    Lockstep x s t (endResume mode d previous r k) (endResume mode d previous r' k') := by
  obtain ⟨state, outcome⟩ := concurs.resumeOutcome
  have ended : ∀ {s t : State ν}, Spared x c n s t → previous.index < s.processors.size →
      ∀ f : Nat → Nat, Tallies x
        (.value (resumeOutcome r).2 k, { s.setCoroutineState d (resumeOutcome r).1 with
          active := s.active.tail, current := previous, entries := f s.entries })
        (.value (resumeOutcome r').2 k', { t.setCoroutineState d (resumeOutcome r').1 with
          active := t.active.tail, current := previous, entries := f t.entries }) := by
    intro s t h inRange f
    have switched := h.trims.switch h.kept inRange
      (s.setCoroutineState d (resumeOutcome r).1).coroutines s.active.tail (f s.entries)
    rw [state]
    simp only [State.setCoroutineState] at switched ⊢
    rw [h.trims.coroutines, h.trims.active, h.trims.entries]
    exact .same (.value outcome hk) switched.trims
  cases mode with
  | synchronous => exact ended h inRange (· - 1)
  | asynchronous =>
    have size := (s.likewise_modifyProcessor fun p => { p with asyncMode := false }).size
    exact ended (h.setAsync false) (by rw [size]; exact inRange) id

/-- **A routine** does the same if it is discreet. -/
theorem lockstep_runProgram {p p' : Program ν} {k k' : Kont ν .value} (h : Spared x c n s t)
    (size : s.processors.size = s.coroutines.size + 1) (agrees : p.Agrees p')
    (hk : Kont.Trims x c k k') :
    Lockstep x s t (runProgram library k p) (runProgram library k' p') := by
  have direct : ∀ {work : Exec ν Value} {next next' : Except Fault Value → Program ν}
      {post : Value → State ν → State ν → Prop}, NextAgrees next next' →
      Exec.Mirrors (Spared x c) s t work work post →
      (∀ v s t, post v s t → Spared x c 0 s t) →
      Lockstep x s t (runProgram.direct k work next) (runProgram.direct k' work next') :=
    fun agrees mirrors imp => lockstep_andThen mirrors
      (fun v s t h => lockstep_run (imp v s t h) (agrees _ _ (.refl _)) hk)
      fun e s t h => lockstep_run h (agrees _ _ (.refl _)) hk
  cases agrees with
  | finish concurs => exact lockstep_value h concurs hk
  | @change action action' next next' same agrees =>
    obtain ⟨concurs, world⟩ := same s.world
    have changed : Spared x c n { s with world := (action s.world).2 }
        { t with world := (action' s.world).2 } := by
      rw [world]
      exact h.arrange _
    refine lockstep_get ?_
    rw [h.trims.world]
    exact lockstep_set changed fun h => lockstep_run h (agrees _ _ concurs) hk
  | @ask query query' next next' concurs agrees =>
    exact lockstep_get (lockstep_run h (agrees _ _ (concurs s t h.trims.resembles)) hk)
  | @print values next next' agrees =>
    refine lockstep_modify (lockstep_run (n := n) ?_ agrees hk)
    unfold State.record
    rw [h.trims.scene, h.trims.world]
    exact h.arrange _
  | spawn agrees => exact direct agrees (Exec.mirrors_spawn h _) fun _ _ _ h => h.weaken
  | @autoYield d next next' agrees => exact lockstep_run (h.setAutoYield d) agrees hk
  | undump agrees => exact direct agrees (Exec.mirrors_undump h _) fun _ _ _ h => h.weaken
  | assign agrees =>
    exact direct agrees (Exec.mirrors_bind (Exec.mirrors_assignAll h _ _)
      fun _ _ _ h => Exec.mirrors_pure h) fun _ _ _ h => h
  | call agrees => exact lockstep_callNested discreet h _ _ (.routine agrees hk)
  | index agrees => exact lockstep_indexNested discreet h _ _ (.routine agrees hk)
  | resume agrees => exact lockstep_resume discreet h size _ _ (.routine agrees hk)
  | enter agrees =>
    exact lockstep_modify (lockstep_callNested discreet (h.counting (· + 1)) _ _
      (.exit (.routine agrees hk)))
  | enterMethod agrees =>
    exact lockstep_modify (lockstep_indexNested discreet (h.counting (· + 1)) _ _
      (.method (.exit (.routine agrees hk))))

omit discreet in
/-- The frame on top is native, and so above the one that can be spared. -/
theorem lockstep_popNative {ok ok' : Frame → Move ν (Control ν)}
    {error error' : Fault → Move ν (Control ν)} (h : Spared x c n s t) {f : Frame}
    (top : s.processor.frames.back? = some f) (native : f.isNative = true)
    (hok : ∀ f base s t, Spared x c 0 s t → Lockstep x s t (ok f) (ok' { f with base })) :
    Lockstep x s t (Exec.popFrame.andThen ok error) (Exec.popFrame.andThen ok' error') := by
  obtain ⟨fs, frames⟩ := reverse_eq_of_back? top
  have trim := h.trims.frames
  rw [h.current, frames] at trim
  obtain ⟨fs', frames', below, floor⟩ | ⟨z, own, calls, rfl, frames'⟩ := trim.tail
  · obtain ⟨run, run', popped⟩ := Exec.popFrame_above h frames frames' below floor
    unfold Lockstep Exec.andThen
    rw [run, run']
    exact hok { f with cells := [] } _ _ _ popped
  · exact absurd (calls.script.symm.trans native) nofun

omit discreet in
/-- Both sides still stand where a requested call was made, or neither does. -/
theorem stands_protected {mark mark' : Mark} (h : Spared x c n s t)
    (marks : MarkTrims (Spare.on x c) mark mark') :
    ((s.callDepth = mark.frames ∧ t.callDepth = mark'.frames) ∧
      MarkHigh (Spare.on x c) mark mark') ∨
    s.callDepth ≠ mark.frames ∧ t.callDepth ≠ mark'.frames := by
  obtain ⟨high, count, deep⟩ | ⟨z, rfl, rfl, rfl, low, deep, count⟩ := count_frames h marks
  · have frames := high.frames
    obtain rfl := h.current
    have length := h.trims.frames.length
    simp only [List.length_reverse, Array.length_toList] at length
    unfold State.callDepth
    cases hy : Spare.on x s.current with
    | none =>
      rw [hy] at frames
      have frames : mark'.frames = mark.frames := frames
      rw [length.1 hy, frames, ← hy]
      by_cases stands : s.processor.frames.size = mark.frames
      · exact .inl ⟨⟨stands, stands⟩, high⟩
      · exact .inr ⟨stands, stands⟩
    | some z =>
      have deep' := high.deep z hy
      rw [hy] at frames
      have frames : mark'.frames = mark.frames - 1 := frames
      obtain ⟨above, fewer⟩ := length.2 z hy
      rw [← hy]
      by_cases stands : s.processor.frames.size = mark.frames
      · exact .inl ⟨⟨stands, by omega⟩, high⟩
      · exact .inr ⟨stands, by omega⟩
  · exact .inr ⟨by omega, by omega⟩

/-- What a value needs of the state. -/
def Receives (x : Option Spare) (s : State ν) : Except Fault Value → Kont ν .value → Prop
  | .ok _, .native _ => ∃ f, s.processor.frames.back? = some f ∧ f.isNative = true
  | _, .decorator _ _ _ mark k => Undercut x s mark k
  | _, _ => True

/-- **A value** is handed to who waits for it. -/
theorem lockstep_handValue {r r' : Except Fault Value} {k k' : Kont ν .value}
    (h : Spared x c n s t) (concurs : Concurs r r') (hk : Kont.Trims x c k k')
    (other : ∀ d l, k ≠ .task d l) (receives : Receives x s r k) :
    Lockstep x s t (handValue library r k) (handValue library r' k') := by
  have failed : ∀ {e e' : Fault} {k k' : Kont ν .step}, e.untraced = e'.untraced →
      Kont.Trims x c k k' →
      Lockstep x s t (pure (.step (.error e) k)) (pure (.step (.error e') k')) :=
    fun same hk => lockstep_error h same hk
  cases hk with
  | host => exact lockstep_value h concurs .host
  | routine agrees hk => exact lockstep_run h (agrees _ _ concurs) hk
  | native hk =>
    cases concurs with
    | error same => exact failed same hk
    | ok v =>
      obtain ⟨f, top, native⟩ := receives
      exact lockstep_popNative h top native fun f base s t h =>
        lockstep_finishFrame discreet h f base v true hk
  | finish base hk =>
    cases concurs with
    | error same => exact failed same hk
    | ok v => exact lockstep_finishFrame discreet h _ base v true hk
  | instruction hk =>
    cases concurs with
    | error same => exact failed same hk
    | ok v =>
      exact lockstep_andThen (Exec.mirrors_finishNested h _ v)
        (fun _ _ _ h => lockstep_proceed h hk) fun _ _ _ h => lockstep_error h rfl hk
  | @decorator _ error trace others caught mark mark' k k' marks hk =>
    have cut : Undercut x s mark k := by cases r <;> exact receives
    refine lockstep_get ?_
    rw [h.trims.heap]
    have applied : applyDecorator s.heap { error with trace } r' =
        { applyDecorator s.heap error r with trace } := by
      cases concurs <;> rfl
    rw [applied]
    exact lockstep_runDecorators discreet h marks cut hk _ trace caught others
  | collapse hk => exact lockstep_value h (concurs.map _) hk
  | method hk =>
    cases concurs with
    | error same => exact lockstep_value h (.error same) hk
    | ok v => exact lockstep_callMethod discreet h _ _ _ v hk
  | asyncMethod hk =>
    cases concurs with
    | error same => exact lockstep_value h (.error same) hk
    | ok v => exact lockstep_driveAsync discreet h v _ hk
  | exit hk => exact lockstep_modify (lockstep_value (h.counting (· - 1)) concurs hk)
  | task hk => exact absurd rfl (other _ _)

/-- **The outcome of a call** is handed to who waits for it. -/
theorem lockstep_handStep {r r' : Except Fault Step} {k k' : Kont ν .step}
    (h : Spared x c n s t) (concurs : Concurs r r') (waits : RootAwaits c r)
    (hk : Kont.Trims x c k k')
    (cut : ∀ e mark ip l, r = .error e → k = .loop mark ip l → Undercut x s mark l)
    (inRange : ∀ mode d previous l, k = .resumed mode d previous l →
      previous.index < s.processors.size) :
    Lockstep x s t (handStep library r k) (handStep library r' k') := by
  cases hk with
  | @loop _ mark mark' ip k k' marks hk =>
    cases concurs with
    | error same => exact lockstep_unwind discreet h same ip marks (cut _ _ _ _ rfl rfl) hk
    | ok step =>
      cases step with
      | proceed next => exact lockstep_execute_control h next marks hk
      | «return» v => exact lockstep_step h (.ok _) waits hk
      | suspend reason => exact lockstep_step h (.ok _) waits hk
  | @protect _ frame base handler mark mark' k k' marks hk =>
    cases concurs with
    | ok step => exact lockstep_step h (.ok _) waits hk
    | @error e e' same =>
      cases e with
      | script e =>
        obtain ⟨trace, rfl⟩ := Fault.untraced_script same
        refine lockstep_get (x := x) ?_
        obtain ⟨⟨fires, fires'⟩, high⟩ | ⟨spent, spent'⟩ := stands_protected h marks
        · rw [if_pos fires, if_pos fires']
          have cut := h.truncate high.high
          have stack : mark'.stack = mark.stack - (Spare.part x c).gap := high.stack
          rw [← stack] at cut
          exact lockstep_modify (lockstep_invoke discreet cut handler _ _ (.finish base hk))
        · rw [if_neg spent, if_neg spent']
          exact lockstep_error h same hk
      | _ =>
        obtain rfl := Fault.untraced_other (fun e other => by cases other) same
        exact lockstep_error h rfl hk
  | nested hk =>
    exact lockstep_modify (lockstep_value (h.countNested (· - 1)) concurs.expectReturn hk)
  | @drive previous k k' hk =>
    have ended : ∀ {r r' : Except Fault Step}, Concurs r r' →
        Lockstep x s t (do setAsync previous; return .value (expectReturn r) k)
          (do setAsync previous; return .value (expectReturn r') k') := fun concurs =>
      lockstep_modify (lockstep_value (h.setAsync previous) concurs.expectReturn hk)
    cases concurs with
    | error same => exact ended (.error same)
    | ok step =>
      cases step with
      | suspend reason =>
        cases reason with
        | await task =>
          refine lockstep_get ?_
          rw [h.trims.current]
          obtain ⟨current, -, -, trims, -⟩ := h
          rw [current]
          refine .same ?_ trims
          change Control.Trims x s.current _ _
          rw [current]
          exact .await (.task (.drive hk))
        | _ => exact ended (.ok _)
      | _ => exact ended (.ok _)
  | @resumed mode _ previous k k' hk =>
    have range := inRange mode c previous k rfl
    have ended := lockstep_endResume h mode c range concurs hk
    cases mode with
    | synchronous => exact ended
    | asynchronous =>
      cases concurs with
      | error same => exact ended
      | ok step =>
        cases step with
        | suspend reason =>
          cases reason with
          | await task =>
            have switched := h.trims.switch h.kept range s.coroutines s.active s.entries
            have trims : State.Trims x { s with current := previous } { t with current := previous } :=
              { h.trims with current := rfl }
            exact .same (.await (.task (.resumed hk))) trims
          | _ => exact ended
        | _ => exact ended

end Threads

end Machine

structure Stance (x : Option Spare) (control : Control ν) (s : State ν) : Prop where
  kept : s.Kept
  size : s.processors.size = s.coroutines.size + 1
  ready : control.Ready s
  execute : ∀ ip mark k, control = .execute ip mark k → Undercut x s mark k
  failed : ∀ e mark ip k, control = .step (.error e) (.loop mark ip k) → Undercut x s mark k
  resumed : ∀ r mode d previous k, control = .step r (.resumed mode d previous k) →
    previous.index < s.processors.size
  receives : ∀ r k, control = .value r k → Machine.Receives x s r k

namespace Machine

theorem spared_of_trims (trims : s.Trims x t) (kept : s.Kept) (here : s.HasCurrent) :
    Spared x s.current 0 s t :=
  ⟨rfl, here, kept, trims, (trims.processors s.current).stack.room⟩

/-- **A step** does the same with and without a frame that can be spared, unless it executes a
return or a tail call. -/
theorem advance_tallies (discreet : library.Discreet) {control control' : Control ν}
    (stance : Stance x control s) (trims : s.Trims x t)
    (same : control.Trims x s.current control')
    (turn : ∀ ip mark k, control = .execute ip mark k → s.Unmetered ∧ s.Ordinary ip ∧ s.Spans ip) :
    Tallies x (advance library control s) (advance library control' t) := by
  have ready := stance.ready
  cases same with
  | @execute ip mark mark' k k' marks hk =>
    obtain ⟨free, ordinary, spans⟩ := turn ip mark k rfl
    exact lockstep_execute discreet (spared_of_trims trims stance.kept ready) free ordinary spans
      marks (stance.execute ip mark k rfl) hk
  | run agrees hk =>
    exact lockstep_runProgram discreet (spared_of_trims trims stance.kept ready) stance.size agrees
      hk
  | @value r r' k k' concurs hk =>
    have receives := stance.receives r k rfl
    by_cases tasked : ∃ d l, k = .task d l
    · obtain ⟨d, l, rfl⟩ := tasked
      generalize s.current = c at hk
      cases hk with
      | @task _ _ _ l' hk =>
      have switched := trims.switch stance.kept ready s.coroutines s.active s.entries
      have picked := lockstep_resumePending discreet switched concurs true hk
      have right : { t with
          coroutines := s.coroutines, active := s.active, current := d, entries := s.entries } =
          { t with current := d } := by
        rw [← trims.coroutines, ← trims.active, ← trims.entries]
      rw [right] at picked
      exact picked
    · have here : s.HasCurrent := by
        cases k <;> first | exact ready | exact absurd ⟨_, _, rfl⟩ tasked
      exact lockstep_handValue discreet (spared_of_trims trims stance.kept here) concurs hk
        (fun d l same => tasked ⟨d, l, same⟩) receives
  | @await task k k' hk =>
    cases task with
    | settles outcome => exact .same (.value (.refl _) hk) trims
    | never => exact .same (.await hk) trims
  | @step r r' k k' concurs waits hk =>
    refine lockstep_handStep discreet (spared_of_trims trims stance.kept ready) concurs waits hk
      (fun e mark ip l failed loop => ?_) fun mode d previous l resumed => ?_
    · subst failed loop
      exact stance.failed e mark ip l rfl
    · subst resumed
      exact stance.resumed r mode d previous l rfl
  | @delivered o mark mark' ip ip' k k' goes marks hk =>
    have spared := spared_of_trims trims stance.kept ready
    cases o with
    | proceed next => exact lockstep_execute_control spared next marks hk
    | «return» v => exact lockstep_step spared (.ok _) (fun reason same _ => by cases same) hk
    | suspend reason => exact absurd rfl (goes reason)

end Machine

end ScriptMachine
