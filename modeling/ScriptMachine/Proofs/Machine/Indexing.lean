import ScriptMachine.Proofs.Machine.Callables
import ScriptMachine.Proofs.Machine.Inlined

/-!
# Two ways to index

An instruction calls a handler of `__index` in its own loop and goes on when the frame is left; a
routine waits for the handler in a loop of its own. Both look for the handler in the same way.

* `State.indexedAt`: where a key is looked up after so many handlers that are no functions.
* `State.resolveIndex_at`, `State.indexedAt_cases`: what that leads to.
* `Machine.indexing_paths`: what the two ways make of it.
-/

namespace ScriptMachine

variable {ν : Type}

namespace State

/-- Where a key is looked up after so many handlers that are no functions. -/
def indexedAt (s : State ν) (key : Value) : Value → Nat → Option Value
  | o, 0 => some o
  | o, n + 1 =>
    match s.lookup o key with
    | .ok (.handler h) => if h.isFunction then none else s.indexedAt key h n
    | _ => none

variable {s : State ν} {key o v : Value}

theorem indexedAt_succ_eq_some {n : Nat} (arrives : s.indexedAt key o (n + 1) = some v) :
    ∃ h, s.lookup o key = .ok (.handler h) ∧ h.isFunction = false ∧
      s.indexedAt key h n = some v := by
  rw [indexedAt] at arrives
  split at arrives
  · rename_i h handler
    split at arrives
    · contradiction
    · rename_i object
      exact ⟨h, handler, Bool.eq_false_iff.2 object, arrives⟩
  · contradiction

/-- A key is followed from object to object. -/
theorem resolveIndex_at {n : Nat} (arrives : s.indexedAt key o n = some v) (budget : Nat) :
    s.resolveIndex key (n + budget) o = s.resolveIndex key budget v := by
  induction n generalizing o with
  | zero =>
    obtain rfl := Option.some.inj arrives
    rw [Nat.zero_add]
  | succ n ih =>
    obtain ⟨h, handler, object, arrives⟩ := indexedAt_succ_eq_some arrives
    rw [Nat.add_right_comm, resolveIndex, handler, ← ih arrives]
    simp only [bind, Except.bind, object, Bool.false_eq_true, if_false]

/-- The lookup ends at an object within the budget, or passes through objects only. -/
theorem indexedAt_cases (s : State ν) (key o : Value) (budget : Nat) :
    (∃ n v, n < budget ∧ s.indexedAt key o n = some v ∧
      ∀ h, s.lookup v key = .ok (.handler h) → h.isFunction = true) ∨
    ∃ v, s.indexedAt key o budget = some v := by
  induction budget generalizing o with
  | zero => exact .inr ⟨o, rfl⟩
  | succ budget ih =>
    by_cases passes : ∃ h, s.lookup o key = .ok (.handler h) ∧ h.isFunction = false
    · obtain ⟨h, handler, object⟩ := passes
      have next : ∀ n, s.indexedAt key o (n + 1) = s.indexedAt key h n := fun n => by
        simp only [indexedAt, handler, object, Bool.false_eq_true, if_false]
      obtain ⟨n, v, low, arrives, ends⟩ | ⟨v, arrives⟩ := ih h
      · exact .inl ⟨n + 1, v, Nat.succ_lt_succ low, (next n).trans arrives, ends⟩
      · exact .inr ⟨v, (next budget).trans arrives⟩
    · refine .inl ⟨0, o, Nat.succ_pos _, rfl, fun h handler => ?_⟩
      exact Bool.eq_true_of_not_eq_false fun object => passes ⟨h, handler, object⟩

/-- A lookup fails with an error of the index, or with one that a host object has of its own. -/
theorem lookup_raises {e : Fault} (fails : s.lookup v key = .error e) :
    ∃ cause, e = .raise cause ∧
      (cause.kind = .index ∨ ∃ u, v = .userdata u ∧ s.heap.member u key = .error e) := by
  unfold lookup at fails
  split at fails
  · dsimp only at fails
    split at fails
    · cases fails
    · split at fails <;> cases fails
  · rename_i u
    cases found : s.heap.member u key with
    | error e' =>
      rw [found] at fails
      obtain rfl : e' = e := Except.error.inj fails
      have raised : ∃ cause, e' = .raise cause := by
        unfold Heap.member at found
        split at found
        · cases found
          exact ⟨_, rfl⟩
        · cases found
      obtain ⟨cause, rfl⟩ := raised
      exact ⟨cause, rfl, .inr ⟨u, rfl, found⟩⟩
    | ok known =>
      rw [found] at fails
      simp only [bind, Except.bind] at fails
      split at fails
      · cases fails
      · split at fails
        · cases fails
        · cases fails
          exact ⟨_, rfl, .inl rfl⟩
  · split at fails
    · cases fails
    · cases fails
      exact ⟨_, rfl, .inl rfl⟩

/-- The object that is reached settles what the lookup comes to. -/
theorem resolveIndex_ends {n : Nat} (arrives : s.indexedAt key o n = some v) (low : n < maxChain) :
    s.resolveIndex key maxChain o = s.resolveIndex key (maxChain - n - 1 + 1) v := by
  have whole : maxChain = n + (maxChain - n - 1 + 1) := by omega
  conv_lhs => rw [whole]
  exact resolveIndex_at arrives _

theorem resolveIndex_found {n : Nat} {w : Value} (arrives : s.indexedAt key o n = some v)
    (low : n < maxChain) (found : s.lookup v key = .ok (.found w)) :
    s.resolveIndex key maxChain o = .ok (.value w) := by
  rw [resolveIndex_ends arrives low, resolveIndex, found]
  rfl

theorem resolveIndex_call {n : Nat} {h : Value} (arrives : s.indexedAt key o n = some v)
    (low : n < maxChain) (handler : s.lookup v key = .ok (.handler h))
    (function : h.isFunction = true) : s.resolveIndex key maxChain o = .ok (.call h v) := by
  rw [resolveIndex_ends arrives low, resolveIndex, handler]
  simp only [bind, Except.bind, function, if_true]
  rfl

theorem resolveIndex_error {n : Nat} {e : Fault} (arrives : s.indexedAt key o n = some v)
    (low : n < maxChain) (fails : s.lookup v key = .error e) :
    s.resolveIndex key maxChain o = .error e := by
  rw [resolveIndex_ends arrives low, resolveIndex, fails]
  rfl

theorem resolveIndex_tooLong (arrives : s.indexedAt key o maxChain = some v) :
    s.resolveIndex key maxChain o = .error (.raise (.chainTooLong "__index")) := by
  have passed := resolveIndex_at arrives 0
  rwa [Nat.add_zero] at passed

end State

/-- Behind the veil of a frame that is still to come, one nested call more is under way. -/
theorem State.veiled_entering (s : State ν) :
    s.veiled ⟨s.current, s.callDepth, none, s.processor.sinceResume⟩ =
      s.modifyProcessor fun p => { p with nestedCalls := p.nestedCalls + 1 } := by
  refine s.modifyProcessorOf_congr ?_
  simp only [Veil.disguise, Processor.mk.injEq, true_and]
  exact ⟨Veil.frames_of_size_le _ (Nat.le_refl _), rfl⟩

namespace Machine

variable {library : Library ν} {s : State ν} {key o : Value}

/-- The call of a handler of `__index` by an instruction, in its own loop. -/
def handlerCall (address : Nat) : CallSpec where
  argc := 2
  returnAddress := address
  flags := { scalarResult := true }
  name := some "__index"

/-- The two ways to run a handler: in the loop of an instruction, or in a loop of its own. -/
def indexed (s : State ν) (ip : Nat) (mark : Mark) (waits : Kont ν .step) (k : Kont ν .value)
    (above : mark.frames < s.callDepth) : Site ν where
  thread := s.current
  low := s.framesOf s.current
  mark
  waits
  address := ip + 1
  height := s.processor.stack.size
  outer := .collapse k
  above := s.callDepth_eq_length ▸ above

/-- An instruction indexes an object. -/
def indexHere (library : Library ν) (o key : Value) (ip : Nat) (mark : Mark)
    (waits : Kont ν .step) : Move ν (Control ν) :=
  (Exec.index o key (ip + 1)).andThen (fun effect => perform library ip mark waits (some effect))
    fun e => unwind library e ip mark waits

section Handler

variable {ip : Nat} {mark : Mark} {waits : Kont ν .step} {k : Kont ν .value} {h v : Value}

/-- A function that is called is found. -/
theorem enterCall_named {spec : CallSpec} {below operands : List Value} (here : s.HasCurrent)
    (values : s.values = below ++ h :: operands) (argc : spec.argc = operands.length)
    (function : h.isFunction = true) (type : String) (name : Option String) (s' : State ν) :
    enterCall spec s ≠ .error (.raise (.callOf type name)) s' := by
  intro failed
  cases h with
  | function c =>
    by_cases room : s.callDepth < s.options.maxCallDepth
    · obtain ⟨_, entered, -⟩ := enterCall_script here values argc room
      cases entered.symm.trans failed
    · have found :=
        Exec.findCallee_of_values (.script c) spec.name s.options.maxCallChain values rfl
      have full : enterCall spec s = .error (.raise .stackOverflow) s := by
        simp only [enterCall, bind, EStateM.bind, get, getThe, MonadStateOf.get, EStateM.get, argc,
          found, if_pos (Nat.not_lt.1 room)]
        rfl
      cases full.symm.trans failed
  | native c =>
    obtain ⟨_, entered, -⟩ := enterCall_native here values argc
    cases entered.symm.trans failed
  | _ => cases function

/-- **The handler is called alike.** -/
theorem handlerCall_tandem (heedless : library.Heedless) (here : s.HasCurrent)
    (above : mark.frames < s.callDepth) (room : s.processor.nestedCalls < maxNestedCalls)
    (function : h.isFunction = true) :
    Tandem (indexed s ip mark waits k above)
      (performCall library (handlerCall (ip + 1)) (.loop mark ip waits)
        ((s.modifyStack (·.push h)).modifyStack (·.pushAll [v, key])))
      (callNested library h [v, key] (.collapse k) s) := by
  let veil : Veil := ⟨s.current, s.callDepth, none, s.processor.sinceResume⟩
  let t := (s.modifyStack (·.push h)).modifyStack (·.pushAll [v, key])
  have rigid : Rigid s t := (rigid_modifyStack ..).trans (rigid_modifyStack ..)
  have once : t = s.modifyStack fun stack => (stack.push h).pushAll [v, key] :=
    s.modifyProcessorOf_twice ..
  have looks : t.veiled veil =
      (s.modifyProcessor fun p => { p with nestedCalls := p.nestedCalls + 1 }).modifyStack
        fun stack => (stack.push h).pushAll [v, key] := by
    rw [once, ← s.veiled_entering]
    exact (s.modifyStack_disguised ..).symm
  have calls : callNested library h [v, key] (.collapse k) s =
      performCall library ((handlerCall (ip + 1)).asEntry none)
        (.loop (indexed s ip mark waits k above).inner 0 (.nested (.collapse k)))
        (t.veiled veil) := by
    have marks : Machine.mark (s.modifyProcessor fun p =>
        { p with nestedCalls := p.nestedCalls + 1 }) = (indexed s ip mark waits k above).inner := by
      have same : Machine.mark (s.modifyProcessor fun p =>
          { p with nestedCalls := p.nestedCalls + 1 }) = Machine.mark s :=
        State.view_modifyProcessorOf s _ s.current s.current
          (fun p => (⟨p.frames.size, p.stack.size⟩ : Mark)) fun _ => rfl
      rw [same, Site.inner, Site.depth, indexed, ← s.callDepth_eq_length]
      rfl
    rw [looks, ← marks]
    change (if maxNestedCalls ≤ s.processor.nestedCalls then _ else _ : Move ν (Control ν)) s = _
    rw [if_neg (Nat.not_le.2 room)]
    rfl
  have shows : (indexed s ip mark waits k above).Shows veil 0 [] t :=
    ⟨rfl, s.callDepth_eq_length, rigid.frames s.current, Nat.zero_le _⟩
  have values : t.values = s.values ++ h :: [v, key] := by
    rw [once, State.values_modifyStack here, ValueStack.pushAll, List.foldl_push_eq_append',
      ValueStack.push, Array.toList_append, Array.toList_push, List.append_assoc]
    rfl
  rw [calls]
  refine performCall_tandem heedless shows (rigid.hasCurrent here) ?_
    (f := (handlerCall (ip + 1)).frame 0 0 default) rfl rfl ?_
    fun type s' failed =>
      absurd failed (enterCall_named (rigid.hasCurrent here) values rfl function _ _ _)
  · unfold Site.Recasts
    rw [if_pos ⟨rfl, rfl⟩]
    exact ⟨none, rfl⟩
  · have own : t.current = (indexed s ip mark waits k above).thread := rfl
    rw [Site.atop_own own]
    refine .base own rfl rfl rfl rfl rfl (List.nil_append _).symm (fun j member => ?_)
      ⟨rfl, rfl, rfl⟩ (.inr rfl)
    rw [List.mem_singleton.1 member]
    rfl

end Handler

end Machine

def Machine.isExecuting (m : Machine ν) : Bool := m.control matches .execute ..

/-- As long as both do the same, a frame of the handler stands where instructions are executed. -/
theorem Tandem.stands {x : Site ν} {m : Machine ν} {b : Control ν × State ν}
    (tandem : Tandem x (Machine.pair m) b) (executes : m.isExecuting = true)
    (own : m.state.current = x.thread) : x.low.length < (m.state.framesOf x.thread).length := by
  obtain ⟨control, s⟩ := m
  cases tandem with
  | mk shows joins =>
    cases joins with
    | execute joins =>
      have some := List.length_pos_of_ne_nil (joins.stands own)
      rw [shows.frames, List.length_append]
      omega
    | _ => cases executes
  | returning => cases executes

/-- Both ways are at an end: the instruction has pushed the value, and the routine gets it; or the
loop of the instruction unwinds an error, and the routine gets one of the same cause; or both have
the same fault. The world is the same. -/
inductive Site.Completes (library : Library ν) (x : Site ν) (k : Kont ν .value) (a b : Machine ν) :
    Prop
  | value {w : Value} {s t : State ν} : t.world = s.world → s.current = x.thread →
      s.framesOf x.thread = x.low →
      a = ⟨.execute x.address x.mark x.waits, s.modifyStack (·.push w)⟩ →
      b = ⟨.value (.ok w) k, t⟩ → Completes library x k a b
  /-- No frame of the handler catches the error. The decorators of the frames below are called. -/
  | raised {e e' : ScriptError} {up : List Frame} {s t : State ν} : ScriptError.Restates up e e' →
      t.world = s.world → s.current = x.thread → s.framesOf x.thread = up ++ x.low →
      (∀ f ∈ up, f.handlers.errorHandler = none ∧ f.flags.entryPoint = false) →
      a = Machine.begun (Machine.runDecorators library e (State.decoratorsOf x.callers).2 x.mark
        x.waits (State.decoratorsOf x.callers).1) s →
      b = ⟨.value (.error (.script e')) k, t⟩ → Completes library x k a b
  /-- The decorators have been called before. The frames below are popped. -/
  | settled {e : ScriptError} {trace : List TraceEntry} {s t : State ν} : t.world = s.world →
      s.current = x.thread → s.framesOf x.thread = x.low →
      a = Machine.begun (Machine.popToHandler library e x.mark x.waits
        (x.depth - x.mark.frames)) s →
      b = ⟨.value (.error (.script { e with trace })) k, t⟩ → Completes library x k a b
  | failed {fault : Fault} {s t : State ν} : fault.isCatchable = false → t.world = s.world →
      a = ⟨.step (.error fault) x.waits, s⟩ → b = ⟨.value (.error fault) k, t⟩ →
      Completes library x k a b

namespace Machine

variable {library : Library ν} {s : State ν} {key o : Value}

theorem machine_eq {m : Machine ν} {control : Control ν} {t : State ν}
    (same : pair m = (control, t)) : m = ⟨control, t⟩ := by
  obtain ⟨rfl, rfl⟩ := Prod.mk.inj same
  rfl

/-- The handler's own loop is left with a result, which the routine takes as a scalar. -/
theorem handed_on (library : Library ν) {b : Machine ν} {x : Site ν} {k : Kont ν .value}
    (outer : x.outer = .collapse k) {r : Except Fault Step} {t : State ν}
    (ended : pair b = (.step r (.nested x.outer), t)) :
    ∃ t', (step library)^[2] b = ⟨.value ((expectReturn r).map Value.scalar) k, t'⟩ ∧
      t'.world = t.world := by
  rw [machine_eq ended, outer]
  exact ⟨_, rfl, rfl⟩

theorem completes_of_ends {a b : Machine ν} {x : Site ν} {k : Kont ν .value}
    (outer : x.outer = .collapse k) (ends : Ends library x (pair a) (pair b)) :
    x.Completes library k a ((step library)^[2] b) := by
  cases ends with
  | @value v s w shows own ha hb =>
    obtain ⟨t', ended, same⟩ := handed_on library outer hb
    have world : t'.world = (s.modifyStack (·.push w.scalar)).world := same
    exact .value (s := s) world own shows.frames (machine_eq ha) ended
  | raised restates same own frames quiet ha hb =>
    obtain ⟨t', ended, world⟩ := handed_on library outer hb
    exact .raised restates (world.trans same) own frames quiet (machine_eq ha) ended
  | settled same own frames ha hb =>
    obtain ⟨t', ended, world⟩ := handed_on library outer hb
    exact .settled (world.trans same) own frames (machine_eq ha) ended
  | failed uncatchable same ha hb =>
    obtain ⟨t', ended, world⟩ := handed_on library outer hb
    exact .failed uncatchable (world.trans same) (machine_eq ha) ended

section Outcomes

variable {ip : Nat} {mark : Mark} {waits : Kont ν .step} {k : Kont ν .value}
  (above : mark.frames < s.callDepth)

include above

/-- A lookup that fails raises its error in both. -/
theorem completes_of_error {cause : Cause}
    (direct : Exec.index o key (ip + 1) s = .error (.raise cause) s)
    (nested : indexNested library o key k s = (.value (.error (.raise cause)) k, s)) :
    (indexed s ip mark waits k above).Completes library k
      (begun (indexHere library o key ip mark waits) s)
      (begun (indexNested library o key k) s) := by
  have unwinds : indexHere library o key ip mark waits s =
      unwind library (.raise cause) ip mark waits s := by
    rw [indexHere, Exec.andThen, direct]
  have fails : begun (indexNested library o key k) s =
      ⟨.value (.error (.script { cause })) k, s⟩ := by
    rw [begun, nested]
    rfl
  have restates : ScriptError.Restates [] (attributed s { cause } ip) { cause } := by
    refine ⟨(cause_attributed s _ ip).symm, ?_⟩
    rintro ⟨_, member, -⟩
    exact absurd member List.not_mem_nil
  refine .raised restates rfl rfl (List.nil_append _).symm ?_ ?_ fails
  · exact fun _ member => absurd member List.not_mem_nil
  · rw [begun, unwinds, Fault.raise, unwind_script, if_neg Bool.false_ne_true,
      decoratorsOf_framesAbove]
    rfl

theorem completes_of_found {w : Value}
    (direct : Exec.index o key (ip + 1) s = .ok .next (s.modifyStack (·.push w)))
    (nested : indexNested library o key k s = (.value (.ok w) k, s)) :
    (indexed s ip mark waits k above).Completes library k
      (begun (indexHere library o key ip mark waits) s)
      (begun (indexNested library o key k) s) := by
  have ended : begun (indexNested library o key k) s = ⟨.value (.ok w) k, s⟩ := by
    rw [begun, nested]
  refine .value (s := s) rfl rfl rfl ?_ ended
  rw [begun, indexHere, Exec.andThen, direct]
  rfl

end Outcomes

/-- Both ways to index follow the same chain. From object to object, through handlers that are
no functions, the key is looked up in at most so many objects. -/
inductive Indexes (library : Library ν) (s : State ν) (o key : Value) : Prop
  /-- The first object that has a value for the key gives the value, which the instruction pushes. -/
  | value {n : Nat} {v w : Value} : n < State.maxChain → s.indexedAt key o n = some v →
      s.lookup v key = .ok (.found w) →
      (∀ address, Exec.index o key address s = .ok .next (s.modifyStack (·.push w))) →
      (∀ k, indexNested library o key k s = (.value (.ok w) k, s)) → Indexes library s o key
  /-- The first handler that is a function is called once, with the object whose handler it is and
  the key. The instruction calls it in its own loop, where the result is pushed as a scalar; the
  routine in a loop of its own, whose result it takes as a scalar. -/
  | call {n : Nat} {v h : Value} : n < State.maxChain → s.indexedAt key o n = some v →
      s.lookup v key = .ok (.handler h) → h.isFunction = true →
      (∀ address, Exec.index o key address s = .ok (.call (handlerCall address))
        ((s.modifyStack (·.push h)).modifyStack (·.pushAll [v, key]))) →
      (∀ k, indexNested library o key k s = callNested library h [v, key] (.collapse k) s) →
      Indexes library s o key
  /-- The lookup fails, or all the objects pass the key on. Only a host object has errors of its
  own. -/
  | error {cause : Cause} :
      ((∃ n v, n < State.maxChain ∧ s.indexedAt key o n = some v ∧
          s.lookup v key = .error (.raise cause) ∧ (cause.kind = .index ∨
            ∃ u, v = .userdata u ∧ s.heap.member u key = .error (.raise cause))) ∨
        cause = .chainTooLong "__index" ∧ ∃ v, s.indexedAt key o State.maxChain = some v) →
      (∀ address, Exec.index o key address s = .error (.raise cause) s) →
      (∀ k, indexNested library o key k s = (.value (.error (.raise cause)) k, s)) →
      Indexes library s o key

theorem indexes (library : Library ν) (s : State ν) (o key : Value) : Indexes library s o key := by
  have direct (address : Nat) : Exec.index o key address s =
      (Exec.ofExcept (s.resolveIndex key State.maxChain o) >>= _) s := rfl
  have nested := fun k : Kont ν .value => indexNested_eq library o key k s
  obtain ⟨n, v, low, arrives, ends⟩ | ⟨v, arrives⟩ := s.indexedAt_cases key o State.maxChain
  · cases looked : s.lookup v key with
    | error e =>
      have resolved := State.resolveIndex_error arrives low looked
      rw [resolved] at direct nested
      obtain ⟨cause, rfl, kind⟩ := State.lookup_raises looked
      exact .error (.inl ⟨n, v, low, arrives, looked, kind⟩) direct nested
    | ok known =>
      cases known with
      | found w =>
        have resolved := State.resolveIndex_found arrives low looked
        rw [resolved] at direct nested
        exact .value low arrives looked direct nested
      | handler h =>
        have function := ends h looked
        have resolved := State.resolveIndex_call arrives low looked function
        rw [resolved] at direct nested
        exact .call low arrives looked function direct nested
  · have resolved := State.resolveIndex_tooLong arrives
    rw [resolved] at direct nested
    exact .error (.inr ⟨rfl, v, arrives⟩) direct nested

/-- A moment at which nothing happens that could set the two ways apart: nothing is asked, no call
is requested, no error is raised, the thread is not suspended, and there is room for one nested call
more. -/
def isPlain (library : Library ν) (m : Machine ν) : Bool :=
  (match m.control with
    | .run (.ask ..) _ | .value (.ok (.tailCall _)) _ | .step (.error _) _ => false
    | _ => true) &&
  (match (advance library m.control m.state).1 with
    | .step (.ok (.suspend _)) _ => false
    | _ => true) &&
  decide (m.state.processor.nestedCalls + 1 < maxNestedCalls)

theorem smooth_of_isPlain {x : Site ν} {m : Machine ν} (plain : isPlain library m = true) :
    x.Smooth library m.control m.state := by
  obtain ⟨control, s⟩ := m
  obtain ⟨⟨bare, calm⟩, room⟩ :=
    (Bool.and_eq_true_iff.1 plain).imp Bool.and_eq_true_iff.1 of_decide_eq_true
  refine ⟨fun _ reason k suspends => ?_, fun _ => room, ?_, ?_, ?_⟩
  · rw [suspends] at calm
    cases calm
  · rintro query next k rfl
    cases bare
  · rintro - - r k rfl
    cases bare
  · rintro - e mark ip k rfl
    cases bare

/-- **Both ways to index** resolve the same chain, and come to the same. Whatever the handler does,
step by step both do the same, until both have the same scalar, an error of the same cause, or the
same fault, and the same world. -/
theorem indexing_paths (heedless : library.Heedless) {ip : Nat} {mark : Mark} {waits : Kont ν .step}
    (linked : Links (Manner.any library) (.execute ip mark waits, s))
    (above : mark.frames < s.callDepth) (o key : Value) (k : Kont ν .value) :
    let x := indexed s ip mark waits k above
    let a := begun (indexHere library o key ip mark waits) s
    let b := begun (indexNested library o key k) s
    Indexes library s o key ∧
    ∀ n, s.processor.nestedCalls < maxNestedCalls →
      (∀ i < n, x.Smooth library ((step library)^[i] a).control ((step library)^[i] a).state) →
      (∃ i ≤ n, ∃ j ≤ i + 2, x.Completes library k ((step library)^[i] a) ((step library)^[j] b)) ∨
        Tandem x (pair ((step library)^[n] a)) (pair ((step library)^[n] b)) := by
  intro x a b
  have indexes := indexes library s o key
  refine ⟨indexes, fun n room smooth => ?_⟩
  cases indexes with
  | value _ _ _ direct nested =>
    exact .inl ⟨0, Nat.zero_le n, 0, Nat.zero_le _, completes_of_found above (direct _) (nested k)⟩
  | error _ direct nested =>
    exact .inl ⟨0, Nat.zero_le n, 0, Nat.zero_le _, completes_of_error above (direct _) (nested k)⟩
  | @call _ v h _ _ _ function direct nested =>
    obtain ⟨ts, sound, linked⟩ := linked
    cases linked with
    | execute chain =>
      have sound : Sound s (s.current :: _) := sound
      have here := sound.hasCurrent
      let t := (s.modifyStack (·.push h)).modifyStack (·.pushAll [v, key])
      have rigid : Rigid s t := (rigid_modifyStack ..).trans (rigid_modifyStack ..)
      have starts : pair a =
          performCall library (handlerCall (ip + 1)) (.loop mark ip waits) t := by
        change indexHere library o key ip mark waits s = _
        rw [indexHere, Exec.andThen, direct]
        rfl
      have starts' : pair b = callNested library h [v, key] (.collapse k) s := nested k
      have links : Links (Manner.any library) (pair a) := by
        rw [starts]
        exact calls_linked (s := t) (sound.rigid rigid) (.loop chain)
          (performCall_calls _ _ (rigid.hasCurrent here))
      have tandem : Tandem x (pair a) (pair b) := by
        rw [starts, starts']
        exact handlerCall_tandem heedless here above room function
      obtain ⟨i, low, ends⟩ | tandem := iterate_carriesOn heedless links tandem n smooth
      · refine .inl ⟨i, low, i + 2, Nat.le_refl _, ?_⟩
        rw [Nat.add_comm, Function.iterate_add_apply]
        exact completes_of_ends rfl ends
      · exact .inr tandem

end Machine

namespace Sample

open Host

def handledBy (s : HostState) (handler : Value) : HostState × Value :=
  let (handlers, heap) := s.heap.newTable (Table.empty.setString "__index" handler)
  let (object, heap) := heap.newTable { Table.empty with metatable := some handlers }
  (s.setHeap heap, .table object)

/-- A function that answers the key it is asked for. -/
def itsKey : Proto where
  name := "key"
  locals := [.slot 0 "o", .slot 1 "k"]
  symbols := [.slot 1 "k"]
  code := #[⟨.beginFn, 2, 0⟩, ⟨.load, 0, 0⟩, ⟨.ret, 1, 0⟩]

/-- Such a function is the handler of a table. A frame stands on the root. -/
def keyed : HostState × Value :=
  let (handler, s) := (Host.newState {}).newClosure ⟨itsKey, #[]⟩
  let (s, object) := handledBy s handler
  let standing := { base := 0, argc := 0, returnAddress := 0, callee := .script ⟨0⟩ }
  (s.modifyFrames (·.push standing), object)

def keyedHere : Machine HostRoutine :=
  Machine.begun (Machine.indexHere Host.library keyed.2 (.string "x") 2 ⟨0, 0⟩
    (.nested (.exit .host))) keyed.1

/-- A routine indexes the table. -/
def keyedNested : Machine HostRoutine :=
  Machine.begun (Machine.indexNested Host.library keyed.2 (.string "x") .host) keyed.1

/-- A function that indexes its parameter in both ways, and answers whether the results are
equal. -/
def bothWays : Proto where
  name := "both"
  locals := [.slot 0 "o"]
  symbols := [.slot 0 "o"]
  strings := ["x"]
  code := #[⟨.beginFn, 1, 0⟩, ⟨.load, 0, 0⟩, ⟨.index, 0, 0⟩, ⟨.load, 0, 0⟩, ⟨.selfIndex, 0, 0⟩,
    ⟨.pop, 1, 0⟩, ⟨.equal, 0, 0⟩, ⟨.ret, 1, 0⟩]

def oneWay (op : Opcode) : Proto where
  name := "one"
  locals := [.slot 0 "o"]
  symbols := [.slot 0 "o"]
  strings := ["x"]
  code := #[⟨.beginFn, 1, 0⟩, ⟨.load, 0, 0⟩, ⟨op, 0, 0⟩, ⟨.ret, 1, 0⟩]

/-- A function of that code, and a table whose handler of `__index` is a native. -/
def asking (p : Proto) (b : Builtin) : HostState × Value × Value :=
  let s := Host.newState {}
  let (s, object) := handledBy s ((s.heap.table s.world.globals).getString b.name)
  let (f, s) := s.newClosure ⟨p, #[]⟩
  (s, f, object)

/-- What comes of it where a coroutine runs the function on the table. -/
def answerOf (p : Proto) (b : Builtin) : Machine.Ending :=
  let (s, f, object) := asking p b
  let (c, s) := s.newCoroutine f
  (Machine.perform? Host.library 60 (Machine.hostResume Host.library .synchronous c [object]) s).1

/-- What comes of it where the host calls the function on the table. -/
def callOf (p : Proto) (b : Builtin) : Machine.Ending :=
  let (s, f, object) := asking p b
  (Machine.perform? Host.library 60 (Machine.call Host.library f [object]) s).1

end Sample

namespace Machine

/-- The handler of the table answers the key, in its own loop and in the loop of the instruction. -/
theorem indexing_paths_keyed :
    let waits : Kont Host.HostRoutine .step := .nested (.exit .host)
    Links (Manner.any Host.library) (.execute 2 ⟨0, 0⟩ waits, Sample.keyed.1) ∧
    ∃ above : 0 < Sample.keyed.1.callDepth, ∃ i ≤ 5, ∃ j ≤ i + 2,
      (indexed Sample.keyed.1 2 ⟨0, 0⟩ waits .host above).Completes Host.library .host
        ((step Host.library)^[i] Sample.keyedHere) ((step Host.library)^[j] Sample.keyedNested) := by
  intro waits
  have root : Sample.keyed.1.AtRoot := ⟨by decide +kernel, by decide +kernel⟩
  have linked : Links (Manner.any Host.library) (.execute 2 ⟨0, 0⟩ waits, Sample.keyed.1) :=
    ⟨_, root.sound, .execute (.nested (.exit (.host root.current)))⟩
  have above : 0 < Sample.keyed.1.callDepth := by decide +kernel
  have plain : ∀ i < 5, isPlain Host.library ((step Host.library)^[i] Sample.keyedHere) = true := by
    decide +kernel
  have completes := (indexing_paths Host.library_heedless linked above Sample.keyed.2
    (.string "x") .host).2 5 (by decide +kernel) fun i low => smooth_of_isPlain (plain i low)
  refine ⟨linked, above, completes.resolve_right fun tandem => ?_⟩
  -- After these steps no frame of the handler stands.
  have executes : ((step Host.library)^[5] Sample.keyedHere).isExecuting = true := by
    decide +kernel
  have own : ((step Host.library)^[5] Sample.keyedHere).state.current = Sample.keyed.1.current := by
    decide +kernel
  have alone : (((step Host.library)^[5] Sample.keyedHere).state.framesOf
      Sample.keyed.1.current).length = (Sample.keyed.1.framesOf Sample.keyed.1.current).length := by
    decide +kernel
  have stands := Tandem.stands (m := (step Host.library)^[5] Sample.keyedHere) tandem executes own
  exact Nat.ne_of_gt stands alone

/-- The handler answers in the loop of the instruction that it may be suspended, and in a loop of
its own that it may not. A call it asks for that cannot be made is reported with the name of the
handler in the one, and without a name in the other. -/
theorem indexing_paths_differ :
    Sample.answerOf Sample.bothWays .coyieldable matches .done (.ok (.boolean false)) ∧
    Sample.callOf (Sample.oneWay .index) .tail matches
      .done (.error (.script ⟨.callOf "table" (some "__index"), _, _, _, _⟩)) ∧
    Sample.callOf (Sample.oneWay .selfIndex) .tail matches
      .done (.error (.script ⟨.callOf "table" none, _, _, _, _⟩)) := by
  decide +kernel

end Machine

end ScriptMachine
