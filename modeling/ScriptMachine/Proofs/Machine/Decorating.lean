import ScriptMachine.Proofs.Machine.Attribution
import ScriptMachine.Proofs.Machine.Errands
import ScriptMachine.Proofs.Machine.Methods

/-!
# Decorators come before the handler

When an error reaches the loop of a frame that catches it, the decorators of the frames down to this
one are called, one after another, and then the frames are popped and the handler runs.

* `Consulted`: decorators are called, and what they make of an error.
* `Polls`: how far the calls of decorators are.
* `Catches`: a frame of the loop catches the error.
* `decorators_precede_handler`: each decorator is called once, with what those before it have made
  of the message, and the handler runs with what the last one has made of it.
* `uncallable_undecorated`: no decorator is called where no frame stands for the call.
-/

namespace ScriptMachine

variable {ν : Type}

namespace Machine

variable {library : Library ν} {M : Manner library} {s s' : State ν} {e e' : ScriptError}
  {d : Value} {ds others : List Value} {r : Except Fault Value} {caught : Bool} {mark : Mark}
  {k : Kont ν .step} {m m' : Machine ν}

/-! ## Decorators -/

/-- A decorator is called with the message of an error. -/
def asked (library : Library ν) (decorator : Value) (e : ScriptError) (s : State ν) : Machine ν :=
  begun (callNested library decorator [messageValue e] .host) s

/-- Decorators are called one after another, each with what those before it have made of the
message, and each has an outcome. -/
inductive Consulted (library : Library ν) :
    ScriptError → List Value → State ν → ScriptError → State ν → Prop
  | nobody {e : ScriptError} {s : State ν} : Consulted library e [] s e s
  | next {e e' : ScriptError} {d : Value} {ds : List Value} {s t s' : State ν}
      {r : Except Fault Value} : Leads library (asked library d e s) ⟨.value r .host, t⟩ →
      Consulted library (applyDecorator t.heap e r) ds t e' s' → Consulted library e (d :: ds) s e' s'

theorem Consulted.append {t : State ν} {e'' : ScriptError}
    (consulted : Consulted library e ds s e' s') (more : Consulted library e' others s' e'' t) :
    Consulted library e (ds ++ others) s e'' t := by
  induction consulted with
  | nobody => exact more
  | next answer _ ih => exact .next answer (ih more)

/-- The decorators that are left are about to be called, on a thread on which frames stand. -/
structure Polling (M : Manner library) (caught : Bool) (mark : Mark) (k : Kont ν .step)
    (e : ScriptError) (ds : List Value) (s : State ν) : Prop where
  links : Links M (runDecorators library e caught mark k ds s)
  here : s.HasCurrent
  working : s.framesOf s.current ≠ []

/-- The thread runs, and its frames are as they were. -/
structure Returned (s s' : State ν) : Prop where
  current : s'.current = s.current
  frames : s'.framesOf s'.current = s.framesOf s.current

theorem Returned.trans {t : State ν} (h : Returned s s') (h' : Returned s' t) : Returned s t :=
  ⟨h'.current.trans h.current, h'.frames.trans h.frames⟩

/-- The host has no outcome after fewer steps, or there is a first one. -/
theorem going_or_first (library : Library ν) (m : Machine ν) (n : Nat) :
    (∀ i < n, ∀ r, ((step library)^[i] m).control ≠ .value r .host) ∨
    ∃ i < n, (∀ j < i, ∀ r, ((step library)^[j] m).control ≠ .value r .host) ∧
      ∃ r s, (step library)^[i] m = ⟨.value r .host, s⟩ := by
  induction n with
  | zero => exact .inl fun i low => absurd low (Nat.not_lt_zero i)
  | succ n ih =>
    obtain going | ⟨i, low, first⟩ := ih
    · by_cases ended : ∃ r, ((step library)^[n] m).control = .value r .host
      · obtain ⟨r, ended⟩ := ended
        exact .inr ⟨n, Nat.lt_succ_self n, going, r, ((step library)^[n] m).state, ended ▸ rfl⟩
      · refine .inl fun i low r => ?_
        obtain low | rfl := Nat.lt_succ_iff_lt_or_eq.1 low
        · exact going i low r
        · exact fun returned => ended ⟨r, returned⟩
    · exact .inr ⟨i, Nat.lt_succ_of_lt low, first⟩

/-- An outcome comes for the first time after so many steps. -/
theorem Leads.first (leads : Leads library m ⟨.value r .host, s⟩) :
    ∃ n, (step library)^[n] m = ⟨.value r .host, s⟩ ∧
      ∀ i < n, ∀ r, ((step library)^[i] m).control ≠ .value r .host := by
  obtain ⟨n, ends⟩ := id leads
  obtain going | ⟨i, -, going, r', s', ended⟩ := going_or_first library m n
  · exact ⟨n, ends, going⟩
  · obtain ⟨more, same⟩ := Leads.onward ⟨i, ended⟩ leads rfl
    rw [iterate_of_halted rfl] at same
    exact ⟨i, ended.trans same, going⟩

theorem Leads.links (leads : Leads library m m') (links : Links M (m.control, m.state)) :
    Links M (m'.control, m'.state) := by
  obtain ⟨n, rfl⟩ := leads
  exact iterate_linked links n

theorem runDecorators_cons (library : Library ν) (e : ScriptError) (d : Value) (ds : List Value)
    (caught : Bool) (mark : Mark) (k : Kont ν .step) (s : State ν) :
    begun (runDecorators library e caught mark k (d :: ds)) s =
      (asked library d e s).fill (.decorator e ds caught mark k) := by
  have fills : Fills (.decorator e ds caught mark k)
      (callNested library d [messageValue e] .host)
      (callNested library d [messageValue e] (.decorator e ds caught mark k)) :=
    callNested_fill .host d [messageValue e]
  exact congrArg (fun x : Control ν × State ν => Machine.mk x.1 x.2) (fills.eq s)

/-- While a decorator is called, all frames stand, and in the end the thread has them. -/
theorem Polling.call_gives_back (polling : Polling M caught mark k e (d :: ds) s) {n : Nat}
    (going : ∀ i < n, ∀ r, ((step library)^[i] (asked library d e s)).control ≠ .value r .host) :
    s.framesOf s.current <:+ ((step library)^[n] (asked library d e s)).state.framesOf s.current ∧
    ∀ r s', (step library)^[n] (asked library d e s) = ⟨.value r .host, s'⟩ →
      s'.current = s.current ∧ s'.framesOf s.current = s.framesOf s.current := by
  have links : Links M (callNested library d [messageValue e] (.decorator e ds caught mark k) s) :=
    polling.links
  have calm : ∀ c l, Kont.decorator e ds caught mark k ≠ .task c l := fun _ _ => nofun
  exact nested_calls_give_back calm polling.here polling.working links going

/-- A decorator has an outcome, and the next one is called. -/
theorem Polling.answered (polling : Polling M caught mark k e (d :: ds) s)
    (answer : Leads library (asked library d e s) ⟨.value r .host, s'⟩) :
    Polling M caught mark k (applyDecorator s'.heap e r) ds s' ∧ Returned s s' ∧
      Leads library (begun (runDecorators library e caught mark k (d :: ds)) s)
        (begun (runDecorators library (applyDecorator s'.heap e r) caught mark k ds) s') := by
  have calls := runDecorators_cons library e d ds caught mark k s
  have leads : Leads library (begun (runDecorators library e caught mark k (d :: ds)) s)
      ⟨.value r (.decorator e ds caught mark k), s'⟩ := by
    rw [calls]
    exact leads_filled _ answer
  have onward : Leads library ⟨.value r (.decorator e ds caught mark k), s'⟩
      (begun (runDecorators library (applyDecorator s'.heap e r) caught mark k ds) s') :=
    .next (.refl _)
  obtain ⟨n, ended, going⟩ := answer.first
  obtain ⟨current, frames⟩ := (polling.call_gives_back going).2 r s' ended
  rw [← current] at frames
  obtain ⟨ts, sound, linked⟩ := leads.links polling.links
  have here : s'.HasCurrent := linked.ready sound
  refine ⟨⟨(leads.trans onward).links polling.links, here, ?_⟩, ⟨current, ?_⟩, leads.trans onward⟩
  · rw [frames, current]
    exact polling.working
  · rw [frames, current]

theorem Polling.consulted (polling : Polling M caught mark k e (ds ++ others) s)
    (consulted : Consulted library e ds s e' s') :
    Polling M caught mark k e' others s' ∧ Returned s s' ∧
      Leads library (begun (runDecorators library e caught mark k (ds ++ others)) s)
        (begun (runDecorators library e' caught mark k others) s') := by
  induction consulted with
  | nobody => exact ⟨polling, ⟨rfl, rfl⟩, .refl _⟩
  | next answer _ ih =>
    obtain ⟨polling, returned, leads⟩ := polling.answered answer
    obtain ⟨polling, returned', leads'⟩ := ih polling
    exact ⟨polling, returned.trans returned', leads.trans leads'⟩

/-- How far the calls of decorators are: some of them have had an outcome, and the next one is being
called while all frames stand; or all of them have had one, and the machine went on from there. -/
inductive Polls (library : Library ν) (caught : Bool) (mark : Mark) (k : Kont ν .step)
    (goes : ScriptError → State ν → Machine ν → Prop) (e : ScriptError) (ds : List Value)
    (s : State ν) (m : Machine ν) : Prop
  | asks (done : List Value) {others : List Value} {d : Value} {e' : ScriptError} {s' : State ν}
      {n : Nat} : ds = done ++ d :: others → Consulted library e done s e' s' →
      (∀ i < n, ∀ r, ((step library)^[i] (asked library d e' s')).control ≠ .value r .host) →
      m = ((step library)^[n] (asked library d e' s')).fill (.decorator e' others caught mark k) →
      s.framesOf s.current <:+ m.state.framesOf s.current → Polls library caught mark k goes e ds s m
  | done {e' : ScriptError} {s' : State ν} {m' : Machine ν} : Consulted library e ds s e' s' →
      goes e' s' m' → Leads library m' m → Polls library caught mark k goes e ds s m

theorem Polls.imp {goes goes' : ScriptError → State ν → Machine ν → Prop}
    (h : ∀ e' s' m', Consulted library e ds s e' s' → goes e' s' m' → goes' e' s' m')
    (polls : Polls library caught mark k goes e ds s m) :
    Polls library caught mark k goes' e ds s m := by
  cases polls with
  | asks done split consulted going calls stands =>
    exact .asks done split consulted going calls stands
  | done consulted goes leads => exact .done consulted (h _ _ _ consulted goes) leads

/-- What was called after the first outcome is called after it. -/
theorem Polls.next {goes : ScriptError → State ν → Machine ν → Prop}
    (answer : Leads library (asked library d e s) ⟨.value r .host, s'⟩) (returned : Returned s s')
    (polls : Polls library caught mark k goes (applyDecorator s'.heap e r) ds s' m) :
    Polls library caught mark k goes e (d :: ds) s m := by
  cases polls with
  | asks done split consulted going calls stands =>
    rw [returned.frames, returned.current] at stands
    exact .asks (d :: done) (congrArg _ split) (.next answer consulted) going calls stands
  | done consulted goes leads => exact .done (.next answer consulted) goes leads

/-- **A run calls one decorator after another**, and then goes on. -/
theorem Polling.polls (polling : Polling M caught mark k e ds s) (n : Nat) :
    Polls library caught mark k
      (fun e' s' m => m = begun (runDecorators library e' caught mark k []) s') e ds s
      ((step library)^[n] (begun (runDecorators library e caught mark k ds) s)) := by
  induction ds generalizing e s n with
  | nil => exact .done .nobody rfl ⟨n, rfl⟩
  | cons d ds ih =>
    rw [runDecorators_cons]
    -- the first decorator is still being called, or it had its outcome after `i` steps
    obtain going | ⟨i, low, going, r, t, ended⟩ := going_or_first library (asked library d e s) n
    · rw [iterate_fill going]
      exact .asks [] rfl .nobody going rfl (polling.call_gives_back going).1
    · obtain ⟨polling, returned, -⟩ := polling.answered ⟨i, ended⟩
      have there : (step library)^[i + 1] ((asked library d e s).fill
          (.decorator e ds caught mark k)) =
          begun (runDecorators library (applyDecorator t.heap e r) caught mark k ds) t := by
        rw [Function.iterate_succ_apply', iterate_fill going, ended]
        rfl
      obtain ⟨more, rfl⟩ := Nat.exists_eq_add_of_le' (Nat.succ_le_of_lt low)
      rw [Function.iterate_add_apply, there]
      exact (ih polling more).next ⟨i, ended⟩ returned

end Machine

/-! ## The frame that catches -/

namespace State

theorem decoratorsOf_outline (fs : List Frame) :
    decoratorsOf (fs.map Frame.outline) = decoratorsOf fs := by
  induction fs with
  | nil => rfl
  | cons f fs ih => simp [decoratorsOf, ih]

theorem outline_framesAbove (s : State ν) (mark : Mark) :
    (s.framesAbove mark).map Frame.outline =
      (s.framesOf s.current).take ((s.framesOf s.current).length - mark.frames) := by
  simp [framesAbove, framesOf, outlineOf, Processor.outline, processor, List.reverse_drop,
    List.map_take]

/-- The decorators down to the frame that catches. -/
theorem decoratorsOf_append {up rest : List Frame} {f : Frame}
    (quiet : ∀ g ∈ up, g.handlers.errorHandler = none ∧ g.flags.entryPoint = false)
    (catches : f.handlers.errorHandler.isSome = true) :
    decoratorsOf (up ++ f :: rest) =
      (up.filterMap (·.handlers.decorator) ++ f.handlers.decorator.toList, true) := by
  induction up with
  | nil => simp [decoratorsOf, catches]
  | cons g up ih =>
    obtain ⟨none, inner⟩ := quiet g (List.mem_cons_self ..)
    have ih := ih fun h member => quiet h (List.mem_cons_of_mem _ member)
    simp only [List.cons_append, decoratorsOf, none, inner, ih]
    cases decorator : g.handlers.decorator <;> simp [decorator]

end State

namespace Machine

variable {library : Library ν} {M : Manner library} {s s' t : State ν} {e : ScriptError}
  {mark : Mark} {ip : Nat} {k : Kont ν .step} {up rest : List Frame} {f : Frame}
  {handler : NativeId}

/-- The handler of a frame is about to run with the message of an error. The frame and those above
it are popped. -/
inductive Handles (library : Library ν) (mark : Mark) (k : Kont ν .step) (f : Frame)
    (rest : List Frame) (handler : NativeId) (e : ScriptError) (s : State ν) : Machine ν → Prop
  | intro {f' : Frame} {s' : State ν} : f'.outline = f →
      Shifted ((s.outlineOf s.current).cut rest) s s' →
      Handles library mark k f rest handler e s ⟨.run (handling library s' handler e)
        (.finish (disarmed f') (.loop mark (f.returnAddress - 1) k)), s'⟩

theorem Handles.cut {below : List Frame} {m : Machine ν}
    (shifted : Shifted ((s.outlineOf s.current).cut below) s s')
    (handles : Handles library mark k f rest handler e s' m) :
    Handles library mark k f rest handler e s m := by
  cases handles with
  | intro same shifted' =>
    rw [shifted.outline] at shifted'
    exact .intro same (shifted.trans shifted')

theorem dropFrame_cons {below : List Frame} (frames : s.framesOf s.current = f :: below) :
    ∃ f' s', dropFrame s = (some f', s') ∧ f'.outline = f ∧
      Shifted ((s.outlineOf s.current).cut below) s s' := by
  obtain ⟨empty, -⟩ | ⟨f', s', below', dropped, frames', shifted⟩ := dropFrame_cases s
  · cases frames.symm.trans empty
  · obtain ⟨rfl, rfl⟩ := List.cons.inj (frames.symm.trans frames')
    exact ⟨f', s', dropped, rfl, shifted⟩

/-- Frames are popped down to the first one that catches. -/
theorem popToHandler_handles {count : Nat} (frames : s.framesOf s.current = up ++ f :: rest)
    (low : up.length < count)
    (quiet : ∀ g ∈ up, g.handlers.errorHandler = none ∧ g.flags.entryPoint = false)
    (catches : f.handlers.errorHandler = some handler) :
    Handles library mark k f rest handler e s (begun (popToHandler library e mark k count) s) := by
  obtain ⟨count, rfl⟩ := Nat.exists_eq_succ_of_ne_zero (Nat.ne_of_gt (Nat.zero_lt_of_lt low))
  induction up generalizing s count with
  | nil =>
    obtain ⟨f', s', dropped, rfl, shifted⟩ := dropFrame_cons frames
    rw [Frame.outline_handlers] at catches
    rw [begun, popToHandler_succ _ _ _ dropped, catches]
    exact .intro rfl shifted
  | cons g up ih =>
    obtain ⟨g', s', dropped, rfl, shifted⟩ := dropFrame_cons frames
    obtain ⟨none, inner⟩ := quiet _ (List.mem_cons_self ..)
    rw [Frame.outline_handlers] at none
    rw [Frame.outline_flags] at inner
    have below : s'.framesOf s'.current = up ++ f :: rest := shifted.frames
    rw [List.length_cons] at low
    obtain ⟨count, rfl⟩ := Nat.exists_eq_succ_of_ne_zero
      (Nat.ne_of_gt (Nat.zero_lt_of_lt (Nat.lt_of_succ_lt_succ low)))
    have handles := ih below (fun h member => quiet h (List.mem_cons_of_mem _ member)) count
      (Nat.lt_of_succ_lt_succ low)
    rw [begun, popToHandler_succ _ _ _ dropped, none]
    simp only [inner, Bool.false_eq_true, if_false]
    exact handles.cut shifted

/-- A script error reaches a loop in which a frame catches it. No frame above that one in the loop
does, and the decorators have not been called for it. -/
structure Catches (e : ScriptError) (mark : Mark) (t : State ν) (up : List Frame) (f : Frame)
    (rest : List Frame) (handler : NativeId) : Prop where
  fresh : e.settled = false
  frames : t.framesOf t.current = up ++ f :: rest
  inside : mark.frames ≤ rest.length
  quiet : ∀ g ∈ up, g.handlers.errorHandler = none ∧ g.flags.entryPoint = false
  handler : f.handlers.errorHandler = some handler

/-- The decorators of the frames down to the one that catches, the innermost first. -/
def decoratorsOn (up : List Frame) (f : Frame) : List Value :=
  up.filterMap (·.handlers.decorator) ++ f.handlers.decorator.toList

@[simp] theorem settled_attributed (s : State ν) (e : ScriptError) (ip : Nat) :
    (attributed s e ip).settled = e.settled := by
  unfold attributed
  split
  · rfl
  · rfl

theorem Catches.decorators (catches : Catches e mark t up f rest handler) :
    State.decoratorsOf (t.framesAbove mark) = (decoratorsOn up f, true) := by
  have inside := catches.inside
  have count : (up ++ f :: rest).length - mark.frames =
      up.length + ((rest.length - mark.frames) + 1) := by
    rw [List.length_append, List.length_cons]
    omega
  rw [← State.decoratorsOf_outline, State.outline_framesAbove, catches.frames, count,
    List.take_length_add_append, List.take_succ_cons]
  exact State.decoratorsOf_append catches.quiet (Option.isSome_of_mem catches.handler)

/-- The decorators are called first. -/
theorem Catches.consults (catches : Catches e mark t up f rest handler) (ip : Nat)
    (k : Kont ν .step) :
    unwind library (.script e) ip mark k t =
      runDecorators library (attributed t e ip) true mark k (decoratorsOn up f) t := by
  have unwinds : unwind library (.script e) ip mark k t =
      (if (attributed t e ip).settled then
        popToHandler library (attributed t e ip) mark k (t.callDepth - mark.frames)
      else runDecorators library (attributed t e ip) (State.decoratorsOf (t.framesAbove mark)).2
        mark k (State.decoratorsOf (t.framesAbove mark)).1 : Move ν (Control ν)) t := rfl
  rw [unwinds, settled_attributed, catches.fresh, catches.decorators]
  rfl

/-- When the decorators have had their outcomes, the handler runs. -/
theorem Catches.handles {u : State ν} (catches : Catches e mark t up f rest handler)
    (returned : Returned t u) (e' : ScriptError) :
    Handles library mark k f rest handler e' u
      (begun (runDecorators library e' true mark k []) u) := by
  have frames := returned.frames.trans catches.frames
  have inside := catches.inside
  have low : up.length < u.callDepth - mark.frames := by
    rw [State.callDepth_eq_length, frames, List.length_append, List.length_cons]
    omega
  have handles : Handles library mark k f rest handler { e' with settled := true } u
      (begun (popToHandler library { e' with settled := true } mark k
        (u.callDepth - mark.frames)) u) :=
    popToHandler_handles frames low catches.quiet catches.handler
  -- the mark on the error does not change its message
  change Handles library mark k f rest handler e' u (begun (popToHandler library
    { e' with settled := true } mark k (u.callDepth - mark.frames)) u)
  generalize begun (popToHandler library _ mark k _) u = m at handles
  cases handles with
  | intro same shifted => exact .intro same shifted

/-! ## Runs -/

theorem Meets.hasCurrent {ts : List ThreadId} {control : Control ν} (sound : Sound s ts)
    (linked : Linked M s control ts) (meets : Meets s e mark ip k control t) : t.HasCurrent := by
  cases meets with
  | instruction run =>
    cases linked with
    | execute chain =>
      have executed := Exec.executed ip sound.hasCurrent
      rw [run] at executed
      cases executed with
      | failed rigid => exact rigid.hasCurrent sound.hasCurrent
  | outcome =>
    cases linked with
    | step _ chain => exact sound.hasCurrent

/-- The step in which an error reaches the loop calls the first decorator. -/
theorem Catches.polling {m : Machine ν} (linked : Links M (m.control, m.state))
    (meets : Meets m.state e mark ip k m.control t)
    (catches : Catches e mark t up f rest handler) :
    m.step library = begun (runDecorators library (attributed t e ip) true mark k
        (decoratorsOn up f)) t ∧
      Polling M true mark k (attributed t e ip) (decoratorsOn up f) t := by
  obtain ⟨ts, sound, linked⟩ := linked
  have next : advance library m.control m.state = _ := meets.advance.trans (catches.consults ip k)
  refine ⟨congrArg (fun x : Control ν × State ν => Machine.mk x.1 x.2) next,
    ⟨next ▸ advance_linked sound linked, meets.hasCurrent sound linked, ?_⟩⟩
  rw [catches.frames]
  exact List.append_ne_nil_of_right_ne_nil _ (List.cons_ne_nil _ _)

/-- **Decorators come before the handler.** The host makes a call or resumes a coroutine, and a
script error reaches a loop in which a frame catches it, from wherever it comes. At any time after
that the machine is in the middle of the call of a decorator, and those before it have been called,
once each and the innermost first, each with the message that those before have made; meanwhile all
frames stand. Or all of them have been called so, and then the handler has run with the message that
the last one made, in place of the frame. The last one is that of the frame itself: if it has an
outcome after the others, the handler runs, and if it succeeds, with its result as the message. -/
theorem decorators_precede_handler {s : State ν} {move : Move ν (Control ν)} (root : s.AtRoot)
    (begins : Begins library move) (steps : Nat) :
    let m := (step library)^[steps] (begun move s)
    ∀ {e mark ip k t up f rest handler}, Meets m.state e mark ip k m.control t →
      Catches e mark t up f rest handler →
      (∀ n, Polls library true mark k (Handles library mark k f rest handler) (attributed t e ip)
        (decoratorsOn up f) t ((step library)^[n + 1] m)) ∧
      ∀ decorator, f.handlers.decorator = some decorator →
        ∀ e' u r u', Consulted library (attributed t e ip) (up.filterMap (·.handlers.decorator)) t
            e' u →
          Leads library (asked library decorator e' u) ⟨.value r .host, u'⟩ →
          ∃ m', Leads library m m' ∧
            Handles library mark k f rest handler (applyDecorator u'.heap e' r) u' m' ∧
            ∀ v, r = .ok v → messageValue (applyDecorator u'.heap e' r) =
              .string (v.toString?.getD (u'.heap.display v.scalar)) := by
  intro m e mark ip k t up f rest handler meets catches
  have begun_linked : Links (Manner.any library) (move s) := begins_linked root begins
  have linked : Links (Manner.any library) (m.control, m.state) :=
    iterate_linked (m := begun move s) begun_linked steps
  obtain ⟨next, polling⟩ := catches.polling linked meets
  -- the frames are as they were once the decorators have been called
  have consulted : ∀ {e' u}, Consulted library (attributed t e ip) (decoratorsOn up f) t e' u →
      Returned t u ∧ Leads library (m.step library)
        (begun (runDecorators library e' true mark k []) u) := by
    intro e' u consulted
    rw [next]
    rw [← List.append_nil (decoratorsOn up f)] at polling ⊢
    exact (polling.consulted consulted).2
  refine ⟨fun n => ?_, fun decorator own e' u r u' asked answer => ?_⟩
  · rw [Function.iterate_succ_apply, next]
    refine (polling.polls n).imp fun e' u m' called begun => ?_
    exact begun ▸ catches.handles (consulted called).1 e'
  · have all : Consulted library (attributed t e ip) (decoratorsOn up f) t
        (applyDecorator u'.heap e' r) u' := by
      rw [decoratorsOn, own]
      exact asked.append (.next answer .nobody)
    obtain ⟨returned, leads⟩ := consulted all
    refine ⟨_, .next leads, catches.handles returned _, ?_⟩
    rintro v rfl
    rfl

end Machine

namespace Sample

open Host Machine

/-- The host makes a protected call of a routine that fails, with a decorator, and the error reaches
the loop. -/
def decorating : Machine HostRoutine :=
  (step Host.library)^[7] (begun (call Host.library (Builtin.global .xpcall)
    [Builtin.global .error, Builtin.global .type, .string "x"]) (Host.newState {}))

def failure? (m : Machine HostRoutine) :
    Option (ScriptError × Mark × Nat × Kont HostRoutine .step) :=
  match m.control with
  | .step (.error (.script e)) (.loop mark ip k) => some (e, mark, ip, k)
  | _ => none

theorem meets_decorating {e : ScriptError} {mark : Mark} {ip : Nat} {k : Kont HostRoutine .step}
    (failed : failure? decorating = some (e, mark, ip, k)) :
    Meets decorating.state e mark ip k decorating.control decorating.state := by
  unfold failure? at failed
  split at failed
  · rename_i control
    obtain ⟨rfl, rfl, rfl, rfl⟩ := by simpa only [Option.some.injEq, Prod.mk.injEq] using failed
    exact control ▸ .outcome
  · cases failed

def decorator? (f : Frame) : Option NativeId :=
  match f.handlers.decorator with
  | some (.native n) => some n
  | _ => none

theorem decorator_of_native {f : Frame} {n : NativeId} (decorates : decorator? f = some n) :
    f.handlers.decorator = some (.native n) := by
  unfold decorator? at decorates
  split at decorates
  · rename_i own
    rw [own, Option.some.inj decorates]
  · cases decorates

def answer? (m : Machine HostRoutine) : Option String :=
  match m.control with
  | .value (.ok (.string w)) .host => some w
  | _ => none

end Sample

namespace Machine

open Host

/-- The decorator tells the type of the message, and the handler gets that. -/
theorem decorators_precede_handler_xpcall :
    ∃ e mark ip k f handler,
      Meets Sample.decorating.state e mark ip k Sample.decorating.control Sample.decorating.state ∧
      Catches e mark Sample.decorating.state [] f [] handler ∧
      f.handlers.decorator = some (Builtin.global .type) ∧
      ∃ m' e' u, Leads Host.library Sample.decorating m' ∧
        Handles Host.library mark k f [] handler e' u m' ∧ messageValue e' = .string "string" := by
  have raised : (Sample.failure? Sample.decorating).map (fun x => (x.1.settled, x.2.1.frames)) =
      some (false, 0) := by decide +kernel
  have stands : (Sample.decorating.state.framesOf Sample.decorating.state.current).map
      (fun f => (Sample.decorator? f, f.handlers.errorHandler.isSome)) =
      [(some ⟨2 + Builtin.all.idxOf .type⟩, true)] := by decide +kernel
  have answered : ((Sample.failure? Sample.decorating).bind fun x => Sample.answer?
      ((step Host.library)^[4] (asked Host.library (Builtin.global .type)
        (attributed Sample.decorating.state x.1 x.2.2.1) Sample.decorating.state))) =
      some "string" := by decide +kernel
  obtain ⟨⟨e, mark, ip, k⟩, failed, same⟩ := Option.map_eq_some_iff.1 raised
  obtain ⟨fresh, inside⟩ := Prod.mk.inj same
  obtain ⟨f, _, frames, own, none⟩ := List.map_eq_cons_iff.1 stands
  obtain rfl := List.map_eq_nil_iff.1 none
  obtain ⟨decorates, catcher⟩ := Prod.mk.inj own
  have decorates : f.handlers.decorator = some (Builtin.global .type) :=
    Sample.decorator_of_native decorates
  obtain ⟨handler, catcher⟩ := Option.isSome_iff_exists.1 catcher
  have meets := Sample.meets_decorating failed
  have catches : Catches e mark Sample.decorating.state [] f [] handler :=
    ⟨fresh, frames, Nat.le_of_eq inside, fun _ => nofun, catcher⟩
  refine ⟨e, mark, ip, k, f, handler, meets, catches, decorates, ?_⟩
  rw [failed, Option.bind_some] at answered
  generalize asks : (step Host.library)^[4] (asked Host.library (Builtin.global .type)
    (attributed Sample.decorating.state e ip) Sample.decorating.state) = m at answered
  obtain ⟨control, u⟩ := m
  unfold Sample.answer? at answered
  split at answered
  · rename_i w control
    obtain rfl := Option.some.inj answered
    have begins : Begins Host.library (call Host.library (Builtin.global .xpcall)
        [Builtin.global .error, Builtin.global .type, .string "x"]) := .inl (.call ..)
    have root : (Host.newState {}).AtRoot := ⟨rfl, rfl⟩
    obtain ⟨-, goes⟩ := decorators_precede_handler root begins 7 meets catches
    obtain ⟨m', leads, handles, message⟩ :=
      goes _ decorates _ _ (.ok (.string "string")) u .nobody ⟨4, asks.trans (control ▸ rfl)⟩
    exact ⟨m', _, u, leads, handles, message _ rfl⟩
  · cases answered

/-- What is called in a protected call cannot be called, so that no frame stands when the handler
runs. No decorator is called at any time. -/
theorem uncallable_undecorated :
    let move := call Host.library (Builtin.global .xpcall) [.nil, Builtin.global .type]
    let s := Host.newState {}
    HostCall Host.library move ∧
    (∀ i < 20, ((step Host.library)^[i] (begun move s)).control.decorates = false) ∧
    (perform? Host.library 20 move s).1 matches
      .done (.ok (.tuple [.boolean false, .string "attempt to call a nil value"])) :=
  ⟨.call .., by decide +kernel, by decide +kernel⟩

end Machine

end ScriptMachine
