import ScriptMachine.Proofs.Machine.Blind
import ScriptMachine.Proofs.Machine.Transition

/-!
# Steps of the machine

Everything that one step can make of a control and a state, by who has the turn. Invariants of runs
are proved by cases on this relation.

* `Program.Does`, `Program.Waits`: the operations of a routine.
* `Advances`: one step.
* `advance_advances`: a step of the machine is one of these.
-/

namespace ScriptMachine

variable {ν : Type}

/-- The routine does something on the spot, and goes on. -/
inductive Program.Does : Program ν → Program ν → Prop
  | change {action : World ν → Except Fault Value × World ν}
      {next : Except Fault Value → Program ν} (r : Except Fault Value) :
      Does (.change action next) (next r)
  | ask {query : State ν → Except Fault Value} {next : Except Fault Value → Program ν}
      (r : Except Fault Value) : Does (.ask query next) (next r)
  | print {values : List Value} {next : Program ν} : Does (.print values next) next
  | autoYield {c : ThreadId} {budget : Nat} {next : Program ν} :
      Does (.autoYield c budget next) next
  | spawn {function : Value} {next : Except Fault Value → Program ν} (r : Except Fault Value) :
      Does (.spawn function next) (next r)
  | undump {bytes : List UInt8} {next : Except Fault Value → Program ν} (r : Except Fault Value) :
      Does (.undump bytes next) (next r)
  | assign {name : String} {v : Value} {next : Except Fault Value → Program ν}
      (r : Except Fault Value) : Does (.assign name v next) (next r)

inductive Program.Waits : Program ν → (Except Fault Value → Program ν) → Prop
  | call {function : Value} {arguments : List Value} {next : Except Fault Value → Program ν} :
      Waits (.call function arguments next) next
  | index {object key : Value} {next : Except Fault Value → Program ν} :
      Waits (.index object key next) next
  | resume {c : ThreadId} {arguments : List Value} {next : Except Fault Value → Program ν} :
      Waits (.resume c arguments next) next
  | enter {function : Value} {arguments : List Value} {next : Except Fault Value → Program ν} :
      Waits (.enter function arguments next) next
  | enterMethod {object : Value} {method : String} {arguments : List Value}
      {next : Except Fault Value → Program ν} :
      Waits (.enterMethod object method arguments next) next
  | enterAsync {function : Value} {arguments : List Value}
      {next : Except Fault Value → Program ν} :
      Waits (.enterAsync function arguments next) next

def State.entered (s : State ν) : State ν := { s with entries := s.entries + 1 }

def Control.Ready (s : State ν) : Control ν → Prop
  | .value _ (.task c _) => c.index < s.processors.size
  | .await _ _ => True
  | _ => s.HasCurrent

namespace Machine

inductive Advances (library : Library ν) (s : State ν) : Control ν → Control ν × State ν → Prop
  -- an instruction
  | failed {ip : Nat} {mark : Mark} {k : Kont ν .step} {e : Fault} {s' : State ν}
      {x : Control ν × State ν} : Exec.executeAt ip s = .error e s' → Rigid s s' →
      Fails library ip mark k s' e x → Advances library s (.execute ip mark k) x
  | forced {ip : Nat} {mark : Mark} {k : Kont ν .step} {s' : State ν} :
      Exec.executeAt ip s = .ok none s' → (s.outlineOf s.current).nestedCalls = 0 →
      Shifted ((s.outlineOf s.current).pause (.instruction ip)) s s' →
      Advances library s (.execute ip mark k) (.step (.ok (.suspend .forced)) k, s')
  | moved {ip next : Nat} {mark : Mark} {k : Kont ν .step} {e : Effect} {s' : State ν} :
      Exec.executeAt ip s = .ok (some e) s' → Rigid s s' →
      Advances library s (.execute ip mark k) (.execute next mark k, s')
  | called {ip : Nat} {mark : Mark} {k : Kont ν .step} {spec : CallSpec} {s' : State ν}
      {x : Control ν × State ν} : Exec.executeAt ip s = .ok (some (.call spec)) s' → Rigid s s' →
      (Effect.call spec).Bare ip → Calls library spec (.loop mark ip k) s' x →
      Advances library s (.execute ip mark k) x
  | nested {ip : Nat} {mark : Mark} {k : Kont ν .step} {function : Value} {arguments : List Value}
      {after : After} {s' : State ν} {x : Control ν × State ν} :
      Exec.executeAt ip s = .ok (some (.nested function arguments after)) s' → Rigid s s' →
      Nests library (.instruction after ip (.loop mark ip k)) s' x →
      Advances library s (.execute ip mark k) x
  | left {ip : Nat} {mark : Mark} {k : Kont ν .step} {f : Frame} {v : Value} {rest : List Frame}
      {s' : State ν} {x : Control ν × State ν} :
      Exec.executeAt ip s = .ok (some (.leave f v)) s' →
      s.framesOf s.current = f.outline :: rest →
      Shifted ((s.outlineOf s.current).cut rest) s s' →
      Finishes library f v false (.loop mark ip k) s' x → Advances library s (.execute ip mark k) x
  | reused {ip : Nat} {mark : Mark} {k : Kont ν .step} {f : Frame} {spec : CallSpec}
      {rest : List Frame} {s' : State ν} {x : Control ν × State ν} :
      Exec.executeAt ip s = .ok (some (.call spec)) s' →
      s.framesOf s.current = f.outline :: rest → f.handlers.isEmpty = true →
      Shifted ((s.outlineOf s.current).cut rest) s s' → spec.handlers = {} →
      spec.returnAddress = f.returnAddress →
      spec.flags = f.flags.inherited.union { tailCall := true } →
      Calls library spec (.loop mark ip k) s' x → Advances library s (.execute ip mark k) x
  -- an operation of a routine
  | finished {r : Except Fault Value} {k : Kont ν .value} :
      Advances library s (.run (.finish r) k) (.value r k, s)
  | did {p p' : Program ν} {k : Kont ν .value} {s' : State ν} : p.Does p' → Rigid s s' →
      Advances library s (.run p k) (.run p' k, s')
  | spawned {p p' : Program ν} {k : Kont ν .value} {function : Value} : p.Does p' →
      Advances library s (.run p k) (.run p' k, (s.newCoroutine function).2)
  | waits {p : Program ν} {next : Except Fault Value → Program ν} {k : Kont ν .value}
      {x : Control ν × State ν} : p.Waits next → Nests library (.routine next k) s x →
      Advances library s (.run p k) x
  | looked {p : Program ν} {next : Except Fault Value → Program ν} {k : Kont ν .value}
      {r : Except Fault Value} : p.Waits next →
      Advances library s (.run p k) (.value r (.routine next k), s)
  | looks {p : Program ν} {next : Except Fault Value → Program ν} {k : Kont ν .value}
      {x : Control ν × State ν} : p.Waits next → Nests library (.collapse (.routine next k)) s x →
      Advances library s (.run p k) x
  | resumes {p : Program ν} {next : Except Fault Value → Program ν} {k : Kont ν .value}
      {c : ThreadId} {x : Control ν × State ν} : p.Waits next →
      Resumes library .synchronous c (.routine next k) s x → Advances library s (.run p k) x
  | enters {p : Program ν} {next : Except Fault Value → Program ν} {k : Kont ν .value}
      {x : Control ν × State ν} : p.Waits next →
      Nests library (.exit (.routine next k)) s.entered x → Advances library s (.run p k) x
  | found {p : Program ν} {next : Except Fault Value → Program ν} {k : Kont ν .value}
      {object : Value} {name : String} {arguments : List Value} {r : Except Fault Value} :
      p.Waits next → Advances library s (.run p k)
        (.value r (.method object name arguments (.exit (.routine next k))), s.entered)
  | finds {p : Program ν} {next : Except Fault Value → Program ν} {k : Kont ν .value}
      {object : Value} {name : String} {arguments : List Value} {x : Control ν × State ν} :
      p.Waits next → Nests library
        (.collapse (.method object name arguments (.exit (.routine next k)))) s.entered x →
      Advances library s (.run p k) x
  | drives {p : Program ν} {next : Except Fault Value → Program ν} {k : Kont ν .value}
      {x : Control ν × State ν} : p.Waits next →
      Drives library (.exit (.routine next k)) s.entered x → Advances library s (.run p k) x
  -- a value
  | host {r : Except Fault Value} : Advances library s (.value r .host) (.value r .host, s)
  | routine {r : Except Fault Value} {next : Except Fault Value → Program ν} {k : Kont ν .value} :
      Advances library s (.value r (.routine next k)) (.run (next r) k, s)
  | nativeFailed {r : Except Fault Value} {e : Fault} {k : Kont ν .step} :
      Advances library s (.value r (.native k)) (.step (.error e) k, s)
  | native {v : Value} {f : Frame} {rest : List Frame} {k : Kont ν .step} {s' : State ν}
      {x : Control ν × State ν} : s.framesOf s.current = f.outline :: rest →
      Shifted ((s.outlineOf s.current).cut rest) s s' → s'.world = s.world →
      Finishes library f v true k s' x → Advances library s (.value (.ok v) (.native k)) x
  | finishFailed {e : Fault} {frame : Frame} {k : Kont ν .step} :
      Advances library s (.value (.error e) (.finish frame k)) (.step (.error e) k, s)
  | finish {v : Value} {frame : Frame} {k : Kont ν .step} {x : Control ν × State ν} :
      Finishes library frame v true k s x → Advances library s (.value (.ok v) (.finish frame k)) x
  | instructionFailed {r : Except Fault Value} {after : After} {ip : Nat} {e : Fault}
      {k : Kont ν .step} {s' : State ν} : Rigid s s' →
      Advances library s (.value r (.instruction after ip k)) (.step (.error e) k, s')
  | instruction {r : Except Fault Value} {after : After} {ip : Nat} {k : Kont ν .step}
      {s' : State ν} : Rigid s s' →
      Advances library s (.value r (.instruction after ip k))
        (.step (.ok (.proceed (ip + 1))) k, s')
  | decorator {r : Except Fault Value} {e : ScriptError} {others : List Value} {caught : Bool}
      {mark : Mark} {k : Kont ν .step} {x : Control ν × State ν} :
      Decorates library (applyDecorator s.heap e r) caught mark k s others x →
      Advances library s (.value r (.decorator e others caught mark k)) x
  | collapse {r : Except Fault Value} {k : Kont ν .value} :
      Advances library s (.value r (.collapse k)) (.value (r.map Value.scalar) k, s)
  | methodFailed {e : Fault} {object : Value} {name : String} {arguments : List Value}
      {k : Kont ν .value} :
      Advances library s (.value (.error e) (.method object name arguments k))
        (.value (.error e) k, s)
  | method {v object : Value} {name : String} {arguments : List Value} {k : Kont ν .value}
      {x : Control ν × State ν} : Nests library k s x →
      Advances library s (.value (.ok v) (.method object name arguments k)) x
  | asyncMethodFailed {e : Fault} {object : Value} {arguments : List Value} {k : Kont ν .value} :
      Advances library s (.value (.error e) (.asyncMethod object arguments k))
        (.value (.error e) k, s)
  | asyncMethod {v object : Value} {arguments : List Value} {k : Kont ν .value}
      {x : Control ν × State ν} : Drives library k s x →
      Advances library s (.value (.ok v) (.asyncMethod object arguments k)) x
  | exit {r : Except Fault Value} {k : Kont ν .value} :
      Advances library s (.value r (.exit k)) (.value r k, { s with entries := s.entries - 1 })
  | task {r : Except Fault Value} {c : ThreadId} {k : Kont ν .step} {x : Control ν × State ν} :
      Picks library r true k { s with current := c } x →
      Advances library s (.value r (.task c k)) x
  -- a step of a thread
  | loopFailed {e : Fault} {mark : Mark} {ip : Nat} {k : Kont ν .step} {x : Control ν × State ν} :
      Fails library ip mark k s e x → Advances library s (.step (.error e) (.loop mark ip k)) x
  | proceeds {next : Nat} {mark : Mark} {ip : Nat} {k : Kont ν .step} :
      Advances library s (.step (.ok (.proceed next)) (.loop mark ip k)) (.execute next mark k, s)
  | loopLeft {r : Except Fault Step} {mark : Mark} {ip : Nat} {k : Kont ν .step} :
      (∀ e, r ≠ .error e) → (∀ next, r ≠ .ok (.proceed next)) →
      Advances library s (.step r (.loop mark ip k)) (.step r k, s)
  | guardFires {e : ScriptError} {frame : Frame} {handler : NativeId} {mark : Mark}
      {k : Kont ν .step} {s' : State ν} : s.callDepth = mark.frames → Rigid s s' →
      Advances library s (.step (.error (.script e)) (.protect frame handler mark k))
        (.run (handling library s' handler e) (.finish frame k), s')
  | guardPassed {r : Except Fault Step} {frame : Frame} {handler : NativeId} {mark : Mark}
      {k : Kont ν .step} : (∀ e, r = .error (.script e) → s.callDepth ≠ mark.frames) →
      Advances library s (.step r (.protect frame handler mark k)) (.step r k, s)
  | nestedEnded {r : Except Fault Step} {k : Kont ν .value} {s' : State ν} :
      Shifted { s.outlineOf s.current with
        nestedCalls := (s.outlineOf s.current).nestedCalls - 1 } s s' →
      Advances library s (.step r (.nested k)) (.value (expectReturn r) k, s')
  | driveAwaits {task : Task} {previous : Bool} {k : Kont ν .value} :
      Advances library s (.step (.ok (.suspend (.await task))) (.drive previous k))
        (.await task (.task s.current (.drive previous k)), s)
  | driveEnded {r : Except Fault Step} {previous : Bool} {k : Kont ν .value} {s' : State ν} :
      (∀ task, r ≠ .ok (.suspend (.await task))) →
      Shifted { s.outlineOf s.current with asyncMode := previous } s s' →
      Advances library s (.step r (.drive previous k)) (.value (expectReturn r) k, s')
  | resumedAwaits {task : Task} {c previous : ThreadId} {k : Kont ν .value} :
      Advances library s
        (.step (.ok (.suspend (.await task))) (.resumed .asynchronous c previous k))
        (.await task (.task c (.resumed .asynchronous c previous k)),
          { s with current := previous })
  | resumedEnded {r : Except Fault Step} {mode : ResumeMode} {c previous : ThreadId}
      {k : Kont ν .value} {s' : State ν} :
      Switches previous c (resumeOutcome r).1 s.active.tail s s' →
      Advances library s (.step r (.resumed mode c previous k)) (.value (resumeOutcome r).2 k, s')
  -- a task
  | settles {r : Except Fault Value} {k : Kont ν .value} :
      Advances library s (.await (.settles r) k) (.value r k, s)
  | stalls {k : Kont ν .value} : Advances library s (.await .never k) (.await .never k, s)

section

variable {library : Library ν} {s : State ν}

theorem execute_advances (ip : Nat) (mark : Mark) (k : Kont ν .step) (here : s.HasCurrent) :
    Advances library s (.execute ip mark k) (advance library (.execute ip mark k) s) := by
  have executed := Exec.executed ip here
  change Advances library s (.execute ip mark k) ((Exec.executeAt ip).andThen
    (fun effect => perform library ip mark k effect) (fun e => unwind library e ip mark k) s)
  unfold Exec.andThen
  generalize run : Exec.executeAt ip s = result at executed
  cases executed with
  | failed rigid => exact .failed run rigid (unwind_fails _ _ _ _ (rigid.hasCurrent here))
  | forced alone shifted => exact .forced run alone shifted
  | @asked effect s' rigid bare =>
    have here := rigid.hasCurrent here
    cases effect with
    | next => exact .moved run rigid
    | jump target => exact .moved run rigid
    | call spec => exact .called run rigid bare (performCall_calls _ _ here)
    | leave frame v => exact bare.elim
    | nested function arguments after =>
      exact .nested run rigid (callNested_nests _ _ _ here)
  | left frames shifted =>
    exact .left run frames shifted (finishFrame_finishes _ _ _ _ (shifted.hasCurrent here))
  | reused frames empty shifted handlers address flags =>
    exact .reused run frames empty shifted handlers address flags
      (performCall_calls _ _ (shifted.hasCurrent here))

theorem direct_advances {p : Program ν} {work : Exec ν Value} (keeps : work.Keeps s)
    {next : Except Fault Value → Program ν} (does : ∀ r, p.Does (next r)) (k : Kont ν .value) :
    Advances library s (.run p k) (runProgram.direct k work next s) := by
  unfold runProgram.direct Exec.andThen
  cases run : work s with
  | ok v s' => exact .did (does _) (keeps.ok run)
  | error e s' => exact .did (does _) (keeps.error run)

theorem runProgram_advances (p : Program ν) (k : Kont ν .value) (here : s.HasCurrent)
    (size : s.processors.size = s.coroutines.size + 1) :
    Advances library s (.run p k) (runProgram library k p s) := by
  have here' : s.entered.HasCurrent := here
  cases p with
  | finish outcome => exact .finished
  | change action next => exact .did (.change (action s.world).1) (rigid_of_eq rfl)
  | ask query next => exact .did (.ask (query s)) (.refl s)
  | print values next => exact .did .print (rigid_of_eq rfl)
  | spawn function next =>
    change Advances library s _ (runProgram.direct k (Exec.spawn function) next s)
    rw [direct_spawn]
    split
    · exact .spawned (.spawn _)
    · exact .did (.spawn _) (.refl s)
  | autoYield c budget next =>
    refine .did .autoYield ?_
    change Rigid s (if s.coroutineState c = .running then s
      else s.modifyProcessorOf c fun p => { p with autoYield := budget })
    split
    · exact .refl s
    · exact rigid_modifyProcessorOf s c fun _ => rfl
  | undump bytes next => exact direct_advances (Exec.keeps_undump bytes) .undump k
  | assign name v next =>
    exact direct_advances (Exec.keeps_bind (Exec.keeps_assignAll _) fun _ _ => Exec.keeps_pure _)
      .assign k
  | call function arguments next => exact .waits .call (callNested_nests _ _ _ here)
  | index object key next =>
    change Advances library s _ (indexNested library object key (.routine next k) s)
    obtain ⟨r, done⟩ | nests := indexNested_cases library object key (.routine next k) here
    · exact done ▸ .looked .index
    · exact .looks .index nests
  | resume c arguments next => exact .resumes .resume (resume_resumes _ _ _ _ size)
  | enter function arguments next => exact .enters .enter (callNested_nests _ _ _ here')
  | enterMethod object method arguments next =>
    change Advances library s _ (indexNested library object (.string method)
      (.method object method arguments (.exit (.routine next k))) s.entered)
    obtain ⟨r, done⟩ | nests := indexNested_cases library object (.string method)
      (.method object method arguments (.exit (.routine next k))) here'
    · exact done ▸ .found .enterMethod
    · exact .finds .enterMethod nests
  | enterAsync function arguments next =>
    exact .drives .enterAsync (driveAsync_drives _ _ _ here')

theorem handValue_advances (r : Except Fault Value) (k : Kont ν .value)
    (ready : (Control.value r k).Ready s) :
    Advances library s (.value r k) (handValue library r k s) := by
  cases k with
  | host => exact .host
  | routine next k => exact .routine
  | native k =>
    cases r with
    | error e => exact .nativeFailed
    | ok v =>
      rw [handValue_native_ok]
      unfold Exec.andThen
      obtain ⟨-, run⟩ | ⟨f, s', rest, run, frames, shifted, world⟩ := Exec.popFrame_cases s
      · rw [run]
        exact .nativeFailed
      · rw [run]
        exact .native frames shifted world
          (finishFrame_finishes _ _ _ _ (shifted.hasCurrent ready))
  | finish frame k =>
    cases r with
    | error e => exact .finishFailed
    | ok v => exact .finish (finishFrame_finishes _ _ _ _ ready)
  | instruction after ip k =>
    cases r with
    | error e => exact .instructionFailed (.refl s)
    | ok v =>
      have keeps := Exec.keeps_finishNested (s := s) after v
      rw [handValue_instruction_ok]
      unfold Exec.andThen
      cases run : Exec.finishNested after v s with
      | ok _ s' => exact .instruction (keeps.ok run)
      | error e s' => exact .instructionFailed (keeps.error run)
  | decorator error others caught mark k =>
    exact .decorator (runDecorators_decorates _ _ _ _ _ ready)
  | collapse k => exact .collapse
  | method object name arguments k =>
    cases r with
    | error e => exact .methodFailed
    | ok method =>
      have begun := shifted_modifyProcessor ready fun p =>
        { p with nestedCalls := p.nestedCalls + 1 }
      obtain ⟨spec, enters, calls⟩ := executeCall_calls library method (object :: arguments)
        { methodCall := true } (some name) (.nested k) (begun.hasCurrent ready)
      refine .method (.entered enters ?_ begun calls)
      exact (State.callDepth_eq_length _).trans
        ((congrArg List.length begun.frames).trans s.callDepth_eq_length.symm)
  | asyncMethod object arguments k =>
    cases r with
    | error e => exact .asyncMethodFailed
    | ok method => exact .asyncMethod (driveAsync_drives _ _ _ ready)
  | exit k => exact .exit
  | task c k => exact .task (resumePending_picks _ _ _ ready)

theorem handStep_advances (r : Except Fault Step) (k : Kont ν .step) (here : s.HasCurrent) :
    Advances library s (.step r k) (handStep library r k s) := by
  cases k with
  | loop mark ip k =>
    match r with
    | .error e => exact .loopFailed (unwind_fails _ _ _ _ here)
    | .ok (.proceed next) => exact .proceeds
    | .ok (.return v) | .ok (.suspend reason) => exact .loopLeft (fun _ => nofun) fun _ => nofun
  | protect frame handler mark k =>
    match r with
    | .ok step => exact .guardPassed fun _ => nofun
    | .error (.script e) =>
      rw [handStep_protect_script]
      split
      · exact .guardFires ‹_› (rigid_modifyStack ..)
      · rename_i depth
        exact .guardPassed fun _ _ => depth
    | .error (.defect _) | .error (.watch _) | .error (.format _) | .error .instructionLimit
    | .error .concurrentAccess | .error (.transfer _) => exact .guardPassed fun _ => nofun
  | nested k =>
    exact .nestedEnded (shifted_modifyProcessor here fun p =>
      { p with nestedCalls := p.nestedCalls - 1 })
  | drive previous k =>
    by_cases waits : ∃ task, r = .ok (.suspend (.await task))
    · obtain ⟨task, rfl⟩ := waits
      exact .driveAwaits
    · have ends : ∀ task, r ≠ .ok (.suspend (.await task)) := fun task eq => waits ⟨task, eq⟩
      rw [handStep_drive ends]
      exact .driveEnded ends
        (shifted_modifyProcessor here fun p => { p with asyncMode := previous })
  | resumed mode c previous k =>
    by_cases waits : mode = .asynchronous ∧ ∃ task, r = .ok (.suspend (.await task))
    · obtain ⟨rfl, task, rfl⟩ := waits
      exact .resumedAwaits
    · obtain ⟨s', run, switches⟩ := endResume_switches (s := s) mode c previous r k
      rw [handStep_resumed, run]
      · exact .resumedEnded switches
      · cases mode with
        | synchronous => exact .inl rfl
        | asynchronous => exact .inr fun task eq => waits ⟨rfl, task, eq⟩

/-- **A step of the machine is one of these.** -/
theorem advance_advances {control : Control ν} (ready : control.Ready s)
    (size : s.processors.size = s.coroutines.size + 1) :
    Advances library s control (advance library control s) := by
  cases control with
  | execute ip mark k => exact execute_advances ip mark k ready
  | run p k => exact runProgram_advances p k ready size
  | step r k => exact handStep_advances r k ready
  | value r k => exact handValue_advances r k ready
  | await task k =>
    cases task with
    | settles r => exact .settles
    | never => exact .stalls

end

end Machine

end ScriptMachine
