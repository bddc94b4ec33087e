import ScriptMachine.Proofs.Machine.Chain
import ScriptMachine.Proofs.Machine.Heeding
import ScriptMachine.Proofs.Machine.Veil

/-!
# A handler in the loop of an instruction, and in a loop of its own

An instruction calls a handler in the loop that is under way; a routine calls it in a loop of its
own. Everything that waits above the handler's frame is the same in both; below, in the one case
the loop goes on with the result, in the other the loop is left with it.

* `Site`: where a handler runs, and who waits for it in the two ways.
* `Kont.Joins`: those who wait in the two ways, for what happens above the frames below the handler.
* `Tandem`: two machines that do the same.
-/

namespace ScriptMachine

variable {ν α β : Type}

/-- Both frames give their results in the same way. -/
structure Frame.Likens (f g : Frame) : Prop where
  entryPoint : g.flags.entryPoint = f.flags.entryPoint
  scalarResult : g.flags.scalarResult = f.flags.scalarResult
  discardResult : g.flags.discardResult = f.flags.discardResult
  returnAddress : g.returnAddress = f.returnAddress

/-- Where a handler runs: above which frames of which thread, who waits for it in the loop of an
instruction, and who waits where it has a loop of its own. -/
structure Site (ν : Type) where
  thread : ThreadId
  /-- The frames below, the innermost first. -/
  low : List Frame
  /-- The loop of the instruction. -/
  mark : Mark
  waits : Kont ν .step
  /-- Where the instruction's function goes on. -/
  address : Nat
  /-- The height of the stack in the handler's own loop. -/
  height : Nat
  outer : Kont ν .value
  above : mark.frames < low.length

namespace Site

variable (x : Site ν) (c : ThreadId) (up : List Frame)

def depth : Nat := x.low.length

def inner : Mark := ⟨x.depth, x.height⟩

def callers : List Frame := x.low.take (x.depth - x.mark.frames)

/-- The frames above those below the handler, with one more on the thread that runs. -/
def atop (f : Frame) : List Frame := if c = x.thread then f :: up else up

/-- The frame that is popped, or would be pushed, as it looks in the handler's own loop. -/
def Garbs (f f' : Frame) : Prop :=
  if c = x.thread ∧ up = [] then ∃ name, f' = f.asEntry name else f' = f

/-- The call, as it is made in the handler's own loop. -/
def Recasts (spec spec' : CallSpec) : Prop :=
  if c = x.thread ∧ up = [] then ∃ name, spec' = spec.asEntry name else spec' = spec

/-- The frame gives its result to the instruction, as a scalar. -/
structure Takes (f : Frame) : Prop where
  address : f.returnAddress = x.address
  scalar : f.flags.scalarResult = true
  keeps : f.flags.discardResult = false

/-- The decorators that are polled, and whether the error is caught: those of the handler's frames,
or those of the frames below as well. -/
inductive Polls (mark : Mark) : List Value → Bool → List Value → Bool → Prop
  | same (others : List Value) (caught : Bool) : Polls mark others caught others caught
  | beyond (others : List Value) : c = x.thread → mark = x.mark →
      (∀ f ∈ up, f.handlers.errorHandler = none) →
      Polls mark (others ++ (State.decoratorsOf x.callers).1) (State.decoratorsOf x.callers).2
        others false

end Site

/-- Those who wait in the two ways. The thread `c` runs, `n` calls are nested in the handler's
frames of its thread, and these are `up`. Who waits for a step counts the frame of the call among
them. -/
inductive Kont.Joins (x : Site ν) :
    ThreadId → Nat → List Frame → {a : Awaited} → Kont ν a → Kont ν a → Prop
  | routine {c : ThreadId} {n : Nat} {up : List Frame} {next next' : Except Fault Value → Program ν}
      {k k' : Kont ν .value} : NextAccords next next' → Joins x c n up k k' →
      Joins x c n up (.routine next k) (.routine next' k')
  | native {c : ThreadId} {n : Nat} {up : List Frame} {k k' : Kont ν .step} :
      (c = x.thread → ∃ f us, up = f :: us ∧ f.isNative = true) → Joins x c n up k k' →
      Joins x c n up (.native k) (.native k')
  | finish {c : ThreadId} {n : Nat} {up : List Frame} {f f' : Frame} {k k' : Kont ν .step} :
      x.Garbs c up f f' → Joins x c n (x.atop c up f) k k' →
      Joins x c n up (.finish f k) (.finish f' k')
  | instruction {c : ThreadId} {n : Nat} {up : List Frame} {after : After} {ip : Nat}
      {mark mark' : Mark} {k k' : Kont ν .step} :
      Joins x c n up (.loop mark ip k) (.loop mark' ip k') →
      Joins x c n up (.instruction after ip (.loop mark ip k))
        (.instruction after ip (.loop mark' ip k'))
  | decorator {c : ThreadId} {n : Nat} {up vs : List Frame} {e e' : ScriptError}
      {others others' : List Value} {caught caught' : Bool} {mark mark' : Mark} {ip : Nat}
      {k k' : Kont ν .step} : (Fault.script e).untraced = (Fault.script e').untraced →
      (vs = up ∨ c = x.thread ∧ ∃ f, vs = f :: up) →
      x.Polls c up mark others caught others' caught' →
      Joins x c n vs (.loop mark ip k) (.loop mark' ip k') →
      Joins x c n up (.decorator e others caught mark k) (.decorator e' others' caught' mark' k')
  | collapse {c : ThreadId} {n : Nat} {up : List Frame} {k k' : Kont ν .value} :
      Joins x c n up k k' → Joins x c n up (.collapse k) (.collapse k')
  | method {c : ThreadId} {n : Nat} {up : List Frame} {object : Value} {name : String}
      {arguments : List Value} {k k' : Kont ν .value} : Joins x c n up k k' →
      Joins x c n up (.method object name arguments k) (.method object name arguments k')
  | exit {c : ThreadId} {n : Nat} {up : List Frame} {k k' : Kont ν .value} :
      Joins x c n up k k' → Joins x c n up (.exit k) (.exit k')
  | task {c d : ThreadId} {n : Nat} {up : List Frame} {k k' : Kont ν .step} : d ≠ x.thread →
      Joins x d n up k k' → Joins x c n up (.task d k) (.task d k')
  | protect {c : ThreadId} {n : Nat} {up : List Frame} {f f' : Frame} {handler : NativeId}
      {mark : Mark} {k k' : Kont ν .step} :
      (c = x.thread → ∃ g us, up = g :: us ∧ g.Likens f ∧ mark.frames = us.length + x.depth ∧
        x.Garbs c us f f') →
      (c ≠ x.thread → f' = f) → Joins x c n up k k' →
      Joins x c n up (.protect f handler mark k) (.protect f' handler mark k')
  /-- A loop of another thread. -/
  | away {c : ThreadId} {n : Nat} {up : List Frame} {mark : Mark} {ip : Nat} {k k' : Kont ν .step} :
      c ≠ x.thread → Joins x c n up k k' → Joins x c n up (.loop mark ip k) (.loop mark ip k')
  /-- A loop that was entered above the handler. -/
  | within {c : ThreadId} {n m : Nat} {up js ws : List Frame} {e : Frame} {mark : Mark} {ip : Nat}
      {k k' : Kont ν .value} : c = x.thread → n = m + 1 → up = js ++ e :: ws →
      (∀ j ∈ js, j.flags.entryPoint = false) → e.flags.entryPoint = true →
      mark.frames = ws.length + x.depth → Joins x c m ws k k' →
      Joins x c n up (.loop mark ip (.nested k)) (.loop mark ip (.nested k'))
  /-- The loop that the handler runs in. -/
  | base {c : ThreadId} {n : Nat} {up l : List Frame} {b : Frame} {mark mark' : Mark} {ip ip' : Nat}
      {k k' : Kont ν .step} : c = x.thread → n = 0 → mark = x.mark → mark' = x.inner → k = x.waits →
      k' = .nested x.outer → up = l ++ [b] → (∀ j ∈ up, j.flags.entryPoint = false) → x.Takes b →
      (ip = ip' ∨ l = []) → Joins x c n up (.loop mark ip k) (.loop mark' ip' k')
  | nested {c : ThreadId} {n : Nat} {up : List Frame} {k k' : Kont ν .value} : c ≠ x.thread →
      Joins x c n up k k' → Joins x c n up (.nested k) (.nested k')
  | drive {c : ThreadId} {n : Nat} {up : List Frame} {previous : Bool} {k k' : Kont ν .value} :
      c ≠ x.thread → Joins x c n up k k' → Joins x c n up (.drive previous k) (.drive previous k')
  | resumed {c previous : ThreadId} {n : Nat} {up : List Frame} {k k' : Kont ν .value} :
      c ≠ x.thread → Joins x previous n up k k' →
      Joins x c n up (.resumed .synchronous c previous k) (.resumed .synchronous c previous k')

/-- How a step that is handed to those who wait on the handler's thread stands to its frames: `vs`
are these with the frame of the call. -/
inductive Handover (up : List Frame) : List Frame → Except Fault Step → Except Fault Step →
    Kont ν .step → Kont ν .step → Prop
  | begun {ip : Nat} {k k' : Kont ν .step} :
      Handover up up (.ok (.proceed ip)) (.ok (.proceed ip)) k k'
  | landed {f : Frame} {ip : Nat} {k k' : Kont ν .step} : f.flags.entryPoint = false → up ≠ [] →
      Handover up (f :: up) (.ok (.proceed ip)) (.ok (.proceed ip)) k k'
  | returned {f : Frame} {v : Value} {k k' : Kont ν .step} : f.flags.entryPoint = true →
      Handover up (f :: up) (.ok (.return v)) (.ok (.return v)) k k'
  | refused {f : Frame} {e e' : Fault} {k k' : Kont ν .step} : e.untraced = e'.untraced →
      Handover up (f :: up) (.error e) (.error e') k k'
  | failed {f : Frame} {us : List Frame} {e e' : Fault} {k k' : Kont ν .step} :
      e.untraced = e'.untraced → up = f :: us → f.isNative = true →
      Handover up up (.error e) (.error e') k k'
  | worked {e e' : Fault} {mark mark' : Mark} {ip : Nat} {k k' : Kont ν .step} :
      e.untraced = e'.untraced → Handover up up (.error e) (.error e') (.loop mark ip k)
        (.loop mark' ip k')

/-- What the two machines do next. The handler's thread is not suspended. -/
inductive Control.Joins (x : Site ν) (c : ThreadId) (n : Nat) (up : List Frame) :
    Control ν → Control ν → Prop
  | execute {ip : Nat} {mark mark' : Mark} {k k' : Kont ν .step} :
      Kont.Joins x c n up (.loop mark ip k) (.loop mark' ip k') →
      Joins x c n up (.execute ip mark k) (.execute ip mark' k')
  | run {p p' : Program ν} {k k' : Kont ν .value} : p.Accords p' → k.Joins x c n up k' →
      Joins x c n up (.run p k) (.run p' k')
  | value {r r' : Except Fault Value} {k k' : Kont ν .value} : Concurs r r' → k.Joins x c n up k' →
      Joins x c n up (.value r k) (.value r' k')
  | await {task : Task} {k k' : Kont ν .value} : k.Joins x c n up k' →
      Joins x c n up (.await task k) (.await task k')
  | away {r r' : Except Fault Step} {k k' : Kont ν .step} : c ≠ x.thread → Concurs r r' →
      k.Joins x c n up k' → Joins x c n up (.step r k) (.step r' k')
  | step {vs : List Frame} {r r' : Except Fault Step} {k k' : Kont ν .step} : c = x.thread →
      Handover up vs r r' k k' → k.Joins x c n vs k' → Joins x c n up (.step r k) (.step r' k')
  /-- A loop above the handler is left. -/
  | left {m : Nat} {r r' : Except Fault Step} {k k' : Kont ν .value} : c = x.thread → n = m + 1 →
      Concurs r r' → k.Joins x c m up k' →
      Joins x c n up (.step r (.nested k)) (.step r' (.nested k'))

/-- The state in which these are the handler's frames, with so many calls nested in them. -/
structure Site.Shows (x : Site ν) (v : Veil) (n : Nat) (up : List Frame) (s : State ν) : Prop where
  thread : v.thread = x.thread
  depth : v.depth = x.depth
  frames : s.framesOf x.thread = up ++ x.low
  nested : n ≤ (s.outlineOf x.thread).nestedCalls

/-- The machines do the same: the handler is in the loop of the instruction, or in a loop of its
own. In the first the result may be on the stack already, when it is still to be handed on in the
other. -/
inductive Tandem (x : Site ν) : Control ν × State ν → Control ν × State ν → Prop
  | mk {v : Veil} {n : Nat} {up : List Frame} {s : State ν} {control control' : Control ν} :
      x.Shows v n up s → control.Joins x s.current n up control' →
      Tandem x (control, s) (control', s.veiled v)
  | returning {v : Veil} {n : Nat} {b : Frame} {s : State ν} {k k' : Kont ν .step} {w : Value} :
      x.Shows v n [] s → s.current = x.thread → b.flags.entryPoint = false → x.Takes b →
      k.Joins x s.current n [b] k' →
      Tandem x (.step (.ok (.proceed x.address)) k, s.modifyStack (·.push w.scalar))
        (.step (.ok (.return w)) k', s.veiled v)

end ScriptMachine
