import ScriptMachine.Machine.Call

/-!
# Unwinding

What happens to an error.

* `decorate` attributes it to the instruction that the innermost script frame executes, and keeps a
  trace of all frames.
* Decorators of the frames up to the one that catches it may then replace its message, before any
  frame is popped.
* `popToHandler` pops frames until one has an error handler, or down to the mark.

Faults other than script errors are never caught.
-/

namespace ScriptMachine

namespace State

variable {ν : Type}

/-- Where each frame is, the innermost first: the top frame at `ip`, any other at the call that
made the frame above it. -/
def frameAddresses (ip : Nat) : List Frame → List Nat
  | [] => []
  | frame :: below => ip :: frameAddresses (frame.returnAddress - 1) below

/-- The place of an instruction of a script frame in its source. -/
def locationOf (s : State ν) (frame : Frame) (ip : Nat) : Option String := do
  let f ← frame.closure?
  let span ← (s.closure f).proto.span? ip
  return span.location (s.sourceName span.source.toNat) s.options.lineLocations

def traceEntry (s : State ν) (frame : Frame) (ip : Nat) : TraceEntry :=
  { function := some (s.frameName frame)
    location := s.locationOf frame ip
    isNative := frame.isNative }

/-- The frames that run now with their addresses, the innermost first. -/
def frameTrail (s : State ν) (ip : Nat) : List (Frame × Nat) :=
  let frames := s.processor.frames.toList.reverse
  frames.zip (frameAddresses ip frames)

/-- Attributes an error raised while the top frame was at `ip`. -/
def decorate (s : State ν) (e : ScriptError) (ip : Nat) : ScriptError :=
  let trail := s.frameTrail ip
  let (location, address) := match trail.find? fun (frame, _) => !frame.isNative with
    | some (frame, at_) => (s.locationOf frame at_, at_)
    | none => (none, ip)
  { e with
    decoration := location.map fun place => place ++ ": " ++ e.rawMessage
    address := some address
    trace := trail.map fun (frame, at_) => s.traceEntry frame at_ }

/-- The decorators from the innermost frame to the first that catches errors or was entered from
outside, and whether there is one that catches. -/
def decoratorsOf : List Frame → List Value × Bool
  | [] => ([], false)
  | frame :: below =>
    let own := frame.handlers.decorator.toList
    if frame.handlers.errorHandler.isSome then (own, true)
    else if frame.flags.entryPoint then (own, false)
    else
      let (others, caught) := decoratorsOf below
      (own ++ others, caught)

/-- The frames above a mark, the innermost first. -/
def framesAbove (s : State ν) (mark : Mark) : List Frame :=
  (s.processor.frames.toList.drop mark.frames).reverse

end State

namespace Machine

variable {ν : Type}

/-- Pops a frame, as long as there is one. -/
def dropFrame : Move ν (Option Frame) := fun s =>
  match Exec.popFrame s with
  | .ok frame s => (some frame, s)
  | .error _ s => (none, s)

/-- Pops `count` frames without regard to their handlers. -/
def dropFrames : Nat → Move ν Unit
  | 0 => return ()
  | count + 1 => do
    let _ ← dropFrame
    dropFrames count

/-- Drops everything above a mark. -/
def abandon (mark : Mark) : Move ν Unit := do
  dropFrames ((← get).callDepth - mark.frames)
  modify fun s => s.modifyStack (·.truncate mark.stack)

/-- The message of an error, for a handler. -/
def messageValue (e : ScriptError) : Value := .string e.message

/-- Pops at most `count` frames until one catches the error, whose handler then runs, or until one
was entered from outside. -/
def popToHandler (library : Library ν) (e : ScriptError) (mark : Mark) (k : Kont ν .step) :
    Nat → Move ν (Control ν)
  | 0 => giveUp
  | count + 1 => do
    match ← dropFrame with
    | none => giveUp
    | some frame =>
      match frame.handlers.errorHandler with
      | some handler =>
        invoke library handler [messageValue e] false
          (.finish (disarmed frame) (.loop mark (frame.returnAddress - 1) k))
      | none =>
        if frame.flags.entryPoint then giveUp else popToHandler library e mark k count
where
  /-- Nothing catches the error: it leaves the loop. -/
  giveUp : Move ν (Control ν) := do
    modify fun s => s.modifyStack (·.truncate mark.stack)
    return .step (.error (.script e)) k

/-- Calls the decorators that are left, and then pops frames. -/
def runDecorators (library : Library ν) (e : ScriptError) (caught : Bool) (mark : Mark)
    (k : Kont ν .step) : List Value → Move ν (Control ν)
  | [] => do
    popToHandler library { e with settled := caught } mark k ((← get).callDepth - mark.frames)
  | decorator :: others =>
    callNested library decorator [messageValue e] (.decorator e others caught mark k)

/-- The error with the message that a decorator returned. A decorator that failed changes
nothing. -/
def applyDecorator (h : Heap) (e : ScriptError) : Except Fault Value → ScriptError
  | .ok v => { e with decoration := some (v.toString?.getD (h.display v.scalar)) }
  | .error _ => e

/-- Unwinds the frames above a mark after a fault at `ip` of the top frame. Decorators run once for
an error that is caught in the same loop; those of outer loops run there. -/
def unwind (library : Library ν) (fault : Fault) (ip : Nat) (mark : Mark) (k : Kont ν .step) :
    Move ν (Control ν) := do
  match fault with
  | .script e =>
    let s ← get
    let e := if e.isDecorated then e else s.decorate e ip
    if e.settled then popToHandler library e mark k (s.callDepth - mark.frames)
    else
      let (decorators, caught) := State.decoratorsOf (s.framesAbove mark)
      runDecorators library e caught mark k decorators
  | other =>
    abandon mark
    return .step (.error other) k

end Machine

end ScriptMachine
