import ScriptMachine.Fault.Cause

/-!
# Faults

A failed operation. Script errors carry their cause, the place where they were raised and a trace;
they alone can be caught.
-/

namespace ScriptMachine

/-- One line of a trace. -/
structure TraceEntry where
  function : Option String
  location : Option String
  isNative : Bool
deriving DecidableEq, Inhabited, Repr

def TraceEntry.text (e : TraceEntry) : String :=
  let name := e.function.getD "<anonymous>"
  let place := if e.isNative then "[native]" else e.location.getD "?"
  s!"{place}: in function '{name}'"

/-- A script error. -/
structure ScriptError where
  cause : Cause
  /-- The message with a location, or as a decorator put it. -/
  decoration : Option String := none
  /-- The instruction it is attributed to. -/
  address : Option Nat := none
  trace : List TraceEntry := []
  /-- The decorators up to the frame that catches it have run. -/
  settled : Bool := false
deriving DecidableEq, Repr

namespace ScriptError

def kind (e : ScriptError) : ErrorKind := e.cause.kind

/-- The message as it was raised. -/
def rawMessage (e : ScriptError) : String := e.cause.message

/-- The decorated message if there is one. -/
def message (e : ScriptError) : String := e.decoration.getD e.rawMessage

/-- The error has been attributed to a place. -/
def isDecorated (e : ScriptError) : Bool := e.decoration.isSome || e.address.isSome

end ScriptError

/-- Why an operation failed. -/
inductive Fault
  | script (error : ScriptError)
  | defect (defect : Defect)
  | watch (fault : WatchFault)
  | format (fault : FormatFault)
  | instructionLimit
  | concurrentAccess
  | transfer (fault : TransferFault)
deriving DecidableEq, Repr

namespace Fault

/-- A fresh script error. -/
def raise (cause : Cause) : Fault := .script { cause }

/-- A script error with a text of the host's own. -/
def raiseText (text : String) : Fault := raise (.raised .generic text)

/-- Only script errors can be caught. -/
def isCatchable : Fault → Bool
  | script _ => true
  | _ => false

def message : Fault → String
  | script error => error.message
  | defect d => "internal VM error: " ++ d.message
  | watch f => "dynamic expression error: " ++ f.message
  | format f => "invalid bytecode: " ++ f.message
  | instructionLimit => "instruction limit exceeded"
  | concurrentAccess => "script runtime accessed concurrently from a different thread"
  | transfer f => "I/O error: " ++ f.message

end Fault

instance : Inhabited Fault := ⟨.instructionLimit⟩

end ScriptMachine
