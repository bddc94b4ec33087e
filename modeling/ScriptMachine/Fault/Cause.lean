/-!
# Causes of errors

What went wrong, apart from where. Each family has its wording in one function.

* `Cause`: errors of scripts, which handlers may catch.
* `Defect`: instructions and host routines that break the machine's rules.
* `FormatFault`: serialized functions that cannot be written or read.
* `WatchFault`: watch expressions that reach too far.
-/

namespace ScriptMachine

/-- The classification of script errors. -/
inductive ErrorKind
  | generic
  | arithmetic
  | concatenation
  | comparison
  | index
  | call
  | badArgument
  | coroutine
  | stackOverflow
deriving DecidableEq, Inhabited, Repr

namespace ErrorKind

def all : List ErrorKind :=
  [generic, arithmetic, concatenation, comparison, index, call, badArgument, coroutine,
   stackOverflow]

def label : ErrorKind → String
  | generic => "Generic"
  | arithmetic => "Arithmetic"
  | concatenation => "Concatenation"
  | comparison => "Comparison"
  | index => "Index"
  | call => "Call"
  | badArgument => "BadArgument"
  | coroutine => "Coroutine"
  | stackOverflow => "StackOverflow"

def ofLabel? (s : String) : Option ErrorKind := all.find? fun k => k.label == s

end ErrorKind

/-- Why a script failed. Types are given by their names. -/
inductive Cause
  /-- A host routine raised this text. -/
  | raised (kind : ErrorKind) (text : String)
  | arithmeticOn (type : String)
  | concatenationOf (type : String)
  | comparisonOf (left right : String)
  | indexOf (type : String)
  | lengthOf (type : String)
  | callOf (type : String) (near : Option String)
  | badArgument (position : Nat) (function expected found : String)
  | stackOverflow
  | tooManyNestedCalls
  | nilKey
  | nanKey
  | unusableKey (type : String)
  | pathThrough (type : String) (position : Nat)
  | emptyPath
  | strayKey
  | chainTooLong (metamethod : String)
  | callChainTooLong
  | unreadableField (key object : String)
  | unwritableField (key object : String)
  | loopValue
  | rangeBound
  | yieldOutsideCoroutine
  | yieldAcrossNative
  | awaitInSynchronousCall
  | processorBusy
  | resumeOfDead
  | resumeOfRunning
  | valuesAfterForcedYield
  | unboundUpvalue (function upvalue : String)
  | undumpable (type : String)
  | dumpWithUpvalues
  | timedOut (milliseconds : Nat)
deriving DecidableEq, Repr

namespace Cause

def kind : Cause → ErrorKind
  | raised k _ => k
  | arithmeticOn _ | lengthOf _ => .arithmetic
  | concatenationOf _ => .concatenation
  | comparisonOf _ _ => .comparison
  | indexOf _ | nilKey | nanKey | unusableKey _ | pathThrough _ _ | chainTooLong _
  | unreadableField _ _ | unwritableField _ _ => .index
  | callOf _ _ | callChainTooLong => .call
  | badArgument _ _ _ _ => .badArgument
  | stackOverflow | tooManyNestedCalls => .stackOverflow
  | yieldOutsideCoroutine | yieldAcrossNative | resumeOfDead | resumeOfRunning
  | valuesAfterForcedYield => .coroutine
  | emptyPath | strayKey | loopValue | rangeBound | awaitInSynchronousCall | processorBusy
  | unboundUpvalue _ _ | undumpable _ | dumpWithUpvalues | timedOut _ => .generic

def message : Cause → String
  | raised _ text => text
  | arithmeticOn type => s!"attempt to perform arithmetic on a {type} value"
  | concatenationOf type => s!"attempt to concatenate a {type} value"
  | comparisonOf left right =>
    if left = right then s!"attempt to compare two {left} values"
    else s!"attempt to compare {left} with {right}"
  | indexOf type => s!"attempt to index a {type} value"
  | lengthOf type => s!"attempt to get length of a {type} value"
  | callOf type none => s!"attempt to call a {type} value"
  | callOf type (some near) => s!"attempt to call a {type} value near '{near}'"
  | badArgument position function expected found =>
    s!"bad argument #{position} to '{function}' ({expected} expected, got {found})"
  | stackOverflow => "stack overflow"
  | tooManyNestedCalls => "stack overflow (too many nested host calls)"
  | nilKey => "table index is nil"
  | nanKey => "table index is NaN"
  | unusableKey type => s!"invalid table key of type {type}"
  | pathThrough type position =>
    s!"attempt to index a {type} value (index path element #{position})"
  | emptyPath => "empty index path"
  | strayKey => "invalid key to 'next'"
  | chainTooLong metamethod => s!"'{metamethod}' chain too long; possible loop"
  | callChainTooLong => "'__call' chain too long; possible loop"
  | unreadableField key object => s!"cannot access field {key} of userdata<{object}>"
  | unwritableField key object => s!"cannot set field {key} of userdata<{object}>"
  | loopValue => "'for' value must be a number"
  | rangeBound => "range bounds must be numbers"
  | yieldOutsideCoroutine => "attempt to yield from outside a coroutine"
  | yieldAcrossNative => "attempt to yield across a native call boundary"
  | awaitInSynchronousCall =>
    "attempt to await a host task from a synchronous call (use call_async or enable auto_await)"
  | processorBusy => "cannot start an asynchronous call while the processor is running"
  | resumeOfDead => "cannot resume dead coroutine"
  | resumeOfRunning => "cannot resume non-suspended coroutine"
  | valuesAfterForcedYield => "cannot pass values to a coroutine suspended by auto-yield"
  | unboundUpvalue function upvalue =>
    s!"cannot load function '{function}': upvalue '{upvalue}' cannot be bound"
  | undumpable type => s!"cannot dump a {type} value"
  | dumpWithUpvalues => "function arguments with upvalues other than _ENV cannot be dumped"
  | timedOut milliseconds => s!"script call timed out after {milliseconds}ms"

end Cause

/-- A broken rule of the machine. -/
inductive Defect
  /-- A host routine reported this text. -/
  | reported (text : String)
  | stackUnderflow
  | executionUnderflow
  | emptyExecutionStack
  | nativeFrameOnTop (name : String)
  | instructionOutOfRange (ip : Nat) (function : String)
  | invalidInstruction (ip : Nat) (function : String)
  | numberOutOfRange (index : Int)
  | stringOutOfRange (index : Int)
  | symbolOutOfRange (index : Int)
  | functionOutOfRange (index : Nat)
  | upvalueOutOfRange (index : Nat) (function : String)
  | capturedGlobal (name : String)
  | captureWithoutFrame
  | closeWithoutFrame
  | initializerTarget
  | jumpTarget (address : Int)
  | assignedEnvironment
  | handlersTwice
  | awaitConsumed
  | nothingSuspended
  | suspensionEscaped
  | loopLeftEarly
  | taskEscaped
  | coroutineLoopLeftEarly
  | resumeState (state : String)
  | symbolMissing (symbol : String)
deriving DecidableEq, Repr

def Defect.message : Defect → String
  | reported text => text
  | stackUnderflow => "value stack underflow"
  | executionUnderflow => "execution stack underflow"
  | emptyExecutionStack => "dispatch with an empty execution stack"
  | nativeFrameOnTop name => s!"dispatch on native frame '{name}'"
  | instructionOutOfRange ip function => s!"instruction pointer {ip} out of range in '{function}'"
  | invalidInstruction ip function => s!"invalid opcode executed at {ip} in '{function}'"
  | numberOutOfRange index => s!"number constant {index} out of range"
  | stringOutOfRange index => s!"string constant {index} out of range"
  | symbolOutOfRange index => s!"symbol {index} out of range"
  | functionOutOfRange index => s!"nested function {index} out of range"
  | upvalueOutOfRange index function => s!"upvalue {index} out of range in '{function}'"
  | capturedGlobal name => s!"global '{name}' cannot be captured"
  | captureWithoutFrame => "capture with an empty execution stack"
  | closeWithoutFrame => "close with an empty execution stack"
  | initializerTarget => "table initializer on a non-table"
  | jumpTarget address => s!"invalid jump target {address}"
  | assignedEnvironment => "the default environment cannot be assigned"
  | handlersTwice =>
    "tail call request with handlers returned from a frame that already has handlers"
  | awaitConsumed => "await request already consumed"
  | nothingSuspended => "no suspended execution to resume"
  | suspensionEscaped => "suspension escaped a nested call"
  | loopLeftEarly => "dispatch loop exited early"
  | taskEscaped => "host task escaped a synchronous resume"
  | coroutineLoopLeftEarly => "coroutine dispatch loop exited early"
  | resumeState state => s!"resume_from called on a {state} coroutine"
  | symbolMissing symbol => s!"symbol {symbol} missing from table"

/-- Why a serialized function was refused. -/
inductive FormatFault
  | reported (text : String)
  | badMagic
  | unsupportedVersion (version : Nat)
  | trailingBytes (count : Nat) (function : String)
  | functionsTooDeep
  | tablesTooDeep
  | invalidFlags (bits : Nat)
  | unknownOpcode (byte : Nat)
  | unknownSymbolKind (tag : Nat)
  | badEnvironmentLink (name : String)
  | symbolIndex (index : Nat)
  | sourceMarker (marker : Nat)
  | sourceTag (tag : Nat)
  | repeatedNothing
  | annotationTag (tag : Nat)
  | endOfData
  | lengthTooLarge (length : Nat)
  | notUnicode
  | unserializable (type : String)
  | sourceCount (function : String) (refs instructions : Nat)
  | lengthOver32Bits (length : Nat)
deriving DecidableEq, Repr

def FormatFault.message : FormatFault → String
  | reported text => text
  | badMagic => "not a compiled script (bad magic)"
  | unsupportedVersion version => s!"unsupported format version {version} (expected 1)"
  | trailingBytes count function => s!"{count} trailing bytes after function '{function}'"
  | functionsTooDeep => "functions nested too deeply"
  | tablesTooDeep => "annotation tables nested too deeply"
  | invalidFlags bits => "invalid function flags 0x" ++ String.ofList (Nat.toDigits 16 bits)
  | unknownOpcode byte => s!"unknown opcode {byte}"
  | unknownSymbolKind tag => s!"unknown symbol kind {tag}"
  | badEnvironmentLink name => s!"global '{name}' has an invalid environment link"
  | symbolIndex index => s!"symbol index {index} out of range"
  | sourceMarker marker => s!"invalid source table marker {marker}"
  | sourceTag tag => s!"invalid source ref tag {tag}"
  | repeatedNothing => "source ref repeats a missing entry"
  | annotationTag tag => s!"invalid annotation value tag {tag}"
  | endOfData => "unexpected end of data"
  | lengthTooLarge length => s!"length {length} exceeds remaining data"
  | notUnicode => "string is not valid UTF-8"
  | unserializable type => s!"cannot serialize a {type} annotation value"
  | sourceCount function refs instructions =>
    s!"function '{function}' has {refs} source refs for {instructions} instructions"
  | lengthOver32Bits length => s!"length {length} does not fit in 32 bits"

/-- Why a watch expression was refused. -/
inductive WatchFault
  | reported (text : String)
  | inaccessible (name : String)
  | unassignable (name : String)
  | indexed (type : String)
  | called
deriving DecidableEq, Repr

def WatchFault.message : WatchFault → String
  | reported text => text
  | inaccessible name => s!"'{name}' is not accessible without a running function"
  | unassignable name => s!"'{name}' is not assignable without a running function"
  | indexed type => s!"cannot index a {type} value in a watch expression"
  | called => "function calls are not allowed in dynamic expressions"

/-- Why a transfer of bytes stopped. -/
inductive TransferFault
  | bufferFull
  | readerBroke
deriving DecidableEq, Repr

def TransferFault.message : TransferFault → String
  | bufferFull => "failed to write whole buffer"
  | readerBroke => "reader broke"

end ScriptMachine
