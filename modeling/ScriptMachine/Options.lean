/-!
# Options

What is fixed when a machine is made.
-/

namespace ScriptMachine

/-- How much the machine reports about itself. -/
inductive LogLevel
  | debug
  | verbose
  | notice
  | warning
deriving DecidableEq, Inhabited, Repr

namespace LogLevel

def rank : LogLevel → Nat
  | debug => 0
  | verbose => 1
  | notice => 2
  | warning => 3

def all : List LogLevel := [debug, verbose, notice, warning]

def standard : LogLevel := warning

/-- A report of this level is wanted under the setting. -/
def enabled (setting level : LogLevel) : Bool := setting.rank ≤ level.rank

end LogLevel

structure Options where
  /-- A tail call takes over the frame of its caller once the value stack and the execution stack
  are both deeper than this. -/
  tailCallThreshold : Nat := 65536
  checkThreadAccess : Bool := true
  /-- Synchronous calls wait for host tasks. -/
  autoAwait : Bool := false
  /-- The instructions that the whole tree of coroutines may execute. -/
  instructionLimit : Option Nat := none
  maxCallDepth : Nat := 200000
  /-- The handlers that one call may pass through. -/
  maxCallChain : Nat := 32
  /-- Locations name the line only. -/
  lineLocations : Bool := false
  logLevel : LogLevel := .standard
deriving DecidableEq, Inhabited, Repr

end ScriptMachine
