import ScriptMachine.Machine.Stack

/-!
# Frames

One activation of a function. A frame may carry handlers, which a routine asked for when it
requested the call.
-/

namespace ScriptMachine

/-- How a frame was entered and where its result goes. -/
structure FrameFlags where
  /-- Called in method syntax. -/
  methodCall : Bool := false
  /-- Took over the frame of its caller. -/
  tailCall : Bool := false
  /-- Returning from the frame, or unwinding it, leaves the loop that runs it. -/
  entryPoint : Bool := false
  /-- The body of a coroutine. -/
  resumeEntry : Bool := false
  /-- Nobody wants the result. -/
  discardResult : Bool := false
  /-- The result is collapsed to a scalar. -/
  scalarResult : Bool := false
deriving DecidableEq, Inhabited, Repr

namespace FrameFlags

def union (f g : FrameFlags) : FrameFlags :=
  ⟨f.methodCall || g.methodCall, f.tailCall || g.tailCall, f.entryPoint || g.entryPoint,
   f.resumeEntry || g.resumeEntry, f.discardResult || g.discardResult,
   f.scalarResult || g.scalarResult⟩

def inter (f g : FrameFlags) : FrameFlags :=
  ⟨f.methodCall && g.methodCall, f.tailCall && g.tailCall, f.entryPoint && g.entryPoint,
   f.resumeEntry && g.resumeEntry, f.discardResult && g.discardResult,
   f.scalarResult && g.scalarResult⟩

/-- Every flag of `g` is set in `f`. -/
def contains (f g : FrameFlags) : Bool := f.inter g == g

/-- The flags that a frame passes on to the one that replaces it. -/
def inheritable : FrameFlags := ⟨false, false, true, true, true, true⟩

def inherited (f : FrameFlags) : FrameFlags := f.inter inheritable

end FrameFlags

/-- What a frame runs. -/
inductive Callee
  | script (closure : ClosureId)
  | native (routine : NativeId)
deriving DecidableEq, Inhabited, Repr

/-- What is to happen with the result or the error of a frame. -/
structure Handlers where
  continuation : Option NativeId := none
  errorHandler : Option NativeId := none
  decorator : Option Value := none
deriving Inhabited

def Handlers.isEmpty (h : Handlers) : Bool :=
  h.continuation.isNone && h.errorHandler.isNone && h.decorator.isNone

structure Frame where
  /-- The slot of the first local of a script frame, with the function below it; for a native
  frame the height of the stack without its operands. -/
  base : Nat
  argc : Nat
  /-- Where the caller goes on. -/
  returnAddress : Nat
  callee : Callee
  /-- The name the caller used. -/
  name : Option String := none
  /-- Cells of this frame's slots that may be open. -/
  cells : List CellId := []
  handlers : Handlers := {}
  flags : FrameFlags := {}
deriving Inhabited

namespace Frame

def isNative (f : Frame) : Bool :=
  match f.callee with
  | .native _ => true
  | .script _ => false

def closure? (f : Frame) : Option ClosureId :=
  match f.callee with
  | .script c => some c
  | .native _ => none

end Frame

end ScriptMachine
