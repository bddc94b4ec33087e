import ScriptMachine.Value.Basic

/-!
# The host's routines

The native functions that the host offers to scripts, by name, and those it makes on the fly as
handlers of a requested call.
-/

namespace ScriptMachine.Host

/-- A native function of the host. -/
inductive Builtin
  -- values
  | print
  | type
  | tostring
  | tonumber
  | ident
  | void
  | nest
  | nargs
  | ismethod
  | pack
  | unpack
  | range
  | boxyield
  | check
  | ud
  -- metatables and raw access
  | setmetatable
  | getmetatable
  | metamethod
  | settypemt
  | rawget
  | rawset
  | rawlen
  | rawequal
  | next
  -- errors
  | error
  | raise
  | internal
  -- requested calls
  | pcall
  | xpcall
  | catching
  | decorate
  | cont
  | tail
  | rethrow
  | catchtail
  | conttail
  | contyield
  | contfail
  -- calls back into the machine
  | call
  | npcall
  | index
  | hostcall
  | thiscall
  | asynccall
  | depth
  | cbname
  | genv
  -- coroutines
  | yield
  | cocreate
  | coresume
  | costatus
  | costate
  | corunning
  | coyieldable
  | coauto
  | cofn
  -- host tasks
  | ready
  | pend
  | afail
  | ainternal
  | atail
  | ayield
  | aagain
  | never
  -- debugging and serialized functions
  | watch
  | watchcall
  | findsym
  | assign
  | dump
  | undump
  | fingerprint
deriving DecidableEq, Inhabited, Repr

namespace Builtin

/-- The global a routine is found under. -/
def name : Builtin → String
  | print => "print"
  | type => "type"
  | tostring => "tostring"
  | tonumber => "tonumber"
  | ident => "ident"
  | void => "void"
  | nest => "nest"
  | nargs => "nargs"
  | ismethod => "ismethod"
  | pack => "pack"
  | unpack => "unpack"
  | range => "range"
  | boxyield => "boxyield"
  | check => "check"
  | ud => "ud"
  | setmetatable => "setmetatable"
  | getmetatable => "getmetatable"
  | metamethod => "metamethod"
  | settypemt => "settypemt"
  | rawget => "rawget"
  | rawset => "rawset"
  | rawlen => "rawlen"
  | rawequal => "rawequal"
  | next => "next"
  | error => "error"
  | raise => "raise"
  | internal => "internal"
  | pcall => "pcall"
  | xpcall => "xpcall"
  | catching => "catch"
  | decorate => "decorate"
  | cont => "cont"
  | tail => "tail"
  | rethrow => "rethrow"
  | catchtail => "catchtail"
  | conttail => "conttail"
  | contyield => "contyield"
  | contfail => "contfail"
  | call => "call"
  | npcall => "npcall"
  | index => "index"
  | hostcall => "hostcall"
  | thiscall => "thiscall"
  | asynccall => "asynccall"
  | depth => "depth"
  | cbname => "cbname"
  | genv => "genv"
  | yield => "yield"
  | cocreate => "cocreate"
  | coresume => "coresume"
  | costatus => "costatus"
  | costate => "costate"
  | corunning => "corunning"
  | coyieldable => "coyieldable"
  | coauto => "coauto"
  | cofn => "cofn"
  | ready => "ready"
  | pend => "pend"
  | afail => "afail"
  | ainternal => "ainternal"
  | atail => "atail"
  | ayield => "ayield"
  | aagain => "aagain"
  | never => "never"
  | watch => "watch"
  | watchcall => "watchcall"
  | findsym => "findsym"
  | assign => "assign"
  | dump => "dump"
  | undump => "undump"
  | fingerprint => "fingerprint"

def all : List Builtin :=
  [print, type, tostring, tonumber, ident, void, nest, nargs, ismethod, pack, unpack, range,
   boxyield, check, ud, setmetatable, getmetatable, metamethod, settypemt, rawget, rawset, rawlen,
   rawequal, next, error, raise, internal, pcall, xpcall, catching, decorate, cont, tail, rethrow,
   catchtail, conttail, contyield, contfail, call, npcall, index, hostcall, thiscall, asynccall,
   depth, cbname, genv, yield, cocreate, coresume, costatus, costate, corunning, coyieldable,
   coauto, cofn, ready, pend, afail, ainternal, atail, ayield, aagain, never, watch, watchcall,
   findsym, assign, dump, undump, fingerprint]

end Builtin

/-- A handler of a requested call. -/
inductive Handler
  /-- Reports success, with the results. -/
  | pcallDone
  /-- Reports failure, with the message. -/
  | pcallFailed
  | catcher
  | continuation
  | rethrower
  /-- Calls a function with the message. -/
  | catchTailer (function : Value)
  /-- Calls a function with the results. -/
  | contTailer (function : Value)
  | contYielder
  | contFailer
deriving Inhabited

/-- The name of a handler in traces. -/
def Handler.name : Handler → String
  | pcallDone => "pcall_done"
  | pcallFailed => "pcall_failed"
  | catcher => "catcher"
  | continuation => "continuation"
  | rethrower => "rethrower"
  | catchTailer _ => "catch_tailer"
  | contTailer _ => "cont_tailer"
  | contYielder => "cont_yielder"
  | contFailer => "cont_failer"

/-- Everything the host runs. -/
inductive HostRoutine
  | builtin (b : Builtin)
  | handler (h : Handler)
deriving Inhabited

end ScriptMachine.Host
