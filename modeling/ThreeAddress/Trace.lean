import ThreeAddress.Builtin
import ThreeAddress.Scope

/-!
# Traces

What lowering reports on its way, in order of time. A trace is kept whether or not the program can
be lowered.

## Main definitions

* `Event`, `Trace`: one report, and all of them.
* `Trace.warnings`, `Trace.log`: the texts for the user, and those for the developer.
-/

namespace ThreeAddress

/-- Something that happened while lowering. -/
inductive Event where
  /-- A register was bound, to a source name or to its own. -/
  | bound (name : Option String) (register : String)
  | structDefined (name : String)
  | moduleStarted (items : Nat)
  | directiveSkipped (text : String)
  | builtinCalled (builtin : Builtin)
  | functionStarted (name : String)
  | functionFinished
  /-- Some path through a function that returns a value does not return. -/
  | missingReturn (function : String)
  deriving DecidableEq, Repr

/-- Events in order of time. -/
abbrev Trace := List Event

namespace Event

/-- The warning that an event is. -/
def warning? : Event → Option String
  | missingReturn function =>
    some ("not every path through " ++ quoted function ++ " returns a value")
  | _ => none

/-- The line that an event leaves in the log. -/
def logLine? : Event → Option String
  | bound (some name) register => some ("TRACE bound name=" ++ name ++ " register=" ++ register)
  | bound none register => some ("TRACE bound register=" ++ register)
  | structDefined name => some ("TRACE registered struct name=" ++ name)
  | moduleStarted items => some ("DEBUG lowering module items=" ++ toString items)
  | directiveSkipped text => some ("DEBUG ignoring directive directive=" ++ text)
  | builtinCalled builtin => some ("DEBUG lowering built-in call builtin=" ++ builtin.name)
  | functionStarted name => some ("SPAN lower function=" ++ name)
  | functionFinished => some "DEBUG lowered function"
  | missingReturn _ => none

end Event

namespace Trace

/-- The warnings, in order. -/
def warnings (trace : Trace) : List String := trace.filterMap Event.warning?

/-- The log lines, in order. -/
def log (trace : Trace) : List String := trace.filterMap Event.logLine?

end Trace

namespace Parameter

/-- What binding a parameter reports. -/
def trace (parameter : Parameter) : Trace :=
  [.bound none parameter.incoming.register, .bound (some parameter.name) parameter.slot.register]

end Parameter

end ThreeAddress
