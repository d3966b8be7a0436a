/-!
# Notices

What the program has to say about its work while it goes on. Every stage has a type of its own for
what it may report; a notice is what such a report comes to: a severity and a sentence.
-/

namespace Quire

/-- How much a notice matters. -/
inductive Severity where
  | trace
  | debug
  | info
  | warn
  deriving Repr, DecidableEq

/-- The name of a severity. -/
def Severity.name : Severity → String
  | trace => "TRACE"
  | debug => "DEBUG"
  | info => "INFO"
  | warn => "WARN"

/-- A sentence and how much it matters. -/
structure Notice where
  severity : Severity
  sentence : String
  deriving Repr, DecidableEq

/-- A notice on one line. -/
def Notice.line (n : Notice) : String :=
  s!"{n.severity.name} {n.sentence}"

end Quire
