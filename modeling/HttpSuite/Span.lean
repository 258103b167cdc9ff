/-!
# Places in a source

Everything read from a source, and every fault found in it, carries the name of the source and a
line number. Lines count from 1; line 0 stands for the time before the first line.
-/

namespace HttpSuite

/-- A line of a named source. -/
structure Span where
  source : String
  line : Nat
  deriving DecidableEq, Repr, Inhabited

/-- The place as messages show it. -/
def Span.text (span : Span) : String :=
  span.source ++ ":" ++ toString span.line

/-- The cause of a fault and the place where it was found. -/
structure Located (α : Type) where
  cause : α
  span : Span
  deriving DecidableEq, Repr

/-- The message of a located fault: that of its cause, then its place. -/
def Located.describe {α : Type} (message : α → String) (fault : Located α) : String :=
  message fault.cause ++ " at " ++ fault.span.text

end HttpSuite
