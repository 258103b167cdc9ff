import HttpSuite.Record
import HttpSuite.Statement

/-!
# Faults in a suite

What can be wrong with the tokens of a suite, with one wording for each cause.
-/

namespace HttpSuite

/-- What is wrong with a suite. -/
inductive ParseCause where
  | expectedDirective (found : TokenKind) (text : String)
  | unknownDirective (name : String)
  /-- A parameter, counted from 0, that is absent or is `found` instead. -/
  | missingParameter (directive : Directive) (index : Nat) (found : Option String)
  | unterminatedAssertion
  | malformedAssertion (fault : ShapeFault)
  | duplicateTestName (name : String) (first : Span)
  | invalidField (cause : RecordCause)
  | streamError (reason : String)
  deriving DecidableEq, Repr

/-- The wording of the fault. -/
def ParseCause.message : ParseCause → String
  | expectedDirective found text =>
    "expected directive, got " ++ found.name ++ " '" ++ text ++ "'"
  | unknownDirective name => "unknown directive '" ++ name ++ "'"
  | missingParameter directive index none =>
    directive.keyword ++ ": missing parameter " ++ toString (index + 1)
  | missingParameter directive index (some text) =>
    directive.keyword ++ ": parameter " ++ toString (index + 1) ++ " cannot be '" ++ text ++ "'"
  | unterminatedAssertion => ".assert: missing terminating ';'"
  | malformedAssertion fault => ".assert: " ++ fault.message
  | duplicateTestName name first => "test '" ++ name ++ "' already defined at " ++ first.text
  | invalidField cause => cause.message
  | streamError reason => "read error: " ++ reason

/-- A fault in a suite, and its place. -/
abbrev ParseError := Located ParseCause

end HttpSuite
