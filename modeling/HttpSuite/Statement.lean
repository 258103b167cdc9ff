import HttpSuite.Assertion
import HttpSuite.Record.Request

/-!
# Statements

A suite is a sequence of statements, each a directive and its parameters. A `Directive` is the
keyword alone; a `Statement` is complete.

* `Directive.ofKeyword?_keyword`: the keyword of a directive reads as that directive.
-/

namespace HttpSuite

/-- Where a binding goes: the outermost scope, the scope that the suite is read in, or the test's
own scope. -/
inductive Level where
  | global
  | parent
  | own
  deriving DecidableEq, Repr

/-- The keywords that start a statement. -/
inductive Directive where
  | test
  | bind (level : Level)
  | field (field : RequestField)
  | header
  | assertion
  deriving DecidableEq, Repr

namespace Directive

/-- Every directive. -/
def all : List Directive :=
  [test, bind .global, bind .parent, bind .own] ++ RequestField.all.map field ++
    [header, assertion]

/-- The spelling of the directive. -/
def keyword : Directive → String
  | test => ".test"
  | bind .global => ".global"
  | bind .parent => ".parent"
  | bind .own => ".local"
  | field f => "." ++ f.name
  | header => ".header"
  | assertion => ".assert"

/-- The directive that is spelled like this. -/
def ofKeyword? (word : String) : Option Directive :=
  all.find? (·.keyword == word)

theorem ofKeyword?_keyword (d : Directive) : ofKeyword? d.keyword = some d := by
  cases d with
  | bind level => cases level <;> decide
  | field f => cases f <;> decide
  | test => decide
  | header => decide
  | assertion => decide

/-- The number of parameters; of an assertion, the least number. -/
def arity : Directive → Nat
  | bind _ | header => 2
  | test | field _ | assertion => 1

end Directive

/-- A directive with its parameters. -/
inductive Statement where
  /-- Starts a test; `span` is the place of the directive. -/
  | test (span : Span) (name : String)
  | bind (level : Level) (symbol : String) (value : Token)
  | field (field : RequestField) (value : Token)
  | header (name : String) (value : Token)
  | assertion (assertion : Assertion)
  deriving DecidableEq

end HttpSuite
