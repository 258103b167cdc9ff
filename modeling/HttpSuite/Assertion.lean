import HttpSuite.Token

/-!
# Assertions

An assertion is written in postfix form: operands, and operators that take what stands before them.
Only its shape is judged here: walking along the entries, each operand adds one value, each operator
takes as many values as its arity and adds one, and one value is left at the end.

* `Operator.ofKeyword?_keyword`: the keyword of an operator reads as that operator.
* `checkShape_eq_ok`: the shape is that of one value.
-/

namespace HttpSuite

/-- The operators of assertions. -/
inductive Operator where
  | eq
  | ne
  | contains
  | startsWith
  | endsWith
  | and
  | or
  | not
  deriving DecidableEq, Repr

namespace Operator

/-- Every operator. -/
def all : List Operator := [eq, ne, contains, startsWith, endsWith, and, or, not]

/-- The spelling of the operator. -/
def keyword : Operator → String
  | eq => "eq"
  | ne => "ne"
  | contains => "contains"
  | startsWith => "starts_with"
  | endsWith => "ends_with"
  | and => "and"
  | or => "or"
  | not => "not"

/-- The operator that is spelled like this. -/
def ofKeyword? (word : String) : Option Operator :=
  all.find? fun op => op.keyword == word

theorem ofKeyword?_keyword (op : Operator) : ofKeyword? op.keyword = some op := by
  cases op <;> decide

/-- The number of values that the operator takes. -/
def arity : Operator → Nat
  | not => 1
  | eq | ne | contains | startsWith | endsWith | and | or => 2

end Operator

/-- One step of an assertion. -/
inductive Entry where
  | operand (token : Token)
  | operator (op : Operator) (span : Span)
  deriving DecidableEq, Repr

/-- A bare name that spells an operator is one; every other token is an operand. -/
def Entry.ofToken (token : Token) : Entry :=
  match token.kind, Operator.ofKeyword? token.text with
  | .symbol, some op => .operator op token.span
  | _, _ => .operand token

/-- What is wrong with the shape of an assertion. -/
inductive ShapeFault where
  | empty
  /-- An operator with too few values before it. -/
  | underflow (op : Operator) (span : Span)
  /-- Not one value but `count` at the end. -/
  | leftover (count : Nat)
  deriving DecidableEq, Repr

/-- The wording of the fault. -/
def ShapeFault.message : ShapeFault → String
  | empty => "assertion is empty"
  | underflow op span =>
    "'" ++ op.keyword ++ "' needs " ++ toString op.arity ++ " operand(s) at " ++ span.text
  | leftover count => "assertion leaves " ++ toString count ++ " values, expected 1"

/-- The entries of an assertion, and where it starts. -/
structure Assertion where
  span : Span
  entries : List Entry
  deriving DecidableEq, Repr

/-- The number of values after the entries, when there were `depth` before them. -/
def depthAfter (depth : Nat) : List Entry → Except ShapeFault Nat
  | [] => .ok depth
  | .operand _ :: es => depthAfter (depth + 1) es
  | .operator op span :: es =>
    if depth < op.arity then .error (.underflow op span)
    else depthAfter (depth - op.arity + 1) es

/-- Checks that the entries come to one value. -/
def checkShape (entries : List Entry) : Except ShapeFault Unit :=
  match entries, depthAfter 0 entries with
  | [], _ => .error .empty
  | _, .error fault => .error fault
  | _, .ok depth => if depth = 1 then .ok () else .error (.leftover depth)

theorem checkShape_eq_ok {entries : List Entry} :
    checkShape entries = .ok () ↔ depthAfter 0 entries = .ok 1 := by
  unfold checkShape
  split
  · simp [depthAfter]
  · next eq => simp [eq]
  · next depth _ eq =>
    rw [eq]
    by_cases h : depth = 1 <;> simp [h]

end HttpSuite
