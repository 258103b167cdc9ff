import HttpSuite.Span
import HttpSuite.Text.Quoted

/-!
# Tokens

A token is a kind, a text and the place where it starts. The text of a literal is what the literal
stands for; that of every other kind is as written.

* `isValue_iff`: the four kinds that can stand as a parameter.
* `Token.append`: one token joined onto another keeps kind and place.
-/

namespace HttpSuite

/-- The kinds of token. `none` marks the end of a source, and `unknown` a read that failed. -/
inductive TokenKind where
  | directive
  | string
  | symbol
  | integer
  | shellCommand
  | assertEnd
  | none
  | unknown
  deriving DecidableEq, Repr, Inhabited

namespace TokenKind

/-- The kind in messages. -/
def name : TokenKind → String
  | directive => "directive"
  | string => "string"
  | symbol => "symbol"
  | integer => "integer"
  | shellCommand => "shell command"
  | assertEnd => "assert end"
  | none => "end of input"
  | unknown => "unknown"

/-- A token of this kind can stand as a parameter. -/
def isValue : TokenKind → Bool
  | string | symbol | integer | shellCommand => true
  | directive | assertEnd | none | unknown => false

theorem isValue_iff {kind : TokenKind} :
    kind.isValue = true ↔
      kind = string ∨ kind = symbol ∨ kind = integer ∨ kind = shellCommand := by
  cases kind <;> simp [isValue]

end TokenKind

/-- A kind, a text and a place. Any kind can go with any text. -/
structure Token where
  kind : TokenKind
  text : String
  span : Span
  deriving DecidableEq, Repr, Inhabited

namespace Token

/-- The same token with another text. -/
def withText (token : Token) (text : String) : Token :=
  { token with text }

/-- Joins the text of another token onto this one. -/
def append (token other : Token) : Token :=
  token.withText (token.text ++ other.text)

/-- The token as messages show it. -/
def describe (token : Token) : String :=
  token.kind.name ++ "(" ++ Quoted.text token.text ++ ") at " ++ token.span.text

end Token

end HttpSuite
