import HttpSuite.Text.Ascii
import HttpSuite.Text.Quoted
import HttpSuite.Token

/-!
# Lexemes, byte by byte

A lexeme is recognised one byte at a time. `Partial` is a lexeme of which some bytes have been read,
`Mode` says what is being read at all, and `Mode.step` gives the effect of the next byte: go on, the
lexeme is complete with this byte, the lexeme was complete before it, or the byte cannot stand here.
`Mode.atEnd` says what the end of the bytes makes of a mode.

* `Mode.step_blank_ne_ended`: between lexemes a byte always belongs to what it starts.
-/

namespace HttpSuite

/-! ## Faults -/

/-- The base of an integer. -/
inductive Radix where
  | octal
  | decimal
  | hexadecimal
  deriving DecidableEq, Repr

namespace Radix

/-- The number of digits that there are. -/
def base : Radix → Nat
  | octal => 8
  | decimal => 10
  | hexadecimal => 16

/-- The characters that are digits in this base. -/
def isDigit (radix : Radix) (c : Char) : Bool :=
  match radix with
  | octal => '0' ≤ c && c ≤ '7'
  | decimal => c.isDigit
  | hexadecimal => c.isDigit || ('a' ≤ c && c ≤ 'f') || ('A' ≤ c && c ≤ 'F')

end Radix

/-- The quotes around a literal. -/
inductive Delimiter where
  | single
  | double
  | backtick
  deriving DecidableEq, Repr

namespace Delimiter

/-- The quote itself. -/
def char : Delimiter → Char
  | single => '\x27'
  | double => '\x22'
  | backtick => '\x60'

/-- The kind of token that a literal makes. -/
def kind : Delimiter → TokenKind
  | single | double => .string
  | backtick => .shellCommand

/-- Literals with only blanks between them make one token. -/
def joins : Delimiter → Bool
  | single => false
  | double | backtick => true

end Delimiter

/-- What is wrong with the bytes of a source. -/
inductive LexCause where
  | unexpectedCharacter (c : Char)
  | unterminated (delimiter : Delimiter)
  | invalidDigit (digit : Char) (radix : Radix)
  | missingHexDigits
  | lineTooLong (limit : Nat)
  | invalidUtf8
  deriving DecidableEq, Repr

/-- The wording of the fault. -/
def LexCause.message : LexCause → String
  | unexpectedCharacter c => "unexpected character: " ++ Quoted.char c
  | unterminated delimiter => "unterminated " ++ delimiter.char.toString ++ "-quoted literal"
  | invalidDigit digit radix =>
    "invalid digit " ++ Quoted.char digit ++ " for base " ++ toString radix.base ++ " integer"
  | missingHexDigits => "hex integer has no digits after '0x'"
  | lineTooLong limit => "line exceeds maximum length of " ++ toString limit ++ " bytes"
  | invalidUtf8 => "invalid UTF-8 in literal"

/-- A fault in the bytes of a source, and its place. -/
abbrev LexError := Located LexCause

/-! ## Partial lexemes -/

/-- A lexeme of which some bytes have been read. What was read is kept backwards. -/
inductive Partial where
  /-- A dot and then `name`. -/
  | directive (name : List Char)
  /-- An open literal; `escaped` if the last byte was a backslash that takes the next one along. -/
  | literal (delimiter : Delimiter) (escaped : Bool) (text : List UInt8)
  /-- A closed literal that may be followed by another of its kind, and the blanks after it. -/
  | joint (delimiter : Delimiter) (text : List UInt8)
  /-- A lone zero. -/
  | zero
  /-- An integer: how it opens and the digits after that. -/
  | integer (radix : Radix) (opening digits : List Char)
  /-- A bare name. -/
  | symbol (name : List Char)
  deriving DecidableEq, Repr

/-- What a complete lexeme comes to: a kind of token with its text, or a fault. -/
abbrev Verdict := Except LexCause (TokenKind × String)

/-- A token of one kind from characters that were gathered backwards. -/
def Verdict.ofChars (kind : TokenKind) (backwards : List Char) : Verdict :=
  .ok (kind, String.ofList backwards.reverse)

/-- A token of one kind from bytes that were gathered backwards. -/
def Verdict.ofBytes (kind : TokenKind) (backwards : List UInt8) : Verdict :=
  match String.fromUTF8? backwards.reverse.toByteArray with
  | some text => .ok (kind, text)
  | none => .error .invalidUtf8

/-- The effect of a byte. -/
inductive Step (σ : Type) where
  /-- The byte is taken and reading goes on. -/
  | more (next : σ)
  /-- The byte is taken and completes the lexeme. -/
  | closed (verdict : Verdict)
  /-- The lexeme was complete; the byte is left alone. -/
  | ended (verdict : Verdict)
  /-- The byte starts a character that cannot stand here, `some radix` in an integer. -/
  | stray (inInteger : Option Radix)

/-- The fault of a stray character. -/
def strayCause (inInteger : Option Radix) (c : Char) : LexCause :=
  match inInteger with
  | some radix => .invalidDigit c radix
  | none => .unexpectedCharacter c

namespace Partial

/-- What an integer comes to. Only a hexadecimal one can be without digits. -/
def integerVerdict (radix : Radix) (opening digits : List Char) : Verdict :=
  if radix = .hexadecimal ∧ digits = [] then .error .missingHexDigits
  else .ok (.integer, String.ofList (opening ++ digits.reverse))

/-- The lexeme at the end of the bytes. -/
def atEnd : Partial → Verdict
  | directive name => .ofChars .directive (name ++ ['.'])
  | literal delimiter _ _ => .error (.unterminated delimiter)
  | joint delimiter text => .ofBytes delimiter.kind text
  | zero => .ok (.integer, "0")
  | integer radix opening digits => integerVerdict radix opening digits
  | symbol name => .ofChars .symbol name

/-- The effect of a byte on an integer. -/
def integerStep (radix : Radix) (opening digits : List Char) (b : UInt8) : Step Partial :=
  let c := Char.ofUInt8 b
  if isBlank c then .ended (integerVerdict radix opening digits)
  else if radix.isDigit c then .more (integer radix opening (c :: digits))
  else .stray (some radix)

/-- The effect of a byte on an open literal. -/
def literalStep (delimiter : Delimiter) (escaped : Bool) (text : List UInt8) (b : UInt8) :
    Step Partial :=
  if escaped then .more (literal delimiter false (b :: text))
  else if b = delimiter.char.toUInt8 then
    if delimiter.joins then .more (joint delimiter text)
    else .closed (.ofBytes delimiter.kind text)
  else if b = '\\'.toUInt8 then .more (literal delimiter true text)
  else .more (literal delimiter false (b :: text))

/-- The effect of a byte on a partial lexeme. -/
def step (p : Partial) (b : UInt8) : Step Partial :=
  let c := Char.ofUInt8 b
  match p with
  | directive name =>
    if isDirectiveChar c then .more (directive (c :: name)) else .ended (directive name).atEnd
  | literal delimiter escaped text => literalStep delimiter escaped text b
  | joint delimiter text =>
    if isBlank c then .more (joint delimiter text)
    else if c = delimiter.char then .more (literal delimiter false text)
    else .ended (joint delimiter text).atEnd
  | zero =>
    if isBlank c then .ended zero.atEnd
    else if c = 'x' ∨ c = 'X' then .more (integer .hexadecimal ['0', c] [])
    else integerStep .octal ['0'] [] b
  | integer radix opening digits => integerStep radix opening digits b
  | symbol name =>
    if isBlank c then .ended (symbol name).atEnd
    else if isNameChar c then .more (symbol (c :: name))
    else .stray none

end Partial

/-! ## Modes -/

/-- What is being read: nothing yet, a comment, or a lexeme that started on `line`. -/
inductive Mode where
  | blank
  | comment
  | within (line : Nat) (lexeme : Partial)
  deriving DecidableEq, Repr

/-- What a byte starts when no lexeme is open. -/
def opening (c : Char) : Option Partial :=
  if c = '.' then some (.directive [])
  else if c = Delimiter.single.char then some (.literal .single false [])
  else if c = Delimiter.double.char then some (.literal .double false [])
  else if c = Delimiter.backtick.char then some (.literal .backtick false [])
  else if c = '0' then some .zero
  else if c.isDigit then some (.integer .decimal [] [c])
  else if isNameStart c then some (.symbol [c])
  else none

/-- Carries the next partial lexeme into a mode. -/
def Step.within (line : Nat) : Step Partial → Step Mode
  | .more next => .more (.within line next)
  | .closed verdict => .closed verdict
  | .ended verdict => .ended verdict
  | .stray inInteger => .stray inInteger

namespace Mode

/-- The line that a token or a fault belongs to, when reading has come to line `here`. -/
def line (mode : Mode) (here : Nat) : Nat :=
  match mode with
  | within line _ => line
  | blank | comment => here

/-- The effect of a byte that was read on line `here`. -/
def step (mode : Mode) (here : Nat) (b : UInt8) : Step Mode :=
  let c := Char.ofUInt8 b
  match mode with
  | blank =>
    if isBlank c then .more blank
    else if c = '#' then .more comment
    else if c = ';' then .closed (.ok (.assertEnd, ";"))
    else match opening c with
      | some lexeme => .more (within here lexeme)
      | none => .stray none
  | comment => .more (if c = '\n' then blank else comment)
  | within line lexeme => (lexeme.step b).within line

/-- What the end of the bytes makes of a mode: without an open lexeme, the end token. -/
def atEnd : Mode → Verdict
  | within _ lexeme => lexeme.atEnd
  | blank | comment => .ok (.none, "")

theorem step_blank_ne_ended (here : Nat) (b : UInt8) (verdict : Verdict) :
    blank.step here b ≠ .ended verdict := by
  unfold step
  dsimp only
  repeat' split
  all_goals simp

end Mode

end HttpSuite
