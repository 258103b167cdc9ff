import HttpSuite.Scope
import HttpSuite.Text.Ascii
import HttpSuite.Text.Blank
import HttpSuite.Text.Cut

/-!
# Templates

A template is text with references in double braces. It is taken apart into pieces, each some plain
text and the inside of the reference after it, and the plain text at the end. A pair of opening
braces that is never closed is plain text.

Filling a template replaces every reference by the text that its name is bound to. The texts put in
are not looked at again.

* `splitAtPair_append`: taking apart loses nothing but the pair.
* `toChars_ofText`: the pieces of a template make up its text.
-/

namespace HttpSuite

/-- Why a name or a reference cannot be replaced. -/
inductive EvalCause where
  | undefinedSymbol (name : String)
  | unsupportedCall (name : String)
  | invalidReference (text : String)
  deriving DecidableEq, Repr

/-- The wording of the fault. -/
def EvalCause.message : EvalCause → String
  | undefinedSymbol name => "undefined symbol '" ++ name ++ "'"
  | unsupportedCall name => "function call '" ++ name ++ "(...)' is not supported"
  | invalidReference text => "invalid reference '\x7b\x7b" ++ text ++ "\x7d\x7d'"

/-- The token that a name stands for. -/
def lookupSymbol (lookup : String → Option Token) (name : String) : Except EvalCause Token :=
  match lookup name with
  | some token => .ok token
  | none => .error (.undefinedSymbol name)

/-! ## References -/

/-- The name in a call, for an inside of the form `name(...)`. -/
def callName? (inner : String) : Option String :=
  match cut '(' inner with
  | some (before, _) =>
    let name := trim before
    if isSymbol name && inner.toList.getLast? == some ')' then some name else none
  | none => none

/-- The symbol name in the inside of a reference. -/
def referenceName (inside : String) : Except EvalCause String :=
  let inner := trim inside
  if isSymbol inner then .ok inner
  else match callName? inner with
    | some name => .error (.unsupportedCall name)
    | none => .error (.invalidReference inner)

/-! ## Taking text apart -/

/-- Plain text and the inside of the reference after it. -/
structure Piece where
  plain : List Char
  inside : List Char
  deriving DecidableEq, Repr

/-- Pieces, and the plain text at the end. -/
structure Template where
  pieces : List Piece
  tail : List Char
  deriving DecidableEq, Repr

/-- The characters before the first two `mark`s in a row and those after them; `before` is what was
passed already, backwards. -/
def splitAtPair (mark : Char) (before : List Char) : List Char → Option (List Char × List Char)
  | [] => none
  | c :: cs =>
    match cs with
    | d :: ds =>
      if c = mark ∧ d = mark then some (before.reverse, ds)
      else splitAtPair mark (c :: before) (d :: ds)
    | [] => none

theorem splitAtPair_append {mark : Char} {before cs left right : List Char}
    (h : splitAtPair mark before cs = some (left, right)) :
    before.reverse ++ cs = left ++ mark :: mark :: right := by
  fun_induction splitAtPair mark before cs with
  | case1 => cases h
  | case2 before c d ds eq =>
    obtain ⟨rfl, rfl⟩ := eq
    cases h
    rfl
  | case3 before c d ds ne ih => simpa using ih h
  | case4 => cases h

private theorem splitAtPair_length {mark : Char} {cs left right : List Char}
    (h : splitAtPair mark [] cs = some (left, right)) : right.length + 2 ≤ cs.length := by
  have := congrArg List.length (splitAtPair_append h)
  simp at this
  omega

namespace Template

/-- Takes characters apart after the pieces in `seen`, which are kept backwards. -/
def ofCharsFrom (seen : List Piece) (cs : List Char) : Template :=
  match _h : splitAtPair '\x7b' [] cs with
  | none => ⟨seen.reverse, cs⟩
  | some (plain, after) =>
    match _h' : splitAtPair '\x7d' [] after with
    | none => ⟨seen.reverse, cs⟩
    | some (inside, rest) => ofCharsFrom (⟨plain, inside⟩ :: seen) rest
termination_by cs.length
decreasing_by
  have := splitAtPair_length _h
  have := splitAtPair_length _h'
  omega

/-- Takes a text apart. -/
def ofText (text : String) : Template := ofCharsFrom [] text.toList

/-- The characters of a piece. -/
def Piece.toChars (piece : Piece) : List Char :=
  piece.plain ++ ['\x7b', '\x7b'] ++ piece.inside ++ ['\x7d', '\x7d']

/-- The characters of a template. -/
def toChars (template : Template) : List Char :=
  template.pieces.flatMap Piece.toChars ++ template.tail

theorem toChars_ofCharsFrom (seen : List Piece) (cs : List Char) :
    (ofCharsFrom seen cs).toChars = seen.reverse.flatMap Piece.toChars ++ cs := by
  fun_induction ofCharsFrom seen cs with
  | case1 => rfl
  | case2 => rfl
  | case3 seen cs plain after h inside rest h' ih =>
    have first : cs = plain ++ '\x7b' :: '\x7b' :: after := by simpa using splitAtPair_append h
    have second : after = inside ++ '\x7d' :: '\x7d' :: rest := by
      simpa using splitAtPair_append h'
    rw [ih, first, second]
    simp [Piece.toChars]

/-- The pieces of a template make up its text. -/
theorem toChars_ofText (text : String) : (ofText text).toChars = text.toList := by
  simpa [ofText] using toChars_ofCharsFrom [] text.toList

/-! ## Filling -/

/-- The text of a piece once its reference is replaced. -/
def fillPiece (lookup : String → Option Token) (piece : Piece) : Except EvalCause String := do
  let name ← referenceName (String.ofList piece.inside)
  let token ← lookupSymbol lookup name
  return String.ofList piece.plain ++ token.text

/-- Replaces every reference, first to last. -/
def fill (lookup : String → Option Token) (template : Template) : Except EvalCause String := do
  let filled ← template.pieces.foldlM (fun out piece => return out ++ (← fillPiece lookup piece)) ""
  return filled ++ String.ofList template.tail

end Template

/-- The text with every reference replaced. -/
def interpolate (lookup : String → Option Token) (text : String) : Except EvalCause String :=
  (Template.ofText text).fill lookup

end HttpSuite
