import HttpSuite.Lexer

/-!
# What a byte does to a lexeme

`Partial.Effect` lists the effects that a byte has on a partial lexeme, each with what the byte is then.
A lexeme without quotes that the byte does not belong to is complete or the byte is stray; where it is
complete, it comes to the same as at the end of the bytes.

* `Partial.effect`: there are no other effects.
-/

namespace HttpSuite

namespace Partial

/-- A lexeme in which a character can be stray. -/
def Bare : Partial → Prop
  | zero | integer _ _ _ | symbol _ => True
  | directive _ | literal _ _ _ | joint _ _ => False

/-- The effects that the byte can have on a partial lexeme. -/
inductive Effect (b : UInt8) : Partial → Step Partial → Prop
  | complete {p : Partial} :
      (∀ delimiter escaped text, p ≠ literal delimiter escaped text) → Effect b p (.ended p.atEnd)
  | stray {p : Partial} {inInteger : Option Radix} :
      p.Bare → ¬ isBlank (Char.ofUInt8 b) = true → Effect b p (.stray inInteger)
  | directive {name : List Char} :
      isDirectiveChar (Char.ofUInt8 b) = true →
      Effect b (directive name) (.more (directive (Char.ofUInt8 b :: name)))
  | escaped {delimiter : Delimiter} {text : List UInt8} :
      Effect b (literal delimiter true text) (.more (literal delimiter false (b :: text)))
  | quote {delimiter : Delimiter} {text : List UInt8} :
      b = delimiter.char.toUInt8 → delimiter.joins = true →
      Effect b (literal delimiter false text) (.more (joint delimiter text))
  | lastQuote {delimiter : Delimiter} {text : List UInt8} :
      b = delimiter.char.toUInt8 → delimiter.joins = false →
      Effect b (literal delimiter false text) (.closed (.ofBytes delimiter.kind text))
  | backslash {delimiter : Delimiter} {text : List UInt8} :
      b = '\\'.toUInt8 → Effect b (literal delimiter false text) (.more (literal delimiter true text))
  | plain {delimiter : Delimiter} {text : List UInt8} :
      b ≠ delimiter.char.toUInt8 → b ≠ '\\'.toUInt8 →
      Effect b (literal delimiter false text) (.more (literal delimiter false (b :: text)))
  | gap {delimiter : Delimiter} {text : List UInt8} :
      isBlank (Char.ofUInt8 b) = true → Effect b (joint delimiter text) (.more (joint delimiter text))
  | reopen {delimiter : Delimiter} {text : List UInt8} :
      Char.ofUInt8 b = delimiter.char →
      Effect b (joint delimiter text) (.more (literal delimiter false text))
  | hexadecimal :
      ¬ isBlank (Char.ofUInt8 b) = true → Char.ofUInt8 b = 'x' ∨ Char.ofUInt8 b = 'X' →
      Effect b zero (.more (integer .hexadecimal ['0', Char.ofUInt8 b] []))
  | octal :
      ¬ isBlank (Char.ofUInt8 b) = true → Radix.octal.isDigit (Char.ofUInt8 b) = true →
      Effect b zero (.more (integer .octal ['0'] [Char.ofUInt8 b]))
  | digit {radix : Radix} {opening digits : List Char} :
      ¬ isBlank (Char.ofUInt8 b) = true → radix.isDigit (Char.ofUInt8 b) = true →
      Effect b (integer radix opening digits) (.more (integer radix opening (Char.ofUInt8 b :: digits)))
  | name {name : List Char} :
      ¬ isBlank (Char.ofUInt8 b) = true → isNameChar (Char.ofUInt8 b) = true →
      Effect b (symbol name) (.more (symbol (Char.ofUInt8 b :: name)))

theorem effect_literal (delimiter : Delimiter) (escaped : Bool) (text : List UInt8) (b : UInt8) :
    (literal delimiter escaped text).Effect b (literalStep delimiter escaped text b) := by
  unfold literalStep
  cases escaped with
  | true => exact .escaped
  | false =>
    by_cases quote : b = delimiter.char.toUInt8
    · rw [if_neg Bool.false_ne_true, if_pos quote]
      cases joins : delimiter.joins with
      | true => exact .quote quote joins
      | false => exact .lastQuote quote joins
    · rw [if_neg Bool.false_ne_true, if_neg quote]
      by_cases backslash : b = '\\'.toUInt8
      · rw [if_pos backslash]
        exact .backslash backslash
      · rw [if_neg backslash]
        exact .plain quote backslash

theorem effect (p : Partial) (b : UInt8) : p.Effect b (p.step b) := by
  -- One effect for each way that the tests of `step` can come out.
  cases p with
  | directive seen =>
    simp only [step]
    split
    · next belongs => exact .directive belongs
    · exact .complete nofun
  | literal delimiter escaped text => exact effect_literal delimiter escaped text b
  | joint delimiter text =>
    simp only [step]
    split
    · next blank => exact .gap blank
    · split
      · next quote => exact .reopen quote
      · exact .complete nofun
  | zero =>
    simp only [step, integerStep]
    split
    · exact .complete nofun
    · next blank =>
      split
      · next x => exact .hexadecimal blank x
      · split
        · next digit => exact .octal blank digit
        · exact .stray trivial blank
  | integer radix opening digits =>
    simp only [step, integerStep]
    split
    · exact .complete nofun
    · next blank =>
      split
      · next digit => exact .digit blank digit
      · exact .stray trivial blank
  | symbol seen =>
    simp only [step]
    split
    · exact .complete nofun
    · next blank =>
      split
      · next belongs => exact .name blank belongs
      · exact .stray trivial blank

end Partial

end HttpSuite
