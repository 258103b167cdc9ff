/-!
# Natural numbers in text

A number is one or more decimal digits, after at most one plus sign. There are no blanks, no group
marks and no minus sign, and leading zeros count for nothing.

* `readNatural?`: the number that a whole text is.
-/

namespace HttpSuite

/-- The value of decimal digits, the first being the highest. -/
def digitsValue (digits : List Char) : Nat :=
  digits.foldl (fun n d => 10 * n + (d.toNat - '0'.toNat)) 0

/-- The digits of a numeral, without its sign. -/
def numeralDigits : List Char → List Char
  | '+' :: digits => digits
  | digits => digits

/-- Reads a whole text as a natural number. -/
def readNatural? (text : String) : Option Nat :=
  let digits := numeralDigits text.toList
  if !digits.isEmpty && digits.all Char.isDigit then some (digitsValue digits) else none

end HttpSuite
