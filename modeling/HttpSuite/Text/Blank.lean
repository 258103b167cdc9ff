/-!
# White space of running text

The characters that are cut off both ends of a name, a value or a reference. Beside the ASCII blanks
there are the vertical tab, next line and the space separators of Unicode.

* `trimChars_of_isSpace_eq_false`: a text that starts and ends otherwise is kept.
-/

namespace HttpSuite

/-- The Unicode property of white space. -/
def isSpace (c : Char) : Bool :=
  let n := c.toNat
  (0x9 ≤ n && n ≤ 0xd) || n == 0x20 || n == 0x85 || n == 0xa0 || n == 0x1680 ||
    (0x2000 ≤ n && n ≤ 0x200a) || n == 0x2028 || n == 0x2029 || n == 0x202f || n == 0x205f ||
    n == 0x3000

/-- The characters without the white space at both ends. -/
def trimChars (cs : List Char) : List Char :=
  ((cs.dropWhile isSpace).reverse.dropWhile isSpace).reverse

/-- The text without the white space at both ends. -/
def trim (text : String) : String :=
  String.ofList (trimChars text.toList)

theorem trimChars_of_isSpace_eq_false {cs : List Char}
    (first : ∀ c ∈ cs.head?, isSpace c = false) (last : ∀ c ∈ cs.getLast?, isSpace c = false) :
    trimChars cs = cs := by
  have keep : ∀ ds : List Char, (∀ c ∈ ds.head?, isSpace c = false) →
      ds.dropWhile isSpace = ds := by
    intro ds h
    cases ds with
    | nil => rfl
    | cons d ds => simp [h d (by simp)]
  have last' : ∀ c ∈ cs.reverse.head?, isSpace c = false := by simpa using last
  rw [trimChars, keep cs first, keep cs.reverse last', List.reverse_reverse]

end HttpSuite
