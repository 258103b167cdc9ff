import HttpSuite.Text.Unprintable

/-!
# Quoted text in messages and listings

A text is shown between double quotes and a character between single quotes. The quote itself and
the backslash take a backslash, four control characters have a letter, and every other unprintable
character is shown by its number.

* `newline_not_mem_escaped`: no escape holds a line feed, so quoted text stays on one line.
-/

namespace HttpSuite.Quoted

/-- The spelling of `c` between two `quote` characters. -/
def escaped (quote c : Char) : List Char :=
  if c == quote || c == '\\' then ['\\', c]
  else if c == '\x00' then ['\\', '0']
  else if c == '\t' then ['\\', 't']
  else if c == '\n' then ['\\', 'n']
  else if c == '\r' then ['\\', 'r']
  else if isUnprintable c then ['\\', 'u', '\x7b'] ++ Nat.toDigits 16 c.toNat ++ ['\x7d']
  else [c]

/-- The text between double quotes. -/
def text (s : String) : String :=
  String.ofList (['"'] ++ s.toList.flatMap (escaped '"') ++ ['"'])

/-- The character between single quotes. -/
def char (c : Char) : String :=
  String.ofList (['\x27'] ++ escaped '\x27' c ++ ['\x27'])

private theorem newline_ne_digitChar : ∀ n < 16, '\n' ≠ Nat.digitChar n := by decide

private theorem newline_not_mem_toDigits (n : Nat) : '\n' ∉ Nat.toDigits 16 n := by
  have core : ∀ fuel n (tail : List Char), '\n' ∉ tail →
      '\n' ∉ Nat.toDigitsCore 16 fuel n tail := by
    intro fuel
    induction fuel with
    | zero => exact fun n tail h => h
    | succ fuel ih =>
      intro n tail h
      have first := newline_ne_digitChar (n % 16) (Nat.mod_lt n (by decide))
      have more : '\n' ∉ Nat.digitChar (n % 16) :: tail := by simp [h, first]
      simp only [Nat.toDigitsCore]
      split
      · exact more
      · exact ih _ _ more
  exact core _ _ _ (by simp)

theorem newline_not_mem_escaped {quote : Char} (hq : quote ≠ '\n') (c : Char) :
    '\n' ∉ escaped quote c := by
  unfold escaped
  split
  · next h =>
    have : '\n' ≠ c := by
      rintro rfl
      simp [Ne.symm hq] at h
    simp [this]
  · split
    · decide
    · split
      · decide
      · split
        · decide
        · next h =>
          split
          · decide
          · split
            · have := newline_not_mem_toDigits c.toNat
              simp [this]
            · exact fun m => h (beq_iff_eq.mpr (List.mem_singleton.mp m).symm)

end HttpSuite.Quoted
