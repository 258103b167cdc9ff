/-!
# The lines of a text

A line ends at a line feed, or at a carriage return right before one. Text after the last line feed
is a line of its own unless it is empty.

* `lines_append_newline`: text without a line feed, closed by one, is the first line.
-/

namespace HttpSuite

/-- Turns a line that was gathered backwards up to a line feed the right way round. -/
def closeLine : List Char → List Char
  | '\r' :: line => line.reverse
  | line => line.reverse

/-- The lines of the characters; `line` holds, backwards, what was read of the first one. -/
def linesFrom (line : List Char) : List Char → List (List Char)
  | [] => if line.isEmpty then [] else [line.reverse]
  | c :: cs => if c == '\n' then closeLine line :: linesFrom [] cs else linesFrom (c :: line) cs

/-- The lines of a text, without their ends. -/
def lines (text : String) : List String :=
  (linesFrom [] text.toList).map String.ofList

private theorem linesFrom_append_newline {cs line : List Char} (h : '\n' ∉ cs) (rest : List Char) :
    linesFrom line (cs ++ '\n' :: rest) = closeLine (cs.reverse ++ line) :: linesFrom [] rest := by
  induction cs generalizing line with
  | nil => simp [linesFrom]
  | cons c cs ih =>
    have hc : (c == '\n') = false := by
      simpa using fun e : c = '\n' => h (e ▸ List.mem_cons_self)
    have hcs : '\n' ∉ cs := fun e => h (List.mem_cons_of_mem _ e)
    simp [linesFrom, hc, ih hcs]

theorem lines_append_newline {cs : List Char} (h : '\n' ∉ cs) (rest : List Char) :
    lines (String.ofList (cs ++ '\n' :: rest)) =
      String.ofList (closeLine cs.reverse) :: lines (String.ofList rest) := by
  simp [lines, linesFrom_append_newline h]

end HttpSuite
