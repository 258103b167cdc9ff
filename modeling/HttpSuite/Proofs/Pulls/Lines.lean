import HttpSuite.Proofs.Pulls.Accounts
import Mathlib.Control.Monad.Basic

/-!
# Lines that are counted

A lexer stands on the line that the line feeds before it make, and every token is on the line of its
first byte, as long as no pull has stopped at a stray character that took a line feed along. Such a
line feed is never made up for: all lines behind it are too low. In a text there is none, since a line
feed is no part of another character.

* `run_gap`: what a run finds begins past the gap, and is on the line of its first byte.
* `Lexer.newline_late_iff`: a line feed is not counted exactly where a stray character splits a line.
* `Lexer.pull_lines`: one pull; `Lexer.line_pulled_iff`: any number of them.
-/

namespace HttpSuite

/-- What is left behind blanks and comments; `comment` says that a comment is open. -/
def pastGap (comment : Bool) : List UInt8 → List UInt8
  | [] => []
  | b :: bytes =>
    let c := Char.ofUInt8 b
    if comment then pastGap (c != '\n') bytes
    else if isBlank c then pastGap false bytes
    else if c = '#' then pastGap true bytes
    else b :: bytes

/-- Nothing is open, or a comment. -/
def Mode.gap (comment : Bool) : Mode := if comment then .comment else .blank

/-! ## Stray characters -/

/-- The byte is stray, or it leads on to where one can be. -/
def Step.Bare : Step Partial → Prop
  | .more next => next.Bare
  | .stray _ => True
  | .closed verdict | .ended verdict => verdict.Strays

theorem Verdict.not_strays_ok (found : TokenKind × String) : ¬ Strays (.ok found) := by
  rintro ⟨cause, c, fault, -⟩
  cases fault

theorem Verdict.not_strays_ofBytes (kind : TokenKind) (bytes : List UInt8) :
    ¬ (ofBytes kind bytes).Strays := by
  rintro ⟨cause, c, fault, stray⟩
  simp only [ofBytes] at fault
  split at fault <;> cases fault
  cases stray

namespace Partial

theorem not_strays_integerVerdict (radix : Radix) (opening digits : List Char) :
    ¬ (integerVerdict radix opening digits).Strays := by
  rintro ⟨cause, c, fault, stray⟩
  simp only [integerVerdict] at fault
  split at fault <;> cases fault
  cases stray

theorem not_strays_atEnd (p : Partial) : ¬ p.atEnd.Strays := by
  cases p with
  | directive name | zero | symbol name => exact Verdict.not_strays_ok _
  | literal delimiter escaped text =>
    rintro ⟨cause, c, fault, stray⟩
    cases fault
    cases stray
  | joint delimiter text => exact Verdict.not_strays_ofBytes _ _
  | integer radix opening digits => exact not_strays_integerVerdict _ _ _

/-- No blank is stray, or leads on to where a character can be. -/
theorem bare_of_step {p : Partial} {b : UInt8} (h : (p.step b).Bare) :
    p.Bare ∧ ¬ isBlank (Char.ofUInt8 b) = true := by
  have effect := p.effect b
  generalize p.step b = step at *
  cases effect with
  | stray bare blank => exact ⟨bare, blank⟩
  | hexadecimal blank | octal blank | digit blank | name blank => exact ⟨trivial, blank⟩
  | complete => exact absurd h (not_strays_atEnd p)
  | lastQuote => exact absurd h (Verdict.not_strays_ofBytes _ _)
  | directive | escaped | quote | backslash | plain | gap | reopen => exact h.elim

end Partial

/-! ## One run -/

section Run

variable {limit line : Nat} {pos : Position} {bytes : List UInt8} {comment : Bool}

theorem line_advance {b : UInt8} (h : ¬ isBlank (Char.ofUInt8 b) = true) (pos : Position) :
    (pos.advance b).line = pos.line := by
  have other : b ≠ '\n'.toUInt8 := by
    rintro rfl
    exact h rfl
  rw [Position.advance, if_neg other]

/-- What is found within a lexeme is on its first line. -/
theorem line_within {p : Partial}
    (h : ¬ (run limit (.within line p) pos none (bytes.map .byte)).verdict.Overflows) :
    (run limit (.within line p) pos none (bytes.map .byte)).line = line := by
  induction bytes generalizing p pos with
  | nil => rfl
  | cons b bytes ih =>
    rw [run_byte] at h ⊢
    by_cases long : limit < (pos.advance b).width
    · rw [if_pos long] at h
      exact absurd ⟨limit, rfl⟩ h
    · rw [if_neg long] at h ⊢
      rw [Mode.step] at h ⊢
      cases step : p.step b with
      | more next =>
        rw [step] at h
        exact ih h
      | closed verdict | ended verdict | stray radix => rfl

/-- A lexeme with a stray character in it has no line feed before that. -/
theorem bare_within {p : Partial}
    (h : (run limit (.within line p) pos none (bytes.map .byte)).verdict.Strays) :
    p.Bare ∧ (run limit (.within line p) pos none (bytes.map .byte)).position.line = pos.line := by
  induction bytes generalizing p pos with
  | nil => exact absurd h p.not_strays_atEnd
  | cons b bytes ih =>
    rw [run_byte] at h ⊢
    by_cases long : limit < (pos.advance b).width
    · rw [if_pos long] at h
      exact absurd h (Verdict.not_strays_lineTooLong limit)
    · rw [if_neg long] at h ⊢
      rw [Mode.step] at h ⊢
      -- No byte up to the stray one is blank, so none of them ends the line.
      have bare := @Partial.bare_of_step p b
      cases step : p.step b with
      | more next =>
        rw [step] at h bare
        obtain ⟨goes, same⟩ := ih h
        obtain ⟨start, blank⟩ := bare goes
        exact ⟨start, same.trans (line_advance blank pos)⟩
      | closed verdict =>
        rw [step] at h bare
        exact ⟨(bare h).1, line_advance (bare h).2 pos⟩
      | ended verdict =>
        rw [step] at h bare
        exact ⟨(bare h).1, rfl⟩
      | stray radix =>
        rw [step] at bare
        exact ⟨(bare trivial).1, line_advance (bare trivial).2 pos⟩

/-- What a run from `pos` has found begins behind the gap: it is on the line of its first byte, and no
line feed stands between that and a stray character. -/
structure Run.Behind (r : Run) (pos : Position) (gap lexeme : List UInt8) : Prop where
  line : r.line = (pos.after gap).line
  left : r.rest.length ≤ lexeme.length
  stray : r.verdict.Strays → r.position.line = (pos.after gap).line

/-- A byte that belongs to no gap is where a lexeme begins. -/
theorem run_opening {b : UInt8} (blank : ¬ isBlank (Char.ofUInt8 b) = true)
    (sharp : Char.ofUInt8 b ≠ '#')
    (fine : ¬ (run limit .blank pos none ((b :: bytes).map .byte)).verdict.Overflows) :
    (run limit .blank pos none ((b :: bytes).map .byte)).Behind pos [] (b :: bytes) := by
  have here := line_advance blank pos
  rw [run_byte] at fine ⊢
  by_cases long : limit < (pos.advance b).width
  · rw [if_pos long] at fine
    exact absurd ⟨limit, rfl⟩ fine
  rw [if_neg long] at fine ⊢
  simp only [Mode.step, blank, sharp, if_false, Bool.false_eq_true] at fine ⊢
  by_cases finish : Char.ofUInt8 b = ';'
  · rw [if_pos finish] at fine ⊢
    exact ⟨here, by simp, fun _ => here⟩
  rw [if_neg finish] at fine ⊢
  cases opens : opening (Char.ofUInt8 b) with
  | none => exact ⟨here, by simp; omega, fun _ => here⟩
  | some p =>
    rw [opens] at fine
    refine ⟨(line_within fine).trans here, ?_, fun stray => (bare_within stray).2.trans here⟩
    have := run_length_le limit (.within (pos.advance b).line p) (pos.advance b) none
      (bytes.map .byte)
    simp only [List.length_map, List.length_cons] at this ⊢
    omega

/-- Whatever a run finds, but for a line that is too long, begins past the gap. -/
theorem run_gap (fine : ¬ (run limit (.gap comment) pos none (bytes.map .byte)).verdict.Overflows) :
    ∃ gap, bytes = gap ++ pastGap comment bytes ∧
      (run limit (.gap comment) pos none (bytes.map .byte)).Behind pos gap
        (pastGap comment bytes) := by
  induction bytes generalizing comment pos with
  | nil =>
    refine ⟨[], rfl, ?_⟩
    cases comment <;> exact ⟨rfl, Nat.le_refl _, fun _ => rfl⟩
  | cons b bytes ih =>
    -- The bytes of the gap are passed one by one.
    have passes (next : Bool) (past : pastGap comment (b :: bytes) = pastGap next bytes)
        (step : ∀ here, (Mode.gap comment).step here b = .more (.gap next)) :
        ∃ gap, b :: bytes = gap ++ pastGap comment (b :: bytes) ∧
          (run limit (.gap comment) pos none ((b :: bytes).map .byte)).Behind pos gap
            (pastGap comment (b :: bytes)) := by
      rw [run_byte, step] at fine ⊢
      by_cases long : limit < (pos.advance b).width
      · rw [if_pos long] at fine
        exact absurd ⟨limit, rfl⟩ fine
      · rw [if_neg long] at fine ⊢
        obtain ⟨gap, split, line, left, stray⟩ := ih fine
        rw [past]
        exact ⟨b :: gap, congrArg (b :: ·) split, line, left, stray⟩
    cases comment with
    | true =>
      refine passes (Char.ofUInt8 b != '\n') rfl fun here => ?_
      by_cases newline : Char.ofUInt8 b = '\n' <;> simp [Mode.gap, Mode.step, newline]
    | false =>
      by_cases blank : isBlank (Char.ofUInt8 b) = true
      · refine passes false ?_ fun here => ?_
        · simp [pastGap, blank]
        · simp [Mode.gap, Mode.step, blank]
      by_cases sharp : Char.ofUInt8 b = '#'
      · have blank' : isBlank '#' = false := rfl
        refine passes true ?_ fun here => ?_
        · simp [pastGap, sharp, blank']
        · simp [Mode.gap, Mode.step, sharp, blank']
      have past : pastGap false (b :: bytes) = b :: bytes := by simp [pastGap, blank, sharp]
      rw [past]
      exact ⟨[], rfl, run_opening blank sharp fine⟩

end Run

/-! ## Pulls -/

namespace Lexer

/-- The pull stops at a stray character, and among the bytes that it takes from the first byte of the
lexeme on there is a line feed. -/
def SplitsLine (lexer : Lexer) : Prop :=
  ∃ (fault : LexError) (c : Char) (ahead taken left : List UInt8),
    lexer.pull.1 = .error fault ∧ fault.cause.stray? = some c ∧
    lexer.start.2 = ahead.map .byte ∧ lexer.pull.2.rest = left.map .byte ∧
    pastGap false ahead = taken ++ left ∧ '\n'.toUInt8 ∈ taken

variable {lexer : Lexer} {bytes : List UInt8}

theorem count_mark {mark : List UInt8} (h : mark = [] ∨ mark = [0xef, 0xbb, 0xbf]) :
    mark.count '\n'.toUInt8 = 0 := by
  rcases h with rfl | rfl <;> decide

/-- Between the first byte of a lexeme and a stray character in it there is no line feed, so from that
byte on there are as many taken as are taken late. -/
theorem count_late {ahead counted late left : List UInt8}
    (start : lexer.start = (none, ahead.map .byte)) (split : ahead = counted ++ (late ++ left))
    (accounts : lexer.next.Accounts lexer.limit lexer.position counted late left)
    (stray : lexer.next.verdict.Strays) :
    ∃ taken, pastGap false ahead = taken ++ left ∧
      taken.count '\n'.toUInt8 = late.count '\n'.toUInt8 := by
  have fine : ¬ lexer.next.verdict.Overflows := by
    rintro ⟨limit, long⟩
    rw [long] at stray
    exact Verdict.not_strays_lineTooLong limit stray
  rw [next_eq start] at fine accounts stray
  -- The run passes a gap, and what it leaves is a tail of what is past that gap.
  obtain ⟨gap, past, behind⟩ := @run_gap _ _ _ false fine
  have shorter : left.length ≤ (pastGap false ahead).length := by
    have := behind.left
    rw [Mode.gap, if_neg Bool.false_ne_true, accounts.rest, List.length_map] at this
    exact this
  have suffix : left <:+ pastGap false ahead :=
    List.suffix_of_suffix_length_le ⟨counted ++ late, by simp [split]⟩ ⟨gap, past.symm⟩ shorter
  obtain ⟨taken, eq⟩ := suffix
  refine ⟨taken, eq.symm, ?_⟩
  have same : gap ++ taken ++ left = counted ++ late ++ left := by
    rw [List.append_assoc, eq, List.append_assoc, ← past, split]
  have whole : gap ++ taken = counted ++ late := List.append_cancel_right same
  -- Those that are counted are in the gap, as the stray character is on the line of the lexeme.
  have lines := behind.stray stray
  rw [Mode.gap, if_neg Bool.false_ne_true, accounts.position, Position.line_after_bytes,
    Position.line_after_bytes] at lines
  have counts := congrArg (List.count '\n'.toUInt8) whole
  simp only [List.count_append] at counts
  omega

/-- A line feed is taken late exactly where a stray character splits a line. -/
theorem newline_late_iff {ahead counted late left : List UInt8}
    (start : lexer.start = (none, ahead.map .byte)) (split : ahead = counted ++ (late ++ left))
    (accounts : lexer.next.Accounts lexer.limit lexer.position counted late left) :
    '\n'.toUInt8 ∈ late ↔ lexer.SplitsLine := by
  have found := pull_found_eq start
  constructor
  · -- Only a stray character takes anything late.
    intro mem
    have stray := accounts.late_stray (List.ne_nil_of_mem mem)
    obtain ⟨taken, past, count⟩ := count_late start split accounts stray
    obtain ⟨cause, c, fault, shown⟩ := stray
    rw [fault] at found
    refine ⟨_, c, ahead, taken, left, found, shown, congrArg Prod.snd start, accounts.rest, past, ?_⟩
    rw [← List.count_pos_iff] at mem ⊢
    omega
  · -- The fault that splits the line is the stray character of this run, and its parts are the same.
    rintro ⟨fault, c, ahead', taken', left', pulled, shown, start', rest', past', mem⟩
    have stray : lexer.next.verdict.Strays := by
      rw [pulled] at found
      split at found
      · cases found
      · next cause verdict =>
        cases found
        exact ⟨cause, c, verdict, shown⟩
    obtain ⟨taken, past, count⟩ := count_late start split accounts stray
    have sameAhead : ahead' = ahead := by
      rw [start] at start'
      exact (Read.map_byte_inj start').symm
    have sameLeft : left' = left := Read.map_byte_inj (rest'.symm.trans accounts.rest)
    subst sameAhead sameLeft
    have sameTaken : taken' = taken := List.append_cancel_right (past'.symm.trans past)
    rw [← List.count_pos_iff] at mem ⊢
    rw [sameTaken] at mem
    omega

/-- The line of a pull is that of the line feeds it has taken, unless a stray character splits one. -/
theorem pull_lines (h : lexer.rest = bytes.map .byte) :
    ∃ taken left, bytes = taken ++ left ∧ lexer.pull.2.rest = left.map .byte ∧
      lexer.pull.2.line ≤ lexer.line + taken.count '\n'.toUInt8 ∧
      (lexer.pull.2.line = lexer.line + taken.count '\n'.toUInt8 ↔ ¬ lexer.SplitsLine) := by
  obtain ⟨mark, ahead, rfl, marked, start⟩ := exists_start h
  obtain ⟨counted, late, left, split, accounts⟩ :=
    exists_accounts lexer.limit .blank lexer.position ahead
  rw [← next_eq start] at accounts
  have unmarked := count_mark marked
  have line : lexer.pull.2.line = lexer.line + counted.count '\n'.toUInt8 := by
    rw [Lexer.line, pull, accounts.position, Position.line_after_bytes, Lexer.line]
  refine ⟨mark ++ (counted ++ late), left, by simp [split], accounts.rest, ?_, ?_⟩
  · simp only [List.count_append]
    omega
  rw [← newline_late_iff start split accounts, ← List.count_eq_zero, line]
  simp only [List.count_append]
  omega

/-- A token is on the line of its first byte, as the lexer counts lines. -/
theorem pull_token_line {token : Token} (h : lexer.rest = bytes.map .byte)
    (found : lexer.pull.1 = .ok token) :
    ∃ before ahead, lexer.start.2 = ahead.map .byte ∧ bytes = before ++ pastGap false ahead ∧
      token.span.line = lexer.line + before.count '\n'.toUInt8 := by
  obtain ⟨mark, ahead, rfl, marked, start⟩ := exists_start h
  rw [pull_found_eq start] at found
  have fine : ¬ lexer.next.verdict.Overflows := by
    rintro ⟨limit, long⟩
    rw [long] at found
    cases found
  have line : token.span.line = lexer.next.line := by
    split at found
    · cases found
      rfl
    · cases found
  rw [next_eq start] at fine line
  obtain ⟨gap, past, behind⟩ := @run_gap _ _ _ false fine
  refine ⟨mark ++ gap, ahead, congrArg Prod.snd start, ?_, ?_⟩
  · rw [List.append_assoc, ← past]
  · have counted := behind.line
    rw [Mode.gap, if_neg Bool.false_ne_true, ← line, Position.line_after_bytes] at counted
    rw [counted, List.count_append, count_mark marked, Nat.zero_add, Lexer.line]

/-- The lines of a lexer never run ahead of the line feeds, and they keep up exactly as long as no
stray character has split a line. -/
theorem lines_pulled {first : Lexer} (h : first.rest = bytes.map .byte) (n : Nat) :
    ∃ consumed left, bytes = consumed ++ left ∧ (first.pulled n).rest = left.map .byte ∧
      (first.pulled n).line ≤ first.line + consumed.count '\n'.toUInt8 ∧
      ((first.pulled n).line = first.line + consumed.count '\n'.toUInt8 ↔
        ∀ k < n, ¬ (first.pulled k).SplitsLine) := by
  induction n with
  | zero => exact ⟨[], bytes, rfl, h, Nat.le_refl _, by simp [pulled]⟩
  | succ n ih =>
    obtain ⟨consumed, left, rfl, rest, le, lines⟩ := ih
    obtain ⟨taken, left, rfl, rest', le', lines'⟩ := pull_lines rest
    refine ⟨consumed ++ taken, left, by rw [List.append_assoc], rest', ?_, ?_⟩
    · rw [pulled, List.count_append]
      omega
    · have both : (∀ k < n + 1, ¬ (first.pulled k).SplitsLine) ↔
          (∀ k < n, ¬ (first.pulled k).SplitsLine) ∧ ¬ (first.pulled n).SplitsLine :=
        ⟨fun all => ⟨fun k lt => all k (by omega), all n (by omega)⟩,
          fun ⟨before, last⟩ k lt => if eq : k = n then eq ▸ last else before k (by omega)⟩
      rw [both, ← lines, ← lines', pulled, List.count_append]
      omega

/-- The line of a lexer is one more than the number of line feeds among the bytes that it has consumed,
and a token is on the line of its first byte, exactly as long as no stray character has split a line. -/
theorem line_pulled_iff (source : String) (limit : Nat) (bytes : List UInt8) (n : Nat) :
    let first : Lexer := { source, rest := bytes.map .byte, limit }
    let lexer := first.pulled n
    let whole := ∀ k < n, ¬ (first.pulled k).SplitsLine
    (∃ consumed left, bytes = consumed ++ left ∧ lexer.rest = left.map .byte ∧
      (lexer.line = 1 + consumed.count '\n'.toUInt8 ↔ whole)) ∧
    ∀ token, lexer.pull.1 = .ok token →
      ∃ before ahead, lexer.start.2 = ahead.map .byte ∧ bytes = before ++ pastGap false ahead ∧
        (token.span.line = 1 + before.count '\n'.toUInt8 ↔ whole) := by
  intro first lexer whole
  have ahead : first.rest = bytes.map .byte := rfl
  obtain ⟨consumed, left, split, rest, -, lines⟩ := lines_pulled ahead n
  have lines : lexer.line = 1 + consumed.count '\n'.toUInt8 ↔ whole := lines
  refine ⟨⟨consumed, left, split, rest, lines⟩, fun token found => ?_⟩
  obtain ⟨before, ahead, begins, past, line⟩ := pull_token_line rest found
  refine ⟨consumed ++ before, ahead, begins, by rw [split, past, List.append_assoc], ?_⟩
  have line : token.span.line = lexer.line + before.count '\n'.toUInt8 := line
  rw [← lines, line, List.count_append]
  omega

/-- A name, a lead byte whose second byte is missing at the end of its line, and another name. -/
def splitBytes : List UInt8 := [0x61, 0x0a, 0xc3, 0x0a, 0x62]

/-- The second name is found on line 2, so a line must have been split before it. -/
theorem line_pulled_iff_splitBytes :
    let first : Lexer := { source := "in", rest := splitBytes.map .byte }
    (first.pulled 2).pull.1 = .ok ⟨.symbol, "b", ⟨"in", 2⟩⟩ ∧
      ∃ k < 2, (first.pulled k).SplitsLine := by
  intro first
  have found : (first.pulled 2).pull.1 = .ok ⟨.symbol, "b", ⟨"in", 2⟩⟩ := by decide +kernel
  obtain ⟨before, ahead, start, split, lines⟩ :=
    (line_pulled_iff "in" defaultLineLimit splitBytes 2).2 _ found
  have start' : (first.pulled 2).start.2 = [(0x62 : UInt8)].map .byte := by decide +kernel
  have last : ahead = [0x62] := Read.map_byte_inj (start.symm.trans start')
  subst last
  have before_eq : before = [0x61, 0x0a, 0xc3, 0x0a] := by
    have past : pastGap false [0x62] = [0x62] := by decide
    have split : [0x61, 0x0a, 0xc3, 0x0a] ++ [0x62] = before ++ [0x62] := past ▸ split
    exact (List.append_cancel_right split).symm
  refine ⟨found, Classical.byContradiction fun none => ?_⟩
  have line := lines.mpr fun k lt splits => none ⟨k, lt, splits⟩
  rw [before_eq] at line
  exact absurd line (by decide)

/-- Two bytes of one line and a line feed are consumed, but the lexer is still on the first line, and
what stands on the second one is found there. -/
theorem not_line_pulled_splitLead :
    let lexer := ({ source := "in", rest := [0xc3, 0x0a, 0x61].map .byte } : Lexer).pulled 1
    lexer.rest = [0x61].map .byte ∧ lexer.line ≠ 1 + [0xc3, 0x0a].count '\n'.toUInt8 ∧
      lexer.pull.1 = .ok ⟨.symbol, "a", ⟨"in", 1⟩⟩ := by
  refine ⟨?_, ?_, ?_⟩
  · decide +kernel
  · decide +kernel
  · decide +kernel

end Lexer

end HttpSuite
