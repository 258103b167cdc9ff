import HttpSuite.Proofs.Lexing.Segments
import HttpSuite.Proofs.Pulls.Accounts

/-!
# The tokens of a text

A text has tokens exactly if it splits into segments, and then they are those of the segments. What
remains to be read decides everything (`lexerAt`), so a lexer that has passed a segment goes on like
one that starts behind it.

* `tokens_of_splits`: a text that splits, by induction on its segments.
* `exists_splits`: a text without a fault splits, by induction on its length.
* `tokenize_eq_ok_iff`: both together, from the start of a text with or without a byte order mark.
-/

namespace HttpSuite

/-! ## Lexers in the middle of a text -/

/-- The lexer that has the characters still to read. -/
def lexerAt (source : String) (limit : Nat) (pos : Position) (cs : List Char) : Lexer :=
  ⟨source, (bytesOf cs).map .byte, limit, pos, false⟩

namespace Lexer

/-- The next run decides about all tokens. -/
theorem tokens_congr {lexer other : Lexer} (source : lexer.source = other.source)
    (limit : lexer.limit = other.limit) (next : lexer.next = other.next) :
    lexer.tokens = other.tokens := by
  have pull : lexer.pull = other.pull := by simp only [Lexer.pull, found, next, source, limit]
  rw [tokens_eq, tokens_eq other, pull]

end Lexer

section Lexer

variable {source : String} {limit : Nat} {pos after : Position} {cs rest : List Char}

theorem tokens_of_runAt_eq (h : runAt limit pos cs = runAt limit after rest) :
    (lexerAt source limit pos cs).tokens = (lexerAt source limit after rest).tokens :=
  Lexer.tokens_congr rfl rfl h

theorem tokens_of_yields {line : Nat} {kind : TokenKind} {text : List Char}
    (h : (runAt limit pos cs).Yields limit line kind text after rest)
    (lexeme : kind ≠ .none ∧ kind ≠ .unknown) :
    (lexerAt source limit pos cs).tokens =
      (⟨kind, String.ofList text, ⟨source, line⟩⟩ :: (lexerAt source limit after rest).tokens.1,
        (lexerAt source limit after rest).tokens.2) := by
  have next : (lexerAt source limit pos cs).next = runAt limit pos cs := rfl
  have found : (lexerAt source limit pos cs).pull.1 =
      .ok ⟨kind, String.ofList text, ⟨source, line⟩⟩ := by
    rw [Lexer.pull, next]
    simp only [Lexer.found, h.failure, h.verdict, h.line_eq]
    rfl
  have later : (lexerAt source limit pos cs).pull.2.tokens =
      (lexerAt source limit after rest).tokens := Lexer.tokens_congr rfl rfl h.next_eq
  rw [Lexer.tokens_eq, found, later]
  simp only [lexeme.1, lexeme.2, if_false]

theorem tokens_of_fails (h : (runAt limit pos cs).Fails) :
    (lexerAt source limit pos cs).tokens.2 ≠ none := by
  obtain ⟨cause, fault⟩ := h
  have next : (lexerAt source limit pos cs).next = runAt limit pos cs := rfl
  have intact : (runAt limit pos cs).failure = none := run_failure limit .blank pos _
  have found : (lexerAt source limit pos cs).pull.1 =
      .error ⟨cause, source, (runAt limit pos cs).line⟩ := by
    rw [Lexer.pull, next]
    simp only [Lexer.found, intact, fault]
    rfl
  rw [Lexer.tokens_eq, found]
  simp

theorem SegmentKind.token?_lexeme {segment : SegmentKind} {kind : TokenKind}
    (h : segment.token? = some kind) : kind ≠ .none ∧ kind ≠ .unknown := by
  cases segment with
  | blanks | comment => cases h
  | literal delimiter => cases delimiter <;> cases h <;> decide
  | finish | directive | integer | symbol => cases h; decide

/-- A segment that stops brings its token, if it makes one, and what follows it the others. -/
theorem tokens_of_stops {s : Segment} (begins : s.Begins rest) (stops : s.Stops rest)
    (fits : pos.Fits limit (bytesOf (s.chars ++ rest))) :
    (lexerAt source limit pos (s.chars ++ rest)).tokens =
      ((s.kind.token?.map fun kind => ⟨kind, String.ofList s.text, ⟨source, pos.line⟩⟩).toList ++
          (lexerAt source limit (pos.after (bytesOf s.chars)) rest).tokens.1,
        (lexerAt source limit (pos.after (bytesOf s.chars)) rest).tokens.2) := by
  cases token : s.kind.token? with
  | none => exact tokens_of_runAt_eq (run_trivia begins token (fits_left fits))
  | some kind =>
    exact tokens_of_yields (run_lexeme begins stops token fits) (SegmentKind.token?_lexeme token)

theorem tokens_nil : (lexerAt source limit pos []).tokens = ([], none) := by
  rw [Lexer.tokens_eq]
  rfl

/-! ## Texts that split -/

/-- The tokens of a text that splits are those of its segments. -/
theorem tokens_of_splits {segments : List Segment} (h : Splits cs segments)
    (fits : pos.Fits limit (bytesOf cs)) :
    (lexerAt source limit pos cs).tokens = (tokensOf source pos.line segments, none) := by
  induction h generalizing pos with
  | nil => exact tokens_nil
  | @cons s rest segments longest splits ih =>
    rw [tokens_of_stops longest.begins (longest.stops splits) fits, ih (fits_right fits),
      Position.line_after]
    rfl

/-- A text in which no fault is found splits. -/
theorem exists_splits (fits : pos.Fits limit (bytesOf cs))
    (clean : (lexerAt source limit pos cs).tokens.2 = none) : ∃ segments, Splits cs segments := by
  induction size : cs.length using Nat.strong_induction_on generalizing pos cs with
  | _ n ih =>
    cases cs with
    | nil => exact ⟨[], .nil⟩
    | cons c cs =>
      rcases exists_segment fits with ⟨s, rest, spelled, begins, stops⟩ | fails
      · rw [spelled] at fits clean ⊢
        rw [tokens_of_stops begins stops fits] at clean
        have shorter : rest.length < n := by
          obtain ⟨d, ds, chars, -⟩ := begins.opens
          rw [← size, spelled, chars, List.cons_append, List.length_cons, List.length_append]
          omega
        obtain ⟨segments, splits⟩ := ih _ shorter (fits_right fits) clean rfl
        exact ⟨s :: segments, .cons (Segment.longest_of_stops begins stops) splits⟩
      · exact absurd clean (tokens_of_fails fails)

end Lexer

/-! ## Byte order marks -/

/-- The characters behind a byte order mark, if one stands first. -/
def dropMark : List Char → List Char
  | '\ufeff' :: cs => cs
  | cs => cs

theorem eq_mark {c : Char} {cs : List Char} {bytes : List UInt8}
    (h : bytesOf (c :: cs) = 0xef :: 0xbb :: 0xbf :: bytes) : c = '\ufeff' := by
  have mark : String.utf8EncodeChar '\ufeff' = [0xef, 0xbb, 0xbf] := by decide
  have same : (String.utf8EncodeChar c ++ bytesOf cs).toByteArray =
      (String.utf8EncodeChar '\ufeff' ++ bytes).toByteArray := by
    rw [mark]
    exact congrArg List.toByteArray h
  rw [List.toByteArray_append, List.toByteArray_append] at same
  have decoded := congrArg (·.utf8DecodeChar? 0) same
  simp only [ByteArray.utf8DecodeChar?_utf8EncodeChar_append] at decoded
  exact Option.some.inj decoded

theorem skipMark_bytesOf (cs : List Char) :
    skipMark ((bytesOf cs).map .byte) = (none, (bytesOf (dropMark cs)).map .byte) := by
  by_cases mark : ∃ ds, cs = '\ufeff' :: ds
  · obtain ⟨ds, rfl⟩ := mark
    have bytes : bytesOf ('\ufeff' :: ds) = 0xef :: 0xbb :: 0xbf :: bytesOf ds := rfl
    rw [bytes]
    rfl
  · have kept : dropMark cs = cs := by
      unfold dropMark
      split
      · exact absurd ⟨_, rfl⟩ mark
      · rfl
    rw [kept]
    refine skipMark_map_byte fun bytes eq => ?_
    cases cs with
    | nil => cases eq
    | cons c cs => exact mark ⟨cs, by rw [eq_mark eq]⟩

theorem tokens_of_text (source text : String) :
    ({ source, rest := Read.ofText text : Lexer }).tokens =
      (lexerAt source defaultLineLimit {} (dropMark text.toList)).tokens := by
  refine Lexer.tokens_congr rfl rfl ?_
  have start : ({ source, rest := Read.ofText text : Lexer }).start =
      skipMark ((bytesOf text.toList).map .byte) := by
    rw [← ofText_eq]
    rfl
  rw [skipMark_bytesOf] at start
  rw [Lexer.next, start]
  rfl

/-- A text is accepted exactly if it splits, past a byte order mark, into segments that are each as
long as possible; its tokens are then those of the segments, in order. The mark itself does not count
for the length of its line. -/
theorem tokenize_eq_ok_iff {text : String} (source : String) (tokens : List Token)
    (within : LinesWithin defaultLineLimit (String.ofList (dropMark text.toList))) :
    tokenize text source = .ok tokens ↔
      ∃ segments, Splits (dropMark text.toList) segments ∧ tokensOf source 1 segments = tokens := by
  have fits := Position.fits_of_linesWithin within
  rw [String.toList_ofList] at fits
  rw [tokenize, tokens_of_text]
  constructor
  · intro ok
    have clean : (lexerAt source defaultLineLimit {} (dropMark text.toList)).tokens.2 = none := by
      split at ok
      · cases ok
      · next eq => rw [eq]
    obtain ⟨segments, splits⟩ := exists_splits fits clean
    rw [tokens_of_splits splits fits] at ok
    exact ⟨segments, splits, Except.ok.inj ok⟩
  · rintro ⟨segments, splits, rfl⟩
    rw [tokens_of_splits splits fits]

/-- A text with a mark, a comment, an escape and a literal that goes on in the next line. -/
def markedText : String := "\ufeff.a # b\n'it\\'s' \x22c\x22\n \x22d\x22 0x1F ;017"

/-- The tokens of that text. -/
def markedTokens : List Token :=
  [⟨.directive, ".a", ⟨"in", 1⟩⟩, ⟨.string, "it's", ⟨"in", 2⟩⟩, ⟨.string, "cd", ⟨"in", 2⟩⟩,
    ⟨.integer, "0x1F", ⟨"in", 3⟩⟩, ⟨.assertEnd, ";", ⟨"in", 3⟩⟩, ⟨.integer, "017", ⟨"in", 3⟩⟩]

theorem tokenize_eq_ok_iff_markedText :
    LinesWithin defaultLineLimit (String.ofList (dropMark markedText.toList)) ∧
      ∃ segments, Splits (dropMark markedText.toList) segments ∧
        tokensOf "in" 1 segments = markedTokens := by
  have within : LinesWithin defaultLineLimit (String.ofList (dropMark markedText.toList)) := by
    decide
  have read : tokenize markedText "in" = .ok markedTokens := by decide +kernel
  exact ⟨within, (tokenize_eq_ok_iff "in" _ within).mp read⟩

end HttpSuite
