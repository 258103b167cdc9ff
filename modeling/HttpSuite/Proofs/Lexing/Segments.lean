import HttpSuite.Proofs.Lexing.Grammar

/-!
# Runs over segments

What one run of the lexer does at the start of a text, in terms of the lexical grammar. The lexer looks
at bytes, the grammar at characters; all bytes of a character are in the ASCII classes that the
character is in (`class_of_mem`).

* `run_trivia`, `run_lexeme`: a segment that stops is passed, or found as a token.
* `exists_segment`: a run that finds no fault starts with a segment.
-/

namespace HttpSuite

/-! ## Bytes and their characters -/

theorem class_of_mem {f : Char → Bool} (ascii : ∀ d, f d = true → IsAscii d) {c : Char} {b : UInt8}
    (hb : b ∈ String.utf8EncodeChar c) : f (Char.ofUInt8 b) = f c := by
  by_cases hc : IsAscii c
  · rw [utf8EncodeChar_of_isAscii hc, List.mem_singleton] at hb
    rw [hb, ofUInt8_toUInt8 hc]
  · have large := le_of_mem_utf8EncodeChar hc hb
    have hb' : ¬ IsAscii (Char.ofUInt8 b) := Nat.not_lt.mpr large
    rw [Bool.eq_false_iff.mpr fun h => hc (ascii c h),
      Bool.eq_false_iff.mpr fun h => hb' (ascii _ h)]

theorem ofUInt8_eq_iff {c d : Char} (hd : IsAscii d) {b : UInt8} (hb : b ∈ String.utf8EncodeChar c) :
    Char.ofUInt8 b = d ↔ c = d := by
  have := class_of_mem (f := (· == d)) (fun e he => beq_iff_eq.mp he ▸ hd) hb
  rw [← beq_iff_eq, this, beq_iff_eq]

theorem exists_byte (c : Char) (cs : List Char) :
    ∃ b bytes, bytesOf (c :: cs) = b :: bytes ∧ b ∈ String.utf8EncodeChar c := by
  have ne : String.utf8EncodeChar c ≠ [] := String.utf8EncodeChar_ne_nil
  obtain ⟨b, bytes, hb⟩ := List.exists_cons_of_ne_nil ne
  refine ⟨b, bytes ++ bytesOf cs, ?_, by simp [hb]⟩
  rw [bytesOf, List.flatMap_cons, hb]
  rfl

theorem newline_mem_bytesOf {cs : List Char} (h : '\n' ∉ cs) : '\n'.toUInt8 ∉ bytesOf cs := by
  intro mem
  obtain ⟨c, hc, hb⟩ := List.mem_flatMap.mp mem
  have : c = '\n' := (ofUInt8_eq_iff (by decide) hb).mp rfl
  exact h (this ▸ hc)

namespace Position

theorem line_after_of_not_mem {bytes : List UInt8} (h : '\n'.toUInt8 ∉ bytes) (pos : Position) :
    (pos.after bytes).line = pos.line := by
  induction bytes generalizing pos with
  | nil => rfl
  | cons b bytes ih =>
    simp only [List.mem_cons, not_or] at h
    obtain ⟨hb, rest⟩ := h
    have step : pos.advance b = ⟨pos.line, pos.width + 1⟩ := if_neg (Ne.symm hb)
    exact (ih rest _).trans (by rw [step])

/-- Every line feed of a text is one line more. -/
theorem line_after (pos : Position) (cs : List Char) :
    (pos.after (bytesOf cs)).line = pos.line + cs.count '\n' := by
  induction cs generalizing pos with
  | nil => rfl
  | cons c cs ih =>
    have split : bytesOf (c :: cs) = bytesOf [c] ++ bytesOf cs := by
      rw [← bytesOf_append, List.singleton_append]
    rw [split, after_append, ih, List.count_cons]
    by_cases hc : c = '\n'
    · subst hc
      have step : (pos.after (bytesOf ['\n'])).line = pos.line + 1 := rfl
      rw [step]
      simp only [beq_self_eq_true, if_true]
      omega
    · have clean : '\n' ∉ [c] := by simpa using Ne.symm hc
      rw [line_after_of_not_mem (newline_mem_bytesOf clean)]
      simp [hc]

end Position

/-! ## Steps of a run -/

section Run

variable {limit line : Nat} {pos : Position} {failure : Option String} {mode : Mode} {p : Partial}
  {c : Char} {cs rest : List Char} {verdict : Verdict}

/-- Bytes that leave the mode as it is are passed. -/
theorem run_stay {bytes : List UInt8} {reads : List Read} (fits : pos.Fits limit bytes)
    (stay : ∀ b ∈ bytes, ∀ here, mode.step here b = .more mode) :
    run limit mode pos failure (bytes.map .byte ++ reads) =
      run limit mode (pos.after bytes) failure reads := by
  induction bytes generalizing pos with
  | nil => rfl
  | cons b bytes ih =>
    obtain ⟨first, others⟩ := List.forall_mem_cons.mp stay
    rw [List.map_cons, List.cons_append, run_more mode fits.1 (first _), ih fits.2 others]
    rfl

/-- The character is left alone by a lexeme that was complete before it. -/
theorem run_leave (fits : pos.Fits limit (bytesOf (c :: cs)))
    (step : ∀ b ∈ String.utf8EncodeChar c, p.step b = .ended verdict) :
    run limit (.within line p) pos failure ((bytesOf (c :: cs)).map .byte) =
      ⟨line, verdict, failure, pos, (bytesOf (c :: cs)).map .byte⟩ := by
  obtain ⟨b, bytes, split, hb⟩ := exists_byte c cs
  rw [split] at fits ⊢
  exact run_ended fits.1 (step b hb)

/-- The run found a fault. -/
def Run.Fails (r : Run) : Prop := ∃ cause, r.verdict = .error cause

/-- The character cannot stand there. -/
theorem run_stray (fits : pos.Fits limit (bytesOf (c :: cs)))
    (step : ∀ b ∈ String.utf8EncodeChar c, ∀ here, ∃ radix, mode.step here b = .stray radix) :
    (run limit mode pos failure ((bytesOf (c :: cs)).map .byte)).Fails := by
  obtain ⟨b, bytes, split, hb⟩ := exists_byte c cs
  obtain ⟨radix, stray⟩ := step b hb (pos.advance b).line
  rw [split] at fits ⊢
  rw [List.map_cons, run, if_neg (Nat.not_lt.mpr fits.1), stray]
  exact ⟨_, rfl⟩

theorem fits_left (fits : pos.Fits limit (bytesOf (cs ++ rest))) : pos.Fits limit (bytesOf cs) := by
  rw [bytesOf_append] at fits
  exact (Position.fits_append.mp fits).1

theorem fits_right (fits : pos.Fits limit (bytesOf (cs ++ rest))) :
    (pos.after (bytesOf cs)).Fits limit (bytesOf rest) := by
  rw [bytesOf_append] at fits
  exact (Position.fits_append.mp fits).2

/-- Characters that leave the mode as it is are passed. -/
theorem run_pass (fits : pos.Fits limit (bytesOf cs))
    (stay : ∀ c ∈ cs, ∀ b ∈ String.utf8EncodeChar c, ∀ here, mode.step here b = .more mode) :
    run limit mode pos failure ((bytesOf (cs ++ rest)).map .byte) =
      run limit mode (pos.after (bytesOf cs)) failure ((bytesOf rest).map .byte) := by
  rw [bytesOf_append, List.map_append]
  refine run_stay fits fun b hb => ?_
  obtain ⟨c, hc, hb⟩ := List.mem_flatMap.mp hb
  exact stay c hc b hb

/-- The characters of a partial lexeme are read. -/
theorem run_take (line : Nat) (failure : Option String) {q : Partial}
    (reads : p.Reads (bytesOf cs) q) (fits : pos.Fits limit (bytesOf (cs ++ rest))) :
    run limit (.within line p) pos failure ((bytesOf (cs ++ rest)).map .byte) =
      run limit (.within line q) (pos.after (bytesOf cs)) failure ((bytesOf rest).map .byte) := by
  rw [bytesOf_append, List.map_append, run_reads reads (fits_left fits)]

/-- What opens a lexeme. -/
theorem run_open (failure : Option String) (ascii : IsAscii c) (notNewline : c ≠ '\n')
    (fits : pos.Fits limit (bytesOf (c :: cs)))
    (step : ∀ here, Mode.blank.step here c.toUInt8 = .more (.within here p)) :
    run limit .blank pos failure ((bytesOf (c :: cs)).map .byte) =
      run limit (.within pos.line p) (pos.after (bytesOf [c])) failure
        ((bytesOf cs).map .byte) := by
  have one : bytesOf [c] = [c.toUInt8] := by rw [bytesOf_cons ascii, bytesOf_nil]
  have clean : '\n' ∉ [c] := by simpa using Ne.symm notNewline
  have line : (pos.advance c.toUInt8).line = pos.line := by
    have := Position.line_after_of_not_mem (newline_mem_bytesOf clean) pos
    rwa [one] at this
  rw [bytesOf_cons ascii] at fits ⊢
  rw [List.map_cons, run_more _ fits.1 (step _), line, one]
  rfl

/-! ## Blanks and comments -/

theorem isBlank_of_mem {b : UInt8} (hb : b ∈ String.utf8EncodeChar c) :
    isBlank (Char.ofUInt8 b) = isBlank c :=
  class_of_mem (fun _ => isAscii_of_isBlank) hb

theorem run_blanks (failure : Option String) (blank : ∀ c ∈ cs, isBlank c = true)
    (fits : pos.Fits limit (bytesOf cs)) :
    run limit .blank pos failure ((bytesOf (cs ++ rest)).map .byte) =
      run limit .blank (pos.after (bytesOf cs)) failure ((bytesOf rest).map .byte) := by
  refine run_pass fits fun c hc b hb here => ?_
  simp only [Mode.step, isBlank_of_mem hb, blank c hc, if_true]

theorem run_comment (failure : Option String) (clean : '\n' ∉ cs)
    (fits : pos.Fits limit (bytesOf ('#' :: cs))) :
    run limit .blank pos failure ((bytesOf ('#' :: (cs ++ rest))).map .byte) =
      run limit .comment (pos.after (bytesOf ('#' :: cs))) failure ((bytesOf rest).map .byte) := by
  rw [bytesOf_cons (by decide)] at fits ⊢
  rw [List.map_cons, run_more .comment fits.1 rfl, bytesOf_cons (by decide)]
  refine run_pass fits.2 fun c hc b hb here => ?_
  have other : ¬ Char.ofUInt8 b = '\n' := by
    rw [ofUInt8_eq_iff (by decide) hb]
    exact fun eq => clean (eq ▸ hc)
  simp only [Mode.step, other, if_false]

end Run

/-! ## Literals -/

section Literal

variable {limit line : Nat} {pos : Position} {delimiter : Delimiter}
  {cs text seen rest gap : List Char}

theorem reads_char {c : Char} (notQuote : c ≠ delimiter.char) (notBackslash : c ≠ '\\')
    (seen : List Char) :
    (Partial.literal delimiter false (bytesOf seen).reverse).Reads (bytesOf [c])
      (.literal delimiter false (bytesOf (seen ++ [c])).reverse) := by
  have reads := reads_escapeIn delimiter c (bytesOf seen).reverse
  rw [escapeIn, if_neg (not_or.mpr ⟨notQuote, notBackslash⟩)] at reads
  rwa [bytesOf_append, List.reverse_append]

/-- A backslash takes the whole character after it along. -/
theorem reads_backslash (delimiter : Delimiter) (c : Char) (seen : List Char) :
    (Partial.literal delimiter false (bytesOf seen).reverse).Reads (bytesOf ['\\', c])
      (.literal delimiter false (bytesOf (seen ++ [c])).reverse) := by
  have backslash : (Partial.literal delimiter false (bytesOf seen).reverse).step '\\'.toUInt8 =
      .more (.literal delimiter true (bytesOf seen).reverse) := by
    cases delimiter <;> rfl
  obtain ⟨b, bytes, split, hb⟩ := exists_byte c []
  have later : ∀ d ∈ bytes, d ≠ delimiter.char.toUInt8 ∧ d ≠ '\\'.toUInt8 := by
    intro d hd
    by_cases ascii : IsAscii c
    · rw [bytesOf_cons ascii, bytesOf_nil] at split
      obtain ⟨-, rfl⟩ := List.cons.inj split
      cases hd
    · have mem : d ∈ String.utf8EncodeChar c := by
        have : d ∈ bytesOf [c] := split ▸ List.mem_cons_of_mem b hd
        simpa [bytesOf] using this
      exact ⟨toUInt8_ne_of_not_isAscii (isAscii_delimiter delimiter) ascii mem,
        toUInt8_ne_of_not_isAscii (by decide) ascii mem⟩
  have rest := reads_plain later (b :: (bytesOf seen).reverse)
  rw [bytesOf_cons (by decide), bytesOf_append, List.reverse_append, split, List.reverse_cons,
    List.append_assoc]
  exact .cons backslash (.cons rfl rest)

/-- The run after a closing quote. -/
def afterQuote (limit line : Nat) (delimiter : Delimiter) (text : List Char) (pos : Position)
    (rest : List Char) : Run :=
  if delimiter.joins then
    run limit (.within line (.joint delimiter (bytesOf text).reverse)) pos none
      ((bytesOf rest).map .byte)
  else ⟨line, .ok (delimiter.kind, String.ofList text), none, pos, (bytesOf rest).map .byte⟩

theorem run_quote (fits : pos.Fits limit (bytesOf (delimiter.char :: rest))) :
    run limit (.within line (.literal delimiter false (bytesOf seen).reverse)) pos none
        ((bytesOf (delimiter.char :: rest)).map .byte) =
      afterQuote limit line delimiter seen (pos.after (bytesOf [delimiter.char])) rest := by
  have ascii := isAscii_delimiter delimiter
  have found := ofBytes_bytesOf delimiter.kind seen
  rw [bytesOf_cons ascii, bytesOf_cons ascii, bytesOf_nil] at *
  rw [List.map_cons, afterQuote]
  cases joins : delimiter.joins with
  | true =>
    rw [if_pos rfl, run_more (.within line (.joint delimiter _)) fits.1]
    · rfl
    · simp only [Mode.step, Partial.step, Partial.literalStep, joins, if_true, if_false,
        Bool.false_eq_true, Step.within]
  | false =>
    rw [if_neg (by simp), run_closed (.ok (delimiter.kind, String.ofList seen)) fits.1]
    · rfl
    · simp only [Partial.step, Partial.literalStep, joins, if_true, if_false, Bool.false_eq_true,
        found]

/-- Blanks and an opening quote behind a literal that joins. -/
theorem run_reopen (blank : ∀ c ∈ gap, isBlank c = true)
    (fits : pos.Fits limit (bytesOf (gap ++ delimiter.char :: rest))) {bytes : List UInt8} :
    run limit (.within line (.joint delimiter bytes)) pos none
        ((bytesOf (gap ++ delimiter.char :: rest)).map .byte) =
      run limit (.within line (.literal delimiter false bytes))
        (pos.after (bytesOf (gap ++ [delimiter.char]))) none ((bytesOf rest).map .byte) := by
  have ascii := isAscii_delimiter delimiter
  have quote := fits_right fits
  rw [run_pass (fits_left fits), bytesOf_append, Position.after_append]
  · rw [bytesOf_cons ascii] at quote
    rw [bytesOf_cons ascii, bytesOf_cons ascii, bytesOf_nil, List.map_cons,
      run_more (.within line (.literal delimiter false bytes)) quote.1]
    · rfl
    · simp only [Mode.step, Partial.step, ofUInt8_toUInt8 ascii, isBlank_quote, if_false,
        Bool.false_eq_true, if_true, Step.within]
  · intro c hc b hb here
    simp only [Mode.step, Partial.step, isBlank_of_mem hb, blank c hc, if_true, Step.within]

theorem run_closes (line : Nat) (h : Closes delimiter cs text) (seen : List Char)
    (fits : pos.Fits limit (bytesOf (cs ++ rest))) :
    run limit (.within line (.literal delimiter false (bytesOf seen).reverse)) pos none
        ((bytesOf (cs ++ rest)).map .byte) =
      afterQuote limit line delimiter (seen ++ text) (pos.after (bytesOf cs)) rest := by
  -- Over the inside, with the text that was read before it.
  induction h generalizing pos seen with
  | quote =>
    rw [List.append_nil]
    exact run_quote fits
  | @plain c cs text notQuote notBackslash _ ih =>
    have first : pos.Fits limit (bytesOf ([c] ++ (cs ++ rest))) := fits
    have run := run_take line none (reads_char notQuote notBackslash seen) first
    have := ih (seen ++ [c]) (fits_right first)
    rw [← Position.after_append, ← bytesOf_append, List.append_assoc] at this
    exact run.trans this
  | @escaped c cs text _ ih =>
    have first : pos.Fits limit (bytesOf (['\\', c] ++ (cs ++ rest))) := fits
    have run := run_take line none (reads_backslash delimiter c seen) first
    have := ih (seen ++ [c]) (fits_right first)
    rw [← Position.after_append, ← bytesOf_append, List.append_assoc] at this
    exact run.trans this
  | @joined gap cs text joins blank _ ih =>
    have whole : delimiter.char :: (gap ++ delimiter.char :: cs) ++ rest =
        delimiter.char :: (gap ++ delimiter.char :: (cs ++ rest)) := by simp
    rw [whole] at fits ⊢
    have first : pos.Fits limit
        (bytesOf ([delimiter.char] ++ (gap ++ delimiter.char :: (cs ++ rest)))) := fits
    have second := fits_right first
    have third : (pos.after (bytesOf [delimiter.char])).Fits limit
        (bytesOf ((gap ++ [delimiter.char]) ++ (cs ++ rest))) := by simpa using second
    rw [run_quote fits, afterQuote, if_pos joins, run_reopen blank second,
      ih seen (fits_right third), ← Position.after_append, ← Position.after_append,
      ← bytesOf_append, ← bytesOf_append]
    simp

/-- A literal that joins ends before the first character behind the blanks. -/
theorem run_joint_end (apart : QuoteApart delimiter rest) (joins : delimiter.joins = true)
    (fits : pos.Fits limit (bytesOf rest)) (seen : List Char) :
    run limit (.within line (.joint delimiter (bytesOf seen).reverse)) pos none
        ((bytesOf rest).map .byte) =
      ⟨line, .ok (delimiter.kind, String.ofList seen), none,
        pos.after (bytesOf (rest.takeWhile isBlank)),
        (bytesOf (rest.dropWhile isBlank)).map .byte⟩ := by
  have found := ofBytes_bytesOf delimiter.kind seen
  have blank : ∀ c ∈ rest.takeWhile isBlank, isBlank c = true := fun c hc => List.mem_takeWhile_imp hc
  have other := stops_dropWhile isBlank rest
  have notQuote := apart joins
  clear apart
  have split : rest = rest.takeWhile isBlank ++ rest.dropWhile isBlank :=
    List.takeWhile_append_dropWhile.symm
  generalize rest.takeWhile isBlank = gap at *
  generalize rest.dropWhile isBlank = more at *
  subst split
  rw [run_pass (fits_left fits)]
  · cases more with
    | nil =>
      rw [bytesOf_nil, List.map_nil, run_nil, Partial.atEnd, found]
    | cons c more =>
      refine run_leave (fits_right fits) fun b hb => ?_
      have notQuote : ¬ Char.ofUInt8 b = delimiter.char := by
        rw [ofUInt8_eq_iff (isAscii_delimiter delimiter) hb]
        exact notQuote c rfl
      simp only [Partial.step, isBlank_of_mem hb, other c rfl, notQuote, if_false,
        Bool.false_eq_true, Partial.atEnd, found]
  · intro c hc b hb here
    simp only [Mode.step, Partial.step, isBlank_of_mem hb, blank c hc, if_true, Step.within]

end Literal

/-! ## Segments that stop -/

/-- The run at the start of a text. -/
def runAt (limit : Nat) (pos : Position) (cs : List Char) : Run :=
  run limit .blank pos none ((bytesOf cs).map .byte)

/-- The run found a token on that line, and stopped before `rest` or behind blanks that it opens with. -/
structure Run.Yields (r : Run) (limit line : Nat) (kind : TokenKind) (text : List Char)
    (pos : Position) (rest : List Char) : Prop where
  line_eq : r.line = line
  verdict : r.verdict = .ok (kind, String.ofList text)
  failure : r.failure = none
  left : ∃ gap more, rest = gap ++ more ∧ (∀ c ∈ gap, isBlank c = true) ∧
    pos.Fits limit (bytesOf gap) ∧ r.position = pos.after (bytesOf gap) ∧
    r.rest = (bytesOf more).map .byte

section Segment

variable {limit : Nat} {pos : Position} {rest : List Char}

/-- The run after it goes on as if it stood before `rest`: blanks are passed between lexemes as well. -/
theorem Run.Yields.next_eq {r : Run} {line : Nat} {kind : TokenKind} {text : List Char}
    (h : r.Yields limit line kind text pos rest) :
    run limit .blank r.position none r.rest = runAt limit pos rest := by
  obtain ⟨gap, more, rfl, blank, fits, position, left⟩ := h.left
  rw [position, left, runAt, run_blanks none blank fits]

/-- The run found a token and stopped right behind it. -/
theorem Run.yields_behind (line : Nat) (kind : TokenKind) (text : List Char) (pos : Position)
    (rest : List Char) :
    (⟨line, .ok (kind, String.ofList text), none, pos, (bytesOf rest).map .byte⟩ : Run).Yields limit
      line kind text pos rest :=
  ⟨rfl, rfl, rfl, [], rest, rfl, by simp, trivial, rfl, rfl⟩

/-- A lexeme without quotes is opened and read on. -/
theorem run_begun {p q : Partial} {c : Char} {cs : List Char} (starts : p.StartsWith c)
    (reads : p.Reads (bytesOf cs) q) (fits : pos.Fits limit (bytesOf (c :: cs ++ rest))) :
    runAt limit pos (c :: cs ++ rest) =
      run limit (.within pos.line q) (pos.after (bytesOf (c :: cs))) none
        ((bytesOf rest).map .byte) := by
  have first : pos.Fits limit (bytesOf ([c] ++ (cs ++ rest))) := fits
  have notNewline : c ≠ '\n' := by
    rintro rfl
    exact absurd starts.2.1 (by decide)
  have opened := run_open none starts.1 notNewline fits (step_opening starts)
  have taken := run_take pos.line none reads (fits_right first)
  rw [← Position.after_append, ← bytesOf_append] at taken
  exact opened.trans taken

theorem run_quoted {delimiter : Delimiter} {cs : List Char}
    (fits : pos.Fits limit (bytesOf (delimiter.char :: cs))) :
    runAt limit pos (delimiter.char :: cs) =
      run limit (.within pos.line (.literal delimiter false [])) (pos.after (bytesOf [delimiter.char]))
        none ((bytesOf cs).map .byte) := by
  have notNewline : delimiter.char ≠ '\n' := by cases delimiter <;> decide
  refine run_open none (isAscii_delimiter delimiter) notNewline fits fun here => ?_
  cases delimiter <;> rfl

theorem yields_literal {delimiter : Delimiter} {cs text : List Char} (h : Closes delimiter cs text)
    (apart : QuoteApart delimiter rest)
    (fits : pos.Fits limit (bytesOf (delimiter.char :: cs ++ rest))) :
    (runAt limit pos (delimiter.char :: cs ++ rest)).Yields limit pos.line delimiter.kind text
      (pos.after (bytesOf (delimiter.char :: cs))) rest := by
  have first : pos.Fits limit (bytesOf ([delimiter.char] ++ (cs ++ rest))) := fits
  have behind := fits_right fits
  have closed := run_closes pos.line h [] (fits_right first)
  rw [← Position.after_append, ← bytesOf_append] at closed
  have whole : runAt limit pos (delimiter.char :: cs ++ rest) =
      afterQuote limit pos.line delimiter text (pos.after (bytesOf (delimiter.char :: cs))) rest :=
    (run_quoted fits).trans closed
  rw [whole, afterQuote]
  cases joins : delimiter.joins with
  | true =>
    have split : rest = rest.takeWhile isBlank ++ rest.dropWhile isBlank :=
      List.takeWhile_append_dropWhile.symm
    rw [if_pos rfl, run_joint_end apart joins behind text]
    exact ⟨rfl, rfl, rfl, rest.takeWhile isBlank, rest.dropWhile isBlank, split,
      fun c hc => List.mem_takeWhile_imp hc, fits_left (split ▸ behind), rfl, rfl⟩
  | false =>
    rw [if_neg (by simp)]
    exact Run.yields_behind ..

theorem yields_directive {name : List Char} (all : ∀ c ∈ name, isDirectiveChar c = true)
    (stops : ∀ c ∈ rest.head?, isDirectiveChar c = false)
    (fits : pos.Fits limit (bytesOf ('.' :: name ++ rest))) :
    (runAt limit pos ('.' :: name ++ rest)).Yields limit pos.line .directive ('.' :: name)
      (pos.after (bytesOf ('.' :: name))) rest := by
  have reads := reads_gather (fun _ => isAscii_of_isDirectiveChar)
    (fun seen _ hc => step_directive hc seen) all []
  have starts : (Partial.directive []).StartsWith '.' := by decide
  have verdict : (Partial.directive (name.reverse ++ [])).atEnd =
      .ok (.directive, String.ofList ('.' :: name)) := by
    simp [Partial.atEnd, Verdict.ofChars]
  rw [run_begun starts reads fits]
  cases rest with
  | nil => exact ⟨rfl, verdict, rfl, [], [], rfl, by simp, trivial, rfl, rfl⟩
  | cons c rest =>
    have ended : ∀ b ∈ String.utf8EncodeChar c, (Partial.directive (name.reverse ++ [])).step b =
        .ended (.ok (.directive, String.ofList ('.' :: name))) := by
      intro b hb
      simp only [Partial.step, class_of_mem (fun _ => isAscii_of_isDirectiveChar) hb, stops c rfl,
        if_false, Bool.false_eq_true, verdict]
    have behind := fits_right fits
    rw [run_leave behind ended]
    exact Run.yields_behind ..

/-- A word that a blank or the end completes. -/
theorem yields_bare {w : Word} (lexical : w.Lexical) (kind : w.kind = .integer ∨ w.kind = .symbol)
    (bounded : OpensBlank rest) (fits : pos.Fits limit (bytesOf (w.text.toList ++ rest))) :
    (runAt limit pos (w.text.toList ++ rest)).Yields limit pos.line w.kind w.text.toList
      (pos.after (bytesOf w.text.toList)) rest := by
  have spelling : w.spelling = w.text.toList := by
    rcases kind with kind | kind <;> simp [Word.spelling, kind]
  cases lexical.shape with
  | string | shellCommand | assertEnd => simp at kind
  | @bare _ c cs p q _ spelled starts reads done =>
    rw [← spelling, spelled] at fits ⊢
    have text : w.text = String.ofList (c :: cs) := by
      rw [← spelled, spelling, String.ofList_toList]
    rw [run_begun starts reads fits]
    cases rest with
    | nil => exact ⟨rfl, text ▸ done.atEnd, rfl, [], [], rfl, by simp, trivial, rfl, rfl⟩
    | cons d rest =>
      have ended : ∀ b ∈ String.utf8EncodeChar d, q.step b = .ended (.ok (w.kind, w.text)) :=
        fun b hb => done.blank b ((isBlank_of_mem hb).trans (bounded d rfl))
      rw [run_leave (fits_right fits) ended, text]
      exact Run.yields_behind ..

theorem yields_finish (fits : pos.Fits limit (bytesOf (';' :: rest))) :
    (runAt limit pos (';' :: rest)).Yields limit pos.line .assertEnd [';']
      (pos.after (bytesOf [';'])) rest := by
  have whole : runAt limit pos (';' :: rest) =
      ⟨pos.line, .ok (.assertEnd, ";"), none, pos.after (bytesOf [';']),
        (bytesOf rest).map .byte⟩ := by
    rw [bytesOf_cons (by decide)] at fits
    rw [runAt, bytesOf_cons (by decide), List.map_cons, run, if_neg (Nat.not_lt.mpr fits.1)]
    rfl
  rw [whole]
  exact Run.yields_behind ..

/-- Blanks and comments are passed. -/
theorem run_trivia {s : Segment} (begins : s.Begins rest) (trivia : s.kind.token? = none)
    (fits : pos.Fits limit (bytesOf s.chars)) :
    runAt limit pos (s.chars ++ rest) = runAt limit (pos.after (bytesOf s.chars)) rest := by
  cases begins with
  | blanks _ blank => exact run_blanks none blank fits
  | @comment cs _ clean =>
    have whole : '#' :: (cs ++ ['\n']) ++ rest = '#' :: (cs ++ '\n' :: rest) := by simp
    have ends : '#' :: (cs ++ ['\n']) = ('#' :: cs) ++ ['\n'] := rfl
    dsimp only at fits
    rw [ends] at fits
    have behind := fits_right fits
    rw [whole, runAt, run_comment none clean (fits_left fits), ends, bytesOf_append,
      Position.after_append]
    rw [bytesOf_cons (c := '\n') (by decide)] at behind
    rw [bytesOf_cons (c := '\n') (by decide), List.map_cons, run_more .blank behind.1 rfl]
    rfl
  | @lastComment cs clean =>
    have whole := @run_comment limit pos cs [] none clean fits
    rw [List.append_nil] at whole ⊢
    exact whole
  | finish | directive _ | literal _ | integer _ _ | symbol _ _ _ => cases trivia

/-- A lexeme that stops is found. -/
theorem run_lexeme {s : Segment} {kind : TokenKind} (begins : s.Begins rest) (stops : s.Stops rest)
    (token : s.kind.token? = some kind) (fits : pos.Fits limit (bytesOf (s.chars ++ rest))) :
    (runAt limit pos (s.chars ++ rest)).Yields limit pos.line kind s.text
      (pos.after (bytesOf s.chars)) rest := by
  cases begins with
  | blanks _ _ | comment _ | lastComment _ => cases token
  | finish =>
    cases token
    exact yields_finish fits
  | directive all =>
    cases token
    exact yields_directive all stops fits
  | literal closes =>
    cases token
    exact yields_literal closes stops fits
  | @integer cs _ digits bounded =>
    cases token
    have lexical : Word.Lexical ⟨.integer, String.ofList cs⟩ := by
      simpa [Word.Lexical] using digits
    simpa using yields_bare lexical (.inl rfl) bounded (by simpa using fits)
  | @symbol c cs _ start all bounded =>
    cases token
    have lexical : Word.Lexical ⟨.symbol, String.ofList (c :: cs)⟩ :=
      isSymbol_iff.mpr ⟨c, cs, by simp, start, all⟩
    simpa using yields_bare lexical (.inr rfl) bounded (by simpa using fits)

end Segment

/-! ## Runs without a fault -/

section Sound

variable {limit line : Nat} {pos : Position} {c : Char} {cs : List Char}

/-- The text begins with a segment that stops. -/
def Opens (cs : List Char) : Prop :=
  ∃ (s : Segment) (rest : List Char), cs = s.chars ++ rest ∧ s.Begins rest ∧ s.Stops rest

/-- An open literal is closed, or the run finds that it is not. -/
theorem exists_closes (delimiter : Delimiter) {pos : Position} {cs : List Char} (seen : List Char)
    (fits : pos.Fits limit (bytesOf cs)) :
    (∃ ds text rest, cs = ds ++ rest ∧ Closes delimiter ds text ∧ QuoteApart delimiter rest) ∨
      (run limit (.within line (.literal delimiter false (bytesOf seen).reverse)) pos none
        ((bytesOf cs).map .byte)).Fails := by
  -- Over the length, since a group of literals is passed in steps of different lengths.
  match cs with
  | [] => exact .inr ⟨_, rfl⟩
  | c :: cs =>
    by_cases quote : c = delimiter.char
    · subst quote
      by_cases apart : QuoteApart delimiter cs
      · exact .inl ⟨[delimiter.char], [], cs, rfl, .quote, apart⟩
      · -- Behind the blanks the next literal of the group opens.
        obtain ⟨joins, gap, more, rfl, blank⟩ := exists_gap_of_not_quoteApart apart
        have first : pos.Fits limit (bytesOf ([delimiter.char] ++ (gap ++ delimiter.char :: more))) :=
          fits
        have second := fits_right first
        have third : (pos.after (bytesOf [delimiter.char])).Fits limit
            (bytesOf ((gap ++ [delimiter.char]) ++ more)) := by simpa using second
        rw [run_quote fits, afterQuote, if_pos joins, run_reopen blank second]
        rcases exists_closes delimiter seen (fits_right third) with
          ⟨ds, text, rest, rfl, closes, apart⟩ | fails
        · exact .inl ⟨_, text, rest, by simp, .joined joins blank closes, apart⟩
        · exact .inr fails
    · by_cases backslash : c = '\\'
      · subst backslash
        cases cs with
        | nil =>
          have step : (Partial.literal delimiter false (bytesOf seen).reverse).step '\\'.toUInt8 =
              .more (.literal delimiter true (bytesOf seen).reverse) := by
            cases delimiter <;> rfl
          rw [bytesOf_cons (by decide)] at fits ⊢
          rw [List.map_cons, run_more (.within line (.literal delimiter true _)) fits.1]
          · exact .inr ⟨_, rfl⟩
          · rw [Mode.step, step]
            rfl
        | cons c cs =>
          have first : pos.Fits limit (bytesOf (['\\', c] ++ cs)) := fits
          have run := run_take line none
            (reads_backslash delimiter c seen) first
          rcases exists_closes delimiter (seen ++ [c]) (fits_right first) with
            ⟨ds, text, rest, rfl, closes, apart⟩ | fails
          · exact .inl ⟨_, _, rest, rfl, .escaped closes, apart⟩
          · exact .inr (run ▸ fails)
      · have first : pos.Fits limit (bytesOf ([c] ++ cs)) := fits
        have run := run_take line none (reads_char quote backslash seen) first
        rcases exists_closes delimiter (seen ++ [c]) (fits_right first) with
          ⟨ds, text, rest, rfl, closes, apart⟩ | fails
        · exact .inl ⟨_, _, rest, rfl, .plain quote backslash closes, apart⟩
        · exact .inr (run ▸ fails)
termination_by cs.length
decreasing_by all_goals subst_vars; simp_wf <;> omega

/-- Characters of a class are followed by a blank or the end, or the run finds one that is not in it. -/
theorem exists_stretch_or_fails (gather : List Char → Partial) {good : Char → Bool}
    (ascii : ∀ c, good c = true → IsAscii c)
    (step : ∀ seen c, good c = true → (gather seen).step c.toUInt8 = .more (gather (c :: seen)))
    (stray : ∀ seen b, isBlank (Char.ofUInt8 b) = false → good (Char.ofUInt8 b) = false →
      ∃ radix, (gather seen).step b = .stray radix)
    (seen : List Char) (fits : pos.Fits limit (bytesOf cs)) :
    (∃ ds rest, cs = ds ++ rest ∧ (∀ c ∈ ds, good c = true) ∧ OpensBlank rest) ∨
      (run limit (.within line (gather seen)) pos none ((bytesOf cs).map .byte)).Fails := by
  obtain ⟨ds, rest, rfl, all, other⟩ := exists_stretch good cs
  cases rest with
  | nil => exact .inl ⟨ds, [], rfl, all, by simp [OpensBlank]⟩
  | cons c rest =>
    by_cases blank : isBlank c = true
    · exact .inl ⟨ds, c :: rest, rfl, all, by simpa [OpensBlank] using blank⟩
    · rw [run_take line none (reads_gather ascii step all seen) fits]
      refine .inr (run_stray (fits_right fits) fun b hb here => ?_)
      have notBlank := (isBlank_of_mem hb).trans (Bool.eq_false_iff.mpr blank)
      obtain ⟨radix, eq⟩ := stray (ds.reverse ++ seen) b notBlank
        ((class_of_mem ascii hb).trans (other c rfl))
      exact ⟨radix, by rw [Mode.step, eq]; rfl⟩

theorem exists_digits_or_fails (radix : Radix) (opening seen : List Char)
    (fits : pos.Fits limit (bytesOf cs)) :
    (∃ ds rest, cs = ds ++ rest ∧ (∀ c ∈ ds, radix.isDigit c = true) ∧ OpensBlank rest) ∨
      (run limit (.within line (.integer radix opening seen)) pos none
        ((bytesOf cs).map .byte)).Fails := by
  refine exists_stretch_or_fails (.integer radix opening) (fun _ => isAscii_of_radix)
    (fun seen c hc => step_integer hc opening seen) (fun seen b blank other => ⟨some radix, ?_⟩)
    seen fits
  simp only [Partial.step, Partial.integerStep, blank, other, if_false, Bool.false_eq_true]

theorem opens_quote_or_fails (delimiter : Delimiter)
    (fits : pos.Fits limit (bytesOf (delimiter.char :: cs))) :
    Opens (delimiter.char :: cs) ∨ (runAt limit pos (delimiter.char :: cs)).Fails := by
  have first : pos.Fits limit (bytesOf ([delimiter.char] ++ cs)) := fits
  rw [run_quoted fits]
  rcases exists_closes delimiter [] (fits_right first) with
    ⟨ds, text, rest, rfl, closes, apart⟩ | fails
  · exact .inl ⟨_, rest, rfl, .literal closes, apart⟩
  · exact .inr fails

theorem opens_symbol_or_fails (start : isNameStart c = true)
    (fits : pos.Fits limit (bytesOf (c :: cs))) :
    Opens (c :: cs) ∨ (runAt limit pos (c :: cs)).Fails := by
  have first : pos.Fits limit (bytesOf ([c] ++ cs)) := fits
  have begun : runAt limit pos (c :: cs) = _ := run_begun (startsWith_symbol start) .nil first
  have stray : ∀ seen b, isBlank (Char.ofUInt8 b) = false → isNameChar (Char.ofUInt8 b) = false →
      ∃ radix, (Partial.symbol seen).step b = .stray radix := by
    intro seen b blank other
    exact ⟨none, by simp only [Partial.step, blank, other, if_false, Bool.false_eq_true]⟩
  rw [begun]
  rcases exists_stretch_or_fails .symbol (fun _ => isAscii_of_isNameChar)
    (fun seen c hc => step_symbol hc seen) stray [c] (fits_right first) with
    ⟨ds, rest, rfl, all, bounded⟩ | fails
  · exact .inl ⟨_, rest, rfl, .symbol start all bounded, trivial⟩
  · exact .inr fails

theorem opens_decimal_or_fails (digit : c.isDigit = true) (ne : c ≠ '0')
    (fits : pos.Fits limit (bytesOf (c :: cs))) :
    Opens (c :: cs) ∨ (runAt limit pos (c :: cs)).Fails := by
  have first : pos.Fits limit (bytesOf ([c] ++ cs)) := fits
  have begun : runAt limit pos (c :: cs) = _ := run_begun (startsWith_decimal digit ne) .nil first
  rw [begun]
  rcases exists_digits_or_fails .decimal [] [c] (fits_right first) with
    ⟨ds, rest, rfl, all, bounded⟩ | fails
  · exact .inl ⟨_, rest, rfl, .integer (.decimal digit ne all) bounded, trivial⟩
  · exact .inr fails

/-- Behind `0x` there is at least one digit. -/
theorem opens_hexadecimal_or_fails {x : Char} (hx : x = 'x' ∨ x = 'X')
    (fits : pos.Fits limit (bytesOf ('0' :: x :: cs))) :
    Opens ('0' :: x :: cs) ∨ (runAt limit pos ('0' :: x :: cs)).Fails := by
  have first : pos.Fits limit (bytesOf ('0' :: [x] ++ cs)) := fits
  have reads : Partial.zero.Reads (bytesOf [x]) (.integer .hexadecimal ['0', x] []) := by
    rcases hx with rfl | rfl <;> exact .cons rfl .nil
  have begun : runAt limit pos ('0' :: x :: cs) = _ := run_begun (by decide) reads first
  have behind := fits_right first
  rw [begun]
  rcases exists_digits_or_fails .hexadecimal ['0', x] [] behind with
    ⟨ds, rest, rfl, all, bounded⟩ | fails
  · by_cases empty : ds = []
    · subst empty
      refine .inr ?_
      cases rest with
      | nil => exact ⟨_, rfl⟩
      | cons c rest =>
        have ended : ∀ b ∈ String.utf8EncodeChar c,
            (Partial.integer .hexadecimal ['0', x] []).step b = .ended (.error .missingHexDigits) := by
          intro b hb
          have blank : isBlank (Char.ofUInt8 b) = true := (isBlank_of_mem hb).trans (bounded c rfl)
          simp only [Partial.step, Partial.integerStep, blank, if_true]
          rfl
        rw [List.nil_append, run_leave behind ended]
        exact ⟨_, rfl⟩
    · exact .inl ⟨_, rest, rfl, .integer (.hexadecimal hx empty all) bounded, trivial⟩
  · exact .inr fails

theorem opens_zero_or_fails (fits : pos.Fits limit (bytesOf ('0' :: cs))) :
    Opens ('0' :: cs) ∨ (runAt limit pos ('0' :: cs)).Fails := by
  have first : pos.Fits limit (bytesOf (['0'] ++ cs)) := fits
  -- The character behind the zero decides: a blank, an x, an octal digit, or a stray one.
  cases cs with
  | nil => exact .inl ⟨_, [], rfl, .integer .zero (by simp [OpensBlank]), trivial⟩
  | cons c cs =>
    by_cases blank : isBlank c = true
    · exact .inl ⟨_, c :: cs, rfl, .integer .zero (by simpa [OpensBlank] using blank), trivial⟩
    by_cases hx : c = 'x' ∨ c = 'X'
    · exact opens_hexadecimal_or_fails hx fits
    by_cases octal : Radix.octal.isDigit c = true
    · have second : pos.Fits limit (bytesOf ('0' :: [c] ++ cs)) := fits
      have reads : Partial.zero.Reads (bytesOf [c]) (.integer .octal ['0'] [c]) := by
        rw [bytesOf_cons (isAscii_of_radix octal), bytesOf_nil]
        exact .cons (step_zero_octal octal) .nil
      have begun : runAt limit pos ('0' :: c :: cs) = _ := run_begun (by decide) reads second
      rw [begun]
      rcases exists_digits_or_fails .octal ['0'] [c] (fits_right second) with
        ⟨ds, rest, rfl, all, bounded⟩ | fails
      · have digits : ∀ d ∈ c :: ds, Radix.octal.isDigit d = true :=
          List.forall_mem_cons.mpr ⟨octal, all⟩
        exact .inl ⟨_, rest, rfl, .integer (.octal (List.cons_ne_nil c ds) digits) bounded, trivial⟩
      · exact .inr fails
    · have starts : Partial.zero.StartsWith '0' := by decide
      have begun : runAt limit pos ('0' :: c :: cs) = _ := run_begun starts .nil first
      rw [begun]
      refine .inr (run_stray (fits_right first) fun b hb here => ⟨some .octal, ?_⟩)
      have notX : ¬ (Char.ofUInt8 b = 'x' ∨ Char.ofUInt8 b = 'X') := by
        rwa [ofUInt8_eq_iff (by decide) hb, ofUInt8_eq_iff (by decide) hb]
      have notOctal : Radix.octal.isDigit (Char.ofUInt8 b) = false :=
        (class_of_mem (fun _ => isAscii_of_radix) hb).trans (Bool.eq_false_iff.mpr octal)
      have notBlank := (isBlank_of_mem hb).trans (Bool.eq_false_iff.mpr blank)
      simp only [Mode.step, Partial.step, Partial.integerStep, notBlank, notX, notOctal, if_false,
        Bool.false_eq_true]
      rfl

theorem opens_blanks (blank : isBlank c = true) : Opens (c :: cs) := by
  obtain ⟨ds, rest, rfl, all, other⟩ := exists_stretch isBlank cs
  have blanks : ∀ d ∈ c :: ds, isBlank d = true := List.forall_mem_cons.mpr ⟨blank, all⟩
  exact ⟨_, rest, rfl, .blanks (List.cons_ne_nil c ds) blanks, other⟩

theorem opens_directive (cs : List Char) : Opens ('.' :: cs) := by
  obtain ⟨ds, rest, rfl, all, other⟩ := exists_stretch isDirectiveChar cs
  exact ⟨_, rest, rfl, .directive all, other⟩

theorem opens_comment (cs : List Char) : Opens ('#' :: cs) := by
  obtain ⟨ds, rest, rfl, all, other⟩ := exists_stretch (· != '\n') cs
  have clean : '\n' ∉ ds := fun mem => by simpa using all '\n' mem
  cases rest with
  | nil => exact ⟨_, [], by simp, .lastComment clean, trivial⟩
  | cons c rest =>
    have newline : c = '\n' := by simpa using other c rfl
    exact ⟨_, rest, by simp [newline], .comment clean, trivial⟩

/-- A run at the start of a text finds a fault, or the text begins with a segment that stops. -/
theorem exists_segment (fits : pos.Fits limit (bytesOf (c :: cs))) :
    Opens (c :: cs) ∨ (runAt limit pos (c :: cs)).Fails := by
  by_cases blank : isBlank c = true
  · exact .inl (opens_blanks blank)
  by_cases comment : c = '#'
  · exact .inl (comment ▸ opens_comment cs)
  by_cases finish : c = ';'
  · exact .inl (finish ▸ ⟨_, cs, rfl, .finish, trivial⟩)
  by_cases dot : c = '.'
  · exact .inl (dot ▸ opens_directive cs)
  by_cases single : c = Delimiter.single.char
  · exact single ▸ opens_quote_or_fails .single (single ▸ fits)
  by_cases double : c = Delimiter.double.char
  · exact double ▸ opens_quote_or_fails .double (double ▸ fits)
  by_cases backtick : c = Delimiter.backtick.char
  · exact backtick ▸ opens_quote_or_fails .backtick (backtick ▸ fits)
  by_cases zero : c = '0'
  · exact zero ▸ opens_zero_or_fails (zero ▸ fits)
  by_cases digit : c.isDigit = true
  · exact opens_decimal_or_fails digit zero fits
  by_cases start : isNameStart c = true
  · exact opens_symbol_or_fails start fits
  -- The character opens nothing, and its bytes are in no class that it is not in.
  refine .inr (run_stray fits fun b hb here => ⟨none, ?_⟩)
  have same {d : Char} (hd : IsAscii d) : Char.ofUInt8 b = d ↔ c = d := ofUInt8_eq_iff hd hb
  have notDigit : (Char.ofUInt8 b).isDigit = c.isDigit := class_of_mem (fun _ => isAscii_of_isDigit) hb
  have notStart : isNameStart (Char.ofUInt8 b) = isNameStart c :=
    class_of_mem (fun _ h => isAscii_of_isNameChar (isNameChar_of_isNameStart h)) hb
  have none : opening (Char.ofUInt8 b) = none := by
    simp only [opening, same (d := '.') (by decide), same (d := '0') (by decide),
      same (isAscii_delimiter _), notDigit, notStart, dot, single, double, backtick, zero, digit,
      start, if_false, Bool.false_eq_true]
  simp only [Mode.step, isBlank_of_mem hb, same (d := '#') (by decide),
    same (d := ';') (by decide), blank, comment, finish, none, if_false, Bool.false_eq_true]

end Sound

end HttpSuite
