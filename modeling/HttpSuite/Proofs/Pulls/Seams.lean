import HttpSuite.Proofs.Pulls.Limits

/-!
# Texts put together at a line end

A text, a line feed and another text have the tokens of both texts, those of the second one on raised
lines. The line feed completes what is open in the first text, with one exception: a literal that joins
goes on behind it, if the second text goes on with the same quote.

A run over the first text stops in it, and then it does not see what is behind, or it comes to its end in
some mode (`Mode.through`), and then it goes on from there.

* `run_shift`, `Lexer.tokens_shift`: raised lines change nothing but the lines.
* `run_append`: a run over bytes with more behind them.
* `tokens_seam`: the tokens at a seam, by induction on the segments of the first text.
* `tokenize_append_newline`: two texts.
-/

namespace HttpSuite

/-! ## Raised lines -/

/-- The same place, `k` lines further down. -/
def Span.shift (k : Nat) (span : Span) : Span := { span with line := span.line + k }

def Token.shift (k : Nat) (token : Token) : Token := { token with span := token.span.shift k }

def Located.shift {α : Type} (k : Nat) (fault : Located α) : Located α :=
  { fault with span := fault.span.shift k }

def Position.shift (k : Nat) (pos : Position) : Position := { pos with line := pos.line + k }

def Mode.shift (k : Nat) : Mode → Mode
  | within line lexeme => within (line + k) lexeme
  | blank => blank
  | comment => comment

def Run.shift (k : Nat) (r : Run) : Run :=
  { r with line := r.line + k, position := r.position.shift k }

section Shift

variable (k limit : Nat) (mode : Mode) (pos : Position) (b : UInt8) (bytes : List UInt8)

theorem Position.advance_shift : (pos.shift k).advance b = (pos.advance b).shift k := by
  unfold advance
  split
  · exact congrArg (Position.mk · 0) (by simp only [shift]; omega)
  · rfl

theorem Mode.line_shift (here : Nat) : (mode.shift k).line (here + k) = mode.line here + k := by
  cases mode <;> rfl

/-- Raised lines are carried along from byte to byte. -/
theorem Mode.step_shift (here : Nat) : (mode.shift k).step (here + k) b =
    match mode.step here b with
    | .more next => .more (next.shift k)
    | .closed verdict => .closed verdict
    | .ended verdict => .ended verdict
    | .stray inInteger => .stray inInteger := by
  cases mode with
  | blank =>
    simp only [shift, step]
    repeat' split
    all_goals simp_all
  | comment =>
    simp only [shift, step]
    split <;> rfl
  | within line lexeme =>
    simp only [shift, step]
    cases lexeme.step b <;> rfl

theorem run_shift : run limit (mode.shift k) (pos.shift k) none (bytes.map .byte) =
    (run limit mode pos none (bytes.map .byte)).shift k := by
  induction bytes generalizing mode pos with
  | nil =>
    simp only [List.map_nil, run, Run.shift]
    rw [← Mode.line_shift]
    cases mode <;> rfl
  | cons b bytes ih =>
    have here : ((pos.advance b).shift k).line = (pos.advance b).line + k := rfl
    have width : ((pos.advance b).shift k).width = (pos.advance b).width := rfl
    rw [run_byte, run_byte, Position.advance_shift, here, width, Mode.step_shift, Mode.line_shift]
    by_cases long : limit < (pos.advance b).width
    · rw [if_pos long, if_pos long]
      rfl
    · rw [if_neg long, if_neg long]
      cases mode.step (pos.advance b).line b with
      | more next => exact ih next (pos.advance b)
      | closed verdict | ended verdict | stray inInteger => rfl

/-- The tokens of bytes further down are the same tokens further down. -/
theorem Lexer.tokens_shift (source : String) : (midway source limit (pos.shift k) bytes).tokens =
    ((midway source limit pos bytes).tokens.1.map (·.shift k),
      (midway source limit pos bytes).tokens.2.map (·.shift k)) := by
  induction size : bytes.length using Nat.strong_induction_on generalizing pos bytes with
  | _ n ih =>
    have same : run limit .blank (pos.shift k) none (bytes.map .byte) =
        (run limit .blank pos none (bytes.map .byte)).shift k := run_shift k limit .blank pos bytes
    have verdict_eq : (run limit .blank (pos.shift k) none (bytes.map .byte)).verdict =
        (run limit .blank pos none (bytes.map .byte)).verdict := by
      rw [same]
      rfl
    have rest_eq : (run limit .blank (pos.shift k) none (bytes.map .byte)).rest =
        (run limit .blank pos none (bytes.map .byte)).rest := by
      rw [same]
      rfl
    cases comes source limit pos bytes with
    | fault cause verdict tokens =>
      rw [tokens, tokens_of_error (verdict_eq.trans verdict), same]
      rfl
    | ended text verdict _ tokens =>
      rw [tokens, tokens_of_end (verdict_eq.trans verdict)]
      rfl
    | token kind text left verdict notEnd rest shorter tokens =>
      have later := ih left.length (size ▸ shorter)
        (run limit .blank pos none (bytes.map .byte)).position left rfl
      have position : (run limit .blank (pos.shift k) none (bytes.map .byte)).position =
          (run limit .blank pos none (bytes.map .byte)).position.shift k := by
        rw [same]
        rfl
      rw [tokens, tokens_of_token (verdict_eq.trans verdict) notEnd (rest_eq.trans rest), position,
        later, same]
      rfl

end Shift

/-! ## Runs with more behind them -/

/-- The mode behind the bytes, if they all lead on. -/
def Mode.through (mode : Mode) (pos : Position) : List UInt8 → Option Mode
  | [] => some mode
  | b :: bytes =>
    match mode.step (pos.advance b).line b with
    | .more next => next.through (pos.advance b) bytes
    | .closed _ | .ended _ | .stray _ => none

section Append

variable {limit line : Nat} {mode last : Mode} {pos : Position} {bytes : List UInt8}
  {kind : SegmentKind} {p : Partial}

/-- A run without a fault goes on from the mode that it has come to, or more bytes are only left. -/
theorem run_append {found : TokenKind × String}
    (verdict : (run limit mode pos none (bytes.map .byte)).verdict = .ok found) :
    (∃ last, mode.through pos bytes = some last ∧ ∀ more : List UInt8,
      run limit mode pos none ((bytes ++ more).map .byte) =
        run limit last (pos.after bytes) none (more.map .byte)) ∨
    ∀ more : List UInt8, run limit mode pos none ((bytes ++ more).map .byte) =
      { run limit mode pos none (bytes.map .byte) with
        rest := (run limit mode pos none (bytes.map .byte)).rest ++ more.map .byte } := by
  induction bytes generalizing mode pos with
  | nil => exact .inl ⟨mode, rfl, fun more => rfl⟩
  | cons b bytes ih =>
    simp only [List.cons_append, run_byte, Mode.through] at verdict ⊢
    by_cases long : limit < (pos.advance b).width
    · rw [if_pos long] at verdict
      cases verdict
    · simp only [if_neg long] at verdict ⊢
      cases step : mode.step (pos.advance b).line b with
      | more next =>
        rw [step] at verdict
        exact ih verdict
      | closed verdict | ended verdict => exact .inr fun more => by simp
      | stray inInteger =>
        rw [step] at verdict
        cases verdict

/-! ## The kinds of partial lexemes -/

/-- The lexeme makes a segment of the kind. -/
def Partial.Belongs (kind : SegmentKind) : Partial → Prop
  | directive _ => kind = .directive
  | literal delimiter _ _ => kind = .literal delimiter
  | joint delimiter _ => kind = .literal delimiter ∧ delimiter.joins = true
  | zero | integer _ _ _ => kind = .integer
  | symbol _ => kind = .symbol

/-- If the byte leads on, then to what satisfies `P`. -/
def Step.Leads {σ : Type} (P : σ → Prop) : Step σ → Prop
  | .more next => P next
  | .closed _ | .ended _ | .stray _ => True

theorem Partial.belongs_step (h : p.Belongs kind) (b : UInt8) : (p.step b).Leads (Belongs kind) := by
  have effect := p.effect b
  generalize p.step b = step at *
  cases effect with
  | complete | stray | lastQuote => trivial
  | quote _ joins => exact ⟨h, joins⟩
  | reopen => exact h.1
  | directive | escaped | backslash | plain | gap | hexadecimal | octal | digit | name => exact h

theorem Partial.belongs_through (h : p.Belongs kind)
    (through : (Mode.within line p).through pos bytes = some last) :
    ∃ q, last = .within line q ∧ q.Belongs kind := by
  induction bytes generalizing p pos with
  | nil =>
    obtain rfl := Option.some.inj through
    exact ⟨p, rfl, h⟩
  | cons b bytes ih =>
    have leads := belongs_step h b
    rw [Mode.through, Mode.step] at through
    cases step : p.step b with
    | more next =>
      rw [step] at through leads
      exact ih leads through
    | closed verdict | ended verdict | stray inInteger =>
      rw [step] at through
      cases through

theorem opening_belongs {c : Char} (h : opening c = some p) :
    ∃ kind, SegmentKind.ofOpening? c = some kind ∧ p.Belongs kind := by
  unfold opening at h
  repeat' split at h
  all_goals cases h
  · next dot =>
    subst dot
    exact ⟨.directive, rfl, rfl⟩
  · next quote => exact ⟨.literal .single, quote ▸ rfl, rfl⟩
  · next quote => exact ⟨.literal .double, quote ▸ rfl, rfl⟩
  · next quote => exact ⟨.literal .backtick, quote ▸ rfl, rfl⟩
  · next zero =>
    subst zero
    exact ⟨.integer, rfl, rfl⟩
  · next digit => exact ⟨.integer, ofOpening?_digit digit, rfl⟩
  · next start => exact ⟨.symbol, ofOpening?_nameStart start, rfl⟩

/-- Within a lexeme a run stays in what its first character opens. -/
theorem through_lexeme {s : Segment} {rest : List Char} (begins : s.Begins rest)
    (lexeme : s.kind.token? ≠ none)
    (through : Mode.blank.through pos (bytesOf (s.chars ++ rest)) = some last) :
    ∃ line q, last = .within line q ∧ q.Belongs s.kind := by
  obtain ⟨c, cs, chars, opens⟩ := begins.opens
  obtain ⟨b, bytes, split, hb⟩ := exists_byte c (cs ++ rest)
  -- The first character begins a lexeme, so it is neither a blank nor the start of a comment.
  have blank : isBlank (Char.ofUInt8 b) = false := by
    rw [isBlank_of_mem hb]
    refine Bool.eq_false_iff.mpr fun blank => lexeme ?_
    rw [← Option.some.inj ((ofOpening?_blank blank).symm.trans opens)]
    rfl
  have comment : ¬ Char.ofUInt8 b = '#' := by
    rw [ofUInt8_eq_iff (by decide) hb]
    rintro rfl
    rw [← Option.some.inj opens] at lexeme
    exact lexeme rfl
  rw [chars, List.cons_append, split, Mode.through] at through
  simp only [Mode.step, blank, comment, if_false, Bool.false_eq_true] at through
  by_cases finish : Char.ofUInt8 b = ';'
  · rw [if_pos finish] at through
    cases through
  rw [if_neg finish] at through
  cases opened : opening (Char.ofUInt8 b) with
  | none =>
    rw [opened] at through
    cases through
  | some p =>
    rw [opened] at through
    have ascii : IsAscii c := Classical.byContradiction fun other => by
      cases (opening_eq_none other hb).symm.trans opened
    have same : Char.ofUInt8 b = c := (ofUInt8_eq_iff ascii hb).mpr rfl
    obtain ⟨kind, kind_eq, belongs⟩ := opening_belongs opened
    rw [same] at kind_eq
    obtain rfl := Option.some.inj (opens.symm.trans kind_eq)
    obtain ⟨q, last_eq, belongs⟩ := Partial.belongs_through belongs through
    exact ⟨_, q, last_eq, belongs⟩

/-- A line feed completes whatever the end of the bytes would, but for a literal that joins. -/
theorem Partial.step_newline {found : TokenKind × String} (h : p.atEnd = .ok found)
    (other : ∀ delimiter text, p ≠ .joint delimiter text) :
    p.step '\n'.toUInt8 = .ended (.ok found) := by
  rw [← h]
  cases p with
  | directive name | zero | integer radix opening digits | symbol name => rfl
  | literal delimiter escaped text => cases h
  | joint delimiter text => exact absurd rfl (other delimiter text)

end Append

/-! ## Lexemes that are open at a seam -/

/-- The run has completed an open lexeme among the characters: it passed some blanks, or came to a line
that is too long, and then a run between lexemes comes to it as well. -/
inductive Run.Completes (r : Run) (limit line : Nat) (verdict : Verdict) (pos : Position)
    (cs : List Char) : Prop
  | blanks (gap more : List Char) :
      cs = gap ++ more → (∀ c ∈ gap, isBlank c = true) → pos.Fits limit (bytesOf gap) →
      r = ⟨line, verdict, none, pos.after (bytesOf gap), (bytesOf more).map .byte⟩ →
      Completes r limit line verdict pos cs
  | long :
      r.verdict = .error (.lineTooLong limit) →
      (runAt limit pos cs).verdict = .error (.lineTooLong limit) →
      r.line = (runAt limit pos cs).line → Completes r limit line verdict pos cs

section Open

variable {limit line : Nat} {pos : Position} {delimiter : Delimiter} {cs : List Char}

theorem QuoteApart.of_blank {c : Char} (h : QuoteApart delimiter (c :: cs))
    (blank : isBlank c = true) : QuoteApart delimiter cs := by
  rwa [QuoteApart, List.dropWhile_cons_of_pos blank] at h

theorem QuoteApart.newline (h : QuoteApart delimiter cs) : QuoteApart delimiter ('\n' :: cs) := by
  rwa [QuoteApart, List.dropWhile_cons_of_pos (by decide)]

theorem run_long {c : Char} {b : UInt8} {bytes : List UInt8}
    (split : bytesOf (c :: cs) = b :: bytes) (long : limit < (pos.advance b).width) (mode : Mode) :
    run limit mode pos none ((bytesOf (c :: cs)).map .byte) =
      ⟨(pos.advance b).line, .error (.lineTooLong limit), none, pos.advance b, bytes.map .byte⟩ := by
  rw [split, run_byte, if_pos long]

/-- A closed literal that does not go on is complete behind blanks. -/
theorem completes_joint (apart : QuoteApart delimiter cs) (joins : delimiter.joins = true)
    (limit line : Nat) (pos : Position) (text : List UInt8) :
    (run limit (.within line (.joint delimiter text)) pos none ((bytesOf cs).map .byte)).Completes
      limit line (Partial.joint delimiter text).atEnd pos cs := by
  induction cs generalizing pos with
  | nil => exact .blanks [] [] rfl (by simp) trivial rfl
  | cons c cs ih =>
    obtain ⟨b, bytes, split, hb⟩ := exists_byte c cs
    by_cases long : limit < (pos.advance b).width
    · have overflow := run_long split long
      exact .long (by rw [overflow]) (by rw [runAt, overflow]) (by rw [runAt, overflow, overflow])
    by_cases blank : isBlank c = true
    · -- A blank is passed by the open literal and between lexemes alike.
      have ascii := isAscii_of_isBlank blank
      obtain ⟨rfl, rfl⟩ := List.cons.inj (split.symm.trans (bytesOf_cons ascii cs))
      have stays : run limit (.within line (.joint delimiter text)) pos none
            ((bytesOf (c :: cs)).map .byte) =
          run limit (.within line (.joint delimiter text)) (pos.advance c.toUInt8) none
            ((bytesOf cs).map .byte) := by
        rw [split, run_byte, if_neg long]
        simp only [Mode.step, Partial.step, ofUInt8_toUInt8 ascii, blank, if_true, Step.within]
      have passes : runAt limit pos (c :: cs) = runAt limit (pos.advance c.toUInt8) cs := by
        rw [runAt, split, run_byte, if_neg long]
        simp only [Mode.step, ofUInt8_toUInt8 ascii, blank, if_true]
        rfl
      rw [stays]
      cases ih (apart.of_blank blank) (pos.advance c.toUInt8) with
      | blanks gap more split' all fits r =>
        refine .blanks (c :: gap) more (by rw [split']; rfl) (List.forall_mem_cons.mpr ⟨blank, all⟩) ?_ ?_
        · rw [bytesOf_cons ascii]
          exact ⟨Nat.not_lt.mp long, fits⟩
        · rw [bytesOf_cons ascii]
          exact r
      | long verdict below line => exact .long verdict (passes ▸ below) (passes ▸ line)
    · -- Any other character but the quote completes the literal, and is left.
      have notQuote : ¬ Char.ofUInt8 b = delimiter.char := by
        rw [ofUInt8_eq_iff (isAscii_delimiter delimiter) hb]
        refine apart joins c ?_
        rw [List.dropWhile_cons_of_neg blank]
        rfl
      refine .blanks [] (c :: cs) rfl (by simp) trivial ?_
      rw [split, run_byte, if_neg long]
      simp only [Mode.step, Partial.step, isBlank_of_mem hb, blank, notQuote, if_false,
        Bool.false_eq_true, Step.within]
      rfl

/-- A line feed completes whatever is complete at the end of the bytes. -/
theorem completes_newline {q : Partial} {kind : SegmentKind} {found : TokenKind × String}
    (atEnd : q.atEnd = .ok found) (belongs : q.Belongs kind)
    (apart : ∀ delimiter, kind = .literal delimiter → QuoteApart delimiter cs)
    (limit line : Nat) (pos : Position) :
    (run limit (.within line q) pos none ((bytesOf ('\n' :: cs)).map .byte)).Completes limit line
      (.ok found) pos ('\n' :: cs) := by
  rw [← atEnd]
  by_cases joint : ∃ delimiter text, q = .joint delimiter text
  · obtain ⟨delimiter, text, rfl⟩ := joint
    obtain ⟨literal, joins⟩ := belongs
    exact completes_joint (apart delimiter literal).newline joins limit line pos text
  · have step := Partial.step_newline atEnd fun delimiter text eq => joint ⟨delimiter, text, eq⟩
    have room : (pos.advance '\n'.toUInt8).width ≤ limit := Nat.zero_le limit
    have newline : (bytesOf ('\n' :: cs)).map Read.byte =
        .byte '\n'.toUInt8 :: (bytesOf cs).map .byte := by
      rw [bytesOf_cons (by decide)]
      rfl
    refine .blanks [] ('\n' :: cs) rfl (by simp) trivial ?_
    rw [newline, run_ended room step, atEnd]
    rfl

end Open

/-! ## Segments before a seam -/

/-- The last segment but for blanks is a literal with these quotes. -/
def EndsIn (delimiter : Delimiter) (segments : List Segment) : Prop :=
  ((segments.filter fun s => s.kind ≠ .blanks).getLast?).map Segment.kind = some (.literal delimiter)

section Seam

variable {limit : Nat} {pos : Position} {cs ds rest : List Char} {s : Segment}
  {segments : List Segment} {kind : TokenKind} {delimiter : Delimiter}

theorem EndsIn.cons (h : EndsIn delimiter segments) (s : Segment) :
    EndsIn delimiter (s :: segments) := by
  unfold EndsIn at h ⊢
  by_cases blanks : s.kind = .blanks
  · rwa [List.filter_cons_of_neg (by simpa using blanks)]
  · rw [List.filter_cons_of_pos (by simpa using blanks), List.getLast?_cons]
    cases last : (segments.filter fun s => s.kind ≠ .blanks).getLast? with
    | none =>
      rw [last] at h
      cases h
    | some t =>
      rw [last] at h
      exact h

theorem endsIn_of_blanks (literal : s.kind = .literal delimiter)
    (blanks : ∀ t ∈ segments, t.kind = .blanks) : EndsIn delimiter (s :: segments) := by
  have others : (segments.filter fun s => s.kind ≠ .blanks) = [] :=
    List.filter_eq_nil_iff.mpr fun t ht => by simpa using blanks t ht
  rw [EndsIn, List.filter_cons_of_pos (by simp [literal]), others]
  exact congrArg some literal

/-- Blanks split into blanks. -/
theorem Splits.blanks (h : Splits cs segments) (blank : ∀ c ∈ cs, isBlank c = true) :
    ∀ t ∈ segments, t.kind = .blanks := by
  induction h with
  | nil => simp
  | @cons s rest segments longest _ ih =>
    obtain ⟨c, more, chars, opens⟩ := longest.begins.opens
    have first : isBlank c = true := blank c (by simp [chars])
    refine List.forall_mem_cons.mpr ⟨?_, ih fun d hd => blank d (List.mem_append_right _ hd)⟩
    exact Option.some.inj (opens.symm.trans (ofOpening?_blank first))

theorem eq_nil_of_bytesOf (h : bytesOf cs = []) : cs = [] := by
  cases cs with
  | nil => rfl
  | cons c cs =>
    obtain ⟨b, bytes, split, -⟩ := exists_byte c cs
    cases split.symm.trans h

/-- A line feed is passed between lexemes. -/
theorem runAt_newline (limit : Nat) (pos : Position) (ds : List Char) :
    runAt limit pos ('\n' :: ds) = runAt limit ⟨pos.line + 1, 0⟩ ds := by
  rw [runAt, bytesOf_cons (by decide), run_byte]
  exact if_neg (Nat.not_lt_zero limit)

/-- A lexeme is found before a seam as it is found before the end, unless a line behind the seam is too
long. -/
theorem yields_seam (source : String) (begins : s.Begins rest) (lexeme : s.kind.token? ≠ none)
    {after : Position}
    (yields : (runAt limit pos (s.chars ++ rest)).Yields limit pos.line kind s.text after rest)
    (apart : ∀ delimiter, s.kind = .literal delimiter → (∀ c ∈ rest, isBlank c = true) →
      QuoteApart delimiter ds) :
    (runAt limit pos (s.chars ++ (rest ++ '\n' :: ds))).Yields limit pos.line kind s.text after
      (rest ++ '\n' :: ds) ∨
    ∃ line, (lexerAt source limit pos (s.chars ++ (rest ++ '\n' :: ds))).tokens.2 =
        some ⟨.lineTooLong limit, source, line⟩ ∧
      (lexerAt source limit ⟨(pos.after (bytesOf (s.chars ++ rest))).line + 1, 0⟩ ds).tokens.2 =
        some ⟨.lineTooLong limit, source, line⟩ := by
  obtain ⟨gap, more, split, blank, fits, position, left⟩ := yields.left
  have whole : runAt limit pos (s.chars ++ (rest ++ '\n' :: ds)) =
      run limit .blank pos none
        ((bytesOf (s.chars ++ rest) ++ bytesOf ('\n' :: ds)).map .byte) := by
    rw [runAt, ← bytesOf_append, List.append_assoc]
  rcases run_append yields.verdict with ⟨last, through, goes⟩ | stopped
  · -- The lexeme is open at the end of the text.
    obtain ⟨line, q, rfl, belongs⟩ := through_lexeme begins lexeme through
    have ends := goes []
    rw [List.append_nil] at ends
    have ends : runAt limit pos (s.chars ++ rest) =
        ⟨line, q.atEnd, none, pos.after (bytesOf (s.chars ++ rest)), []⟩ := ends
    rw [ends] at yields position left
    obtain rfl : line = pos.line := yields.line_eq
    have atEnd : q.atEnd = .ok (kind, String.ofList s.text) := yields.verdict
    have position : pos.after (bytesOf (s.chars ++ rest)) = after.after (bytesOf gap) := position
    have empty : more = [] := eq_nil_of_bytesOf (List.map_eq_nil_iff.mp left.symm)
    rw [empty, List.append_nil] at split
    subst split
    have behind := whole.trans (goes _)
    have apart (delimiter : Delimiter) (literal : s.kind = .literal delimiter) :=
      apart delimiter literal blank
    cases completes_newline atEnd belongs apart limit pos.line
      (pos.after (bytesOf (s.chars ++ rest))) with
    | blanks gap more split blank' fits' r =>
      -- Blanks behind the seam are passed as well, up to what the literal could have gone on with.
      left
      rw [behind, r]
      refine ⟨rfl, rfl, rfl, rest ++ gap, more, by rw [split, List.append_assoc], ?_, ?_, ?_, rfl⟩
      · exact fun c hc => (List.mem_append.mp hc).elim (blank c) (blank' c)
      · rw [bytesOf_append]
        exact Position.fits_append.mpr ⟨fits, position ▸ fits'⟩
      · rw [position, bytesOf_append, Position.after_append]
    | long verdict below line =>
      -- The line behind the seam is too long: the same fault comes up if it is read on its own.
      right
      rw [runAt_newline] at below line
      rw [← behind] at verdict line
      refine ⟨_, congrArg Prod.snd (Lexer.tokens_of_error verdict), ?_⟩
      rw [← runAt, line]
      exact congrArg Prod.snd (Lexer.tokens_of_error below)
  · left
    -- The lexeme is complete before the end of the text, so what is behind the seam is not looked at.
    have behind : (bytesOf (more ++ '\n' :: ds)).map Read.byte =
        (runAt limit pos (s.chars ++ rest)).rest ++ (bytesOf ('\n' :: ds)).map .byte := by
      rw [bytesOf_append, List.map_append, left]
    rw [whole, stopped]
    exact ⟨yields.line_eq, yields.verdict, yields.failure, gap, more ++ '\n' :: ds,
      by rw [split, List.append_assoc], blank, fits, position, behind.symm⟩

/-- Blanks and comments are passed before a seam as well; a comment at the end is closed there. -/
theorem runAt_trivia_seam (begins : s.Begins rest) (trivia : s.kind.token? = none)
    (fits : pos.Fits limit (bytesOf s.chars)) :
    runAt limit pos (s.chars ++ (rest ++ '\n' :: ds)) =
      runAt limit (pos.after (bytesOf s.chars)) (rest ++ '\n' :: ds) := by
  cases begins with
  | blanks ne blank => exact run_trivia (.blanks ne blank) rfl fits
  | comment clean => exact run_trivia (.comment clean) rfl fits
  | @lastComment cs clean =>
    have closed : pos.Fits limit (bytesOf ('#' :: (cs ++ ['\n']))) := by
      have split : '#' :: (cs ++ ['\n']) = '#' :: cs ++ ['\n'] := rfl
      rw [split, bytesOf_append]
      exact Position.fits_append.mpr ⟨fits, Nat.zero_le limit, trivial⟩
    have passed := @run_trivia limit pos ds _ (.comment clean) rfl closed
    have split : '#' :: (cs ++ ['\n']) = '#' :: cs ++ ['\n'] := rfl
    dsimp only at passed
    rw [split, bytesOf_append, Position.after_append, List.append_assoc] at passed
    rw [List.nil_append, runAt_newline]
    exact passed
  | finish | directive _ | literal _ | integer _ _ | symbol _ _ _ => cases trivia

/-- The tokens at a seam, by those of the segments before it. -/
theorem tokens_seam (source : String) (splits : Splits cs segments) (fits : pos.Fits limit (bytesOf cs))
    (apart : ∀ delimiter, EndsIn delimiter segments → QuoteApart delimiter ds) :
    let behind := (lexerAt source limit ⟨(pos.after (bytesOf cs)).line + 1, 0⟩ ds).tokens
    let whole := (lexerAt source limit pos (cs ++ '\n' :: ds)).tokens
    whole.2 = behind.2 ∧
      (behind.2 = none → whole.1 = tokensOf source pos.line segments ++ behind.1) := by
  intro behind whole
  induction splits generalizing pos with
  | nil =>
    have same : whole = behind := tokens_of_runAt_eq (runAt_newline limit pos ds)
    exact ⟨congrArg Prod.snd same, fun _ => congrArg Prod.fst same⟩
  | @cons s rest segments longest splits ih =>
    have begins := longest.begins
    have ih := ih (fits_right fits) fun delimiter ends => apart delimiter (ends.cons s)
    rw [← Position.after_append, ← bytesOf_append, Position.line_after pos s.chars] at ih
    obtain ⟨fault, tokens⟩ := ih
    have whole_eq : whole = (lexerAt source limit pos (s.chars ++ (rest ++ '\n' :: ds))).tokens := by
      rw [← List.append_assoc]
    rw [whole_eq]
    cases token : s.kind.token? with
    | none =>
      rw [tokens_of_runAt_eq (runAt_trivia_seam begins token (fits_left fits))]
      simp only [tokensOf, token]
      exact ⟨fault, tokens⟩
    | some kind =>
      have lexeme : s.kind.token? ≠ none := by simp [token]
      have yields := run_lexeme begins (longest.stops splits) token fits
      have apart (delimiter : Delimiter) (literal : s.kind = .literal delimiter)
          (blank : ∀ c ∈ rest, isBlank c = true) : QuoteApart delimiter ds :=
        apart delimiter (endsIn_of_blanks literal (splits.blanks blank))
      -- The quotes before the seam are apart from those behind it only if this is the last lexeme.
      rcases yields_seam source begins lexeme yields apart with found | ⟨line, long, below⟩
      · rw [tokens_of_yields found (SegmentKind.token?_lexeme token)]
        refine ⟨fault, fun clean => ?_⟩
        simp only [tokensOf, token]
        exact congrArg (_ :: ·) (tokens clean)
      · refine ⟨long.trans below.symm, fun clean => ?_⟩
        cases below.symm.trans clean

end Seam

/-! ## Two texts -/

section Texts

variable {cs ds : List Char}

theorem count_dropMark (cs : List Char) : (dropMark cs).count '\n' = cs.count '\n' := by
  unfold dropMark
  split
  · exact (List.count_cons_of_ne (by decide)).symm
  · rfl

theorem dropMark_of_head (h : cs.head? ≠ some '\ufeff') : dropMark cs = cs := by
  unfold dropMark
  split
  · exact absurd rfl h
  · rfl

theorem dropMark_append_newline (cs ds : List Char) :
    dropMark (cs ++ '\n' :: ds) = dropMark cs ++ '\n' :: ds := by
  cases cs with
  | nil => rfl
  | cons c cs =>
    by_cases mark : c = '\ufeff'
    · rw [mark]
      rfl
    · rw [dropMark_of_head (by simpa using mark), dropMark_of_head (by simpa using mark)]

/-- The lexer at the start of a text, behind a byte order mark. -/
def lexerOf (text source : String) : Lexer :=
  lexerAt source defaultLineLimit {} (dropMark text.toList)

theorem tokenize_eq_ok {text source : String} {tokens : List Token} :
    tokenize text source = .ok tokens ↔ (lexerOf text source).tokens = (tokens, none) := by
  rw [tokenize, tokens_of_text, ← lexerOf]
  rcases (lexerOf text source).tokens with ⟨found, _ | fault⟩
  · simp
  · simp

theorem tokenize_eq_error {text source : String} {fault : LexError} :
    tokenize text source = .error fault ↔ (lexerOf text source).tokens.2 = some fault := by
  rw [tokenize, tokens_of_text, ← lexerOf]
  rcases (lexerOf text source).tokens with ⟨found, _ | fault⟩
  · simp
  · simp

/-- Behind a text with tokens and a line feed, another text has its own tokens, or its own fault, on raised
lines, unless the first text ends in a literal that goes on in the second one. -/
theorem tokenize_append_newline (a b source : String) {tokens : List Token}
    (accepted : tokenize a source = .ok tokens) (unmarked : b.toList.head? ≠ some '\ufeff')
    (apart : ∀ segments delimiter, Splits (dropMark a.toList) segments →
      EndsIn delimiter segments → QuoteApart delimiter b.toList) :
    let lines := a.toList.count '\n' + 1
    tokenize (a ++ "\n" ++ b) source =
      match tokenize b source with
      | .ok more => .ok (tokens ++ more.map (·.shift lines))
      | .error fault => .error (fault.shift lines) := by
  intro lines
  have whole : lexerOf (a ++ "\n" ++ b) source =
      lexerAt source defaultLineLimit {} (dropMark a.toList ++ '\n' :: b.toList) := by
    have chars : (a ++ "\n" ++ b).toList = a.toList ++ '\n' :: b.toList := by simp
    rw [lexerOf, chars, dropMark_append_newline]
  have second : lexerOf b source = lexerAt source defaultLineLimit {} b.toList := by
    rw [lexerOf, dropMark_of_head unmarked]
  have first := tokenize_eq_ok.mp accepted
  have clean : (lexerOf a source).tokens.2 = none := by rw [first]
  have fits : ({} : Position).Fits defaultLineLimit (bytesOf (dropMark a.toList)) :=
    Lexer.fits_of_clean clean
  obtain ⟨segments, splits⟩ := exists_splits fits clean
  rw [lexerOf, tokens_of_splits splits fits] at first
  obtain ⟨fault, found⟩ := tokens_seam source splits fits fun delimiter =>
    apart segments delimiter splits
  -- The second text is read as if it stood first, but on raised lines.
  have below : (⟨(({} : Position).after (bytesOf (dropMark a.toList))).line + 1, 0⟩ : Position) =
      ({} : Position).shift lines := by
    rw [Position.line_after, count_dropMark]
    rfl
  have shifted : (lexerAt source defaultLineLimit (({} : Position).shift lines) b.toList).tokens =
      ((lexerOf b source).tokens.1.map (·.shift lines),
        (lexerOf b source).tokens.2.map (·.shift lines)) :=
    second ▸ Lexer.tokens_shift lines defaultLineLimit {} (bytesOf b.toList) source
  rw [below, shifted, ← whole] at fault found
  cases read : tokenize b source with
  | ok more =>
    rw [tokenize_eq_ok.mp read] at fault found
    have front := found rfl
    rw [(Prod.mk.inj first).1] at front
    exact tokenize_eq_ok.mpr (Prod.ext front fault)
  | error failed =>
    rw [tokenize_eq_error.mp read] at fault
    exact tokenize_eq_error.mpr fault

/-- A text that ends in a literal that joins, and a blank. -/
def openText : String := "a # b\n\x22c\x22 "

theorem tokenize_append_newline_openText :
    tokenize (openText ++ "\n" ++ " \x27d\x27\n;") "in" =
      .ok [⟨.symbol, "a", ⟨"in", 1⟩⟩, ⟨.string, "c", ⟨"in", 2⟩⟩, ⟨.string, "d", ⟨"in", 3⟩⟩,
        ⟨.assertEnd, ";", ⟨"in", 4⟩⟩] ∧
    tokenize (openText ++ "\n" ++ " \x27d\x27\n~") "in" =
      .error ⟨.unexpectedCharacter '~', ⟨"in", 4⟩⟩ := by
  have accepted : tokenize openText "in" =
      .ok [⟨.symbol, "a", ⟨"in", 1⟩⟩, ⟨.string, "c", ⟨"in", 2⟩⟩] := by decide +kernel
  have other (b : String) (quote : (b.toList.dropWhile isBlank).head? = some Delimiter.single.char)
      (segments : List Segment) (delimiter : Delimiter)
      (_ : Splits (dropMark openText.toList) segments) (_ : EndsIn delimiter segments) :
      QuoteApart delimiter b.toList := by
    intro joins c hc
    obtain rfl := Option.some.inj (quote.symm.trans hc)
    cases delimiter with
    | single => cases joins
    | double | backtick => decide
  have found : tokenize " \x27d\x27\n;" "in" =
      .ok [⟨.string, "d", ⟨"in", 1⟩⟩, ⟨.assertEnd, ";", ⟨"in", 2⟩⟩] := by decide +kernel
  have failed : tokenize " \x27d\x27\n~" "in" =
      .error ⟨.unexpectedCharacter '~', ⟨"in", 2⟩⟩ := by decide +kernel
  constructor
  · rw [tokenize_append_newline openText _ "in" accepted (by decide) (other _ (by decide)), found]
    rfl
  · rw [tokenize_append_newline openText _ "in" accepted (by decide) (other _ (by decide)), failed]
    rfl

end Texts

end HttpSuite
