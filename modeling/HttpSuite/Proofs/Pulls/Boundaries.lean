import HttpSuite.Proofs.Lexing.Tokenize

/-!
# Pulls over a text

Between two pulls over a text the lexer stands between two characters, with one exception: a line that
is too long is a fault at the byte that makes it so, and that may be any byte of a character. But then
the rest of the line is too long as well, so that the other bytes of the character are never looked at.

A run is therefore followed character by character. What has been gathered of a literal are whole
characters (`Mode.Whole`), so it is valid, and a stray character is met at its first byte.

* `Mode.Whole.meets`: what a mode does with the bytes of one character.
* `run_stops`: where a run over characters stops, by induction on them.
* `Lexer.standsAt_pulled`: where a lexer stands after any number of pulls.
* `Lexer.pulled_text`: what the faults of a text can be.
-/

namespace HttpSuite

/-! ## Characters and their bytes -/

theorem charLength_first {c : Char} {b : UInt8} {bytes : List UInt8}
    (h : String.utf8EncodeChar c = b :: bytes) : charLength b = bytes.length + 1 := by
  have eq : charLength b = if b.toNat < 0xc0 then 1 else if b.toNat < 0xe0 then 2
      else if b.toNat < 0xf0 then 3 else if b.toNat < 0xf8 then 4 else 1 := rfl
  rw [eq]
  unfold String.utf8EncodeChar at h
  generalize c.val.toNat = v at h
  dsimp only at h
  split at h
  · cases h
    simp only [UInt8.toNat_ofNat', List.length_nil]
    rw [if_pos (by omega)]
  · split at h
    · cases h
      simp only [UInt8.toNat_ofNat', List.length_cons, List.length_nil]
      rw [if_neg (by omega), if_pos (by omega)]
    · split at h
      · cases h
        simp only [UInt8.toNat_ofNat', List.length_cons, List.length_nil]
        rw [if_neg (by omega), if_neg (by omega), if_pos (by omega)]
      · cases h
        simp only [UInt8.toNat_ofNat', List.length_cons, List.length_nil]
        rw [if_neg (by omega), if_neg (by omega), if_neg (by omega), if_pos (by omega)]

/-- As many bytes as the first one asks for are those of the character. -/
theorem takes_character {c : Char} {b : UInt8} {bytes : List UInt8}
    (encoded : String.utf8EncodeChar c = b :: bytes) (more : List UInt8) :
    b :: (bytes ++ more).take (charLength b - 1) = String.utf8EncodeChar c ∧
      (bytes ++ more).drop (charLength b - 1) = more := by
  rw [charLength_first encoded, Nat.add_sub_cancel, List.take_left, List.drop_left, encoded]
  exact ⟨rfl, rfl⟩

theorem charOfBytes_utf8EncodeChar (c : Char) : charOfBytes (String.utf8EncodeChar c) = c := by
  have decoded := @ByteArray.utf8DecodeChar?_utf8EncodeChar_append ByteArray.empty c
  rw [ByteArray.append_empty] at decoded
  rw [charOfBytes, decoded]
  rfl

/-! ## Whole characters -/

/-- No part of a character has been taken for a whole. -/
def Verdict.Intact : Verdict → Prop
  | .ok _ | .error (.unterminated _) | .error .missingHexDigits => True
  | .error _ => False

/-- What has been gathered of a literal are whole characters. -/
def Partial.Whole : Partial → Prop
  | literal _ _ text | joint _ text => ∃ cs, text = (bytesOf cs).reverse
  | directive _ | zero | integer _ _ _ | symbol _ => True

def Mode.Whole : Mode → Prop
  | .blank | .comment => True
  | .within _ lexeme => lexeme.Whole

/-- The byte leads on to what satisfies `P`, or completes an intact lexeme. -/
def Step.Whole {σ : Type} (P : σ → Prop) : Step σ → Prop
  | .more next => P next
  | .closed verdict | .ended verdict => verdict.Intact
  | .stray _ => True

theorem Verdict.intact_ofBytes (kind : TokenKind) {text : List UInt8}
    (h : ∃ cs, text = (bytesOf cs).reverse) : (ofBytes kind text).Intact := by
  obtain ⟨cs, rfl⟩ := h
  rw [ofBytes_bytesOf]
  trivial

theorem Partial.intact_integerVerdict (radix : Radix) (opening digits : List Char) :
    (integerVerdict radix opening digits).Intact := by
  unfold integerVerdict
  split <;> trivial

theorem Partial.intact_atEnd {p : Partial} (h : p.Whole) : p.atEnd.Intact := by
  cases p with
  | directive name | zero | symbol name => trivial
  | literal delimiter escaped text => trivial
  | joint delimiter text => exact Verdict.intact_ofBytes _ h
  | integer radix opening digits => exact intact_integerVerdict ..

theorem Mode.intact_atEnd {mode : Mode} (h : mode.Whole) : mode.atEnd.Intact := by
  cases mode with
  | blank | comment => trivial
  | within line lexeme => exact Partial.intact_atEnd h

/-- One more character has been gathered. -/
theorem exists_gathered {c : Char} {text : List UInt8} (h : ∃ cs, text = (bytesOf cs).reverse) :
    ∃ cs, (String.utf8EncodeChar c).reverse ++ text = (bytesOf cs).reverse := by
  obtain ⟨cs, rfl⟩ := h
  exact ⟨cs ++ [c], by simp [bytesOf]⟩

/-! ## ASCII characters -/

theorem Partial.whole_step {p : Partial} {c : Char} (h : p.Whole) (ascii : IsAscii c) :
    (p.step c.toUInt8).Whole Whole := by
  have more (text : List UInt8) (h : ∃ cs, text = (bytesOf cs).reverse) :
      ∃ cs, c.toUInt8 :: text = (bytesOf cs).reverse := by
    have := exists_gathered (c := c) h
    rwa [utf8EncodeChar_of_isAscii ascii] at this
  have effect := p.effect c.toUInt8
  generalize p.step c.toUInt8 = step at *
  cases effect with
  | complete => exact intact_atEnd h
  | lastQuote => exact Verdict.intact_ofBytes _ h
  | escaped | plain => exact more _ h
  | quote | backslash | gap | reopen => exact h
  | stray | directive | hexadecimal | octal | digit | name => trivial

theorem whole_opening {c : Char} {p : Partial} (h : opening c = some p) : p.Whole := by
  unfold opening at h
  repeat' split at h
  all_goals cases h
  all_goals first
    | trivial
    | exact ⟨[], rfl⟩

theorem Mode.whole_step {mode : Mode} {c : Char} (h : mode.Whole) (ascii : IsAscii c) (here : Nat) :
    (mode.step here c.toUInt8).Whole Whole := by
  cases mode with
  | blank =>
    simp only [step]
    repeat' split
    · trivial
    · trivial
    · trivial
    · next opens => exact whole_opening opens
    · trivial
  | comment =>
    simp only [step]
    split <;> trivial
  | within line lexeme =>
    have inner := Partial.whole_step h ascii
    rw [step]
    cases eq : lexeme.step c.toUInt8 <;> rw [eq] at inner <;> exact inner

/-! ## Other characters -/

/-- Reading the bytes makes one mode of another, on whatever line. -/
inductive Mode.Takes : Mode → List UInt8 → Mode → Prop
  | nil {mode : Mode} : mode.Takes [] mode
  | cons {mode next last : Mode} {b : UInt8} {bytes : List UInt8} :
      (∀ here, mode.step here b = .more next) → next.Takes bytes last → mode.Takes (b :: bytes) last

theorem Partial.Reads.takes {p q : Partial} {bytes : List UInt8} (h : p.Reads bytes q) (line : Nat) :
    (Mode.within line p).Takes bytes (.within line q) := by
  induction h with
  | nil => exact .nil
  | cons step _ ih => exact .cons (fun here => by rw [Mode.step, step]; rfl) ih

section Character

variable {c : Char} {b : UInt8} {bytes : List UInt8} {mode : Mode}

/-- No byte of a character that is not ASCII is in an ASCII class. -/
theorem class_eq_false {f : Char → Bool} (ascii : ∀ d, f d = true → IsAscii d) (hc : ¬ IsAscii c)
    (hb : b ∈ String.utf8EncodeChar c) : f (Char.ofUInt8 b) = false :=
  (class_of_mem ascii hb).trans (Bool.eq_false_iff.mpr fun h => hc (ascii c h))

theorem ofUInt8_ne {d : Char} (hc : ¬ IsAscii c) (hb : b ∈ String.utf8EncodeChar c)
    (hd : IsAscii d) : ¬ Char.ofUInt8 b = d := by
  rw [ofUInt8_eq_iff hd hb]
  rintro rfl
  exact hc hd

theorem opening_eq_none (hc : ¬ IsAscii c) (hb : b ∈ String.utf8EncodeChar c) :
    opening (Char.ofUInt8 b) = none := by
  have notDigit := class_eq_false (fun _ => isAscii_of_isDigit) hc hb
  have notStart := class_eq_false
    (fun _ h => isAscii_of_isNameChar (isNameChar_of_isNameStart h)) hc hb
  have other {d : Char} (hd : IsAscii d) := ofUInt8_ne hc hb hd
  simp only [opening, other (d := '.') (by decide), other (d := '0') (by decide),
    other (isAscii_delimiter _), notDigit, notStart, if_false, Bool.false_eq_true]

/-- A literal gathers a character that is not ASCII, byte by byte. -/
theorem reads_literal (delimiter : Delimiter) (escaped : Bool) (text : List UInt8)
    (hc : ¬ IsAscii c) (encoded : String.utf8EncodeChar c = b :: bytes) :
    (Partial.literal delimiter escaped text).step b = .more (.literal delimiter false (b :: text)) ∧
      (Partial.literal delimiter false (b :: text)).Reads bytes
        (.literal delimiter false ((String.utf8EncodeChar c).reverse ++ text)) := by
  have plain : ∀ d ∈ b :: bytes, d ≠ delimiter.char.toUInt8 ∧ d ≠ '\\'.toUInt8 := fun d hd =>
    ⟨toUInt8_ne_of_not_isAscii (isAscii_delimiter delimiter) hc (encoded ▸ hd),
      toUInt8_ne_of_not_isAscii (by decide) hc (encoded ▸ hd)⟩
  constructor
  · cases escaped with
    | true => rfl
    | false => exact step_literal (plain b List.mem_cons_self).1 (plain b List.mem_cons_self).2 text
  · have reads := reads_plain (fun d hd => plain d (List.mem_cons_of_mem b hd)) (b :: text)
    rw [encoded, List.reverse_cons, List.append_assoc]
    exact reads

/-- What a mode does with the bytes of one character: it takes them all, or the first one decides. -/
inductive Mode.Meets (mode : Mode) (here : Nat) (b : UInt8) (bytes : List UInt8) : Prop
  | taken {next last : Mode} :
      mode.step here b = .more next → next.Takes bytes last → last.Whole → Meets mode here b bytes
  | closed {verdict : Verdict} :
      mode.step here b = .closed verdict → bytes = [] → verdict.Intact → Meets mode here b bytes
  | ended {verdict : Verdict} :
      mode.step here b = .ended verdict → verdict.Intact → Meets mode here b bytes
  | stray {inInteger : Option Radix} :
      mode.step here b = .stray inInteger → Meets mode here b bytes

theorem meets_ascii (h : mode.Whole) (ascii : IsAscii c) (here : Nat) :
    mode.Meets here c.toUInt8 [] := by
  have whole := Mode.whole_step h ascii here
  cases step : mode.step here c.toUInt8 with
  | more next =>
    rw [step] at whole
    exact .taken step .nil whole
  | closed verdict =>
    rw [step] at whole
    exact .closed step rfl whole
  | ended verdict =>
    rw [step] at whole
    exact .ended step whole
  | stray inInteger => exact .stray step

theorem meets_comment (hc : ¬ IsAscii c) (encoded : String.utf8EncodeChar c = b :: bytes)
    (here : Nat) : Mode.comment.Meets here b bytes := by
  have passes (d : UInt8) (hd : d ∈ b :: bytes) (here : Nat) :
      Mode.comment.step here d = .more .comment := by
    simp only [Mode.step, ofUInt8_ne (d := '\n') hc (encoded ▸ hd) (by decide), if_false]
  have takes : ∀ ds : List UInt8, (∀ d ∈ ds, d ∈ b :: bytes) → Mode.comment.Takes ds .comment := by
    intro ds sub
    induction ds with
    | nil => exact .nil
    | cons d ds ih =>
      obtain ⟨hd, sub⟩ := List.forall_mem_cons.mp sub
      exact .cons (passes d hd) (ih sub)
  exact .taken (passes b List.mem_cons_self here)
    (takes bytes fun d hd => List.mem_cons_of_mem b hd) trivial

theorem meets_within {p : Partial} {line : Nat} (h : p.Whole) (hc : ¬ IsAscii c)
    (encoded : String.utf8EncodeChar c = b :: bytes) (here : Nat) :
    (Mode.within line p).Meets here b bytes := by
  have hb : b ∈ String.utf8EncodeChar c := encoded ▸ List.mem_cons_self
  have notBlank := class_eq_false (fun _ => isAscii_of_isBlank) hc hb
  have other {d : Char} (hd : IsAscii d) := ofUInt8_ne hc hb hd
  have ended (verdict : Verdict) (step : p.step b = .ended verdict) (intact : verdict.Intact) :
      (Mode.within line p).Meets here b bytes :=
    .ended (by rw [Mode.step, step]; rfl) intact
  have stray (inInteger : Option Radix) (step : p.step b = .stray inInteger) :
      (Mode.within line p).Meets here b bytes :=
    .stray (by rw [Mode.step, step]; rfl)
  cases p with
  | directive name =>
    -- A directive or a closed literal ends before the character, and it stays for the next run.
    have notDirective := class_eq_false (fun _ => isAscii_of_isDirectiveChar) hc hb
    refine ended (Partial.directive name).atEnd ?_ trivial
    simp only [Partial.step, notDirective, if_false, Bool.false_eq_true]
  | literal delimiter escaped text =>
    obtain ⟨step, reads⟩ := reads_literal delimiter escaped text hc encoded
    exact .taken (by rw [Mode.step, step]; rfl) (reads.takes line) (exists_gathered h)
  | joint delimiter text =>
    refine ended (Partial.joint delimiter text).atEnd ?_ (Partial.intact_atEnd h)
    simp only [Partial.step, notBlank, other (isAscii_delimiter delimiter), if_false,
      Bool.false_eq_true]
  | zero =>
    -- In a number or a name the character is stray.
    have notDigit := class_eq_false (fun _ => @isAscii_of_radix .octal _) hc hb
    refine stray (some .octal) ?_
    simp only [Partial.step, Partial.integerStep, notBlank, notDigit, other (d := 'x') (by decide),
      other (d := 'X') (by decide), or_self, if_false, Bool.false_eq_true]
  | integer radix opening digits =>
    have notDigit := class_eq_false (fun _ => @isAscii_of_radix radix _) hc hb
    refine stray (some radix) ?_
    simp only [Partial.step, Partial.integerStep, notBlank, notDigit, if_false, Bool.false_eq_true]
  | symbol name =>
    have notName := class_eq_false (fun _ => isAscii_of_isNameChar) hc hb
    refine stray none ?_
    simp only [Partial.step, notBlank, notName, if_false, Bool.false_eq_true]

theorem Mode.Whole.meets (h : mode.Whole) (encoded : String.utf8EncodeChar c = b :: bytes)
    (here : Nat) : mode.Meets here b bytes := by
  by_cases ascii : IsAscii c
  · rw [utf8EncodeChar_of_isAscii ascii] at encoded
    obtain ⟨rfl, rfl⟩ := List.cons.inj encoded
    exact meets_ascii h ascii here
  cases mode with
  | blank =>
    have hb : b ∈ String.utf8EncodeChar c := encoded ▸ List.mem_cons_self
    have notBlank := class_eq_false (fun _ => isAscii_of_isBlank) ascii hb
    have stray : blank.step here b = .stray none := by
      simp only [step, notBlank, ofUInt8_ne (d := '#') ascii hb (by decide),
        ofUInt8_ne (d := ';') ascii hb (by decide), opening_eq_none ascii hb, if_false,
        Bool.false_eq_true]
    exact .stray stray
  | comment => exact meets_comment ascii encoded here
  | within line lexeme => exact meets_within h ascii encoded here

end Character

/-! ## Runs over characters -/

section Run

variable {limit : Nat} {mode next : Mode} {pos : Position} {bytes : List UInt8} {cs : List Char}

/-- Bytes that a mode takes are read, or one of them makes the line too long. -/
theorem run_takes (h : mode.Takes bytes next) (pos : Position) (more : List UInt8) :
    (pos.Fits limit bytes ∧ run limit mode pos none ((bytes ++ more).map .byte) =
        run limit next (pos.after bytes) none (more.map .byte)) ∨
      ¬ pos.Fits limit bytes ∧ ∃ r late, run limit mode pos none ((bytes ++ more).map .byte) = r ∧
        late <:+ bytes ∧ r.verdict = .error (.lineTooLong limit) ∧ limit < r.position.width ∧
        r.rest = (late ++ more).map .byte := by
  induction h generalizing pos with
  | nil => exact .inl ⟨trivial, rfl⟩
  | @cons mode next last b bytes step _ ih =>
    rw [List.cons_append, run_byte]
    by_cases long : limit < (pos.advance b).width
    · rw [if_pos long]
      exact .inr ⟨fun fits => absurd fits.1 (Nat.not_le.mpr long), _, bytes, rfl,
        List.suffix_cons b bytes, rfl, long, rfl⟩
    · rw [if_neg long, step]
      rcases ih (pos.advance b) with ⟨fits, eq⟩ | ⟨overflow, r, late, eq, suffix, long, rest⟩
      · exact .inl ⟨⟨Nat.not_lt.mp long, fits⟩, eq⟩
      · exact .inr ⟨fun fits => overflow fits.2, r, late, eq,
          suffix.trans (List.suffix_cons b bytes), long, rest⟩

/-- Where a run from `pos` over the characters has stopped: between two characters; right behind a
stray one, of which only the first byte has been counted; or within a line that is too long, maybe
with bytes of a character left that are no line feed. -/
inductive Run.Stops (limit : Nat) (pos : Position) (cs : List Char) (r : Run) : Prop
  | between (front after : List Char) :
      cs = front ++ after → r.verdict.Intact → r.position = pos.after (bytesOf front) →
      r.rest = (bytesOf after).map .byte → Stops limit pos cs r
  | stray (front : List Char) (c : Char) (after : List Char) (cause : LexCause)
      (b : UInt8) (bytes : List UInt8) :
      cs = front ++ c :: after → r.verdict = .error cause → cause.stray? = some c →
      String.utf8EncodeChar c = b :: bytes →
      r.position = (pos.after (bytesOf front)).advance b →
      r.rest = (bytesOf after).map .byte → Stops limit pos cs r
  | long (late : List UInt8) (after : List Char) :
      after <:+ cs → '\n'.toUInt8 ∉ late → r.verdict = .error (.lineTooLong limit) →
      limit < r.position.width → r.rest = (late ++ bytesOf after).map .byte →
      ¬ pos.Fits limit (bytesOf cs) → Stops limit pos cs r

theorem bytesOf_cons_eq (c : Char) (cs : List Char) :
    bytesOf (c :: cs) = String.utf8EncodeChar c ++ bytesOf cs := rfl

/-- The bytes of a character behind the first one are no line feeds. -/
theorem newline_not_mem_tail {c : Char} {b : UInt8} (h : String.utf8EncodeChar c = b :: bytes) :
    '\n'.toUInt8 ∉ bytes := by
  by_cases ascii : IsAscii c
  · rw [utf8EncodeChar_of_isAscii ascii] at h
    rw [← (List.cons.inj h).2]
    simp
  · intro mem
    have := le_of_mem_utf8EncodeChar ascii (h ▸ List.mem_cons_of_mem b mem)
    exact absurd this (by decide)

/-- A character in front that has been read. -/
theorem Run.Stops.cons {c : Char} {r : Run}
    (h : r.Stops limit (pos.after (String.utf8EncodeChar c)) cs) : r.Stops limit pos (c :: cs) := by
  cases h with
  | between front after split intact position rest =>
    refine .between (c :: front) after (by rw [split]; rfl) intact ?_ rest
    rw [position, bytesOf_cons_eq, Position.after_append]
  | stray front c' after cause b bytes split verdict shown encoded position rest =>
    refine .stray (c :: front) c' after cause b bytes (by rw [split]; rfl) verdict shown encoded ?_ rest
    rw [position, bytesOf_cons_eq, Position.after_append]
  | long late after suffix clean verdict width rest overflow =>
    refine .long late after (suffix.trans (List.suffix_cons c cs)) clean verdict width rest ?_
    intro fits
    rw [bytesOf_cons_eq] at fits
    exact overflow (Position.fits_append.mp fits).2

theorem run_stops (h : mode.Whole) (pos : Position) (cs : List Char) :
    (run limit mode pos none ((bytesOf cs).map .byte)).Stops limit pos cs := by
  induction cs generalizing mode pos with
  | nil => exact .between [] [] rfl (Mode.intact_atEnd h) rfl rfl
  | cons c cs ih =>
    obtain ⟨b, bytes, encoded⟩ := List.exists_cons_of_ne_nil (String.utf8EncodeChar_ne_nil (c := c))
    have clean := newline_not_mem_tail encoded
    rw [bytesOf_cons_eq, encoded, List.cons_append, run_byte]
    by_cases long : limit < (pos.advance b).width
    · rw [if_pos long]
      refine .long bytes cs (List.suffix_cons c cs) clean rfl long rfl fun fits => ?_
      rw [bytesOf_cons_eq, encoded] at fits
      exact absurd fits.1 (Nat.not_le.mpr long)
    rw [if_neg long]
    cases h.meets encoded (pos.advance b).line with
    | taken step takes whole =>
      rw [step]
      -- The mode takes the whole character, unless one of its bytes is one too many for the line.
      rcases run_takes takes (pos.advance b) (bytesOf cs) with
        ⟨-, eq⟩ | ⟨overflow, r, late, eq, suffix, verdict, width, rest⟩
      · dsimp only
        rw [eq]
        apply Run.Stops.cons
        rw [encoded]
        exact ih whole _
      · dsimp only
        rw [eq]
        refine .long late cs (List.suffix_cons c cs) (fun mem => clean (suffix.subset mem)) verdict width
          rest fun fits => ?_
        rw [bytesOf_cons_eq, encoded] at fits
        exact overflow (Position.fits_append.mp fits.2).1
    | closed step last intact =>
      rw [step]
      subst last
      exact .between [c] cs rfl intact (by rw [bytesOf_cons_eq, encoded]; rfl) rfl
    | ended step intact =>
      rw [step]
      refine .between [] (c :: cs) rfl intact rfl ?_
      rw [bytesOf_cons_eq, encoded]
      rfl
    | stray step =>
      rw [step]
      obtain ⟨taken, left⟩ := takes_character encoded (bytesOf cs)
      refine .stray [] c cs _ b bytes rfl rfl ?_ encoded rfl ?_
      · rw [taken, charOfBytes_utf8EncodeChar]
        exact stray?_strayCause ..
      · dsimp only
        rw [left]

end Run

/-! ## Pulls over characters -/

namespace Lexer

variable {lexer : Lexer} {late : List UInt8} {cs : List Char}

/-- The lexer stands before the characters, and before them, if the line is too long already, there may
be bytes of another one. -/
structure StandsAt (lexer : Lexer) (late : List UInt8) (cs : List Char) : Prop where
  start : lexer.start = (none, (late ++ bytesOf cs).map .byte)
  clean : '\n'.toUInt8 ∉ late
  long : late ≠ [] → lexer.limit < lexer.position.width

/-- No byte order mark stands behind a pull. -/
theorem start_pull (lexer : Lexer) : lexer.pull.2.start = (none, lexer.next.rest) := rfl

/-- On a line that is too long already, a byte that does not end the line is a fault. -/
theorem next_long {b : UInt8} {bytes : List UInt8}
    (start : lexer.start = (none, (b :: bytes).map .byte)) (inLine : '\n'.toUInt8 ≠ b)
    (long : lexer.limit < lexer.position.width) :
    lexer.next = ⟨lexer.position.line, .error (.lineTooLong lexer.limit), none,
      ⟨lexer.position.line, lexer.position.width + 1⟩, bytes.map .byte⟩ := by
  have wider : lexer.position.advance b = ⟨lexer.position.line, lexer.position.width + 1⟩ :=
    if_neg inLine.symm
  rw [next_eq start, run_byte, wider, if_pos (Nat.lt_succ_of_lt long)]

/-- The next run of a lexer that stands before characters: it stops among them, or at once. -/
theorem StandsAt.stops (h : lexer.StandsAt late cs) :
    (late = [] ∧ lexer.next.Stops lexer.limit lexer.position cs) ∨
      ∃ b rest, late = b :: rest ∧ lexer.next.verdict = .error (.lineTooLong lexer.limit) ∧
        lexer.limit < lexer.next.position.width ∧ lexer.next.rest = (rest ++ bytesOf cs).map .byte := by
  obtain ⟨start, clean, long⟩ := h
  cases late with
  | nil =>
    have whole : Mode.blank.Whole := trivial
    left
    rw [next_eq start]
    exact ⟨rfl, run_stops whole _ cs⟩
  | cons b rest =>
    have width := long (List.cons_ne_nil b rest)
    have next := next_long start (fun eq => clean (eq ▸ List.mem_cons_self)) width
    rw [next]
    exact .inr ⟨b, rest, rfl, rfl, Nat.lt_succ_of_lt width, rfl⟩

theorem StandsAt.pull (h : lexer.StandsAt late cs) :
    ∃ late' after, after <:+ cs ∧ lexer.pull.2.StandsAt late' after := by
  have start := lexer.start_pull
  rcases h.stops with ⟨rfl, stops⟩ | ⟨b, rest, rfl, -, width, left⟩
  · cases stops with
    | between front after split _ _ rest =>
      rw [rest] at start
      exact ⟨[], after, ⟨front, split.symm⟩, start, by simp, by simp⟩
    | stray front c after _ _ _ split _ _ _ _ rest =>
      rw [rest] at start
      exact ⟨[], after, ⟨front ++ [c], by simp [split]⟩, start, by simp, by simp⟩
    | long late after suffix clean _ width rest _ =>
      rw [rest] at start
      exact ⟨late, after, suffix, start, clean, fun _ => width⟩
  · rw [left] at start
    exact ⟨rest, cs, List.suffix_refl cs, start, fun mem => h.clean (List.mem_cons_of_mem b mem),
      fun _ => width⟩

theorem start_of_text (source text : String) (limit : Nat) :
    ({ source, rest := Read.ofText text, limit } : Lexer).start =
      (none, (bytesOf (dropMark text.toList)).map .byte) := by
  rw [← skipMark_bytesOf, ← ofText_eq]
  rfl

theorem dropMark_suffix (cs : List Char) : dropMark cs <:+ cs := by
  unfold dropMark
  split
  · exact List.suffix_cons ..
  · exact List.suffix_refl _

/-- Before every pull over a text the lexer stands in it. -/
theorem standsAt_pulled (source text : String) (limit n : Nat) :
    ∃ late after, after <:+ text.toList ∧
      (({ source, rest := Read.ofText text, limit } : Lexer).pulled n).StandsAt late after := by
  induction n with
  | zero =>
    exact ⟨[], dropMark text.toList, dropMark_suffix _, start_of_text source text limit, by simp,
      by simp⟩
  | succ n ih =>
    obtain ⟨late, cs, suffix, stands⟩ := ih
    obtain ⟨late', after, suffix', stands'⟩ := stands.pull
    exact ⟨late', after, suffix'.trans suffix, stands'⟩

/-- No text is invalid, and where a pull over a text reports a stray character, it has come to this
very character, and goes on right behind it. -/
theorem pulled_text (source text : String) (limit n : Nat) :
    let lexer := ({ source, rest := Read.ofText text, limit } : Lexer).pulled n
    ∀ fault, lexer.pull.1 = .error fault →
      fault.cause ≠ .invalidUtf8 ∧
      ∀ c, fault.cause.stray? = some c → ∃ before middle after,
        text.toList = before ++ (middle ++ c :: after) ∧
        lexer.start.2 = (bytesOf (middle ++ c :: after)).map .byte ∧
        lexer.pull.2.rest = (bytesOf after).map .byte := by
  intro lexer fault failed
  obtain ⟨late, cs, ⟨before, split⟩, stands⟩ := standsAt_pulled source text limit n
  have verdict : lexer.next.verdict = .error fault.cause := by
    rw [pull_found_eq stands.start] at failed
    split at failed
    · cases failed
    · next cause verdict =>
      cases failed
      exact verdict
  -- A line that is too long is neither invalid nor stray.
  have overflow (long : lexer.next.verdict = .error (.lineTooLong lexer.limit)) :
      fault.cause ≠ .invalidUtf8 ∧ fault.cause.stray? = none := by
    rw [Except.error.inj (verdict.symm.trans long)]
    exact ⟨nofun, rfl⟩
  rcases stands.stops with ⟨rfl, stops⟩ | ⟨b, rest, rfl, long, -, -⟩
  · cases stops with
    | between front after _ intact _ _ =>
      rw [verdict] at intact
      refine ⟨fun invalid => ?_, fun c shown => ?_⟩
      · rw [invalid] at intact
        exact intact
      · cases eq : fault.cause <;> rw [eq] at intact shown <;> first | exact intact.elim | cases shown
    | stray front c after cause _ _ split' verdict' shown _ _ rest =>
      obtain rfl : fault.cause = cause := Except.error.inj (verdict.symm.trans verdict')
      refine ⟨fun invalid => ?_, fun d shown' => ?_⟩
      · rw [invalid] at shown
        cases shown
      · obtain rfl : c = d := Option.some.inj (shown.symm.trans shown')
        refine ⟨before, front, after, by rw [← split, split'], ?_, rest⟩
        rw [stands.start, List.nil_append, split']
    | long _ after _ _ long _ _ _ =>
      exact ⟨(overflow long).1, fun c shown => by cases (overflow long).2.symm.trans shown⟩
  · exact ⟨(overflow long).1, fun c shown => by cases (overflow long).2.symm.trans shown⟩

/-- Two pulls fault within the character of the comment, as its line is too long; the third one comes to
a stray character on another line. -/
theorem pulled_text_behind_fault :
    let lexer := ({ source := "in", rest := Read.ofText "#é\n\n€ a", limit := 1 } : Lexer).pulled 2
    lexer.pull.1 = .error ⟨.unexpectedCharacter '€', ⟨"in", 3⟩⟩ ∧
      ∃ before middle after, "#é\n\n€ a".toList = before ++ (middle ++ '€' :: after) ∧
        lexer.start.2 = (bytesOf (middle ++ '€' :: after)).map .byte ∧
        lexer.pull.2.rest = (bytesOf after).map .byte := by
  intro lexer
  have failed : lexer.pull.1 = .error ⟨.unexpectedCharacter '€', ⟨"in", 3⟩⟩ := by decide +kernel
  exact ⟨failed, (pulled_text "in" "#é\n\n€ a" 1 2 _ failed).2 '€' rfl⟩

end Lexer

end HttpSuite
