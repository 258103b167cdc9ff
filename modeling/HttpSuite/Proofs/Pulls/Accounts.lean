import HttpSuite.Proofs.Lexing.Effect
import HttpSuite.Proofs.Lexing.Run

/-!
# What pulls do with the bytes of a source

A run moves its position over every byte that it reads, but for the later bytes of a stray character:
these it takes without counting them. So the bytes ahead of a run are those that it counts, those that
it takes late, and those that it leaves.

* `exists_accounts`: this division for any run over bytes, by induction on the bytes.
* `run_end`: the end token is found behind the last read only.
* `Lexer.pulled`: a lexer after a number of pulls.
* `Lexer.exists_start`, `Lexer.pull_found_eq`: what a pull over bytes starts from, and what it finds.
-/

namespace HttpSuite

/-! ## What a run finds -/

/-- The character that does not belong where it stands, if that is the fault. -/
def LexCause.stray? : LexCause → Option Char
  | unexpectedCharacter c | invalidDigit c _ => some c
  | unterminated _ | missingHexDigits | lineTooLong _ | invalidUtf8 => none

@[simp] theorem stray?_strayCause (inInteger : Option Radix) (c : Char) :
    (strayCause inInteger c).stray? = some c := by
  cases inInteger <;> rfl

/-- The verdict is that a character is stray. -/
def Verdict.Strays (verdict : Verdict) : Prop :=
  ∃ cause c, verdict = .error cause ∧ cause.stray? = some c

/-- The verdict is that a line is too long. -/
def Verdict.Overflows (verdict : Verdict) : Prop :=
  ∃ limit, verdict = .error (.lineTooLong limit)

theorem Verdict.strays_stray (inInteger : Option Radix) (c : Char) :
    Verdict.Strays (.error (strayCause inInteger c)) :=
  ⟨_, c, rfl, stray?_strayCause ..⟩

theorem Verdict.not_strays_lineTooLong (limit : Nat) :
    ¬ Verdict.Strays (.error (.lineTooLong limit)) := by
  rintro ⟨cause, c, fault, stray⟩
  cases fault
  cases stray

/-! ## End tokens -/

/-- The verdict is no end token. -/
def Verdict.Lexeme (verdict : Verdict) : Prop := ∀ text, verdict ≠ .ok (.none, text)

/-- A byte that completes a lexeme completes no end token. -/
def Step.Lexeme {σ : Type} : Step σ → Prop
  | .closed verdict | .ended verdict => verdict.Lexeme
  | .more _ | .stray _ => True

theorem Verdict.lexeme_error (cause : LexCause) : Verdict.Lexeme (.error cause) := by
  intro text eq
  cases eq

theorem Verdict.lexeme_ofBytes (delimiter : Delimiter) (bytes : List UInt8) :
    (ofBytes delimiter.kind bytes).Lexeme := by
  intro text
  unfold ofBytes
  cases delimiter <;> split <;> simp [Delimiter.kind]

theorem Partial.lexeme_integerVerdict (radix : Radix) (opening digits : List Char) :
    (integerVerdict radix opening digits).Lexeme := by
  intro text
  unfold integerVerdict
  split <;> simp

theorem Partial.lexeme_atEnd (p : Partial) : p.atEnd.Lexeme := by
  cases p with
  | directive name | symbol name => simp [Verdict.Lexeme, atEnd, Verdict.ofChars]
  | literal delimiter escaped bytes => simp [Verdict.Lexeme, atEnd]
  | joint delimiter bytes => exact Verdict.lexeme_ofBytes delimiter bytes
  | zero => simp [Verdict.Lexeme, atEnd]
  | integer radix opening digits => exact lexeme_integerVerdict radix opening digits

theorem Partial.lexeme_step (p : Partial) (b : UInt8) : (p.step b).Lexeme := by
  have effect := p.effect b
  generalize p.step b = step at *
  cases effect with
  | complete => exact lexeme_atEnd p
  | lastQuote => exact Verdict.lexeme_ofBytes _ _
  | stray | directive | escaped | quote | backslash | plain | gap | reopen | hexadecimal | octal
  | digit | name => trivial

theorem Mode.lexeme_step (mode : Mode) (here : Nat) (b : UInt8) : (mode.step here b).Lexeme := by
  cases mode with
  | blank =>
    simp only [step]
    repeat' split
    all_goals first
      | trivial
      | simp [Step.Lexeme, Verdict.Lexeme]
  | comment =>
    trivial
  | within line lexeme =>
    have inner := lexeme.lexeme_step b
    rw [step]
    cases eq : lexeme.step b <;> rw [eq] at inner <;> exact inner

/-- A run keeps the first failure. -/
theorem run_failed (reason : String) (limit : Nat) (mode : Mode) (pos : Position)
    (reads : List Read) :
    (run limit mode pos (some reason) reads).failure = some reason := by
  generalize given : some reason = failure
  fun_induction run limit mode pos failure reads with
  | case2 pos failure other rest _ ih =>
    subst given
    exact ih rfl
  | case5 _ _ _ _ _ _ _ _ _ ih => exact ih given
  | case8 => subst given; rfl
  | case3 => subst given; rfl
  | case1 | case4 | case6 | case7 => rfl

/-- The end token is found behind the last read, unless a read fails. -/
theorem run_end {limit : Nat} {mode : Mode} {pos : Position} {reads : List Read} {text : String}
    (intact : (run limit mode pos none reads).failure = none)
    (h : (run limit mode pos none reads).verdict = .ok (.none, text)) :
    (run limit mode pos none reads).rest = [] := by
  induction reads generalizing mode pos with
  | nil => rfl
  | cons read reads ih =>
    cases read with
    | failed reason =>
      -- A failed read makes the run fail, also where the run goes on behind it.
      rw [run] at intact
      split at intact
      · cases (run_failed ..).symm.trans intact
      · cases intact
    | byte b =>
      have lexeme := mode.lexeme_step (pos.advance b).line b
      simp only [run] at intact h ⊢
      by_cases long : limit < (pos.advance b).width
      · rw [if_pos long] at h
        cases h
      · simp only [if_neg long] at intact h ⊢
        cases step : mode.step (pos.advance b).line b with
        | more next =>
          simp only [step] at intact h
          exact ih intact h
        | closed verdict | ended verdict =>
          simp only [step] at h lexeme
          exact absurd h (lexeme text)
        | stray inInteger =>
          simp only [step] at h
          cases h

/-! ## Runs over bytes -/

theorem takeBytes_bytes (n : Nat) (bytes : List UInt8) :
    takeBytes n (bytes.map .byte) = (bytes.take n, none, (bytes.drop n).map .byte) := by
  induction n generalizing bytes with
  | zero => simp [takeBytes]
  | succ n ih =>
    cases bytes with
    | nil => rfl
    | cons b bytes => simp [takeBytes, ih]

theorem Read.map_byte_inj {bytes other : List UInt8}
    (h : bytes.map Read.byte = other.map Read.byte) : bytes = other :=
  (List.map_inj_right fun _ _ => Read.byte.inj).mp h

section Run

variable (limit : Nat) (mode : Mode) (pos : Position) (b : UInt8) (bytes : List UInt8)

/-- A run over bytes, by the effect of the first one. -/
theorem run_byte :
    run limit mode pos none ((b :: bytes).map .byte) =
      if limit < (pos.advance b).width then
        ⟨(pos.advance b).line, .error (.lineTooLong limit), none, pos.advance b, bytes.map .byte⟩
      else match mode.step (pos.advance b).line b with
        | .more next => run limit next (pos.advance b) none (bytes.map .byte)
        | .closed verdict =>
          ⟨mode.line (pos.advance b).line, verdict, none, pos.advance b, bytes.map .byte⟩
        | .ended verdict =>
          ⟨mode.line (pos.advance b).line, verdict, none, pos, (b :: bytes).map .byte⟩
        | .stray inInteger =>
          ⟨mode.line (pos.advance b).line,
            .error (strayCause inInteger (charOfBytes (b :: bytes.take (charLength b - 1)))), none,
            pos.advance b, (bytes.drop (charLength b - 1)).map .byte⟩ := by
  rw [List.map_cons, run]
  simp only [takeBytes_bytes]
  rfl

/-- A run from `pos` has counted the first of these bytes, taken the second ones late, and left the
third ones. -/
structure Run.Accounts (r : Run) (limit : Nat) (pos : Position) (counted late left : List UInt8) :
    Prop where
  rest : r.rest = left.map .byte
  position : r.position = pos.after counted
  failure : r.failure = none
  late_stray : late ≠ [] → r.verdict.Strays
  fits : ¬ r.verdict.Overflows → pos.Fits limit counted

theorem exists_accounts :
    ∃ counted late left, bytes = counted ++ (late ++ left) ∧
      (run limit mode pos none (bytes.map .byte)).Accounts limit pos counted late left := by
  induction bytes generalizing mode pos with
  | nil => exact ⟨[], [], [], rfl, rfl, rfl, rfl, by simp, fun _ => trivial⟩
  | cons b bytes ih =>
    rw [run_byte]
    by_cases long : limit < (pos.advance b).width
    · rw [if_pos long]
      exact ⟨[b], [], bytes, rfl, rfl, rfl, rfl, by simp, fun fine => absurd ⟨limit, rfl⟩ fine⟩
    · rw [if_neg long]
      have fits : pos.Fits limit [b] := ⟨Nat.not_lt.mp long, trivial⟩
      cases mode.step (pos.advance b).line b with
      | more next =>
        obtain ⟨counted, late, left, rfl, r⟩ := ih next (pos.advance b)
        exact ⟨b :: counted, late, left, rfl, r.rest, r.position, r.failure, r.late_stray,
          fun fine => ⟨fits.1, r.fits fine⟩⟩
      | closed verdict => exact ⟨[b], [], bytes, rfl, rfl, rfl, rfl, by simp, fun _ => fits⟩
      | ended verdict => exact ⟨[], [], b :: bytes, rfl, rfl, rfl, rfl, by simp, fun _ => trivial⟩
      | stray inInteger =>
        refine ⟨[b], bytes.take (charLength b - 1), bytes.drop (charLength b - 1), ?_, rfl, rfl, rfl,
          fun _ => Verdict.strays_stray .., fun _ => fits⟩
        rw [List.take_append_drop]
        rfl

/-- No read of bytes fails. -/
theorem run_failure : (run limit mode pos none (bytes.map .byte)).failure = none := by
  obtain ⟨_, _, _, _, accounts⟩ := exists_accounts limit mode pos bytes
  exact accounts.failure

end Run

/-- Every line feed is one line more. -/
theorem Position.line_after_bytes (pos : Position) (bytes : List UInt8) :
    (pos.after bytes).line = pos.line + bytes.count '\n'.toUInt8 := by
  induction bytes generalizing pos with
  | nil => rfl
  | cons b bytes ih =>
    have later : pos.after (b :: bytes) = (pos.advance b).after bytes := rfl
    rw [later, ih, List.count_cons, advance]
    by_cases newline : b = '\n'.toUInt8
    · simp only [newline, if_true, beq_self_eq_true]
      omega
    · simp [newline]

/-! ## Pulls -/

namespace Lexer

/-- The lexer after a number of pulls. -/
def pulled (lexer : Lexer) : Nat → Lexer
  | 0 => lexer
  | n + 1 => (lexer.pulled n).pull.2

@[simp] theorem limit_pulled (lexer : Lexer) (n : Nat) : (lexer.pulled n).limit = lexer.limit := by
  induction n with
  | zero => rfl
  | succ n ih => exact ih

variable {lexer : Lexer} {bytes ahead : List UInt8}

/-- A pull over bytes starts with all of them, or behind a byte order mark. -/
theorem exists_start (h : lexer.rest = bytes.map .byte) :
    ∃ mark ahead, bytes = mark ++ ahead ∧ (mark = [] ∨ mark = [0xef, 0xbb, 0xbf]) ∧
      lexer.start = (none, ahead.map .byte) := by
  unfold start
  by_cases fresh : lexer.fresh = true
  · rw [if_pos fresh, h]
    by_cases marked : ∃ left, bytes = 0xef :: 0xbb :: 0xbf :: left
    · obtain ⟨left, rfl⟩ := marked
      exact ⟨_, left, rfl, .inr rfl, rfl⟩
    · exact ⟨[], bytes, rfl, .inl rfl, skipMark_map_byte fun left eq => marked ⟨left, eq⟩⟩
  · rw [if_neg fresh, h]
    exact ⟨[], bytes, rfl, .inl rfl, rfl⟩

theorem next_eq (start : lexer.start = (none, ahead.map .byte)) :
    lexer.next = run lexer.limit .blank lexer.position none (ahead.map .byte) := by
  rw [next, start]

/-- What a pull over bytes finds, by the verdict of its run. -/
theorem pull_found_eq (start : lexer.start = (none, ahead.map .byte)) :
    lexer.pull.1 = match lexer.next.verdict with
      | .ok (kind, text) => .ok ⟨kind, text, lexer.source, lexer.next.line⟩
      | .error cause => .error ⟨cause, lexer.source, lexer.next.line⟩ := by
  have intact : lexer.next.failure = none := next_eq start ▸ run_failure ..
  rw [pull]
  simp only [found, intact]
  rcases lexer.next.verdict with cause | ⟨kind, text⟩ <;> rfl

end Lexer

end HttpSuite
