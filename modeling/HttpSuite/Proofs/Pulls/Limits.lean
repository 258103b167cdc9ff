import HttpSuite.Proofs.Lexing.Found
import HttpSuite.Proofs.Pulls.Boundaries

/-!
# The limit on the bytes of a line

The limit decides about nothing but lines that are too long. Two runs over the same bytes with different
limits go the same way, up to the byte that makes a line too long for one of them. Without a fault every
byte of a source is counted on its line, so the first line that is too long is the first fault.

Behind a fault this is no longer so: the later bytes of a stray character are not counted. In a text these
bytes belong to no other line, and what is behind them has the more room.

* `Position.overflow?_eq_findIdx?`: the line on which the bytes overflow, among all lines.
* `run_limits`: two runs, by induction on the bytes.
* `Lexer.tokens_limits`: the tokens of bytes at two limits, by induction on the bytes that are left.
* `Lexer.pulled_limitedTo`: pulls over a text without a line that is too long.
* `Lexer.text_limits`: what a limit decides about a text.
-/

namespace HttpSuite

/-! ## Lines that are too long -/

/-- The lines of a text as bytes; a byte order mark is no part of the first one. -/
def byteLines (text : String) : List (List UInt8) :=
  (bytesOf (dropMark text.toList)).splitOn '\n'.toUInt8

namespace Position

variable {limit wider : Nat} {pos other : Position} {bytes : List UInt8}

/-- The line of the first byte that makes its line too long. -/
def overflow? (limit : Nat) (pos : Position) : List UInt8 → Option Nat
  | [] => none
  | b :: bytes =>
    if limit < (pos.advance b).width then some (pos.advance b).line
    else (pos.advance b).overflow? limit bytes

theorem overflow?_eq_none_iff : pos.overflow? limit bytes = none ↔ pos.Fits limit bytes := by
  induction bytes generalizing pos with
  | nil => simp [overflow?, Fits]
  | cons b bytes ih =>
    rw [overflow?, Fits]
    by_cases long : limit < (pos.advance b).width
    · simp [long, Nat.not_le.mpr long]
    · simp [long, ih, Nat.not_lt.mp long]

/-- Bytes that fit are passed. -/
theorem overflow?_append {first second : List UInt8} (fits : pos.Fits limit first) :
    pos.overflow? limit (first ++ second) = (pos.after first).overflow? limit second := by
  induction first generalizing pos with
  | nil => rfl
  | cons b first ih =>
    rw [List.cons_append, overflow?, if_neg (Nat.not_lt.mpr fits.1), ih fits.2]
    rfl

/-- The rest of the line that is being read is too long, or the first one of the later lines that is. -/
theorem overflow?_eq {line : List UInt8} {lines : List (List UInt8)}
    (split : bytes.splitOn '\n'.toUInt8 = line :: lines) (room : pos.width ≤ limit) :
    pos.overflow? limit bytes =
      if limit < pos.width + line.length then some pos.line
      else (lines.findIdx? fun line => limit < line.length).map (· + (pos.line + 1)) := by
  induction bytes generalizing pos line lines with
  | nil =>
    obtain ⟨rfl, rfl⟩ := List.cons.inj split
    simp [overflow?, Nat.not_lt.mpr room]
  | cons b bytes ih =>
    obtain ⟨next, later, tails⟩ :=
      List.exists_cons_of_ne_nil (List.splitOn_ne_nil '\n'.toUInt8 bytes)
    rw [List.splitOn_cons_eq_if_modifyHead, tails] at split
    rw [overflow?]
    by_cases newline : b = '\n'.toUInt8
    · have step : pos.advance b = ⟨pos.line + 1, 0⟩ := if_pos newline
      simp only [newline, beq_self_eq_true, if_true] at split
      obtain ⟨rfl, rfl⟩ := List.cons.inj split
      have empty : ¬ limit < pos.width + ([] : List UInt8).length := Nat.not_lt.mpr room
      rw [step, if_neg (Nat.not_lt_zero limit), ih tails (Nat.zero_le limit), if_neg empty,
        List.findIdx?_cons]
      by_cases long : limit < next.length
      · simp [long]
      · cases later.findIdx? fun line => limit < line.length with
        | none => simp [long]
        | some i =>
          simp [long]
          omega
    · have step : pos.advance b = ⟨pos.line, pos.width + 1⟩ := if_neg newline
      simp only [beq_iff_eq, newline, if_false, List.modifyHead_cons] at split
      obtain ⟨rfl, rfl⟩ := List.cons.inj split
      rw [step, List.length_cons]
      by_cases long : limit < pos.width + 1
      · rw [if_pos long, if_pos (by omega)]
      · rw [if_neg long, ih tails (by simp only; omega)]
        simp only [Nat.add_assoc, Nat.add_comm 1]

theorem overflow?_eq_findIdx? (limit : Nat) (text : String) :
    ({} : Position).overflow? limit (bytesOf (dropMark text.toList)) =
      ((byteLines text).findIdx? fun line => limit < line.length).map (· + 1) := by
  obtain ⟨line, lines, split⟩ := List.exists_cons_of_ne_nil
    (List.splitOn_ne_nil '\n'.toUInt8 (bytesOf (dropMark text.toList)))
  rw [overflow?_eq split (Nat.zero_le limit), byteLines, split, List.findIdx?_cons]
  by_cases long : limit < line.length
  · simp [long]
  · cases lines.findIdx? fun line => limit < line.length with
    | none => simp [long]
    | some i => simp [long]

theorem fits_iff_byteLines {text : String} :
    ({} : Position).Fits limit (bytesOf (dropMark text.toList)) ↔
      ∀ line ∈ byteLines text, line.length ≤ limit := by
  rw [← overflow?_eq_none_iff, overflow?_eq_findIdx?, Option.map_eq_none_iff,
    List.findIdx?_eq_none_iff]
  simp

/-- A line has room for more at a larger limit, and when less of it has been read. -/
theorem Fits.mono (fits : pos.Fits limit bytes) (le : limit ≤ wider)
    (narrower : other.width ≤ pos.width) : other.Fits wider bytes := by
  induction bytes generalizing pos other with
  | nil => trivial
  | cons b bytes ih =>
    have step : (other.advance b).width ≤ (pos.advance b).width := by
      unfold advance
      split
      · exact Nat.le_refl 0
      · exact Nat.succ_le_succ narrower
    exact ⟨step.trans (fits.1.trans le), ih fits.2 step⟩

/-- The width of a line only grows before its end. -/
theorem width_le_after (inLine : '\n'.toUInt8 ∉ bytes) (pos : Position) :
    pos.width ≤ (pos.after bytes).width := by
  induction bytes generalizing pos with
  | nil => exact Nat.le_refl _
  | cons b bytes ih =>
    obtain ⟨first, others⟩ := List.ne_and_not_mem_of_not_mem_cons inLine
    have step : pos.width ≤ (pos.advance b).width := by
      rw [advance, if_neg first.symm]
      exact Nat.le_succ _
    exact step.trans (ih others (pos.advance b))

end Position

/-! ## Two runs -/

section Run

variable {limit other : Nat} {mode : Mode} {pos : Position} {bytes : List UInt8}

/-- A run at another limit is the same, or it comes to a line that is too long. -/
theorem run_limits (limit : Nat)
    (fine : ¬ (run other mode pos none (bytes.map .byte)).verdict.Overflows) :
    run limit mode pos none (bytes.map .byte) = run other mode pos none (bytes.map .byte) ∨
      (run limit mode pos none (bytes.map .byte)).verdict = .error (.lineTooLong limit) ∧
        pos.overflow? limit bytes = some (run limit mode pos none (bytes.map .byte)).line := by
  induction bytes generalizing mode pos with
  | nil => exact .inl rfl
  | cons b bytes ih =>
    rw [run_byte, Position.overflow?]
    rw [run_byte] at fine ⊢
    by_cases long : limit < (pos.advance b).width
    · rw [if_pos long, if_pos long]
      exact .inr ⟨rfl, rfl⟩
    · rw [if_neg long, if_neg long]
      by_cases overflow : other < (pos.advance b).width
      · rw [if_pos overflow] at fine
        exact absurd ⟨other, rfl⟩ fine
      · rw [if_neg overflow] at fine ⊢
        cases step : mode.step (pos.advance b).line b with
        | more next =>
          rw [step] at fine
          exact ih fine
        | closed verdict | ended verdict | stray inInteger => exact .inl rfl

end Run

/-! ## The tokens of bytes -/

namespace Lexer

section Bytes

variable {source : String} {limit other : Nat} {pos : Position} {bytes ahead : List UInt8}

/-- The lexer in the middle of a source that has the bytes still to read. -/
def midway (source : String) (limit : Nat) (pos : Position) (bytes : List UInt8) : Lexer :=
  ⟨source, bytes.map .byte, limit, pos, false⟩

theorem tokens_of_start {lexer : Lexer} (start : lexer.start = (none, ahead.map .byte)) :
    lexer.tokens = (midway lexer.source lexer.limit lexer.position ahead).tokens :=
  tokens_congr rfl rfl (next_eq start)

/-- What the tokens of bytes are, by what the run over them has found: a fault, the end, or a token with
fewer bytes behind it. -/
inductive Comes (source : String) (limit : Nat) (pos : Position) (bytes : List UInt8) (r : Run) :
    Prop
  | fault (cause : LexCause) :
      r.verdict = .error cause →
      (midway source limit pos bytes).tokens = ([], some ⟨cause, source, r.line⟩) → Comes ..
  | ended (text : String) :
      r.verdict = .ok (.none, text) → r.rest = [] →
      (midway source limit pos bytes).tokens = ([], none) → Comes ..
  | token (kind : TokenKind) (text : String) (left : List UInt8) :
      r.verdict = .ok (kind, text) → kind ≠ .none → r.rest = left.map .byte →
      left.length < bytes.length →
      (midway source limit pos bytes).tokens =
        (⟨kind, text, source, r.line⟩ :: (midway source limit r.position left).tokens.1,
          (midway source limit r.position left).tokens.2) → Comes ..

theorem comes (source : String) (limit : Nat) (pos : Position) (bytes : List UInt8) :
    Comes source limit pos bytes (run limit .blank pos none (bytes.map .byte)) := by
  have start : (midway source limit pos bytes).start = (none, bytes.map .byte) := rfl
  have found := pull_found_eq start
  have next : (midway source limit pos bytes).next = run limit .blank pos none (bytes.map .byte) := rfl
  have later : (midway source limit pos bytes).pull.2 =
      ⟨source, (run limit .blank pos none (bytes.map .byte)).rest, limit,
        (run limit .blank pos none (bytes.map .byte)).position, false⟩ := rfl
  have sound := @run_sound limit .blank trivial pos none (bytes.map .byte)
  have tokens := tokens_eq (midway source limit pos bytes)
  have progress := @pull_progress (midway source limit pos bytes)
  have ended := @run_end limit .blank pos (bytes.map .byte)
  obtain ⟨_, _, left, _, accounts⟩ := exists_accounts limit .blank pos bytes
  have rest := accounts.rest
  have intact := accounts.failure
  rw [next] at found
  rw [found, later] at tokens progress
  generalize run limit .blank pos none (bytes.map .byte) = r at *
  cases verdict : r.verdict with
  | error cause =>
    rw [verdict] at tokens
    exact .fault cause verdict tokens
  | ok lexed =>
    obtain ⟨kind, text⟩ := lexed
    rw [verdict] at tokens progress
    by_cases last : kind = .none
    · subst last
      exact .ended text verdict (ended intact verdict) tokens
    · have known : kind ≠ .unknown := by
        rintro rfl
        exact (sound .unknown text verdict).elim nofun id
      simp only [last, known, if_false] at tokens
      rw [rest] at tokens progress
      refine .token kind text left verdict last rest ?_ tokens
      have shorter := progress fun token eq => Except.ok.inj eq ▸ last
      simpa [midway] using shorter

theorem tokens_of_error {cause : LexCause}
    (verdict : (run limit .blank pos none (bytes.map .byte)).verdict = .error cause) :
    (midway source limit pos bytes).tokens =
      ([], some ⟨cause, source, (run limit .blank pos none (bytes.map .byte)).line⟩) := by
  cases comes source limit pos bytes with
  | fault cause' verdict' tokens => rw [tokens, Except.error.inj (verdict.symm.trans verdict')]
  | ended text verdict' => cases verdict.symm.trans verdict'
  | token kind text left verdict' => cases verdict.symm.trans verdict'

theorem tokens_of_end {text : String}
    (verdict : (run limit .blank pos none (bytes.map .byte)).verdict = .ok (.none, text)) :
    (midway source limit pos bytes).tokens = ([], none) := by
  cases comes source limit pos bytes with
  | fault cause verdict' => cases verdict.symm.trans verdict'
  | ended text' verdict' rest tokens => exact tokens
  | token kind text' left verdict' notEnd =>
    cases verdict.symm.trans verdict'
    exact absurd rfl notEnd

theorem tokens_of_token {kind : TokenKind} {text : String} {left : List UInt8}
    (verdict : (run limit .blank pos none (bytes.map .byte)).verdict = .ok (kind, text))
    (notEnd : kind ≠ .none)
    (rest : (run limit .blank pos none (bytes.map .byte)).rest = left.map .byte) :
    let r := run limit .blank pos none (bytes.map .byte)
    (midway source limit pos bytes).tokens =
      (⟨kind, text, source, r.line⟩ :: (midway source limit r.position left).tokens.1,
        (midway source limit r.position left).tokens.2) := by
  cases comes source limit pos bytes with
  | fault cause verdict' => cases verdict.symm.trans verdict'
  | ended text' verdict' =>
    cases verdict.symm.trans verdict'
    exact absurd rfl notEnd
  | token kind' text' left' verdict' _ rest' _ tokens =>
    cases verdict.symm.trans verdict'
    rw [tokens, Read.map_byte_inj (rest.symm.trans rest')]

theorem tokens_midway_nil : (midway source limit pos []).tokens = ([], none) := by
  rw [tokens_eq]
  rfl

/-- Behind a token or the end there is the same fault as before it. -/
theorem fault_behind {found : TokenKind × String} {left : List UInt8}
    (verdict : (run limit .blank pos none (bytes.map .byte)).verdict = .ok found)
    (rest : (run limit .blank pos none (bytes.map .byte)).rest = left.map .byte) :
    (midway source limit pos bytes).tokens.2 =
      (midway source limit (run limit .blank pos none (bytes.map .byte)).position left).tokens.2 := by
  cases comes source limit pos bytes with
  | fault cause verdict' => cases verdict.symm.trans verdict'
  | ended text _ rest' tokens =>
    have empty : left = [] := List.map_eq_nil_iff.mp (rest.symm.trans rest')
    rw [tokens, empty, tokens_midway_nil]
  | token kind text left' _ _ rest' _ tokens =>
    rw [tokens, Read.map_byte_inj (rest.symm.trans rest')]

/-- Where bytes come to no fault at some limit, they come to none at another one either, unless a line
is too long: then the first such line is the fault. -/
theorem tokens_limits (limit : Nat) (clean : (midway source other pos bytes).tokens.2 = none) :
    (midway source limit pos bytes).tokens.2 =
      (pos.overflow? limit bytes).map fun line => ⟨.lineTooLong limit, source, line⟩ := by
  induction size : bytes.length using Nat.strong_induction_on generalizing pos bytes with
  | _ n ih =>
    by_cases empty : bytes = []
    · rw [empty, tokens_midway_nil]
      rfl
    have ahead : bytes.map Read.byte ≠ [] := mt List.map_eq_nil_iff.mp empty
    have shorter := run_blank_length_lt other pos none ahead
    cases verdict : (run other .blank pos none (bytes.map .byte)).verdict with
    | error cause =>
      rw [tokens_of_error verdict] at clean
      cases clean
    | ok found =>
      have fine : ¬ (run other .blank pos none (bytes.map .byte)).verdict.Overflows := by
        rintro ⟨_, long⟩
        cases verdict.symm.trans long
      rcases run_limits limit fine with same | ⟨long, overflow⟩
      · -- The run is the same at both limits: nothing of it overflows, and the rest is shorter.
        obtain ⟨counted, late, left, split, accounts⟩ := exists_accounts limit .blank pos bytes
        rw [same] at accounts
        have fits := accounts.fits fine
        have inTime : late = [] := Classical.byContradiction fun ne => by
          obtain ⟨_, _, fault, _⟩ := accounts.late_stray ne
          cases verdict.symm.trans fault
        rw [fault_behind verdict accounts.rest] at clean
        rw [accounts.rest, List.length_map, List.length_map, size] at shorter
        rw [← same] at verdict
        rw [fault_behind verdict (same ▸ accounts.rest), same, ih _ shorter clean rfl,
          accounts.position, split, inTime, List.nil_append, Position.overflow?_append fits]
      · rw [tokens_of_error long, overflow]
        rfl

/-- Without a fault, no line is too long. -/
theorem fits_of_clean (clean : (midway source limit pos bytes).tokens.2 = none) :
    pos.Fits limit bytes := by
  have overflow := tokens_limits limit clean
  rw [clean] at overflow
  exact Position.overflow?_eq_none_iff.mp (Option.map_eq_none_iff.mp overflow.symm)

end Bytes

/-! ## Pulls over a text -/

section Pulls

variable {lexer : Lexer} {cs : List Char} {limit : Nat}

/-- The lexer stands before the characters, and on their lines there is room for them. -/
structure Roomy (lexer : Lexer) (cs : List Char) : Prop where
  stands : lexer.StandsAt [] cs
  fits : lexer.position.Fits lexer.limit (bytesOf cs)

/-- The lexer with another limit. -/
def limitedTo (lexer : Lexer) (limit : Nat) : Lexer := { lexer with limit }

/-- A lexer that has room does not come to a long line. -/
theorem Roomy.stops (h : lexer.Roomy cs) :
    lexer.next.Stops lexer.limit lexer.position cs := by
  rcases h.stands.stops with ⟨-, stops⟩ | ⟨_, _, impossible, -⟩
  · exact stops
  · cases impossible

theorem Roomy.pull (h : lexer.Roomy cs) : ∃ after, lexer.pull.2.Roomy after := by
  have start := lexer.start_pull
  have fits := h.fits
  cases h.stops with
  | between front after split _ position rest =>
    rw [rest] at start
    rw [split] at fits
    refine ⟨after, ⟨start, by simp, by simp⟩, ?_⟩
    have position : lexer.pull.2.position = lexer.position.after (bytesOf front) := position
    rw [position]
    exact fits_right fits
  | stray front c after cause b bytes split _ _ encoded position rest =>
    rw [rest] at start
    refine ⟨after, ⟨start, by simp, by simp⟩, ?_⟩
    have position : lexer.pull.2.position = (lexer.position.after (bytesOf front)).advance b := position
    rw [split] at fits
    have behind := fits_right fits
    rw [bytesOf_cons_eq, encoded] at behind
    -- The other bytes of a stray character are not counted, which leaves more room on the line.
    have narrower := Position.width_le_after (newline_not_mem_tail encoded)
      ((lexer.position.after (bytesOf front)).advance b)
    rw [position]
    exact (Position.fits_append.mp behind.2).2.mono (Nat.le_refl _) narrower
  | long late after _ _ _ _ _ overflow => exact absurd fits overflow

theorem Roomy.pull_limitedTo (h : lexer.Roomy cs) (le : lexer.limit ≤ limit) :
    (lexer.limitedTo limit).pull = (lexer.pull.1, lexer.pull.2.limitedTo limit) := by
  have start : (lexer.limitedTo limit).start = (none, (bytesOf cs).map .byte) := h.stands.start
  have wider := h.fits.mono le (Nat.le_refl _)
  have fine : ¬ lexer.next.verdict.Overflows := by
    rintro ⟨_, long⟩
    cases h.stops with
    | between _ _ _ intact => rw [long] at intact; exact intact
    | stray _ _ _ _ _ _ _ fault stray => cases long.symm.trans fault; cases stray
    | long _ _ _ _ _ _ _ overflow => exact overflow h.fits
  have same : (lexer.limitedTo limit).next = lexer.next := by
    rw [next_eq start]
    rw [next_eq h.stands.start] at fine ⊢
    refine (run_limits limit fine).resolve_right fun ⟨_, overflow⟩ => ?_
    cases (Position.overflow?_eq_none_iff.mpr wider).symm.trans overflow
  rw [Lexer.pull, same]
  rfl

theorem pulled_limitedTo (h : lexer.Roomy cs) (le : lexer.limit ≤ limit) (n : Nat) :
    (∃ after, (lexer.pulled n).Roomy after) ∧
      (lexer.limitedTo limit).pulled n = (lexer.pulled n).limitedTo limit := by
  induction n with
  | zero => exact ⟨⟨cs, h⟩, rfl⟩
  | succ n ih =>
    obtain ⟨⟨after, roomy⟩, same⟩ := ih
    have le : (lexer.pulled n).limit ≤ limit := by rwa [limit_pulled]
    rw [pulled, pulled, same, roomy.pull_limitedTo le]
    exact ⟨roomy.pull, rfl⟩

end Pulls

/-- On a text without a line that is too long the limit is not felt. On any other text that comes to no
fault without a limit, the first line that is too long is the fault. -/
theorem text_limits (source text : String) (limit : Nat) :
    let lexer (limit : Nat) : Lexer := { source, rest := Read.ofText text, limit }
    let lines := byteLines text
    ((∀ line ∈ lines, line.length ≤ limit) → ∀ larger, limit ≤ larger → ∀ n,
      ((lexer limit).pulled n).pull.1 = ((lexer larger).pulled n).pull.1 ∧
        ((lexer limit).pulled n).line = ((lexer larger).pulled n).line) ∧
    ∀ unlimited, (∀ line ∈ lines, line.length ≤ unlimited) →
      ((lexer unlimited).tokens.2 = none → (∃ line ∈ lines, limit < line.length) →
        (lexer limit).tokens.2 = some ⟨.lineTooLong limit, source,
          lines.findIdx (fun line => limit < line.length) + 1⟩) ∧
      ((lexer limit).tokens.2 = none ↔
        (lexer unlimited).tokens.2 = none ∧ ∀ line ∈ lines, line.length ≤ limit) := by
  intro lexer lines
  have midway (limit : Nat) :
      (lexer limit).tokens = (midway source limit {} (bytesOf (dropMark text.toList))).tokens :=
    tokens_of_start (start_of_text source text limit)
  refine ⟨fun within larger le n => ?_, fun unlimited bounded => ⟨fun clean long => ?_, ?_⟩⟩
  · have start : (lexer limit).StandsAt [] (dropMark text.toList) :=
      ⟨start_of_text source text limit, by simp, by simp⟩
    have roomy : (lexer limit).Roomy (dropMark text.toList) :=
      ⟨start, Position.fits_iff_byteLines.mpr within⟩
    obtain ⟨⟨after, later⟩, same⟩ := pulled_limitedTo roomy le n
    have le : ((lexer limit).pulled n).limit ≤ larger := by rwa [limit_pulled]
    have same : (lexer larger).pulled n = ((lexer limit).pulled n).limitedTo larger := same
    rw [same, later.pull_limitedTo le]
    exact ⟨rfl, rfl⟩
  · have first : lines.findIdx? (fun line => limit < line.length) =
        some (lines.findIdx fun line => limit < line.length) :=
      List.findIdx?_eq_some_of_exists (by simpa using long)
    rw [midway] at clean ⊢
    rw [tokens_limits limit clean, Position.overflow?_eq_findIdx?, first]
    rfl
  · -- Without a fault at one limit, only a long line can be a fault at the other.
    have overflow (limit other : Nat) (within : ∀ line ∈ lines, line.length ≤ limit)
        (clean : (lexer other).tokens.2 = none) : (lexer limit).tokens.2 = none := by
      rw [midway] at clean ⊢
      rw [tokens_limits limit clean,
        Position.overflow?_eq_none_iff.mpr (Position.fits_iff_byteLines.mpr within)]
      rfl
    constructor
    · intro clean
      refine ⟨overflow unlimited limit bounded clean, ?_⟩
      rw [midway] at clean
      exact Position.fits_iff_byteLines.mp (fits_of_clean clean)
    · rintro ⟨clean, within⟩
      exact overflow limit unlimited within clean

/-- A text of three lines, the second of which has seven bytes; the mark before the first one does not
count. -/
def threeLines : String := "\ufeffab cd\n'ef é'\n.g"

theorem text_limits_threeLines :
    let lexer (limit : Nat) : Lexer := { source := "in", rest := Read.ofText threeLines, limit }
    (∀ line ∈ byteLines threeLines, line.length ≤ 7) ∧
      ((lexer 7).pulled 3).pull.1 = ((lexer 9).pulled 3).pull.1 ∧ (lexer 7).tokens.2 = none ∧
      (lexer 6).tokens.2 = some ⟨.lineTooLong 6, "in", 2⟩ := by
  intro lexer
  have within : ∀ line ∈ byteLines threeLines, line.length ≤ 7 := by decide
  have long : ∃ line ∈ byteLines threeLines, 6 < line.length := by decide
  have clean : ({ source := "in", rest := Read.ofText threeLines, limit := 9 } : Lexer).tokens.2 = none := by
    decide +kernel
  have bounded : ∀ line ∈ byteLines threeLines, line.length ≤ 9 :=
    fun line mem => (within line mem).trans (by decide)
  refine ⟨within, ((text_limits "in" threeLines 7).1 within 9 (by decide) 3).1, ?_, ?_⟩
  · exact ((text_limits "in" threeLines 7).2 9 bounded).2.mpr ⟨clean, within⟩
  · exact ((text_limits "in" threeLines 6).2 9 bounded).1 clean long

end Lexer

end HttpSuite
