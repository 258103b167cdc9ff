import HttpSuite.Proofs.Lexing.Effect
import HttpSuite.Proofs.Lexing.Word
import HttpSuite.Statement.Script
import Mathlib.Data.List.TakeWhile

/-!
# What a lexer finds

Every token of a source is a word that can be written (`Word.Lexical`), whatever the bytes are. Only
the `unknown` token of a failed read has any text.

The invariant is on what has been read of a lexeme (`Partial.Sound`). One byte keeps it or completes
a lexical word, so a run over any reads does.

* `step_sound`, `run_sound`: one byte, and a run.
* `tokens_found`: the tokens of a source.
* `ofLexer_eq`: the feed of a source, which ends behind its last token.
-/

namespace HttpSuite

/-- The verdict is a fault, the end, or a lexical word. -/
def Verdict.Sound (verdict : Verdict) : Prop :=
  ∀ kind text, verdict = .ok (kind, text) → kind = .none ∨ Word.Lexical ⟨kind, text⟩

/-- What was read of a lexeme is the beginning of a lexical word. -/
def Partial.Sound : Partial → Prop
  | .directive name => ∀ c ∈ name, isDirectiveChar c = true
  | .literal _ _ _ | .joint _ _ | .zero => True
  | .integer .octal opening digits =>
    opening = ['0'] ∧ digits ≠ [] ∧ ∀ d ∈ digits, Radix.octal.isDigit d = true
  | .integer .decimal opening digits =>
    opening = [] ∧ ∃ first others, digits.reverse = first :: others ∧ first.isDigit = true ∧
      first ≠ '0' ∧ ∀ d ∈ others, d.isDigit = true
  | .integer .hexadecimal opening digits =>
    (∃ x, (x = 'x' ∨ x = 'X') ∧ opening = ['0', x]) ∧
      ∀ d ∈ digits, Radix.hexadecimal.isDigit d = true
  | .symbol name => ∃ first others, name.reverse = first :: others ∧ isNameStart first = true ∧
      ∀ c ∈ others, isNameChar c = true

/-- The mode has read the beginning of a lexical word, or of none. -/
def Mode.Sound : Mode → Prop
  | .blank | .comment => True
  | .within _ lexeme => lexeme.Sound

/-- The byte leads on to what satisfies `P`, or completes a lexical word. -/
def Step.Sound {σ : Type} (P : σ → Prop) : Step σ → Prop
  | .more next => P next
  | .closed verdict | .ended verdict => verdict.Sound
  | .stray _ => True

/-! ## Verdicts -/

theorem Verdict.sound_error (cause : LexCause) : Verdict.Sound (.error cause) := by
  intro kind text h
  cases h

theorem Verdict.sound_ok {kind : TokenKind} {text : String} (h : Word.Lexical ⟨kind, text⟩) :
    Verdict.Sound (.ok (kind, text)) := by
  intro kind' text' eq
  cases eq
  exact .inr h

theorem Verdict.sound_ofBytes (delimiter : Delimiter) (bytes : List UInt8) :
    (Verdict.ofBytes delimiter.kind bytes).Sound := by
  unfold Verdict.ofBytes
  split
  · exact sound_ok (by cases delimiter <;> trivial)
  · exact sound_error _

theorem Partial.sound_atEnd {p : Partial} (h : p.Sound) : p.atEnd.Sound := by
  cases p with
  | directive name =>
    refine Verdict.sound_ok ⟨name.reverse, ?_, fun c hc => h c (List.mem_reverse.mp hc)⟩
    simp
  | literal delimiter escaped text => exact Verdict.sound_error _
  | joint delimiter text => exact Verdict.sound_ofBytes delimiter text
  | zero => exact Verdict.sound_ok .zero
  | symbol name =>
    obtain ⟨first, others, spelled, start, rest⟩ := h
    refine Verdict.sound_ok (isSymbol_iff.mpr ⟨first, others, ?_, start, rest⟩)
    rw [String.toList_ofList, spelled]
  | integer radix opening digits =>
    simp only [atEnd, integerVerdict]
    split
    · exact Verdict.sound_error _
    · next present =>
      refine Verdict.sound_ok ?_
      simp only [Word.Lexical, String.toList_ofList]
      cases radix with
      | octal =>
        obtain ⟨rfl, ne, all⟩ := h
        exact .octal (by simpa using ne) fun d hd => all d (List.mem_reverse.mp hd)
      | decimal =>
        obtain ⟨rfl, first, others, spelled, digit, ne, all⟩ := h
        rw [spelled]
        exact .decimal digit ne all
      | hexadecimal =>
        obtain ⟨⟨x, hx, rfl⟩, all⟩ := h
        exact .hexadecimal hx (by simpa using fun eq => present ⟨rfl, eq⟩)
          fun d hd => all d (List.mem_reverse.mp hd)

/-! ## One byte -/

theorem sound_integer_cons {radix : Radix} {opening digits : List Char} {c : Char}
    (h : (Partial.integer radix opening digits).Sound) (hc : radix.isDigit c = true) :
    (Partial.integer radix opening (c :: digits)).Sound := by
  cases radix with
  | octal =>
    obtain ⟨open_, ne, all⟩ := h
    exact ⟨open_, by simp, List.forall_mem_cons.mpr ⟨hc, all⟩⟩
  | decimal =>
    obtain ⟨open_, first, others, spelled, digit, ne, all⟩ := h
    refine ⟨open_, first, others ++ [c], by simp [spelled], digit, ne, ?_⟩
    intro d hd
    rcases List.mem_append.mp hd with hd | hd
    · exact all d hd
    · exact List.mem_singleton.mp hd ▸ hc
  | hexadecimal => exact ⟨h.1, List.forall_mem_cons.mpr ⟨hc, h.2⟩⟩

theorem Partial.step_sound {p : Partial} (h : p.Sound) (b : UInt8) : (p.step b).Sound Sound := by
  have effect := p.effect b
  generalize p.step b = step at *
  cases effect with
  | complete => exact sound_atEnd h
  | lastQuote => exact Verdict.sound_ofBytes _ _
  | stray | escaped | quote | backslash | plain | gap | reopen => trivial
  | directive belongs => exact List.forall_mem_cons.mpr ⟨belongs, h⟩
  | hexadecimal _ x => exact ⟨⟨_, x, rfl⟩, by simp⟩
  | octal _ digit => exact ⟨rfl, by simp, by simpa using digit⟩
  | digit _ digit => exact sound_integer_cons h digit
  | name _ belongs =>
    obtain ⟨first, others, spelled, start, rest⟩ := h
    refine ⟨first, others ++ [Char.ofUInt8 b], by simp [spelled], start, ?_⟩
    intro d hd
    rcases List.mem_append.mp hd with hd | hd
    · exact rest d hd
    · exact List.mem_singleton.mp hd ▸ belongs

theorem opening_sound {c : Char} {p : Partial} (h : opening c = some p) : p.Sound := by
  unfold opening at h
  repeat' split at h
  all_goals cases h
  · simp [Partial.Sound]
  · trivial
  · trivial
  · trivial
  · trivial
  · next ne digit => exact ⟨rfl, c, [], rfl, digit, ne, by simp⟩
  · next start => exact ⟨c, [], rfl, start, by simp⟩

theorem Mode.step_sound {mode : Mode} (h : mode.Sound) (here : Nat) (b : UInt8) :
    (mode.step here b).Sound Sound := by
  cases mode with
  | blank =>
    simp only [step]
    split
    · trivial
    · split
      · trivial
      · split
        · exact Verdict.sound_ok rfl
        · split
          · next starts => exact opening_sound starts
          · trivial
  | comment =>
    simp only [step]
    split <;> trivial
  | within line lexeme =>
    have := Partial.step_sound h b
    rw [step]
    cases hs : lexeme.step b <;> rw [hs] at this <;> exact this

theorem Mode.sound_atEnd {mode : Mode} (h : mode.Sound) : mode.atEnd.Sound := by
  cases mode with
  | blank | comment =>
    intro kind text eq
    cases eq
    exact .inl rfl
  | within line lexeme => exact Partial.sound_atEnd h

/-! ## Runs and sources -/

theorem run_sound {limit : Nat} (mode : Mode) (h : mode.Sound) (pos : Position)
    (failure : Option String) (reads : List Read) :
    (run limit mode pos failure reads).verdict.Sound := by
  fun_induction run limit mode pos failure reads with
  | case1 => exact Mode.sound_atEnd h
  | case2 _ _ _ _ _ ih => exact ih trivial
  | case3 => exact Mode.sound_atEnd h
  | case4 => exact Verdict.sound_error _
  | case5 mode pos failure b rest next fits mode' step ih =>
    have := Mode.step_sound h next.line b
    rw [step] at this
    exact ih this
  | case6 mode pos failure b rest next fits verdict step =>
    have := Mode.step_sound h next.line b
    rw [step] at this
    exact this
  | case7 mode pos failure b rest next fits verdict step =>
    have := Mode.step_sound h next.line b
    rw [step] at this
    exact this
  | case8 => exact Verdict.sound_error _

namespace Lexer

/-- What a pull finds: a token of this source, which is an end, a failed read or a lexical word. -/
theorem pull_found {lexer : Lexer} {token : Token} (h : lexer.pull.1 = .ok token) :
    token.span.source = lexer.source ∧
      (token.kind = .none ∨ token.kind = .unknown ∨ token.word.Lexical) := by
  have sound : lexer.next.verdict.Sound := run_sound .blank trivial _ _ _
  simp only [pull, found] at h
  split at h
  · cases h
    exact ⟨rfl, .inr (.inl rfl)⟩
  · next kind text _ verdict =>
    cases h
    exact ⟨rfl, (sound kind text verdict).imp_right .inr⟩
  · cases h

theorem tokens_found (lexer : Lexer) : ∀ token ∈ lexer.tokens.1,
    token.span.source = lexer.source ∧ token.kind ≠ .none ∧
      (token.kind = .unknown ∨ token.word.Lexical) := by
  rw [tokens_eq]
  cases pulled : lexer.pull.1 with
  | error fault => simp
  | ok token =>
    dsimp only
    obtain ⟨source, kinds⟩ := pull_found pulled
    split
    · simp
    · next notEnd =>
      have first := And.intro source (And.intro notEnd (kinds.resolve_left notEnd))
      split
      · simpa using first
      · have ih := tokens_found lexer.pull.2
        exact List.forall_mem_cons.mpr ⟨first, ih⟩
termination_by lexer.rest.length
decreasing_by
  apply pull_progress
  intro other eq
  rw [pulled] at eq
  exact Except.ok.inj eq ▸ first.2.1

end Lexer

/-! ## Feeds -/

namespace Lexer

/-- What stands behind the tokens of a lexer: its fault, or an end on the line of the last token;
`line` stands in for the line of the last token where there is none. -/
def stop (lexer : Lexer) (line : Nat) : Except LexError Span :=
  match lexer.tokens.2 with
  | some fault => .error fault
  | none => .ok ⟨lexer.source, (lexer.tokens.1.getLast?.map (·.span.line)).getD line⟩

/-- Once a token has been pulled, it stands for the last one. -/
theorem stop_eq {lexer : Lexer} {token : Token} (pulled : lexer.pull.1 = .ok token)
    (notEnd : token.kind ≠ .none) (known : token.kind ≠ .unknown) (line : Nat) :
    lexer.stop line = lexer.pull.2.stop token.span.line := by
  rw [stop, stop, tokens_eq lexer, pulled]
  simp only [if_neg notEnd, if_neg known]
  cases lexer.pull.2.tokens.2 with
  | some fault => rfl
  | none =>
    rw [List.getLast?_cons]
    cases lexer.pull.2.tokens.1.getLast? <;> rfl

end Lexer

theorem Feed.ofLexer_eq (lexer : Lexer) :
    Feed.ofLexer lexer = ⟨lexer.tokens.1, lexer.stop 0⟩ := by
  have notEnd : ∀ token ∈ lexer.tokens.1, (token.kind != .none) = true := fun token ht => by
    simpa using (lexer.tokens_found token ht).2.1
  have before : lexer.tokens.1.takeWhile (·.kind != .none) = lexer.tokens.1 :=
    List.takeWhile_eq_self_iff.mpr notEnd
  have behind : lexer.tokens.1.dropWhile (·.kind != .none) = [] :=
    List.dropWhile_eq_nil_iff.mpr notEnd
  rw [Feed.ofLexer, Lexer.stop]
  split <;> rename_i eq <;> rw [eq] at before behind ⊢
  simp only [Feed.ofTokens, before, behind, Feed.lastLine]
  cases List.getLast? _ <;> rfl

theorem Feed.ofLexer_clean {lexer : Lexer} (h : lexer.tokens.2 = none) :
    Feed.ofLexer lexer = .ofTokens lexer.source lexer.tokens.1 := by
  rw [ofLexer]
  split <;> rename_i eq <;> rw [eq] at h ⊢
  cases h

theorem Feed.ofLexer_failed {lexer : Lexer} {fault : LexError} (h : lexer.tokens.2 = some fault) :
    Feed.ofLexer lexer = ⟨lexer.tokens.1, .error fault⟩ := by
  rw [ofLexer_eq, Lexer.stop, h]

end HttpSuite
