import HttpSuite.Proofs.Lexing.Found
import HttpSuite.Proofs.Reading
import HttpSuite.Proofs.Reformat.Words
import HttpSuite.Statement.Script

/-!
# Statements that are read from a source

Every statement that a script reads from a lexer is `Statement.From` the source of the lexer: its
values are lexical and from that source, its symbols are symbol names, its assertions come to one
value.

* `step_from`: one token keeps this of what is waited for, and gives it of the statement it completes.
* `ofLexer_from`: all statements of a lexer.
-/

namespace HttpSuite

/-- The token is as a lexer of the source finds it before the end: a failed read, or a lexical word. -/
structure Token.FoundIn (source : String) (token : Token) : Prop where
  source_eq : token.span.source = source
  notEnd : token.kind ≠ .none
  word : token.kind = .unknown ∨ token.word.Lexical

/-- What was read of a statement is from the source. -/
def Expecting.From (source : String) : Expecting → Prop
  | .directive | .symbol _ | .fieldValue _ | .headerName | .headerValue _ => True
  | .testName span => span.source = source
  | .symbolValue _ name => isSymbol name = true
  | .operands span entries => span.source = source ∧ ∀ entry ∈ entries, entry.From source

section Step

variable {source : String} {token : Token} {expecting next : Expecting}
  {complete : Option Statement}

theorem Entry.ofToken_from (value : token.ValueFrom source) : (Entry.ofToken token).From source := by
  have same := value.source_eq
  cases h : Entry.ofToken token with
  | operand other =>
    have : other = token := by
      unfold Entry.ofToken at h
      split at h
      · cases h
      · exact (Entry.operand.inj h).symm
    subst this
    exact ⟨value, h⟩
  | operator op span =>
    unfold Entry.ofToken at h
    split at h
    · cases h
      exact same
    · cases h

theorem after_from (d : Directive) (span : Span) (h : span.source = source) :
    (Expecting.after span d).From source := by
  cases d with
  | test => exact h
  | bind level => trivial
  | field f => trivial
  | header => trivial
  | assertion => exact ⟨h, by simp⟩

theorem closeAssertion_from {span : Span} {entries : List Entry} {statement : Statement}
    (h : span.source = source) (h' : ∀ entry ∈ entries, entry.From source)
    (ok : Expecting.closeAssertion span entries token = .ok statement) :
    statement.From source := by
  obtain ⟨shape, rfl⟩ := closeAssertion_eq_ok.mp ok
  exact ⟨h, shape, fun entry he => h' entry (List.mem_reverse.mp he)⟩

theorem Token.FoundIn.valueFrom (found : token.FoundIn source) (isValue : token.kind.isValue = true) :
    token.ValueFrom source := by
  refine ⟨isValue, found.word.resolve_left fun failed => ?_, found.source_eq⟩
  rw [failed] at isValue
  cases isValue

/-- Within an assertion a token is one more operand, or ends it. -/
theorem operands_from {span : Span} {entries : List Entry}
    (h : (Expecting.operands span entries).From source) (found : token.FoundIn source)
    (notFailed : token.kind ≠ .unknown)
    (ok : (Expecting.operands span entries).stepToken token = .ok (next, complete)) :
    next.From source ∧ ∀ statement ∈ complete, statement.From source := by
  rcases stepToken_operands ok with ⟨statement, -, closed, rfl, rfl⟩ |
    ⟨notFinish, notDirective, rfl, rfl⟩
  · refine ⟨trivial, ?_⟩
    intro other ho
    cases ho
    exact closeAssertion_from h.1 h.2 closed
  · have isValue := TokenKind.isValue_of_ne notDirective notFinish found.notEnd notFailed
    have operand := Entry.ofToken_from (found.valueFrom isValue)
    exact ⟨⟨h.1, List.forall_mem_cons.mpr ⟨operand, h.2⟩⟩, by simp⟩

/-- One token keeps what is waited for from the source, and a statement that it completes is. -/
theorem step_from (h : expecting.From source) (found : token.FoundIn source)
    (ok : expecting.step token = .ok (next, complete)) :
    next.From source ∧ ∀ statement ∈ complete, statement.From source := by
  rw [Expecting.step] at ok
  split at ok
  · cases ok
  · next notFailed =>
    cases expecting with
    | directive =>
      obtain ⟨d, -, rfl, rfl⟩ := stepToken_directive ok
      exact ⟨after_from d token.span found.source_eq, by simp⟩
    | testName span =>
      obtain ⟨-, eq⟩ := checked_eq_ok.mp ok
      cases eq
      refine ⟨trivial, ?_⟩
      intro statement hs
      cases hs
      exact h
    | symbol level =>
      obtain ⟨kind, eq⟩ := checked_eq_ok.mp ok
      cases eq
      have name : isSymbol token.text = true := by
        simpa only [Word.Lexical, Token.word, of_decide_eq_true kind] using
          found.word.resolve_left notFailed
      exact ⟨name, by simp⟩
    | symbolValue level name =>
      obtain ⟨kind, eq⟩ := checked_eq_ok.mp ok
      cases eq
      exact ⟨trivial, by simpa [Statement.From] using ⟨h, found.valueFrom kind⟩⟩
    | fieldValue f =>
      obtain ⟨kind, eq⟩ := checked_eq_ok.mp ok
      cases eq
      exact ⟨trivial, by simpa [Statement.From] using found.valueFrom kind⟩
    | headerName =>
      obtain ⟨-, eq⟩ := checked_eq_ok.mp ok
      cases eq
      exact ⟨trivial, by simp⟩
    | headerValue name =>
      obtain ⟨kind, eq⟩ := checked_eq_ok.mp ok
      cases eq
      exact ⟨trivial, by simpa [Statement.From] using found.valueFrom kind⟩
    | operands span entries => exact operands_from h found notFailed ok

end Step

/-! ## Whole scripts -/

theorem readFrom_from {source : String} {stop : Except LexError Span} {expecting : Expecting}
    {seen : List Statement} {tokens : List Token} (h : expecting.From source)
    (hs : ∀ statement ∈ seen, statement.From source) (ht : ∀ token ∈ tokens, token.FoundIn source) :
    ∀ statement ∈ (Script.readFrom stop expecting seen tokens).statements,
      statement.From source := by
  have reversed : ∀ statement ∈ seen.reverse, statement.From source :=
    fun statement hm => hs statement (List.mem_reverse.mp hm)
  induction tokens generalizing expecting seen with
  | nil => exact reversed
  | cons token tokens ih =>
    obtain ⟨first, others⟩ := List.forall_mem_cons.mp ht
    rw [Script.readFrom]
    cases ok : expecting.step token with
    | error fault => exact reversed
    | ok result =>
      obtain ⟨next, complete⟩ := result
      obtain ⟨kept, made⟩ := step_from h first ok
      cases complete with
      | none => exact ih kept hs others reversed
      | some statement =>
        have more := List.forall_mem_cons.mpr ⟨made statement rfl, hs⟩
        exact ih kept more others fun other hm => more other (List.mem_reverse.mp hm)

/-- Every statement that is read from a lexer is from the source of the lexer. -/
theorem ofLexer_from (lexer : Lexer) :
    ∀ statement ∈ (Script.ofFeed (.ofLexer lexer)).statements, statement.From lexer.source := by
  have found : ∀ token ∈ lexer.tokens.1, token.FoundIn lexer.source := fun token ht =>
    have ⟨source, notEnd, word⟩ := lexer.tokens_found token ht
    ⟨source, notEnd, word⟩
  rw [Script.ofFeed, Feed.ofLexer_eq]
  exact readFrom_from trivial (by simp) found

end HttpSuite
