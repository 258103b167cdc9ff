import HttpSuite.Proofs.Lexing.Word
import HttpSuite.Statement.Script

/-!
# Reading statements

What one token does to a reader, and how the tokens of a sequence lead it on (`Expecting.Reads`).

* `readFrom_reads`, `readFrom_all`: a script over tokens that are read.
* `reads_or_faulty`: tokens are read to the last one, or have a fault of their own.
-/

namespace HttpSuite

/-- The keyword of a directive as a word. -/
def Directive.word (directive : Directive) : Word := ⟨.directive, directive.keyword⟩

/-! ## One token -/

section Step

variable {token : Token} {next : Expecting} {complete : Option Statement}

/-- A parameter is taken if it is of an accepted kind, and then only the result is left. -/
theorem checked_eq_ok {d : Directive} {index : Nat} {accepts : TokenKind → Bool}
    {result result' : Expecting × Option Statement} :
    (do Expecting.checkParameter d index accepts token
        return result : Except ParseError (Expecting × Option Statement)) = .ok result' ↔
      accepts token.kind = true ∧ result = result' := by
  unfold Expecting.checkParameter
  split <;> simp_all [bind, Except.bind, pure, Except.pure]

theorem closeAssertion_eq_ok {span : Span} {entries : List Entry} {statement : Statement} :
    Expecting.closeAssertion span entries token = .ok statement ↔
      checkShape entries.reverse = .ok () ∧ statement = .assertion ⟨span, entries.reverse⟩ := by
  unfold Expecting.closeAssertion
  split
  · next empty => simp [empty, checkShape]
  · cases checkShape entries.reverse with
    | error fault => simp
    | ok _ => simp [eq_comm]

/-- Where a directive is waited for, nothing else is taken. -/
theorem stepToken_directive (ok : Expecting.directive.stepToken token = .ok (next, complete)) :
    ∃ d : Directive, token.word = d.word ∧ next = .after token.span d ∧ complete = none := by
  simp only [Expecting.stepToken] at ok
  split at ok
  · next kind =>
    split at ok
    · next d found =>
      cases ok
      have text : d.keyword = token.text := by simpa using List.find?_some found
      exact ⟨d, by rw [Token.word, Directive.word, kind, text], rfl, rfl⟩
    · cases ok
  · cases ok

/-- What is neither a directive nor an end nor a failed read is a value. -/
theorem TokenKind.isValue_of_ne {kind : TokenKind} (notDirective : kind ≠ .directive)
    (notFinish : kind ≠ .assertEnd) (notEnd : kind ≠ .none) (known : kind ≠ .unknown) :
    kind.isValue = true := by
  cases kind with
  | string | symbol | integer | shellCommand => rfl
  | directive => exact absurd rfl notDirective
  | assertEnd => exact absurd rfl notFinish
  | none => exact absurd rfl notEnd
  | unknown => exact absurd rfl known

/-- A token within an assertion is one more entry unless it closes the assertion. -/
theorem stepToken_operands {span : Span} {entries : List Entry}
    (ok : (Expecting.operands span entries).stepToken token = .ok (next, complete)) :
    (∃ statement, token.kind = .assertEnd ∧ Expecting.closeAssertion span entries token = .ok statement ∧
      next = .directive ∧ complete = some statement) ∨
    (token.kind ≠ .assertEnd ∧ token.kind ≠ .directive ∧
      next = .operands span (Entry.ofToken token :: entries) ∧ complete = none) := by
  simp only [Expecting.stepToken] at ok
  split at ok
  · next finish =>
    cases closed : Expecting.closeAssertion span entries token with
    | error fault =>
      rw [closed] at ok
      cases ok
    | ok statement =>
      rw [closed] at ok
      cases ok
      exact .inl ⟨statement, finish, rfl, rfl, rfl⟩
  · cases ok
  · next notEnd notDirective =>
    cases ok
    exact .inr ⟨notEnd, notDirective, rfl, rfl⟩

theorem step_directive_word {d : Directive} (h : token.word = d.word) :
    Expecting.directive.step token = .ok (.after token.span d, none) := by
  obtain ⟨kind, text⟩ := Word.mk.inj h
  simp [Expecting.step, Expecting.stepToken, kind, text, Directive.ofKeyword?_keyword]

theorem step_eq (h : token.kind ≠ .unknown) (expecting : Expecting) :
    expecting.step token = expecting.stepToken token := if_neg h

/-- The end of an assertion that comes to one value. -/
theorem step_finish (span : Span) {entries : List Entry}
    (h : token.kind = .assertEnd) (shape : checkShape entries.reverse = .ok ()) :
    (Expecting.operands span entries).step token =
      .ok (.directive, some (.assertion ⟨span, entries.reverse⟩)) := by
  have closed : Expecting.closeAssertion span entries token =
      .ok (.assertion ⟨span, entries.reverse⟩) := closeAssertion_eq_ok.mpr ⟨shape, rfl⟩
  simp [step_eq, Expecting.stepToken, h, closed, bind, Except.bind, pure, Except.pure]

/-- The end of an assertion that does not come to one value. -/
theorem step_finish_error (span : Span) {entries : List Entry}
    (h : token.kind = .assertEnd) (shape : checkShape entries.reverse ≠ .ok ()) :
    ∃ fault, (Expecting.operands span entries).step token = .error fault := by
  rw [step_eq (by simp [h])]
  cases ok : (Expecting.operands span entries).stepToken token with
  | error fault => exact ⟨fault, rfl⟩
  | ok result =>
    obtain ⟨next, complete⟩ := result
    rcases stepToken_operands ok with ⟨statement, -, closed, -⟩ | ⟨notEnd, -⟩
    · exact absurd (closeAssertion_eq_ok.mp closed).1 shape
    · exact absurd h notEnd

end Step

/-! ## Tokens that complete statements -/

/-- The tokens complete the statements and lead from one expectation to the other. -/
inductive Expecting.Reads : Expecting → List Token → List Statement → Expecting → Prop
  | nil {e : Expecting} : e.Reads [] [] e
  | more {e m n : Expecting} {token : Token} {tokens : List Token} {statements : List Statement} :
      e.step token = .ok (m, none) → m.Reads tokens statements n →
      e.Reads (token :: tokens) statements n
  | complete {e m n : Expecting} {token : Token} {tokens : List Token} {statement : Statement}
      {statements : List Statement} :
      e.step token = .ok (m, some statement) → m.Reads tokens statements n →
      e.Reads (token :: tokens) (statement :: statements) n

theorem Expecting.Reads.append {e m n : Expecting} {tokens more : List Token}
    {statements others : List Statement} (h : e.Reads tokens statements m)
    (h' : m.Reads more others n) : e.Reads (tokens ++ more) (statements ++ others) n := by
  induction h with
  | nil => exact h'
  | more step _ ih => exact .more step (ih h')
  | complete step _ ih => exact .complete step (ih h')

theorem readFrom_reads {e n : Expecting} {tokens : List Token} {statements : List Statement}
    (h : e.Reads tokens statements n) (stop : Except LexError Span) (seen : List Statement)
    (rest : List Token) :
    Script.readFrom stop e seen (tokens ++ rest) =
      Script.readFrom stop n (statements.reverse ++ seen) rest := by
  induction h generalizing seen with
  | nil => rfl
  | more step _ ih =>
    rw [List.cons_append, Script.readFrom, step]
    exact ih _
  | complete step _ ih =>
    rw [List.cons_append, Script.readFrom, step, List.reverse_cons, List.append_assoc]
    exact ih _

/-- The script over tokens that are all read. -/
theorem readFrom_all {e n : Expecting} {tokens : List Token} {statements : List Statement}
    (h : e.Reads tokens statements n) (stop : Except LexError Span) :
    Script.readFrom stop e [] tokens = ⟨statements, Script.faultAt stop n⟩ := by
  have whole := readFrom_reads h stop [] []
  rwa [List.append_nil, List.append_nil, Script.readFrom, List.reverse_reverse] at whole

/-- Values within an assertion are gathered as its entries. -/
theorem reads_operands {tokens : List Token} (span : Span) (entries : List Entry)
    (h : ∀ token ∈ tokens, token.kind.isValue = true) :
    (Expecting.operands span entries).Reads tokens []
      (.operands span ((tokens.map Entry.ofToken).reverse ++ entries)) := by
  induction tokens generalizing entries with
  | nil => exact .nil
  | cons token tokens ih =>
    obtain ⟨value, others⟩ := List.forall_mem_cons.mp h
    have step : (Expecting.operands span entries).step token =
        .ok (.operands span (Entry.ofToken token :: entries), none) := by
      rcases TokenKind.isValue_iff.mp value with kind | kind | kind | kind <;>
        simp [Expecting.step, Expecting.stepToken, kind]
    rw [List.map_cons, List.reverse_cons, List.append_assoc]
    exact .more step (ih _ others)

/-- The statements that were read stand before those of further tokens. -/
theorem readFrom_eq (stop : Except LexError Span) (e : Expecting) (seen : List Statement)
    (tokens : List Token) :
    Script.readFrom stop e seen tokens =
      ⟨seen.reverse ++ (Script.readFrom stop e [] tokens).statements,
        (Script.readFrom stop e [] tokens).fault⟩ := by
  induction tokens generalizing e seen with
  | nil => simp [Script.readFrom]
  | cons token tokens ih =>
    rw [Script.readFrom, Script.readFrom]
    cases e.step token with
    | error fault => simp
    | ok result =>
      obtain ⟨m, complete⟩ := result
      cases complete with
      | none => exact ih m seen
      | some statement =>
        dsimp only
        rw [ih m (statement :: seen), ih m [statement]]
        simp

/-- Every script over further tokens begins with the statements that were read. -/
theorem readFrom_seen (stop : Except LexError Span) (e : Expecting) (seen : List Statement)
    (tokens : List Token) :
    ∃ more, (Script.readFrom stop e seen tokens).statements = seen.reverse ++ more :=
  ⟨_, congrArg Script.statements (readFrom_eq stop e seen tokens)⟩

/-- Tokens are read to the last one, or one of them is a fault. -/
theorem reads_or_faulty (e : Expecting) (tokens : List Token) :
    (∃ statements n, e.Reads tokens statements n) ∨ Script.Faulty e tokens := by
  induction tokens generalizing e with
  | nil => exact .inl ⟨[], e, .nil⟩
  | cons token tokens ih =>
    rw [Script.Faulty]
    cases step : e.step token with
    | error fault => exact .inr trivial
    | ok result =>
      obtain ⟨m, complete⟩ := result
      refine (ih m).imp_left ?_
      rintro ⟨statements, n, reads⟩
      cases complete with
      | none => exact ⟨statements, n, .more step reads⟩
      | some statement => exact ⟨statement :: statements, n, .complete step reads⟩

/-- A fault of the tokens is one of every script over them. -/
theorem fault_ne_none {e : Expecting} {tokens : List Token} (h : Script.Faulty e tokens)
    (stop : Except LexError Span) (seen : List Statement) :
    (Script.readFrom stop e seen tokens).fault ≠ none := by
  induction tokens generalizing e seen with
  | nil => exact h.elim
  | cons token tokens ih =>
    rw [Script.Faulty] at h
    rw [Script.readFrom]
    split at h
    · next eq => simp [eq]
    · next m complete eq =>
      rw [eq]
      cases complete with
      | none => exact ih h seen
      | some statement => exact ih h _

end HttpSuite
