import HttpSuite.Proofs.Postfix
import HttpSuite.Proofs.Reading

/-!
# The directive grammar

A suite is written as directives with their parameters, one statement after the other (`Written`). The
grammar is about tokens only: what stands where, and that the operands of an assertion are a tree in
postfix writing.

Between two statements a reader has seen the beginning of one (`Expecting.Begun`), and what it waits
for says which.

* `Written.reads`: written statements are read.
* `Begun.step`, `Reads.written`: what is read is written, by one token and by any number of them.
-/

namespace HttpSuite

/-- The tokens write the statement: a directive and all its parameters. -/
inductive Statement.WrittenAs : Statement → List Token → Prop
  | test {directive name : Token} :
      directive.word = Directive.test.word → Expecting.isNameKind name.kind = true →
      WrittenAs (.test directive.span name.text) [directive, name]
  | bind {level : Level} {directive symbol value : Token} :
      directive.word = (Directive.bind level).word → symbol.kind = .symbol →
      value.kind.isValue = true → WrittenAs (.bind level symbol.text value) [directive, symbol, value]
  | field {f : RequestField} {directive value : Token} :
      directive.word = (Directive.field f).word → value.kind.isValue = true →
      WrittenAs (.field f value) [directive, value]
  | header {directive name value : Token} :
      directive.word = Directive.header.word → Expecting.isNameKind name.kind = true →
      value.kind.isValue = true → WrittenAs (.header name.text value) [directive, name, value]
  | assertion {directive finish : Token} {operands : List Token} {tree : Expression} :
      directive.word = Directive.assertion.word →
      (∀ token ∈ operands, token.kind.isValue = true) →
      operands.map Entry.ofToken = tree.entries → finish.kind = .assertEnd →
      WrittenAs (.assertion ⟨directive.span, operands.map Entry.ofToken⟩)
        (directive :: (operands ++ [finish]))

/-- The tokens write the statements, one after the other. -/
inductive Written : List Token → List Statement → Prop
  | nil : Written [] []
  | cons {tokens rest : List Token} {statement : Statement} {statements : List Statement} :
      statement.WrittenAs tokens → Written rest statements →
      Written (tokens ++ rest) (statement :: statements)

/-- The tokens begin a statement, and this is what is waited for then. Where a directive is waited
for, there are none. -/
inductive Expecting.Begun : Expecting → List Token → Prop
  | directive : Begun .directive []
  | testName {directive : Token} :
      directive.word = Directive.test.word → Begun (.testName directive.span) [directive]
  | symbol {level : Level} {directive : Token} :
      directive.word = (Directive.bind level).word → Begun (.symbol level) [directive]
  | symbolValue {level : Level} {directive symbol : Token} :
      directive.word = (Directive.bind level).word → symbol.kind = .symbol →
      Begun (.symbolValue level symbol.text) [directive, symbol]
  | fieldValue {f : RequestField} {directive : Token} :
      directive.word = (Directive.field f).word → Begun (.fieldValue f) [directive]
  | headerName {directive : Token} :
      directive.word = Directive.header.word → Begun .headerName [directive]
  | headerValue {directive name : Token} :
      directive.word = Directive.header.word → isNameKind name.kind = true →
      Begun (.headerValue name.text) [directive, name]
  | operands {directive : Token} {operands : List Token} :
      directive.word = Directive.assertion.word →
      (∀ token ∈ operands, token.kind.isValue = true) →
      Begun (.operands directive.span (operands.map Entry.ofToken).reverse) (directive :: operands)

section Grammar

variable {token : Token} {tokens begun : List Token} {statement : Statement}
  {statements : List Statement} {e next n : Expecting}

/-! ## Written statements are read -/

theorem isValue_ne_unknown (h : token.kind.isValue = true) : token.kind ≠ .unknown := by
  rintro eq
  rw [eq] at h
  cases h

theorem isNameKind_ne_unknown (h : Expecting.isNameKind token.kind = true) :
    token.kind ≠ .unknown := by
  rintro eq
  rw [eq] at h
  cases h

theorem step_checked {d : Directive} {index : Nat} {accepts : TokenKind → Bool}
    {result : Expecting × Option Statement} (known : token.kind ≠ .unknown)
    (accepted : accepts token.kind = true)
    (step : e.stepToken token = do
      Expecting.checkParameter d index accepts token
      return result) : e.step token = .ok result :=
  (step_eq known e).trans (step.trans (checked_eq_ok.mpr ⟨accepted, rfl⟩))

/-- The beginning of a statement is read up to what is waited for then. -/
theorem Expecting.Begun.reads (h : e.Begun begun) : Expecting.directive.Reads begun [] e := by
  cases h with
  | directive => exact .nil
  | testName word | symbol word | fieldValue word | headerName word =>
    exact .more (step_directive_word word) .nil
  | symbolValue word symbol =>
    exact .more (step_directive_word word)
      (.more (step_checked (by simp [symbol]) (by simp [symbol]) rfl) .nil)
  | headerValue word name =>
    exact .more (step_directive_word word)
      (.more (step_checked (isNameKind_ne_unknown name) name rfl) .nil)
  | @operands directive operands word values =>
    have gathered := reads_operands directive.span [] values
    rw [List.append_nil] at gathered
    exact .more (step_directive_word word) gathered

theorem Statement.WrittenAs.reads (h : statement.WrittenAs tokens) :
    Expecting.directive.Reads tokens [statement] .directive := by
  have completes {e : Expecting} {begun : List Token} {token : Token} {statement : Statement}
      (start : e.Begun begun) (step : e.step token = .ok (.directive, some statement)) :
      Expecting.directive.Reads (begun ++ [token]) [statement] .directive :=
    start.reads.append (.complete step .nil)
  cases h with
  | test word name =>
    exact completes (.testName word) (step_checked (isNameKind_ne_unknown name) name rfl)
  | bind word symbol value =>
    exact completes (.symbolValue word symbol) (step_checked (isValue_ne_unknown value) value rfl)
  | field word value =>
    exact completes (.fieldValue word) (step_checked (isValue_ne_unknown value) value rfl)
  | header word name value =>
    exact completes (.headerValue word name) (step_checked (isValue_ne_unknown value) value rfl)
  | @assertion directive finish operands tree word values entries ended =>
    have shape : checkShape (operands.map Entry.ofToken).reverse.reverse = .ok () := by
      rw [List.reverse_reverse]
      exact checkShape_eq_ok_iff.mpr ⟨tree, entries.symm⟩
    have finished := step_finish directive.span ended shape
    rw [List.reverse_reverse] at finished
    exact completes (.operands word values) finished

theorem Written.reads (h : Written tokens statements) :
    Expecting.directive.Reads tokens statements .directive := by
  induction h with
  | nil => exact .nil
  | cons first _ ih => exact first.reads.append ih

/-- Tokens write one row of statements at most. -/
theorem Written.unique {other : List Statement} (h : Written tokens statements)
    (h' : Written tokens other) : statements = other := by
  have script := readFrom_all h.reads (.ok default)
  rw [readFrom_all h'.reads] at script
  exact (congrArg Script.statements script).symm

/-! ## What is read is written -/

/-- One more token makes the beginning of a statement longer, or completes the statement. -/
theorem Expecting.Begun.step {complete : Option Statement} (h : e.Begun begun)
    (notEnd : token.kind ≠ .none) (ok : e.step token = .ok (next, complete)) :
    (complete = none ∧ next.Begun (begun ++ [token])) ∨
      ∃ statement, complete = some statement ∧ next = .directive ∧
        statement.WrittenAs (begun ++ [token]) := by
  have known : token.kind ≠ .unknown := by
    intro eq
    rw [Expecting.step, if_pos eq] at ok
    cases ok
  rw [step_eq known] at ok
  -- By what the directive waits for: the token is begun with, or completes the statement.
  cases h with
  | directive =>
    obtain ⟨d, word, rfl, rfl⟩ := stepToken_directive ok
    refine .inl ⟨rfl, ?_⟩
    cases d with
    | test => exact .testName word
    | bind level => exact .symbol word
    | field f => exact .fieldValue word
    | header => exact .headerName word
    | assertion => exact @Begun.operands token [] word (by simp)
  | testName word =>
    obtain ⟨name, eq⟩ := checked_eq_ok.mp ok
    cases eq
    exact .inr ⟨_, rfl, rfl, .test word name⟩
  | symbol word =>
    obtain ⟨symbol, eq⟩ := checked_eq_ok.mp ok
    cases eq
    exact .inl ⟨rfl, .symbolValue word (of_decide_eq_true symbol)⟩
  | symbolValue word symbol =>
    obtain ⟨value, eq⟩ := checked_eq_ok.mp ok
    cases eq
    exact .inr ⟨_, rfl, rfl, .bind word symbol value⟩
  | fieldValue word =>
    obtain ⟨value, eq⟩ := checked_eq_ok.mp ok
    cases eq
    exact .inr ⟨_, rfl, rfl, .field word value⟩
  | headerName word =>
    obtain ⟨name, eq⟩ := checked_eq_ok.mp ok
    cases eq
    exact .inl ⟨rfl, .headerValue word name⟩
  | headerValue word name =>
    obtain ⟨value, eq⟩ := checked_eq_ok.mp ok
    cases eq
    exact .inr ⟨_, rfl, rfl, .header word name value⟩
  | @operands directive operands word values =>
    rcases stepToken_operands ok with
      ⟨statement, ended, closed, rfl, rfl⟩ | ⟨notFinish, notDirective, rfl, rfl⟩
    · obtain ⟨shape, rfl⟩ := closeAssertion_eq_ok.mp closed
      rw [List.reverse_reverse] at shape ⊢
      obtain ⟨tree, entries⟩ := checkShape_eq_ok_iff.mp shape
      exact .inr ⟨_, rfl, rfl, .assertion word values entries.symm ended⟩
    · have value := TokenKind.isValue_of_ne notDirective notFinish notEnd known
      have longer := Begun.operands word (List.forall_mem_append.mpr
        ⟨values, List.forall_mem_singleton.mpr value⟩)
      exact .inl ⟨rfl, by simpa using longer⟩

/-- What is read is written, but for the beginning of a statement at the end. -/
theorem Expecting.Reads.written (h : e.Reads tokens statements n) (start : e.Begun begun)
    (notEnd : ∀ token ∈ tokens, token.kind ≠ .none) :
    ∃ done rest, begun ++ tokens = done ++ rest ∧ Written done statements ∧ n.Begun rest := by
  induction h generalizing begun with
  | nil => exact ⟨[], begun, by simp, .nil, start⟩
  | @more e m n token tokens statements step _ ih =>
    obtain ⟨first, others⟩ := List.forall_mem_cons.mp notEnd
    rcases start.step first step with ⟨-, longer⟩ | ⟨statement, complete, -⟩
    · obtain ⟨done, rest, split, written, left⟩ := ih longer others
      exact ⟨done, rest, by simpa using split, written, left⟩
    · cases complete
  | @complete e m n token tokens statement statements step _ ih =>
    obtain ⟨first, others⟩ := List.forall_mem_cons.mp notEnd
    rcases start.step first step with ⟨complete, -⟩ | ⟨_, complete, rfl, written⟩
    · cases complete
    · cases complete
      obtain ⟨done, rest, split, writtens, left⟩ := ih .directive others
      rw [List.nil_append] at split
      exact ⟨begun ++ [token] ++ done, rest, by simp [split], .cons written writtens, left⟩

end Grammar

end HttpSuite
