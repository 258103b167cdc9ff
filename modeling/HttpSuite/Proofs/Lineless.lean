import HttpSuite.Canonical
import HttpSuite.Proofs.Applying
import HttpSuite.Proofs.Setters
import HttpSuite.Proofs.TokenMap
import HttpSuite.Suite

/-!
# Suites without their line numbers

`lineless` sets every line number to 0 and keeps everything else, the name of the source included. Two
suites that are the same without their line numbers differ in nothing else.

Line numbers are carried along and never looked at: applying statements, writing records as text and
evaluating them all commute with `lineless`. The one exception is the first record, which the text
shows as a test of its own unless it is on line 0.

* `apply_lineless`, `Applies.lineless`: one statement, and any number of them.
* `canonicalText_lineless`: the text of records.
* `evaluate_lineless`: what a record evaluates to.
-/

namespace HttpSuite

/-! ## Forgetting the lines -/

/-- The place without its line. -/
def Span.lineless (span : Span) : Span := { span with line := 0 }

/-- The token without its line. -/
def Token.lineless (token : Token) : Token := { token with span := token.span.lineless }

/-- The entry without its line. -/
def Entry.lineless : Entry → Entry
  | .operand token => .operand token.lineless
  | .operator op span => .operator op span.lineless

/-- The assertion without its lines. -/
def Assertion.lineless (assertion : Assertion) : Assertion where
  span := assertion.span.lineless
  entries := assertion.entries.map Entry.lineless

/-- The header without its line. -/
def Header.lineless (header : Header) : Header := { header with value := header.value.lineless }

/-- The request without its lines. -/
def Request.lineless (request : Request) : Request where
  method := request.method.map Token.lineless
  uri := request.uri.map Token.lineless
  httpVersion := request.httpVersion.map Token.lineless
  body := request.body.map Token.lineless
  headers := request.headers.map Header.lineless

/-- The response without its lines. -/
def Response.lineless (response : Response) : Response :=
  { response with headers := response.headers.map Header.lineless }

/-- The record without its lines. -/
def TestRecord.lineless (record : TestRecord) : TestRecord where
  name := record.name
  span := record.span.lineless
  scope := record.scope
  request := record.request.lineless
  response := record.response.lineless
  assertions := record.assertions.map Assertion.lineless

/-- The arena without the lines of its tokens. -/
def Arena.lineless (a : Arena) : Arena := a.mapTokens Token.lineless

/-- The write without the line of what it replaced. -/
def Write.lineless (write : Write) : Write :=
  { write with previous := write.previous.map Token.lineless }

/-- The statement without its lines. -/
def Statement.lineless : Statement → Statement
  | .test span name => .test span.lineless name
  | .bind level symbol value => .bind level symbol value.lineless
  | .field f value => .field f value.lineless
  | .header name value => .header name value.lineless
  | .assertion asserted => .assertion asserted.lineless

/-- What has no lines stays as it is. -/
theorem Statement.lineless_lineless (statement : Statement) :
    statement.lineless.lineless = statement.lineless := by
  cases statement with
  | test | bind | field | header => rfl
  | assertion asserted =>
    have entry (e : Entry) : e.lineless.lineless = e.lineless := by cases e <;> rfl
    simp only [lineless, Assertion.lineless, List.map_map, Function.comp_def, entry]
    rfl

/-- The suite without its lines. -/
def Suite.lineless (suite : Suite) : Suite where
  scope := suite.scope
  options := suite.options
  arena := suite.arena.lineless
  journal := suite.journal.map Write.lineless
  finished := suite.finished.map TestRecord.lineless
  current := suite.current.lineless

/-- The fault without its line. -/
def EvalError.lineless (error : EvalError) : EvalError :=
  { error with span := error.span.lineless }

/-- The outcome of an evaluation without its lines. -/
def Evaluated.lineless (evaluated : Evaluated) : Evaluated where
  record := evaluated.record.lineless
  fault := evaluated.fault.map EvalError.lineless

/-! ## Requests and records -/

namespace Request

theorem field?_lineless (request : Request) (field : RequestField) :
    request.lineless.field? field = (request.field? field).map Token.lineless := by
  cases field <;> rfl

theorem setField_lineless (request : Request) (field : RequestField) (token : Token) :
    request.lineless.setField field token.lineless = (request.setField field token).lineless := by
  cases field <;> rfl

theorem put_lineless (request : Request) (header : Header) :
    { request.lineless with headers := request.lineless.headers.put header.lineless } =
      { request with headers := request.headers.put header }.lineless := by
  simp only [lineless, HeaderMap.put, KeyMap.map_insert]
  rfl

end Request

theorem growBody_lineless (body : Option Token) (part : Token) :
    growBody (body.map Token.lineless) part.lineless = (growBody body part).map Token.lineless := by
  cases body with
  | none => rfl
  | some body =>
    have same : joinBody body.lineless part.lineless = (joinBody body part).map Token.lineless := by
      rw [joinBody, joinBody, apply_ite (Except.map Token.lineless)]
      rfl
    exact same

namespace TestRecord

variable {record next : TestRecord} {token : Token}

theorem setField_lineless {field : RequestField} :
    record.lineless.setField field token.lineless = .ok next ↔
      ∃ old, record.setField field token = .ok old ∧ old.lineless = next := by
  have same : { record.lineless with
      request := record.lineless.request.setField field token.lineless } =
      { record with request := record.request.setField field token }.lineless :=
    congrArg (fun request => { record.lineless with request })
      (record.request.setField_lineless field token)
  simp only [setField_eq_ok, same]
  constructor
  · rintro ⟨value, rfl⟩
    exact ⟨_, ⟨value, rfl⟩, rfl⟩
  · rintro ⟨_, ⟨value, rfl⟩, rfl⟩
    exact ⟨value, rfl⟩

theorem appendBody_lineless :
    record.lineless.appendBody token.lineless = .ok next ↔
      ∃ old, record.appendBody token = .ok old ∧ old.lineless = next := by
  have grown : growBody record.lineless.request.body token.lineless =
      (growBody record.request.body token).map Token.lineless :=
    growBody_lineless record.request.body token
  simp only [appendBody_eq_ok, grown]
  constructor
  · rintro ⟨value, body, ok, rfl⟩
    cases hg : growBody record.request.body token with
    | error cause =>
      rw [hg] at ok
      cases ok
    | ok old =>
      rw [hg] at ok
      cases ok
      exact ⟨_, ⟨value, old, rfl, rfl⟩, rfl⟩
  · rintro ⟨_, ⟨value, body, ok, rfl⟩, rfl⟩
    exact ⟨value, body.lineless, by rw [ok]; rfl, rfl⟩

theorem setHeader_lineless {name : String} :
    record.lineless.setHeader name token.lineless = .ok next ↔
      ∃ old, record.setHeader name token = .ok old ∧ old.lineless = next := by
  have same : { record.lineless with
      request := { record.lineless.request with
        headers := record.lineless.request.headers.put ⟨name, token.lineless⟩ } } =
      { record with request := { record.request with
        headers := record.request.headers.put ⟨name, token⟩ } }.lineless :=
    congrArg (fun request => { record.lineless with request })
      (record.request.put_lineless ⟨name, token⟩)
  simp only [setHeader_eq_ok, same]
  constructor
  · rintro ⟨named, value, rfl⟩
    exact ⟨_, ⟨named, value, rfl⟩, rfl⟩
  · rintro ⟨_, ⟨named, value, rfl⟩, rfl⟩
    exact ⟨named, value, rfl⟩

end TestRecord

/-! ## Statements -/

namespace Suite

variable {suite next last other : Suite} {statement : Statement} {statements : List Statement}

theorem setCurrent_lineless {result result' : Except RecordError TestRecord}
    (h : ∀ {record}, result' = .ok record ↔ ∃ old, result = .ok old ∧ old.lineless = record) :
    suite.lineless.setCurrent result' = .ok next ↔
      ∃ old, suite.setCurrent result = .ok old ∧ old.lineless = next := by
  simp only [setCurrent_eq_ok, h]
  constructor
  · rintro ⟨_, ⟨old, ok, rfl⟩, rfl⟩
    exact ⟨_, ⟨old, ok, rfl⟩, rfl⟩
  · rintro ⟨_, ⟨old, ok, rfl⟩, rfl⟩
    exact ⟨_, ⟨old, ok, rfl⟩, rfl⟩

theorem records_lineless : suite.lineless.records = suite.records.map TestRecord.lineless := by
  simp [Suite.records, lineless]

theorem namesake?_lineless (name : String) :
    suite.lineless.namesake? name = (suite.namesake? name).map TestRecord.lineless := by
  unfold namesake?
  rw [records_lineless, List.find?_map]
  by_cases unique : suite.options.uniqueNames = true
  · have unique' : suite.lineless.options.uniqueNames = true := unique
    rw [if_pos unique, if_pos unique']
    rfl
  · have unique' : ¬ suite.lineless.options.uniqueNames = true := unique
    rw [if_neg unique, if_neg unique']
    rfl

theorem startTest_lineless (span : Span) (name : String) :
    suite.lineless.startTest span.lineless name = (suite.startTest span name).lineless := by
  simp [startTest, TestRecord.create, lineless, Arena.lineless, Arena.mapTokens_create,
    TestRecord.lineless, Request.lineless, Response.lineless]

theorem bind_lineless (level : Level) (symbol : String) (value : Token) :
    suite.lineless.bind level symbol value.lineless = (suite.bind level symbol value).lineless := by
  have scope : suite.lineless.scopeOf level = suite.scopeOf level := by
    cases level with
    | global => exact Arena.root_mapTokens ..
    | parent | own => rfl
  simp only [bind, scope]
  simp [lineless, Arena.lineless, Arena.mapTokens_bind, Write.lineless]

/-- A statement does to a suite without lines what it does to the suite. -/
theorem apply_lineless :
    suite.lineless.apply statement.lineless = .ok next ↔
      ∃ old, suite.apply statement = .ok old ∧ old.lineless = next := by
  cases statement with
  | test span name =>
    simp only [apply, Statement.lineless, namesake?_lineless]
    cases suite.namesake? name with
    | none => simp [startTest_lineless]
    | some first => simp
  | bind level symbol value => simp [apply, Statement.lineless, bind_lineless]
  | field f value =>
    cases f with
    | body => exact setCurrent_lineless TestRecord.appendBody_lineless
    | method | uri | httpVersion => exact setCurrent_lineless TestRecord.setField_lineless
  | header name value => exact setCurrent_lineless TestRecord.setHeader_lineless
  | assertion asserted =>
    simp only [apply, Statement.lineless, Except.ok.injEq, exists_eq_left']
    have same : ∀ record : TestRecord,
        { record.lineless with
          assertions := record.lineless.assertions ++ [asserted.lineless] } =
        { record with assertions := record.assertions ++ [asserted] }.lineless := by
      intro record
      simp [TestRecord.lineless]
    simp only [lineless, same]

/-- Suites and statements that differ in their lines only lead to suites that do. -/
theorem Applies.lineless (h : suite.Applies statements last) {suite' : Suite}
    {statements' : List Statement} (start : suite'.lineless = suite.lineless)
    (same : statements'.map Statement.lineless = statements.map Statement.lineless) :
    ∃ last', suite'.Applies statements' last' ∧ last'.lineless = last.lineless := by
  induction h generalizing suite' statements' with
  | nil =>
    obtain rfl := List.map_eq_nil_iff.mp same
    exact ⟨suite', .nil, start⟩
  | @cons suite next last statement statements ok _ ih =>
    obtain ⟨statement', more, rfl, first, others⟩ := List.map_eq_cons_iff.mp same
    have ok' : suite'.lineless.apply statement'.lineless = .ok next.lineless := by
      rw [start, first]
      exact apply_lineless.mpr ⟨next, ok, rfl⟩
    obtain ⟨next', applied, alike⟩ := apply_lineless.mp ok'
    obtain ⟨last', rest, alike'⟩ := ih alike others
    exact ⟨last', .cons applied rest, alike'⟩

end Suite

/-! ## Canonical text -/

theorem Entry.canonical_lineless (entry : Entry) : entry.lineless.canonical = entry.canonical := by
  cases entry <;> rfl

theorem Statement.canonical_lineless (statement : Statement) :
    statement.lineless.canonical = statement.canonical := by
  cases statement with
  | test | bind | field | header => rfl
  | assertion asserted =>
    simp only [lineless, canonical, Assertion.lineless, List.map_map]
    congr 4
    funext entry
    simp only [Function.comp_apply, Entry.canonical_lineless]

theorem canonicalLines_lineless (statements : List Statement) :
    canonicalLines (statements.map Statement.lineless) = canonicalLines statements := by
  simp only [canonicalLines, List.map_map]
  congr 2
  funext statement
  simp only [Function.comp_apply, Statement.canonical_lineless]

theorem bindingStatements_lineless (a : Arena) (level : Level) (scope : ScopeId) :
    bindingStatements a.lineless level scope =
      (bindingStatements a level scope).map Statement.lineless := by
  simp [bindingStatements, Arena.lineless, Statement.lineless]

namespace TestRecord

variable (record : TestRecord) (a : Arena)

theorem fieldStatement_lineless (field : RequestField) :
    record.lineless.fieldStatement field = (record.fieldStatement field).map Statement.lineless := by
  have token : record.lineless.request.field? field =
      (record.request.field? field).map Token.lineless :=
    Request.field?_lineless record.request field
  rw [fieldStatement, fieldStatement, token]
  cases record.request.field? field <;> rfl

theorem statements_lineless :
    record.lineless.statements a.lineless = (record.statements a).map Statement.lineless := by
  simp only [statements, bindingStatements_lineless, fieldStatement_lineless, List.flatMap_cons,
    List.flatMap_nil, List.map_append, List.append_nil]
  simp only [lineless, Request.lineless, KeyMap.map, List.map_map]
  rfl

theorem outerStatements_lineless :
    record.lineless.outerStatements a.lineless =
      (record.outerStatements a).map Statement.lineless := by
  have parent : a.lineless.parent? record.lineless.scope = a.parent? record.scope :=
    Arena.parent?_mapTokens ..
  have root : ∀ s, a.lineless.root s = a.root s := fun s => Arena.root_mapTokens ..
  rw [outerStatements, outerStatements, parent]
  cases a.parent? record.scope with
  | none => rfl
  | some outer =>
    have own : ∀ statements : List Statement,
        (statements.map Statement.lineless).filter
            (Statement.bindsFrom record.lineless.span.source) =
          (statements.filter (Statement.bindsFrom record.span.source)).map Statement.lineless := by
      intro statements
      rw [List.filter_map]
      congr 2
      funext statement
      cases statement <;> rfl
    simp only [root, bindingStatements_lineless]
    split
    · rw [List.nil_append, own, List.nil_append]
    · rw [← List.map_append, own]

end TestRecord

theorem canonicalText_lineless {a : Arena} {records : List TestRecord}
    (first : ∀ record ∈ records.head?, record.span.line = 0) :
    canonicalText a.lineless (records.map TestRecord.lineless) = canonicalText a records := by
  have append : ∀ text record, appendTest a.lineless text record.lineless = appendTest a text record := by
    intro text record
    have lines : canonicalLines (.test record.lineless.span record.lineless.name ::
          record.lineless.statements a.lineless) =
        canonicalLines (.test record.span record.name :: record.statements a) := by
      rw [TestRecord.statements_lineless]
      exact canonicalLines_lineless (.test record.span record.name :: record.statements a)
    rw [appendTest, appendTest, lines]
  cases records with
  | nil => rfl
  | cons record rest =>
    have preamble : record.span.line = 0 := first record rfl
    have preamble' : record.lineless.span.line = 0 := rfl
    simp only [List.map_cons, canonicalText, if_pos preamble, if_pos preamble',
      TestRecord.statements_lineless, TestRecord.outerStatements_lineless, ← List.map_append,
      canonicalLines_lineless, List.foldl_map, append]

/-- Records that differ in their lines only are written as the same text. -/
theorem canonicalText_congr {a b : Arena} {records others : List TestRecord}
    (arena : b.lineless = a.lineless)
    (same : others.map TestRecord.lineless = records.map TestRecord.lineless)
    (first : ∀ record ∈ records.head?, record.span.line = 0)
    (first' : ∀ record ∈ others.head?, record.span.line = 0) :
    canonicalText b others = canonicalText a records := by
  rw [← canonicalText_lineless first', same, arena]
  exact canonicalText_lineless first

/-! ## Evaluation -/

/-- Only the texts of tokens are filled into a template. -/
theorem interpolate_congr {lookup lookup' : String → Option Token}
    (h : ∀ name, (lookup' name).map Token.text = (lookup name).map Token.text) (text : String) :
    interpolate lookup' text = interpolate lookup text := by
  have piece : Template.fillPiece lookup' = Template.fillPiece lookup := by
    funext p
    unfold Template.fillPiece
    cases referenceName (String.ofList p.inside) with
    | error cause => rfl
    | ok name =>
      have := h name
      simp only [bind, Except.bind, lookupSymbol]
      cases hl : lookup name <;> cases hl' : lookup' name <;> simp_all
  rw [interpolate, interpolate, Template.fill, Template.fill, piece]

section Evaluation

variable (lookup : String → Option Token)

theorem resolve_lineless (token : Token) :
    resolve (fun name => (lookup name).map Token.lineless) token.lineless =
      (resolve lookup token).map Token.lineless := by
  have filled : interpolate (fun name => (lookup name).map Token.lineless) token.text =
      interpolate lookup token.text :=
    interpolate_congr (fun name => by cases lookup name <;> rfl) token.text
  obtain ⟨kind, text, span⟩ := token
  cases kind with
  | directive | integer | assertEnd | none | unknown => rfl
  | symbol =>
    simp only [resolve, Token.lineless, lookupSymbol]
    cases lookup text <;> rfl
  | string | shellCommand =>
    simp only [resolve, Token.lineless, filled]
    cases interpolate lookup text <;> rfl

theorem TestRecord.target?_lineless (record : TestRecord) (target : Target) :
    record.lineless.target? target = (record.target? target).map Token.lineless := by
  cases target with
  | field f => exact Request.field?_lineless record.request f
  | header key =>
    simp only [target?, lineless, Request.lineless, KeyMap.get?_map]
    cases record.request.headers.get? key <;> rfl

theorem TestRecord.setTarget_lineless (record : TestRecord) (target : Target) (token : Token) :
    record.lineless.setTarget target token.lineless = (record.setTarget target token).lineless := by
  cases target with
  | field f =>
    exact congrArg (fun request => { record.lineless with request })
      (record.request.setField_lineless f token)
  | header key =>
    simp only [setTarget, lineless, Request.lineless, KeyMap.get?_map]
    cases record.request.headers.get? key with
    | none => rfl
    | some header =>
      simp only [Option.map_some, KeyMap.map_insert]
      rfl

theorem evaluateTargets_lineless (record : TestRecord) (targets : List Target) :
    evaluateTargets (fun name => (lookup name).map Token.lineless) record.lineless targets =
      (evaluateTargets lookup record targets).lineless := by
  induction targets generalizing record with
  | nil => rfl
  | cons target targets ih =>
    rw [evaluateTargets, evaluateTargets, TestRecord.target?_lineless]
    cases record.target? target with
    | none => exact ih record
    | some token =>
      simp only [Option.map_some, resolve_lineless]
      cases resolve lookup token with
      | error cause => rfl
      | ok resolved =>
        simp only [Except.map, TestRecord.setTarget_lineless]
        exact ih _

end Evaluation

/-- What a record evaluates to does not depend on the lines. -/
theorem TestRecord.evaluate_lineless (record : TestRecord) (a : Arena) :
    record.lineless.evaluate a.lineless = (record.evaluate a).lineless := by
  have targets : record.lineless.targets = record.targets := by
    simp [TestRecord.targets, lineless, Request.lineless, KeyMap.map]
  have lookup : a.lineless.lookup? record.lineless.scope =
      fun name => (a.lookup? record.scope name).map Token.lineless :=
    funext fun name => Arena.lookup?_mapTokens Token.lineless a record.scope name
  rw [evaluate, evaluate, targets, lookup, evaluateTargets_lineless]

/-- Records that differ in their lines only evaluate to what does. -/
theorem evaluate_congr {a b : Arena} {records others : List TestRecord}
    (arena : b.lineless = a.lineless)
    (same : others.map TestRecord.lineless = records.map TestRecord.lineless) :
    others.map (fun record => (record.evaluate b).lineless) =
      records.map (fun record => (record.evaluate a).lineless) := by
  have evaluated (c : Arena) (rs : List TestRecord) :
      rs.map (fun record => (record.evaluate c).lineless) =
        (rs.map TestRecord.lineless).map (fun record => record.evaluate c.lineless) := by
    rw [List.map_map]
    exact List.map_congr_left fun record _ => (record.evaluate_lineless c).symm
  rw [evaluated, evaluated, same, arena]

end HttpSuite
