import HttpSuite.Proofs.Applying
import HttpSuite.Proofs.Directives.Grammar
import HttpSuite.Proofs.Setters
import Mathlib.Data.List.TakeWhile

/-!
# What a suite accepts

Tokens are accepted exactly if they write statements that are acceptable one after the other
(`Acceptable`). That depends on the names of the tests so far and on the body of the current one, and
on nothing in the arena.

A fault is met at a token, and then no later token takes it back, or the tokens run out within a
statement (`RunsOut`).

* `applies_iff_acceptable`: statements, by induction on them.
* `parseTokens_eq_ok`: tokens, and what is read from them.
* `parseTokens_grammar`: what is accepted, and which faults are final.
-/

namespace HttpSuite

/-- The statements can follow tests with these names, the last of which has this body: every test has
a name of its own if names are to be unique, headers have names that are allowed, and every part of a
body can be joined to what is there. -/
def Acceptable (unique : Bool) (names : List String) (body : Option Token) : List Statement → Prop
  | [] => True
  | .test _ name :: statements =>
    (unique = true → name ∉ names) ∧ Acceptable unique (names ++ [name]) none statements
  | .bind .. :: statements => Acceptable unique names body statements
  | .field .body value :: statements =>
    value.kind.isValue = true ∧
      ∃ grown, growBody body value = .ok grown ∧ Acceptable unique names (some grown) statements
  | .field _ value :: statements =>
    value.kind.isValue = true ∧ Acceptable unique names body statements
  | .header name value :: statements =>
    (isHeaderName name = true ∧ value.kind.isValue = true) ∧
      Acceptable unique names body statements
  | .assertion _ :: statements => Acceptable unique names body statements

/-! ## Statements -/

namespace Suite

variable {suite next : Suite} {statement : Statement} {statements : List Statement}

/-- The names of all records so far. -/
def names (suite : Suite) : List String := suite.records.map (·.name)

/-- What is still acceptable to the suite. -/
def Accepts (suite : Suite) (statements : List Statement) : Prop :=
  Acceptable suite.options.uniqueNames suite.names suite.current.request.body statements

theorem names_startTest (span : Span) (name : String) :
    (suite.startTest span name).names = suite.names ++ [name] := by
  simp [names, records, startTest, TestRecord.create]

/-- A setter keeps the names, so only the body decides what is acceptable after it. -/
theorem exists_setCurrent {result : Except RecordError TestRecord}
    (keeps : ∀ current, result = .ok current → current.name = suite.current.name) :
    (∃ next, suite.setCurrent result = .ok next ∧ next.Accepts statements) ↔
      ∃ current, result = .ok current ∧
        Acceptable suite.options.uniqueNames suite.names current.request.body statements := by
  cases result with
  | error error => simp [setCurrent]
  | ok current => simp [setCurrent, Accepts, names, records, keeps current rfl]

theorem namesake?_eq_none_iff {name : String} :
    suite.namesake? name = none ↔ (suite.options.uniqueNames = true → name ∉ suite.names) := by
  simp only [namesake?_eq_none, names, List.mem_map, not_exists, not_and]

/-- What is acceptable can begin with a statement exactly if the statement can be applied, and then the
rest is acceptable to the suite after it. -/
theorem accepts_cons :
    suite.Accepts (statement :: statements) ↔
      ∃ next, suite.apply statement = .ok next ∧ next.Accepts statements := by
  rw [Accepts]
  -- `Acceptable` asks of each kind of statement what `apply` checks.
  cases statement with
  | test span name =>
    rw [Acceptable, ← namesake?_eq_none_iff, apply]
    cases suite.namesake? name with
    | some first => simp
    | none =>
      have started : (suite.startTest span name).Accepts statements ↔
          Acceptable suite.options.uniqueNames (suite.names ++ [name]) none statements := by
        rw [Accepts, names_startTest]
        rfl
      simp [started]
  | bind level symbol value => simp [Acceptable, apply, bind, Accepts, names, records]
  | field f value =>
    cases f with
    | body =>
      rw [apply, exists_setCurrent]
      · simp only [Acceptable, TestRecord.appendBody_eq_ok]
        constructor
        · rintro ⟨isValue, grown, ok, rest⟩
          exact ⟨_, ⟨isValue, grown, ok, rfl⟩, rest⟩
        · rintro ⟨_, ⟨isValue, grown, ok, rfl⟩, rest⟩
          exact ⟨isValue, grown, ok, rest⟩
      · intro current ok
        obtain ⟨-, grown, -, rfl⟩ := TestRecord.appendBody_eq_ok.mp ok
        rfl
    | method | uri | httpVersion =>
      simp only [apply]
      rw [exists_setCurrent]
      · simp only [Acceptable, TestRecord.setField_eq_ok]
        constructor
        · rintro ⟨isValue, rest⟩
          exact ⟨_, ⟨isValue, rfl⟩, rest⟩
        · rintro ⟨_, ⟨isValue, rfl⟩, rest⟩
          exact ⟨isValue, rest⟩
      · intro current ok
        obtain ⟨-, rfl⟩ := TestRecord.setField_eq_ok.mp ok
        rfl
  | header name value =>
    rw [apply, exists_setCurrent]
    · simp only [Acceptable, TestRecord.setHeader_eq_ok]
      constructor
      · rintro ⟨⟨named, isValue⟩, rest⟩
        exact ⟨_, ⟨named, isValue, rfl⟩, rest⟩
      · rintro ⟨_, ⟨named, isValue, rfl⟩, rest⟩
        exact ⟨⟨named, isValue⟩, rest⟩
    · intro current ok
      obtain ⟨-, -, rfl⟩ := TestRecord.setHeader_eq_ok.mp ok
      rfl
  | assertion assertion => simp [Acceptable, apply, Accepts, names, records]

theorem applies_iff_accepts :
    (∃ last, suite.Applies statements last) ↔ suite.Accepts statements := by
  induction statements generalizing suite with
  | nil => exact ⟨fun _ => trivial, fun _ => ⟨suite, .nil⟩⟩
  | cons statement statements ih =>
    rw [accepts_cons]
    constructor
    · rintro ⟨last, applies⟩
      cases applies with
      | cons ok applies => exact ⟨_, ok, ih.mp ⟨last, applies⟩⟩
    · rintro ⟨next, ok, accepts⟩
      obtain ⟨last, applies⟩ := ih.mpr accepts
      exact ⟨last, .cons ok applies⟩

end Suite

/-! ## Tokens -/

/-- The statements of a suite are acceptable from its start. -/
def Options.Accepts (options : Options) (statements : List Statement) : Prop :=
  Acceptable options.uniqueNames [options.implicitName] none statements

/-- The tokens are right so far, but end within a statement. -/
def RunsOut (options : Options) (tokens : List Token) : Prop :=
  ∃ (done rest : List Token) (statements : List Statement) (waiting : Expecting),
    tokens = done ++ rest ∧ Written done statements ∧ options.Accepts statements ∧
      waiting.Begun rest ∧ waiting ≠ .directive

/-- The tokens before the first end token. -/
def heard (tokens : List Token) : List Token := tokens.takeWhile (·.kind != .none)

section Tokens

variable {a : Arena} {scope : ScopeId} {source : String} {options : Options} {tokens : List Token}
  {statements : List Statement}

theorem applies_iff_acceptable :
    (∃ last, (Suite.start a scope source options).Applies statements last) ↔
      options.Accepts statements := Suite.applies_iff_accepts

theorem Options.Accepts.applies (h : options.Accepts statements) (a : Arena) (scope : ScopeId)
    (source : String) : ∃ last, (Suite.start a scope source options).Applies statements last :=
  applies_iff_acceptable.mpr h

/-- What is read in one arena is read in every other. -/
theorem parse_ok_of_ok {a b after : Arena} {scope : ScopeId} {feed : Feed} {records : List TestRecord}
    (h : a.parse scope source options feed = (.ok records, after)) (other : ScopeId) :
    ∃ records' after', b.parse other source options feed = (.ok records', after') := by
  obtain ⟨last, fault, applies, -⟩ := Arena.parse_eq_ok.mp h
  have accepts := applies_iff_acceptable.mp ⟨last, applies⟩
  obtain ⟨last', applies'⟩ := accepts.applies b other source
  exact ⟨_, _, Arena.parse_eq_ok.mpr ⟨last', fault, applies', rfl, rfl⟩⟩

theorem heard_ne_none : ∀ token ∈ heard tokens, token.kind ≠ .none := by
  intro token ht
  simpa using List.mem_takeWhile_imp ht

theorem heard_append (notEnd : ∀ token ∈ tokens, token.kind ≠ .none) (more : List Token) :
    heard (tokens ++ more) = tokens ++ heard more :=
  List.takeWhile_append_of_pos (by simpa using notEnd)

theorem heard_eq_self (notEnd : ∀ token ∈ tokens, token.kind ≠ .none) : heard tokens = tokens := by
  have whole := heard_append notEnd []
  have empty : heard [] = [] := rfl
  rwa [empty, List.append_nil] at whole

theorem exists_feed (source : String) (tokens : List Token) :
    ∃ span, Feed.ofTokens source tokens = ⟨heard tokens, .ok span⟩ := by
  rw [Feed.ofTokens]
  split <;> exact ⟨_, rfl⟩

theorem faultAt_eq_none {span : Span} {e : Expecting} :
    Script.faultAt (.ok span) e = none ↔ e = .directive := by
  cases e <;> simp [Script.faultAt, Expecting.atEnd]

/-- What is read from tokens: they write statements, and the statements can be applied. -/
theorem parseTokens_eq_ok {records : List TestRecord} {after : Arena} :
    a.parseTokens scope tokens source options = (.ok records, after) ↔
      ∃ statements last, Written (heard tokens) statements ∧
        (Suite.start a scope source options).Applies statements last ∧
        last.records = records ∧ last.arena = after := by
  obtain ⟨span, feed⟩ := exists_feed source tokens
  rw [Arena.parseTokens, Arena.parse_eq_ok, feed, Script.ofFeed]
  constructor
  · rintro ⟨last, fault, applies, result⟩
    rcases reads_or_faulty .directive (heard tokens) with ⟨statements, n, reads⟩ | faulty
    · rw [readFrom_all reads] at fault applies
      obtain rfl := faultAt_eq_none.mp fault
      obtain ⟨done, rest, split, written, left⟩ := reads.written .directive heard_ne_none
      cases left
      rw [List.append_nil, List.nil_append] at split
      exact ⟨statements, last, split ▸ written, applies, result⟩
    · exact absurd fault (fault_ne_none faulty _ _)
  · rintro ⟨statements, last, written, applies, result⟩
    rw [readFrom_all written.reads]
    exact ⟨last, rfl, applies, result⟩

/-- A file that is read from a lexer is read from its tokens. -/
theorem parseReads_eq_ok {scope : ScopeId} {reads : List Read} {source : String}
    {records : List TestRecord} {after : Arena}
    (h : a.parseReads scope reads source options = (.ok records, after)) :
    a.parseTokens scope ({ source, rest := reads, limit := options.lineLimit } : Lexer).tokens.1 source
      options = (.ok records, after) := by
  rw [Arena.parseReads, Feed.ofLexer] at h
  split at h
  · next tokens eq =>
    rw [eq]
    exact h
  · next tokens fault eq =>
    obtain ⟨last, none, -⟩ := Arena.parse_eq_ok.mp h
    rcases reads_or_faulty .directive tokens with ⟨statements, n, reads⟩ | faulty
    · rw [Script.ofFeed, readFrom_all reads] at none
      cases none
    · exact absurd none (fault_ne_none faulty _ _)

theorem accepts_iff (notEnd : ∀ token ∈ tokens, token.kind ≠ .none) :
    (∃ records, (a.parseTokens scope tokens source options).1 = .ok records) ↔
      ∃ statements, Written tokens statements ∧ options.Accepts statements := by
  constructor
  · rintro ⟨records, ok⟩
    obtain ⟨statements, last, written, applies, -⟩ := parseTokens_eq_ok.mp (Prod.ext ok rfl)
    exact ⟨statements, heard_eq_self notEnd ▸ written, applies_iff_acceptable.mp ⟨last, applies⟩⟩
  · rintro ⟨statements, written, accepts⟩
    obtain ⟨last, applies⟩ := accepts.applies a scope source
    rw [← heard_eq_self notEnd] at written
    exact ⟨_, congrArg Prod.fst (parseTokens_eq_ok.mpr ⟨statements, last, written, applies, rfl, rfl⟩)⟩

/-- Where accepted statements are followed by the beginning of one more, all is left to the end. -/
theorem applyTo_begun {done rest : List Token} {waiting : Expecting}
    (written : Written done statements) (accepts : options.Accepts statements)
    (begun : waiting.Begun rest) (stop : Except LexError Span) :
    ((Script.readFrom stop .directive [] (done ++ rest)).applyTo
      (.start a scope source options)).2 = (Script.faultAt stop waiting).map ScriptFault.error := by
  obtain ⟨last, applies⟩ := accepts.applies a scope source
  have reads := written.reads.append begun.reads
  rw [List.append_nil] at reads
  rw [readFrom_all reads, Script.applyTo, Suite.applies_iff.mp applies]

/-- Where tokens run out, the fault is that of ending there. -/
theorem error_of_runsOut (notEnd : ∀ token ∈ tokens, token.kind ≠ .none)
    (within : RunsOut options tokens) :
    ∃ span waiting fault, Expecting.atEnd span waiting = some fault ∧
      (a.parseTokens scope tokens source options).1 = .error (.parse fault) := by
  obtain ⟨span, feed⟩ := exists_feed source tokens
  rw [heard_eq_self notEnd] at feed
  obtain ⟨done, rest, statements, waiting, rfl, written, accepts, begun, open_⟩ := within
  obtain ⟨fault, ends⟩ : ∃ fault, Expecting.atEnd span waiting = some fault := by
    cases waiting <;> simp [Expecting.atEnd] at open_ ⊢
  refine ⟨span, waiting, fault, ends, ?_⟩
  rw [Arena.parseTokens, Arena.parse_eq_error, feed, Script.ofFeed,
    applyTo_begun written accepts begun]
  simp [Script.faultAt, ends, ScriptFault.error]

/-- A fault that is not the end of the tokens is met whatever follows them, and whatever stands at the
end of that. -/
theorem fault_append {span : Span} {error : Error}
    (notEnd : ∀ token ∈ tokens, token.kind ≠ .none)
    (failed : ((Script.readFrom (.ok span) .directive [] tokens).applyTo
      (.start a scope source options)).2 = some error)
    (within : ¬ RunsOut options tokens) (stop : Except LexError Span) (more : List Token) :
    ((Script.readFrom stop .directive [] (tokens ++ more)).applyTo
      (.start a scope source options)).2 = some error := by
  rcases reads_or_faulty .directive tokens with ⟨statements, n, reads⟩ | faulty
  · rw [readFrom_all reads] at failed
    rw [readFrom_reads reads, List.append_nil]
    obtain ⟨others, begins⟩ := readFrom_seen stop n statements.reverse more
    rw [List.reverse_reverse] at begins
    cases applied : (Suite.start a scope source options).applyAll statements with
    | mk suite fault =>
      cases fault with
      | some fault =>
        simp only [Script.applyTo, applied] at failed
        simp only [Script.applyTo, begins, Suite.applyAll_append, applied]
        exact failed
      | none =>
        -- All statements are applied, so the tokens ended within one, against `within`.
        obtain ⟨done, rest, split, written, left⟩ := reads.written .directive notEnd
        have accepts := applies_iff_acceptable.mp ⟨suite, Suite.applies_iff.mpr applied⟩
        refine absurd ⟨done, rest, statements, n, split, written, accepts, left, ?_⟩ within
        rintro rfl
        simp only [Script.applyTo, applied] at failed
        cases failed
  · rw [Script.read_append faulty stop (.ok span)]
    exact failed

/-- A fault that is not the end of the tokens is the same whatever follows. -/
theorem error_append {error : Error} (notEnd : ∀ token ∈ tokens, token.kind ≠ .none)
    (failed : (a.parseTokens scope tokens source options).1 = .error error)
    (within : ¬ RunsOut options tokens) (more : List Token) :
    (a.parseTokens scope (tokens ++ more) source options).1 = .error error := by
  obtain ⟨span, feed⟩ := exists_feed source tokens
  obtain ⟨span', longer⟩ := exists_feed source (tokens ++ more)
  rw [heard_eq_self notEnd] at feed
  rw [heard_append notEnd] at longer
  rw [Arena.parseTokens, Arena.parse_eq_error, feed] at failed
  rw [Arena.parseTokens, Arena.parse_eq_error, longer]
  exact fault_append notEnd failed within (.ok span') (heard more)

/-- Tokens are accepted exactly if they write acceptable statements, and a fault is final unless the
tokens run out: it is the same whatever follows them. -/
theorem parseTokens_grammar (a : Arena) (scope : ScopeId) (source : String) (options : Options)
    (notEnd : ∀ token ∈ tokens, token.kind ≠ .none) :
    ((∃ records, (a.parseTokens scope tokens source options).1 = .ok records) ↔
        ∃ statements, Written tokens statements ∧ options.Accepts statements) ∧
      ∀ error, (a.parseTokens scope tokens source options).1 = .error error →
        ¬ RunsOut options tokens → ∀ more,
          (a.parseTokens scope (tokens ++ more) source options).1 = .error error :=
  ⟨accepts_iff notEnd, fun _ failed within more => error_append notEnd failed within more⟩

/-- A test with the name of the implicit one. -/
def namesakeTokens : List Token :=
  [⟨.directive, ".assert", ⟨"in", 1⟩⟩, ⟨.integer, "1", ⟨"in", 1⟩⟩, ⟨.symbol, "not", ⟨"in", 1⟩⟩,
    ⟨.assertEnd, ";", ⟨"in", 1⟩⟩, ⟨.directive, ".test", ⟨"in", 2⟩⟩, ⟨.symbol, "UNSET", ⟨"in", 2⟩⟩]

/-- It is refused under any continuation, and accepted where names need not be unique. -/
theorem parseTokens_grammar_namesakeTokens :
    (∀ token ∈ namesakeTokens, token.kind ≠ .none) ∧
      (∃ statements, Written namesakeTokens statements ∧
        ({ uniqueNames := false } : Options).Accepts statements) ∧
      ∀ more, (Arena.empty.parseTokens 0 (namesakeTokens ++ more) "in" {}).1 =
        .error (.parse ⟨.duplicateTestName "UNSET" ⟨"in", 0⟩, ⟨"in", 2⟩⟩) := by
  have notEnd : ∀ token ∈ namesakeTokens, token.kind ≠ .none := by decide
  refine ⟨notEnd, ?_, ?_⟩
  · have accepted : (Arena.empty.parseTokens 0 namesakeTokens "in"
        { uniqueNames := false }).1.isOk = true := by decide +kernel
    apply (parseTokens_grammar .empty 0 "in" { uniqueNames := false } notEnd).1.mp
    cases read : (Arena.empty.parseTokens 0 namesakeTokens "in" { uniqueNames := false }).1 with
    | ok records => exact ⟨records, rfl⟩
    | error error =>
      rw [read] at accepted
      cases accepted
  · have failed : (Arena.empty.parseTokens 0 namesakeTokens "in" {}).1 =
        .error (.parse ⟨.duplicateTestName "UNSET" ⟨"in", 0⟩, ⟨"in", 2⟩⟩) := by decide +kernel
    refine (parseTokens_grammar .empty 0 "in" {} notEnd).2 _ failed fun within => ?_
    obtain ⟨span, waiting, fault, ends, other⟩ := error_of_runsOut notEnd within
    rw [failed] at other
    cases other
    cases waiting <;> cases ends

end Tokens

end HttpSuite
