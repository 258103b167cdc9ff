import HttpSuite.Proofs.Reformat.Replay
import HttpSuite.Proofs.Reformat.Reread

/-!
# Reading canonical text again

A suite that was read from a text is written as canonical text and read again, in the same arena and
from a source of the same name. Reading gives the same suite on other lines, with one exception: shell
commands in a row within an assertion. They can be kept apart by a comment, which canonical text does
not have, so they are read as one, and the assertion no longer comes to one value.

* `reads_again`, `not_reads_again`: the two cases for a regular suite.
* `reads_again_iff`: canonical text is read as the suite it was written from exactly if no assertion has
  shell commands in a row.
* `canonicalText_normal`: then writing the suite once more gives the same text, and all records evaluate
  to the same.
-/

namespace HttpSuite

open Word

/-! ## The statements of a suite -/

section Statements

variable {a : Arena} {scope : ScopeId} {source : String} {options : Options} {suite : Suite}

/-- A binding statement is from the source unless the binding was there before. -/
theorem Arena.Grown.binding_from {b : Arena} {level : Level} {d : ScopeId} {statement : Statement}
    (h : a.Grown scope source b) (hs : statement ∈ bindingStatements b level d)
    (new : ∀ symbol token, statement = .bind level symbol token →
      a.binding? d symbol ≠ some token) : statement.From source := by
  obtain ⟨⟨symbol, token⟩, hm, rfl⟩ := List.mem_map.mp hs
  have bound := mem_bindings_iff.mp hm
  rcases h.bindings d symbol with same | ⟨token', bound', named, value, -⟩
  · exact absurd (same.symm.trans bound) (new symbol token rfl)
  · rw [bound] at bound'
    cases bound'
    exact ⟨named, value⟩

theorem TestRecord.From.fieldStatement {record : TestRecord} (h : record.From source)
    (f : RequestField) : ∀ statement ∈ record.fieldStatement f, statement.From source := by
  intro statement hs
  unfold TestRecord.fieldStatement at hs
  cases found : record.request.field? f with
  | none =>
    rw [found] at hs
    cases hs
  | some token =>
    rw [found] at hs
    obtain rfl := List.mem_singleton.mp hs
    exact h.fields f token found

namespace Suite

/-- The statements of a record are from the source. -/
theorem Regular.statements_from {record : TestRecord} (h : suite.Regular a scope source options)
    (hr : record ∈ suite.records) :
    a.size ≤ record.scope ∧ record.span.source = source ∧
      ∀ statement ∈ record.statements suite.arena, statement.From source := by
  have contents := h.contents record hr
  obtain ⟨i, hi⟩ := List.getElem?_of_mem hr
  obtain ⟨number, source_eq, -⟩ := h.tests i record.blank (by simp [blanks, hi])
  have past : a.size ≤ record.scope := by
    have : record.scope = a.size + i := number
    exact this ▸ Nat.le_add_right ..
  have absent : ∀ symbol, a.binding? record.scope symbol = none := by
    intro symbol
    rw [Arena.binding?, Arena.table?_eq_none past]
    rfl
  refine ⟨past, source_eq, ?_⟩
  intro statement hs
  simp only [TestRecord.statements, List.mem_append, List.mem_map, List.mem_flatMap] at hs
  rcases hs with (((hs | ⟨f, -, hs⟩) | ⟨e, he, rfl⟩) | hs) | ⟨assertion, ha, rfl⟩
  · exact h.grown.binding_from hs fun symbol token _ eq => by simp [absent] at eq
  · exact contents.fieldStatement f statement hs
  · exact (contents.headers e he).2.2
  · exact contents.fieldStatement .body statement hs
  · exact contents.assertions assertion ha

theorem Regular.outerStatements_from {record : TestRecord} {statement : Statement}
    (foreign : a.Foreign source) (h : suite.Regular a scope source options)
    (source_eq : record.span.source = source)
    (hs : statement ∈ record.outerStatements suite.arena) : statement.From source := by
  -- Of the outer bindings only those from the source are written, and none of these was there before.
  have new : ∀ {level d}, statement ∈ bindingStatements suite.arena level d →
      statement.bindsFrom source = true → statement.From source := by
    intro level d hs own
    refine h.grown.binding_from hs fun symbol token eq bound => foreign d symbol token bound ?_
    subst eq
    exact beq_iff_eq.mp own
  unfold TestRecord.outerStatements at hs
  split at hs
  · cases hs
  · obtain ⟨hs, own⟩ := List.mem_filter.mp hs
    rw [source_eq] at own
    rcases List.mem_append.mp hs with hs | hs
    · split at hs
      · cases hs
      · exact new hs own
    · exact new hs own

/-- All statements that the records are written as are from the source. -/
theorem Regular.suiteStatements_from (foreign : a.Foreign source)
    (h : suite.Regular a scope source options) :
    ∀ statement ∈ suiteStatements suite.arena suite.records, statement.From source := by
  have tests : ∀ record ∈ suite.records, ∀ statement ∈ record.testStatements suite.arena,
      statement.From source := fun record hr =>
    have ⟨_, source_eq, statements⟩ := h.statements_from hr
    List.forall_mem_cons.mpr ⟨source_eq, statements⟩
  cases records : suite.records with
  | nil => simp [suiteStatements]
  | cons first rest =>
    have hf : first ∈ suite.records := records ▸ List.mem_cons_self
    obtain ⟨-, source_eq, statements⟩ := h.statements_from hf
    intro statement hs
    rcases List.mem_append.mp hs with hs | hs
    · rcases List.mem_append.mp hs with hs | hs
      · exact h.outerStatements_from foreign source_eq hs
      · exact statements statement hs
    · obtain ⟨record, hr, hs⟩ := List.mem_flatMap.mp hs
      exact tests record (records ▸ List.mem_cons_of_mem first hr) statement hs

end Suite

end Statements

/-! ## Reading again -/

section Again

variable {a : Arena} {scope : ScopeId} {source : String} {options : Options} {suite : Suite}

/-- The feed of canonical text says the words of the statements. -/
theorem feed_canonicalText {b : Arena} {records : List TestRecord} {limit : Nat}
    (preamble : ∀ record ∈ records.head?, record.span.line = 0)
    (from_ : ∀ statement ∈ suiteStatements b records, statement.From source)
    (within : LinesWithin limit (canonicalText b records)) :
    ∃ tokens span, Feed.ofLexer { source, rest := Read.ofText (canonicalText b records), limit } =
        ⟨tokens, .ok span⟩ ∧
      Says source tokens (merged ((suiteStatements b records).flatMap Statement.words)) :=
  feed_of_spells source (spells_canonicalText preamble from_) within

theorem Suite.Regular.preamble (h : suite.Regular a scope source options) :
    ∀ record ∈ suite.records.head?, record.span.line = 0 := by
  intro record hr
  have first := h.first
  rw [Suite.blanks, List.head?_map, hr] at first
  exact congrArg (·.span.line) (Option.some.inj first)

/-- Without shell commands in a row, canonical text is read as the suite it was written from. -/
theorem reads_again (hs : scope < a.size) (foreign : a.Foreign source)
    (h : suite.Regular a scope source options)
    (within : LinesWithin options.lineLimit (canonicalText suite.arena suite.records))
    (apart : ∀ statement ∈ suiteStatements suite.arena suite.records, statement.ShellsApart) :
    ∃ last : Suite, last.Regular a scope source options ∧
      a.parseText scope (canonicalText suite.arena suite.records) source options =
        (.ok last.records, last.arena) ∧
      last.records.map TestRecord.lineless = suite.records.map TestRecord.lineless ∧
      last.arena.lineless = suite.arena.lineless := by
  have from_ := h.suiteStatements_from foreign
  -- The text says the words of the statements, and they are read as these, on other lines.
  obtain ⟨tokens, span, feed, said⟩ := feed_canonicalText h.preamble from_ within
  obtain ⟨again, same, script⟩ := readFrom_merged span [] from_ apart said
  -- The statements themselves lead to the suite, so those that were read lead to one like it.
  obtain ⟨replayed, applies, records, arena⟩ := Suite.replay_suite hs h
  obtain ⟨last, applies', alike⟩ := applies.lineless rfl same
  let lexer : Lexer := {
    source, rest := Read.ofText (canonicalText suite.arena suite.records)
    limit := options.lineLimit }
  have read : Script.ofFeed (.ofLexer lexer) = ⟨again, none⟩ := by
    rw [feed, Script.ofFeed, script]
    rfl
  have regular : last.Regular a scope source options := by
    refine applies'.regular hs (Suite.start_regular hs source options) ?_
    intro statement hm
    refine ofLexer_from lexer statement ?_
    rw [read]
    exact hm
  have applied : (Suite.start a scope source options).Applies
      (Script.ofFeed (.ofLexer lexer)).statements last := by
    rw [read]
    exact applies'
  refine ⟨last, regular, Arena.parse_eq_ok.mpr ⟨last, congrArg Script.fault read, applied, rfl, rfl⟩,
    ?_, ?_⟩
  · have := congrArg Suite.records alike
    rwa [Suite.records_lineless, Suite.records_lineless, records] at this
  · have : last.arena.lineless = replayed.arena.lineless := congrArg Suite.arena alike
    rwa [arena] at this

/-- With shell commands in a row, canonical text is not read at all. -/
theorem not_reads_again (foreign : a.Foreign source) (h : suite.Regular a scope source options)
    (within : LinesWithin options.lineLimit (canonicalText suite.arena suite.records))
    (joined : ¬ ∀ statement ∈ suiteStatements suite.arena suite.records, statement.ShellsApart)
    (records : List TestRecord) (after : Arena) :
    a.parseText scope (canonicalText suite.arena suite.records) source options ≠
      (.ok records, after) := by
  intro parsed
  have from_ := h.suiteStatements_from foreign
  obtain ⟨tokens, span, feed, said⟩ := feed_canonicalText h.preamble from_ within
  obtain ⟨fault, script⟩ := readFrom_merged_fault (.ok span) [] from_ joined said
  obtain ⟨last, none, -⟩ := Arena.parse_eq_ok.mp parsed
  rw [feed, Script.ofFeed, script] at none
  cases none

end Again

/-! ## Suites that were read from a text -/

/-- The limit on lines has no part in what a suite looks like. -/
theorem Suite.Regular.withLimit {a : Arena} {scope : ScopeId} {source : String} {options : Options}
    {suite : Suite} (h : suite.Regular a scope source options) (limit : Nat) :
    { suite with options := { options with lineLimit := limit } }.Regular a scope source
      { options with lineLimit := limit } :=
  ⟨h.scope_eq, rfl, h.grown, h.size_eq, h.tests, h.first, h.unique, h.contents⟩

theorem bindingStatements_shellsApart {b : Arena} {level : Level} {d : ScopeId} :
    ∀ statement ∈ bindingStatements b level d, statement.ShellsApart := by
  intro statement hs
  obtain ⟨e, -, rfl⟩ := List.mem_map.mp hs
  trivial

theorem outerStatements_shellsApart {b : Arena} {record : TestRecord} :
    ∀ statement ∈ record.outerStatements b, statement.ShellsApart := by
  intro statement hs
  unfold TestRecord.outerStatements at hs
  split at hs
  · cases hs
  · rcases List.mem_append.mp (List.mem_filter.mp hs).1 with hs | hs
    · split at hs
      · cases hs
      · exact bindingStatements_shellsApart statement hs
    · exact bindingStatements_shellsApart statement hs

/-- Of the statements of a record, only the assertions can have shell commands in a row. -/
theorem statements_shellsApart {b : Arena} {record : TestRecord} :
    (∀ statement ∈ record.statements b, statement.ShellsApart) ↔
      ∀ assertion ∈ record.assertions, assertion.ShellsApart := by
  constructor
  · intro h assertion ha
    exact h (.assertion assertion) (List.mem_append_right _ (List.mem_map_of_mem ha))
  · intro h statement hs
    have field : ∀ f, ∀ statement ∈ record.fieldStatement f, statement.ShellsApart := by
      intro f statement hs
      unfold TestRecord.fieldStatement at hs
      split at hs
      · obtain rfl := List.mem_singleton.mp hs
        trivial
      · cases hs
    simp only [TestRecord.statements, List.mem_append, List.mem_map, List.mem_flatMap] at hs
    rcases hs with (((hs | ⟨f, -, hs⟩) | ⟨e, -, rfl⟩) | hs) | ⟨assertion, ha, rfl⟩
    · exact bindingStatements_shellsApart statement hs
    · exact field f statement hs
    · trivial
    · exact field .body statement hs
    · exact h assertion ha

theorem suiteStatements_shellsApart {b : Arena} {records : List TestRecord} :
    (∀ statement ∈ suiteStatements b records, statement.ShellsApart) ↔
      ∀ record ∈ records, ∀ assertion ∈ record.assertions, assertion.ShellsApart := by
  cases records with
  | nil => simp [suiteStatements]
  | cons first rest =>
    simp only [suiteStatements, List.forall_mem_append, List.forall_mem_cons,
      statements_shellsApart]
    constructor
    · rintro ⟨⟨-, preamble⟩, tests⟩
      refine ⟨preamble, fun record hr =>
        (statements_shellsApart (b := b)).mp fun statement hs => ?_⟩
      exact tests statement (List.mem_flatMap.mpr ⟨record, hr, List.mem_cons_of_mem _ hs⟩)
    · rintro ⟨preamble, tests⟩
      refine ⟨⟨outerStatements_shellsApart, preamble⟩, ?_⟩
      intro statement hs
      obtain ⟨record, hr, hs⟩ := List.mem_flatMap.mp hs
      rcases List.mem_cons.mp hs with rfl | hs
      · trivial
      · exact statements_shellsApart.mpr (tests record hr) statement hs

namespace Arena

variable {a after : Arena} {scope : ScopeId} {text source : String} {options : Options}
  {records : List TestRecord} {limit : Nat}

theorem parseText_regular (hs : scope < a.size)
    (parsed : a.parseText scope text source options = (.ok records, after)) :
    ∃ suite : Suite, suite.Regular a scope source options ∧ suite.records = records ∧
      suite.arena = after := by
  obtain ⟨last, -, applies, rfl, rfl⟩ := parse_eq_ok.mp parsed
  exact ⟨last, applies.regular hs (Suite.start_regular hs source options) (ofLexer_from _), rfl, rfl⟩

/-- A suite scope without bindings, under a global scope. -/
def nested : Arena := (empty.create "global" none).create "suite" (some 0)

theorem nested_foreign (source : String) : nested.Foreign source := by
  intro s symbol token bound
  rw [nested, binding?_create, binding?_create, binding?, table?_eq_none (Nat.zero_le s)] at bound
  cases bound

/-- The canonical text of what was read, if it was read. -/
def rewritten (result : Except Error (List TestRecord) × Arena) : Option String :=
  match result with
  | (.ok records, after) => some (canonicalText after records)
  | (.error _, _) => none

theorem rewritten_eq_some {result : Except Error (List TestRecord) × Arena} {text : String} :
    rewritten result = some text ↔
      ∃ records after, result = (.ok records, after) ∧ canonicalText after records = text := by
  unfold rewritten
  split
  · next records after =>
    simp only [Option.some.injEq, Prod.mk.injEq, Except.ok.injEq]
    exact ⟨fun h => ⟨records, after, ⟨rfl, rfl⟩, h⟩, fun ⟨_, _, ⟨rfl, rfl⟩, h⟩ => h⟩
  · simp

/-- A suite with a binding, a comment, a body of two parts and an assertion. -/
def sample : String :=
  ".parent X `pwd` # c\n.test a .uri X .body 'in ' .body X .assert X `b` eq ;"

/-- The sample as it is written. -/
def sampleText : String :=
  ".parent X `pwd`\n\n.test a\n.uri X\n.body 'in \x7b\x7bX\x7d\x7d'\n.assert X `b` eq ;\n"

theorem rewritten_sample :
    ∃ records after, nested.parseText 1 sample "in" {} = (.ok records, after) ∧
      canonicalText after records = sampleText :=
  rewritten_eq_some.mp (by decide +kernel)

/-- Canonical text is read as the suite it was written from, on other lines, exactly if no assertion has
shell commands in a row. -/
theorem reads_again_iff (hs : scope < a.size) (foreign : a.Foreign source)
    (parsed : a.parseText scope text source options = (.ok records, after))
    (within : LinesWithin limit (canonicalText after records)) :
    (∃ again after', a.parseText scope (canonicalText after records) source
        { options with lineLimit := limit } = (.ok again, after') ∧
      again.map TestRecord.lineless = records.map TestRecord.lineless ∧
      after'.lineless = after.lineless) ↔
    ∀ record ∈ records, ∀ assertion ∈ record.assertions, assertion.ShellsApart := by
  obtain ⟨suite, regular, rfl, rfl⟩ := parseText_regular hs parsed
  have regular := regular.withLimit limit
  rw [← suiteStatements_shellsApart (b := suite.arena)]
  constructor
  · rintro ⟨again, after', read, -⟩
    exact Classical.byContradiction fun joined =>
      not_reads_again foreign regular within joined again after' read
  · intro apart
    obtain ⟨last, -, read, same, same'⟩ := reads_again hs foreign regular within apart
    exact ⟨last.records, last.arena, read, same, same'⟩

theorem reads_again_iff_sample :
    ∃ records after, nested.parseText 1 sample "in" {} = (.ok records, after) ∧
      LinesWithin 20 (canonicalText after records) ∧
      ((∃ again after', nested.parseText 1 (canonicalText after records) "in" { lineLimit := 20 } =
          (.ok again, after') ∧ again.map TestRecord.lineless = records.map TestRecord.lineless ∧
          after'.lineless = after.lineless) ↔
        ∀ record ∈ records, ∀ assertion ∈ record.assertions, assertion.ShellsApart) := by
  obtain ⟨records, after, parsed, text⟩ := rewritten_sample
  have within : LinesWithin 20 (canonicalText after records) := by
    rw [text]
    decide
  exact ⟨records, after, parsed, within,
    reads_again_iff (by decide) (nested_foreign "in") parsed within⟩

/-- Two shell commands in a row, kept apart by a comment. -/
theorem not_reads_again_comment :
    ∃ records after, nested.parseText 1 ".assert `a` # c\n`b` eq ;\n" "in" {} = (.ok records, after) ∧
      (nested.parseText 1 (canonicalText after records) "in" {}).1 =
        .error (.parse ⟨.malformedAssertion (.underflow .eq ⟨"in", 1⟩), ⟨"in", 1⟩⟩) := by
  have written : rewritten (nested.parseText 1 ".assert `a` # c\n`b` eq ;\n" "in" {}) =
      some ".assert `a` `b` eq ;\n" := by decide +kernel
  obtain ⟨records, after, parsed, text⟩ := rewritten_eq_some.mp written
  refine ⟨records, after, parsed, ?_⟩
  rw [text]
  decide +kernel

/-- Canonical text is a normal form: what is read from it is written as the same text and evaluates to
the same, if no assertion has shell commands in a row. -/
theorem canonicalText_normal (hs : scope < a.size) (foreign : a.Foreign source)
    (parsed : a.parseText scope text source options = (.ok records, after))
    (within : LinesWithin limit (canonicalText after records))
    (apart : ∀ record ∈ records, ∀ assertion ∈ record.assertions, assertion.ShellsApart) :
    ∃ again after', a.parseText scope (canonicalText after records) source
        { options with lineLimit := limit } = (.ok again, after') ∧
      canonicalText after' again = canonicalText after records ∧
      again.map (fun record => (record.evaluate after').lineless) =
        records.map (fun record => (record.evaluate after).lineless) := by
  obtain ⟨suite, regular, rfl, rfl⟩ := parseText_regular hs parsed
  have regular := regular.withLimit limit
  obtain ⟨last, regular', read, same, same'⟩ := reads_again hs foreign regular within
    (suiteStatements_shellsApart.mpr apart)
  exact ⟨last.records, last.arena, read,
    canonicalText_congr same' same regular.preamble regular'.preamble, evaluate_congr same' same⟩

theorem canonicalText_normal_sample :
    ∃ records after, nested.parseText 1 sample "in" {} = (.ok records, after) ∧
      LinesWithin 20 (canonicalText after records) ∧
      (∀ record ∈ records, ∀ assertion ∈ record.assertions, assertion.ShellsApart) ∧
      ∃ again after', nested.parseText 1 (canonicalText after records) "in" { lineLimit := 20 } =
          (.ok again, after') ∧
        canonicalText after' again = canonicalText after records ∧
        again.map (fun record => (record.evaluate after').lineless) =
          records.map (fun record => (record.evaluate after).lineless) := by
  have checked : (nested.parseText 1 sample "in" {}).1.toOption.all (fun records =>
      decide (∀ record ∈ records, ∀ assertion ∈ record.assertions, assertion.ShellsApart)) = true := by
    decide +kernel
  obtain ⟨records, after, parsed, text⟩ := rewritten_sample
  rw [parsed] at checked
  have apart : ∀ record ∈ records, ∀ assertion ∈ record.assertions, assertion.ShellsApart :=
    of_decide_eq_true checked
  have within : LinesWithin 20 (canonicalText after records) := by
    rw [text]
    decide
  exact ⟨records, after, parsed, within, apart,
    canonicalText_normal (by decide) (nested_foreign "in") parsed within apart⟩

end Arena

end HttpSuite
