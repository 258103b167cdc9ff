import HttpSuite.Proofs.Directives.Reordering
import HttpSuite.Proofs.Lexing.Found

/-!
# What an accepted suite leaves in the arena

A suite adds one table for each of its records, below the scope that it is read in. Of the tables that
were there it writes to two, its scope and the root of that, and what these bind a symbol to is the
last value that the suite gives it there. Every other table is as it was (`Arena.Extended`).

* `Applies.names_eq`: the records are called what the tests are called.
* `Applies.extended`, `Applies.nodup_names`: the arena and the names after statements that can be
  applied.
* `parsed_leads`: the same for an accepted suite, whatever it is read from.
-/

namespace HttpSuite

/-- The arena `b` is `a` after records were read from statements in this scope. -/
structure Arena.Extended (a : Arena) (scope : ScopeId) (statements : List Statement)
    (records : List TestRecord) (b : Arena) : Prop where
  /-- All tables keep name and parent, and behind them there is a new one for each record. -/
  heads : b.heads = a.heads ++ records.map fun record => (record.name, some scope)
  numbers : records.map (·.scope) = List.range' a.size records.length
  untouched : ∀ d < a.size, d ≠ scope → d ≠ a.root scope → b.table? d = a.table? d
  /-- The last value counts, in the order of the statements also where the scope is its own root. -/
  bindings : ∀ d, d = scope ∨ d = a.root scope → ∀ symbol, b.binding? d symbol =
    (lastOf (·.outer? (a.root scope) scope d symbol) statements).or (a.binding? d symbol)

section Statements

variable {root scope d : ScopeId} {statement : Statement}

/-- Statements write to no other table from before than the scope and its root. -/
theorem outer?_eq_none (notScope : d ≠ scope) (notRoot : d ≠ root) (symbol : String) :
    statement.outer? root scope d symbol = none := by
  cases statement with
  | bind level =>
    cases level with
    | global => exact if_neg fun h => notRoot h.1.symm
    | parent => exact if_neg fun h => notScope h.1.symm
    | own => rfl
  | test | field | header | assertion => rfl

end Statements

namespace Suite

variable {a : Arena} {scope : ScopeId} {source : String} {options : Options} {suite next last : Suite}
  {statement : Statement} {statements : List Statement}

/-! ## Names -/

/-- Only a test adds a name, and no statement changes one. -/
theorem apply_names (ok : suite.apply statement = .ok next) :
    next.names = suite.names ++ (statement.title?.map (·.1)).toList := by
  cases statement with
  | test span name =>
    simp only [apply] at ok
    split at ok
    · cases ok
    · cases ok
      exact names_startTest span name
  | bind level symbol value =>
    cases ok
    exact (List.append_nil _).symm
  | field | header | assertion =>
    rcases apply_cases ok with ⟨_, _, ⟨⟩, _⟩ | ⟨_, _, _, ⟨⟩, _⟩ | ⟨request, assertions, rfl⟩
    simp [names, records, Statement.title?]

theorem Applies.names_eq (h : suite.Applies statements last) :
    last.names = suite.names ++ (statements.filterMap Statement.title?).map (·.1) := by
  induction h with
  | nil => exact (List.append_nil _).symm
  | @cons suite next last statement statements ok _ ih =>
    rw [ih, apply_names ok, List.append_assoc]
    cases title : statement.title? with
    | none => rw [List.filterMap_cons_none title]; rfl
    | some title' => rw [List.filterMap_cons_some title]; rfl

/-- Where names are to be unique, they are. -/
theorem Applies.nodup_names (h : (start a scope source options).Applies statements last)
    (unique : options.uniqueNames = true) : last.names.Nodup := by
  obtain ⟨first, others, cut, -⟩ := exists_cutBefore Statement.isTest statements
  have accepts : options.Accepts statements := applies_iff_acceptable.mp ⟨last, h⟩
  obtain ⟨nodup, free⟩ := ((acceptable_iff cut).mp accepts).1 unique
  have names : (start a scope source options).names = [options.implicitName] := rfl
  rw [h.names_eq, names, List.singleton_append, List.nodup_cons]
  refine ⟨fun mem => ?_, nodup⟩
  obtain ⟨title, among, same⟩ := List.mem_map.mp mem
  exact free title among (List.mem_singleton.mpr same)

/-! ## The arena -/

/-- The arena after statements that can be applied from the start of a suite. -/
theorem Applies.extended (hs : scope < a.size)
    (h : (start a scope source options).Applies statements last) :
    a.Extended scope statements last.records last.arena := by
  have holds := h.holds hs (start_holds hs source options)
  rw [List.nil_append] at holds
  have heads : last.arena.heads =
      a.heads ++ last.records.map fun record => (record.name, some scope) := by
    have names : last.names =
        options.implicitName :: (statements.filterMap Statement.title?).map (·.1) := h.names_eq
    have tables : (last.records.map fun record => (record.name, some scope)) =
        last.names.map (·, some scope) := by
      rw [Suite.names, List.map_map]
      rfl
    rw [holds.heads, tables, names, List.map_cons, List.map_map]
    rfl
  refine ⟨heads, (Applies.mirrors hs h).1, fun d hd notScope notRoot => ?_, fun d among symbol => ?_⟩
  · refine Arena.table?_congr ?_ fun symbol => ?_
    · rw [← Arena.heads_getElem?, ← Arena.heads_getElem?, heads,
        List.getElem?_append_left (a.length_heads ▸ hd)]
    · -- No statement binds in a table that is neither the scope nor its root.
      have silent : lastOf (·.outer? (a.root scope) scope d symbol) statements = none := by
        rw [lastOf, List.filterMap_eq_nil_iff.mpr fun _ _ => outer?_eq_none notScope notRoot symbol]
        rfl
      rw [holds.outer d hd symbol, silent, Option.none_or]
  · have hd : d < a.size := by
      rcases among with rfl | rfl
      · exact hs
      · exact Nat.lt_of_le_of_lt (a.root_le scope) hs
    exact holds.outer d hd symbol

end Suite

/-! ## Reading -/

/-- The tokens write statements, which make these records and lead from the arena `a` to `b`. -/
def Arena.Leads (a : Arena) (scope : ScopeId) (options : Options) (tokens : List Token)
    (records : List TestRecord) (b : Arena) : Prop :=
  ∃ statements, Written tokens statements ∧ a.Extended scope statements records b ∧
    (options.uniqueNames = true → (records.map (·.name)).Nodup)

section Reading

variable {a after : Arena} {scope : ScopeId} {source : String} {options : Options} {feed : Feed}
  {records : List TestRecord}

theorem Arena.parse_leads (hs : scope < a.size) (notEnd : ∀ token ∈ feed.tokens, token.kind ≠ .none)
    (parsed : a.parse scope source options feed = (.ok records, after)) :
    a.Leads scope options feed.tokens records after := by
  obtain ⟨last, clean, applies, rfl, rfl⟩ := parse_eq_ok.mp parsed
  exact ⟨_, (Feed.writes_of_fault notEnd clean).2, applies.extended hs, applies.nodup_names⟩

/-- The same for the reads of a source, which are read like the tokens of a lexer. -/
theorem Arena.parseReads_leads (hs : scope < a.size) {reads : List Read}
    (parsed : a.parseReads scope reads source options = (.ok records, after)) :
    a.Leads scope options ({ source, rest := reads, limit := options.lineLimit } : Lexer).tokens.1
      records after := by
  rw [Arena.parseReads, Feed.ofLexer_eq] at parsed
  exact parse_leads hs (fun token mem => (Lexer.tokens_found _ token mem).2.1) parsed

/-- What an accepted suite leaves in the arena, whatever it is read from: a new table for each record,
the last value of every symbol that it binds outside, and nothing else. -/
theorem parsed_leads (hs : scope < a.size) :
    (∀ tokens, a.parseTokens scope tokens source options = (.ok records, after) →
        a.Leads scope options (heard tokens) records after) ∧
      (∀ reads, a.parseReads scope reads source options = (.ok records, after) →
        a.Leads scope options
          ({ source, rest := reads, limit := options.lineLimit } : Lexer).tokens.1 records after) ∧
      (∀ text, a.parseText scope text source options = (.ok records, after) →
        a.Leads scope options
          ({ source, rest := Read.ofText text, limit := options.lineLimit } : Lexer).tokens.1
          records after) ∧
      ∀ path file, a.parseFile scope path file options = (.ok records, after) →
        ∃ reads, file = .ok reads ∧ a.Leads scope options
          ({ source := path, rest := reads, limit := options.lineLimit } : Lexer).tokens.1
          records after := by
  refine ⟨fun tokens parsed => ?_, fun reads => Arena.parseReads_leads hs,
    fun text => Arena.parseReads_leads hs, fun path file parsed => ?_⟩
  · obtain ⟨span, feed⟩ := exists_feed source tokens
    rw [Arena.parseTokens, feed] at parsed
    exact Arena.parse_leads hs heard_ne_none parsed
  · cases file with
    | error reason => cases parsed
    | ok reads => exact ⟨reads, rfl, Arena.parseReads_leads hs parsed⟩

/-- A global scope that binds two symbols, and another scope beside it. -/
def Arena.twoRoots : Arena :=
  (((empty.create "global" none).bind 0 "X" ⟨.string, "old", ⟨"other", 1⟩⟩).bind 0 "Z"
    ⟨.string, "kept", ⟨"other", 2⟩⟩).create "apart" none

/-- Bindings of one symbol at every level, read where the scope is its own root. -/
def levelsText : String :=
  ".parent X 1 .global X 2 .test T .local X 3\n.parent X 4 .global Y 5 .local X 6"

theorem parsed_leads_levelsText :
    0 < Arena.twoRoots.size ∧ ∃ records after,
      Arena.twoRoots.parseText 0 levelsText "in" {} = (.ok records, after) ∧
        after.size = 4 ∧ (records.map (·.name)).Nodup ∧
        after.table? 1 = Arena.twoRoots.table? 1 ∧
        after.binding? 0 "X" = some ⟨.integer, "4", ⟨"in", 2⟩⟩ ∧
        after.binding? 0 "Z" = some ⟨.string, "kept", ⟨"other", 2⟩⟩ := by
  have inside : 0 < Arena.twoRoots.size := by decide
  refine ⟨inside, ?_⟩
  have accepted : ((Arena.twoRoots.parseText 0 levelsText "in" {}).1.map List.length).toOption =
      some 2 := by decide +kernel
  let lexer : Lexer := { source := "in", rest := Read.ofText levelsText }
  have writes : (Feed.ofLexer lexer).Writes (Script.ofFeed (.ofLexer lexer)).statements :=
    Feed.writes_of_fault (by decide +kernel) (by decide +kernel)
  have tokens : (Feed.ofLexer lexer).tokens = lexer.tokens.1 := congrArg Feed.tokens (Feed.ofLexer_eq _)
  cases parsed : Arena.twoRoots.parseText 0 levelsText "in" {} with
  | mk result after =>
    rw [parsed] at accepted
    cases result with
    | error error => cases accepted
    | ok records =>
      obtain ⟨statements, written, extended, nodup⟩ := (parsed_leads inside).2.2.1 _ parsed
      obtain rfl := written.unique (tokens ▸ writes.2)
      have length : records.length = 2 := Option.some.inj accepted
      refine ⟨records, after, rfl, ?_, nodup rfl, ?_, ?_, ?_⟩
      · rw [← after.length_heads, extended.heads, List.length_append, List.length_map, length,
          Arena.length_heads]
        decide
      · exact extended.untouched 1 (by decide) (by decide) (by decide +kernel)
      · exact (extended.bindings 0 (.inl rfl) "X").trans (by decide +kernel)
      · exact (extended.bindings 0 (.inl rfl) "Z").trans (by decide +kernel)

end Reading

end HttpSuite
