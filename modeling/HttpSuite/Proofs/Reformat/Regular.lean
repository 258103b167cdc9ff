import HttpSuite.Proofs.Lineless
import HttpSuite.Proofs.Reformat.Words

/-!
# What a suite looks like while it is read

`Suite.Regular` describes every suite that statements of a source lead to from its start: one table
for each record, past the tables that were there; new bindings from the source, in the scope of the
suite, in its root or past the old tables; records whose values are from the source.

* `Grown.create`, `Grown.bind`: the two writes of an arena.
* `Regular.apply`, `Applies.regular`: one statement, and any number of them.
-/

namespace HttpSuite

/-! ## Arenas -/

/-- The name and the parent of a table. -/
def Table.head (table : Table) : String × Option ScopeId := (table.name, table.parent)

/-- Tables with the same head and the same bindings are the same. -/
theorem Arena.table?_congr {a b : Arena} {d : ScopeId}
    (heads : (b.table? d).map Table.head = (a.table? d).map Table.head)
    (bindings : ∀ symbol, b.binding? d symbol = a.binding? d symbol) : b.table? d = a.table? d := by
  cases ha : a.table? d with
  | none =>
    rw [ha] at heads
    exact Option.map_eq_none_iff.mp heads
  | some old =>
    rw [ha] at heads
    obtain ⟨new, hb, head⟩ := Option.map_eq_some_iff.mp heads
    have same : new.bindings = old.bindings := by
      apply KeyMap.ext_get?
      intro symbol
      have := bindings symbol
      rwa [binding?, binding?, ha, hb] at this
    rw [hb]
    obtain ⟨name, parent, map⟩ := new
    obtain ⟨name', parent', map'⟩ := old
    obtain ⟨rfl, rfl⟩ := Prod.mk.inj head
    exact congrArg (fun m => some (Table.mk name parent m)) same

/-- The arena `b` is `a` with more tables and with more bindings: those of a suite that is read from
the source in this scope. -/
structure Arena.Grown (a : Arena) (scope : ScopeId) (source : String) (b : Arena) : Prop where
  size_le : a.size ≤ b.size
  heads : ∀ d < a.size, (b.table? d).map Table.head = (a.table? d).map Table.head
  bindings : ∀ d symbol, b.binding? d symbol = a.binding? d symbol ∨
    ∃ token, b.binding? d symbol = some token ∧ isSymbol symbol = true ∧ token.ValueFrom source ∧
      (d = scope ∨ d = a.root scope ∨ a.size ≤ d)

namespace Arena.Grown

variable {a b : Arena} {scope : ScopeId} {source : String}

theorem refl (a : Arena) (scope : ScopeId) (source : String) : a.Grown scope source a :=
  ⟨Nat.le_refl _, fun _ _ => rfl, fun _ _ => .inl rfl⟩

theorem parent?_eq (h : a.Grown scope source b) {d : ScopeId} (hd : d < a.size) :
    b.parent? d = a.parent? d := by
  have heads := h.heads d hd
  unfold parent?
  cases hb : b.table? d <;> cases ha : a.table? d <;> simp_all [Table.head]

theorem root_eq (h : a.Grown scope source b) {s : ScopeId} (hs : s < a.size) :
    b.root s = a.root s := by
  have chain : b.chain s = a.chain s :=
    chain_congr_of_le fun d le => h.parent?_eq (Nat.lt_of_le_of_lt le hs)
  simp only [root, chain]

theorem create (h : a.Grown scope source b) (name : String) (parent : Option ScopeId) :
    a.Grown scope source (b.create name parent) where
  size_le := by
    rw [size_create]
    exact Nat.le_succ_of_le h.size_le
  heads d hd := by
    rw [table?_create, if_neg (Nat.ne_of_lt (Nat.lt_of_lt_of_le hd h.size_le))]
    exact h.heads d hd
  bindings d symbol := by
    rw [binding?_create]
    exact h.bindings d symbol

theorem bind (h : a.Grown scope source b) {s : ScopeId} {symbol : String} {token : Token}
    (hs : s = scope ∨ s = a.root scope ∨ a.size ≤ s) (hsymbol : isSymbol symbol = true)
    (value : token.ValueFrom source) : a.Grown scope source (b.bind s symbol token) where
  size_le := by
    rw [size_bind]
    exact h.size_le
  heads d hd := by
    rw [table?_bind, ← h.heads d hd]
    split
    · cases b.table? d <;> rfl
    · rfl
  bindings d other := by
    by_cases inside : s < b.size
    · rw [binding?_bind inside]
      split
      · next eq =>
        obtain ⟨rfl, rfl⟩ := eq
        exact .inr ⟨token, rfl, hsymbol, value, hs⟩
      · exact h.bindings d other
    · have same : b.bind s symbol token = b := by
        apply ext_table?
        intro d
        rw [table?_bind]
        split
        · next eq =>
          rw [← eq, table?_eq_none (Nat.le_of_not_lt inside)]
          rfl
        · rfl
      rw [same]
      exact h.bindings d other

end Arena.Grown

/-! ## Records -/

/-- The record as it is created, without what was set later. -/
def TestRecord.blank (record : TestRecord) : TestRecord where
  name := record.name
  span := record.span
  scope := record.scope

/-- What was set in the record is from the source. -/
structure TestRecord.From (source : String) (record : TestRecord) : Prop where
  fields : ∀ f token, record.request.field? f = some token → token.ValueFrom source
  headers : ∀ e ∈ record.request.headers.entries,
    e.1 = lowerCase e.2.name ∧ isHeaderName e.2.name = true ∧ e.2.value.ValueFrom source
  assertions : ∀ assertion ∈ record.assertions, assertion.From source
  response : record.response = {}

namespace TestRecord.From

variable {source : String} {record : TestRecord} {token : Token}

theorem of_blank (record : TestRecord) : record.blank.From source where
  fields f token h := by cases f <;> cases h
  headers _ h := by cases h
  assertions _ h := by cases h
  response := rfl

theorem putField (h : record.From source) (f : RequestField) (value : token.ValueFrom source) :
    { record with request := record.request.setField f token }.From source where
  fields other found hf := by
    rw [Request.field?_setField] at hf
    split at hf
    · exact Option.some.inj hf ▸ value
    · exact h.fields other found hf
  headers := by
    rw [Request.headers_setField]
    exact h.headers
  assertions := h.assertions
  response := h.response

theorem growBody {grown : Token} (h : record.From source) (value : token.ValueFrom source)
    (ok : growBody record.request.body token = .ok grown) : grown.ValueFrom source := by
  cases hb : record.request.body with
  | none =>
    rw [hb] at ok
    cases ok
    exact value
  | some body =>
    have old := h.fields .body body hb
    rw [hb] at ok
    have span : grown.span = body.span := growBody_span ok
    have source_eq : grown.span.source = source := span ▸ old.source_eq
    obtain ⟨kind, text, place⟩ := grown
    rcases growBody_kind ok with rfl | rfl <;> exact ⟨rfl, trivial, source_eq⟩

theorem putHeader {name : String} (h : record.From source) (named : isHeaderName name = true)
    (value : token.ValueFrom source) :
    { record with request := { record.request with
        headers := record.request.headers.put ⟨name, token⟩ } }.From source where
  fields f found hf := h.fields f found (by cases f <;> exact hf)
  headers e he := by
    rcases KeyMap.mem_entries_insert he with rfl | he
    · exact ⟨rfl, named, value⟩
    · exact h.headers e he
  assertions := h.assertions
  response := h.response

end TestRecord.From

/-! ## Suites -/

namespace Suite

/-- Every record so far, as it was created. -/
def blanks (suite : Suite) : List TestRecord := suite.records.map TestRecord.blank

/-- The suite is what statements of the source make of its start in the arena `a`. -/
structure Regular (a : Arena) (scope : ScopeId) (source : String) (options : Options)
    (suite : Suite) : Prop where
  scope_eq : suite.scope = scope
  options_eq : suite.options = options
  grown : a.Grown scope source suite.arena
  size_eq : suite.arena.size = a.size + suite.blanks.length
  tests : ∀ i record, suite.blanks[i]? = some record →
    record.scope = a.size + i ∧ record.span.source = source ∧
      ∃ bindings, suite.arena.table? (a.size + i) = some ⟨record.name, some scope, bindings⟩
  first : suite.blanks.head? =
    some { name := options.implicitName, span := ⟨source, 0⟩, scope := a.size }
  unique : options.uniqueNames = true → (suite.blanks.map (·.name)).Nodup
  contents : ∀ record ∈ suite.records, record.From source

variable {a : Arena} {scope : ScopeId} {source : String} {options : Options}
  {suite next last : Suite} {statement : Statement} {statements : List Statement}

theorem table?_create_size (b : Arena) (name : String) (hs : scope < b.size) :
    (b.create name (some scope)).table? b.size = some ⟨name, some scope, .empty⟩ := by
  rw [Arena.table?_create, if_pos rfl, Option.filter_some, if_pos (decide_eq_true hs)]

theorem start_regular (hs : scope < a.size) (source : String) (options : Options) :
    (start a scope source options).Regular a scope source options where
  scope_eq := rfl
  options_eq := rfl
  grown := (Arena.Grown.refl a scope source).create _ _
  size_eq := Arena.size_create ..
  tests i record h := by
    cases i with
    | zero =>
      cases h
      exact ⟨rfl, rfl, _, table?_create_size a _ hs⟩
    | succ i => cases h
  first := rfl
  unique _ := by simp [blanks, records, start]
  contents record h := by
    obtain rfl := List.mem_singleton.mp h
    exact TestRecord.From.of_blank (TestRecord.create a options.implicitName ⟨source, 0⟩ (some scope)).1

/-- The scope of the current record is past the old tables. -/
theorem Regular.le_current (h : suite.Regular a scope source options) :
    a.size ≤ suite.current.scope := by
  have last : suite.blanks[suite.finished.toList.length]? = some suite.current.blank := by
    simp [blanks, records]
  obtain ⟨eq, -⟩ := h.tests _ _ last
  have same : suite.current.scope = a.size + suite.finished.toList.length := eq
  exact same ▸ Nat.le_add_right ..

theorem blanks_setCurrent {current : TestRecord} (h : current.blank = suite.current.blank) :
    { suite with current }.blanks = suite.blanks := by
  simp [blanks, records, h]

theorem Regular.setCurrent {current : TestRecord} (h : suite.Regular a scope source options)
    (blank : current.blank = suite.current.blank) (contents : current.From source) :
    { suite with current }.Regular a scope source options := by
  have same := blanks_setCurrent blank
  refine ⟨h.scope_eq, h.options_eq, h.grown, ?_, ?_, ?_, ?_, fun record hr => ?_⟩
  · rw [same]
    exact h.size_eq
  · rw [same]
    exact h.tests
  · rw [same]
    exact h.first
  · rw [same]
    exact h.unique
  · rcases List.mem_append.mp hr with hr | hr
    · exact h.contents record (List.mem_append_left _ hr)
    · exact List.mem_singleton.mp hr ▸ contents

theorem records_startTest (suite : Suite) (span : Span) (name : String) :
    (suite.startTest span name).records =
      suite.records ++ [{ name, span, scope := suite.arena.size }] := by
  simp [records, startTest, TestRecord.create]

theorem blanks_startTest (suite : Suite) (span : Span) (name : String) :
    (suite.startTest span name).blanks =
      suite.blanks ++ [{ name, span, scope := suite.arena.size }] := by
  rw [blanks, records_startTest, List.map_append]
  rfl

/-- The new test has the last table, and the others keep theirs. -/
theorem Regular.tests_startTest {span : Span} {name : String} (hs : scope < a.size)
    (h : suite.Regular a scope source options) (from_ : span.source = source) (i : Nat)
    (record : TestRecord) (hr : (suite.startTest span name).blanks[i]? = some record) :
    record.scope = a.size + i ∧ record.span.source = source ∧
      ∃ bindings, (suite.startTest span name).arena.table? (a.size + i) =
        some ⟨record.name, some scope, bindings⟩ := by
  have inside : scope < suite.arena.size := Nat.lt_of_lt_of_le hs h.grown.size_le
  have create : (suite.startTest span name).arena = suite.arena.create name (some scope) := by
    rw [← h.scope_eq]
    rfl
  rw [create, Arena.table?_create]
  rw [blanks_startTest] at hr
  by_cases hi : i < suite.blanks.length
  · rw [List.getElem?_append_left hi] at hr
    obtain ⟨number, place, table⟩ := h.tests i record hr
    have before : ¬ a.size + i = suite.arena.size := by
      rw [h.size_eq]
      omega
    rw [if_neg before]
    exact ⟨number, place, table⟩
  · rw [List.getElem?_append_right (Nat.le_of_not_lt hi)] at hr
    have index : i = suite.blanks.length := by
      have := (List.getElem?_eq_some_iff.mp hr).1
      simp only [List.length_singleton] at this
      omega
    subst index
    rw [Nat.sub_self] at hr
    cases hr
    rw [if_pos h.size_eq.symm, ← h.size_eq]
    have table := table?_create_size suite.arena name inside
    rw [Arena.table?_create, if_pos rfl] at table
    exact ⟨rfl, from_, _, table⟩

theorem Regular.startTest {span : Span} {name : String} (hs : scope < a.size)
    (h : suite.Regular a scope source options) (from_ : span.source = source)
    (fresh : suite.namesake? name = none) :
    (suite.startTest span name).Regular a scope source options := by
  refine ⟨h.scope_eq, h.options_eq, h.grown.create _ _, ?_, h.tests_startTest hs from_, ?_,
    fun u => ?_, fun record hr => ?_⟩
  · rw [blanks_startTest, List.length_append]
    exact (Arena.size_create ..).trans (congrArg (· + 1) h.size_eq)
  · rw [blanks_startTest, List.head?_append, h.first]
    rfl
  · have unused := namesake?_eq_none.mp fresh (h.options_eq ▸ u)
    rw [blanks_startTest, List.map_append]
    refine List.nodup_append.mpr ⟨h.unique u, by simp, ?_⟩
    intro x hx y hy eq
    obtain ⟨b, hb, rfl⟩ := List.mem_map.mp hx
    obtain ⟨record, hr, rfl⟩ := List.mem_map.mp hb
    exact unused record hr (eq.trans (List.mem_singleton.mp hy))
  · rw [records_startTest] at hr
    rcases List.mem_append.mp hr with hr | hr
    · exact h.contents record hr
    · obtain rfl := List.mem_singleton.mp hr
      exact TestRecord.From.of_blank { name, span, scope := suite.arena.size }

theorem Regular.bind {level : Level} {symbol : String} {value : Token} (hs : scope < a.size)
    (h : suite.Regular a scope source options) (hsymbol : isSymbol symbol = true)
    (from_ : value.ValueFrom source) :
    (suite.bind level symbol value).Regular a scope source options := by
  have place : suite.scopeOf level = scope ∨ suite.scopeOf level = a.root scope ∨
      a.size ≤ suite.scopeOf level := by
    cases level with
    | global => exact .inr (.inl (h.scope_eq ▸ h.grown.root_eq (h.scope_eq ▸ hs)))
    | parent => exact .inl h.scope_eq
    | own => exact .inr (.inr h.le_current)
  refine ⟨h.scope_eq, h.options_eq, h.grown.bind place hsymbol from_, ?_, fun i record hr => ?_,
    h.first, h.unique, h.contents⟩
  · exact (Arena.size_bind ..).trans h.size_eq
  · obtain ⟨number, source_eq, bindings, table⟩ := h.tests i record hr
    refine ⟨number, source_eq, ?_⟩
    have written := Arena.table?_bind suite.arena (suite.scopeOf level) symbol value (a.size + i)
    rw [table] at written
    split at written
    · exact ⟨_, written⟩
    · exact ⟨_, written⟩

theorem Regular.apply (hs : scope < a.size) (h : suite.Regular a scope source options)
    (from_ : statement.From source) (ok : suite.apply statement = .ok next) :
    next.Regular a scope source options := by
  have current := h.contents suite.current (List.mem_append_right _ List.mem_cons_self)
  cases statement with
  | test span name =>
    simp only [Suite.apply] at ok
    split at ok
    · cases ok
    · next fresh =>
      cases ok
      exact h.startTest hs from_ fresh
  | bind level symbol value =>
    cases ok
    exact h.bind hs from_.1 from_.2
  | field f value =>
    cases f with
    | body =>
      obtain ⟨_, taken, rfl⟩ := setCurrent_eq_ok.mp ok
      obtain ⟨-, body, grown, rfl⟩ := TestRecord.appendBody_eq_ok.mp taken
      exact h.setCurrent rfl (current.putField .body (current.growBody from_ grown))
    | method | uri | httpVersion =>
      obtain ⟨_, taken, rfl⟩ := setCurrent_eq_ok.mp ok
      obtain ⟨-, rfl⟩ := TestRecord.setField_eq_ok.mp taken
      exact h.setCurrent rfl (current.putField _ from_)
  | header name value =>
    obtain ⟨_, taken, rfl⟩ := setCurrent_eq_ok.mp ok
    obtain ⟨named, -, rfl⟩ := TestRecord.setHeader_eq_ok.mp taken
    exact h.setCurrent rfl (current.putHeader named from_)
  | assertion asserted =>
    cases ok
    refine h.setCurrent rfl ⟨current.fields, current.headers, fun other ho => ?_, current.response⟩
    rcases List.mem_append.mp ho with ho | ho
    · exact current.assertions other ho
    · exact List.mem_singleton.mp ho ▸ from_

/-- Every suite that statements of the source lead to is regular. -/
theorem Applies.regular (hs : scope < a.size) (h : suite.Applies statements last)
    (start : suite.Regular a scope source options)
    (from_ : ∀ statement ∈ statements, statement.From source) :
    last.Regular a scope source options := by
  induction h with
  | nil => exact start
  | cons ok _ ih =>
    obtain ⟨first, others⟩ := List.forall_mem_cons.mp from_
    exact ih (start.apply hs first ok) others

end Suite

end HttpSuite
