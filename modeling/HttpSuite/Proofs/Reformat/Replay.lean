import HttpSuite.Proofs.Reformat.Regular

/-!
# Applying the statements of a suite again

The statements that the records of a suite are written as (`suiteStatements`) lead from the start of the
suite to the same records and to the same arena, though not all of them stood where they are now: outer
bindings come first, and a body of several parts is one.

The state after a number of whole records is known: these records, and as many tables of the arena.

* `replay_record`: the statements of one record.
* `replay_outer`: the bindings in the scopes of the preamble.
* `replay_suite`: the statements of all records.
-/

namespace HttpSuite

/-! ## Bindings -/

namespace Arena

/-- Binds symbols in a scope's own table, one after the other. -/
def bindAll (a : Arena) (s : ScopeId) (entries : List (String × Token)) : Arena :=
  entries.foldl (fun a e => a.bind s e.1 e.2) a

theorem table?_bindAll (a : Arena) (s : ScopeId) (entries : List (String × Token)) (d : ScopeId) :
    (a.bindAll s entries).table? d =
      if s = d then
        (a.table? d).map fun t =>
          { t with bindings := entries.foldl (fun m e => m.insert e.1 e.2) t.bindings }
      else a.table? d := by
  induction entries generalizing a with
  | nil =>
    rw [bindAll, List.foldl_nil]
    split
    · cases a.table? d <;> rfl
    · rfl
  | cons e entries ih =>
    rw [bindAll, List.foldl_cons, ← bindAll, ih, table?_bind]
    split
    · cases a.table? d <;> rfl
    · rfl

theorem size_truncate {a : Arena} {n : Nat} (h : n ≤ a.size) : (a.truncate n).size = n := by
  have take : (a.truncate n).size = min n a.size := by
    simp [size, truncate]
  rw [take, Nat.min_eq_left h]

theorem mem_bindings_iff {a : Arena} {s : ScopeId} {symbol : String} {token : Token} :
    (symbol, token) ∈ a.bindings s ↔ a.binding? s symbol = some token := by
  unfold bindings binding?
  cases a.table? s with
  | none => simp
  | some table => exact KeyMap.mem_entries_iff

end Arena

namespace Suite

variable {suite : Suite} {statements more : List Statement} {b c : Arena}
  {record current : TestRecord}

/-- The statements lead to this arena and this current record, and finish no record. -/
def Reaches (suite : Suite) (statements : List Statement) (arena : Arena) (current : TestRecord) :
    Prop :=
  ∃ journal, suite.Applies statements { suite with arena, journal, current }

theorem Reaches.nil : suite.Reaches [] suite.arena suite.current := ⟨suite.journal, .nil⟩

theorem Reaches.append (h : suite.Reaches statements b record)
    (h' : ∀ journal, { suite with arena := b, journal, current := record }.Reaches more c current) :
    suite.Reaches (statements ++ more) c current := by
  obtain ⟨journal, first⟩ := h
  obtain ⟨journal', second⟩ := h' journal
  exact ⟨journal', first.append second⟩

/-- A statement that only changes the current record. -/
theorem Reaches.one {statement : Statement} (ok : suite.apply statement = .ok { suite with current }) :
    suite.Reaches [statement] suite.arena current :=
  ⟨suite.journal, .cons ok .nil⟩

theorem scopeOf_bind (level other : Level) (symbol : String) (value : Token) :
    (suite.bind level symbol value).scopeOf other = suite.scopeOf other := by
  cases other with
  | global => simp [scopeOf, Suite.bind, Arena.root]
  | parent | own => rfl

theorem reaches_binds (suite : Suite) (level : Level) (entries : List (String × Token)) :
    suite.Reaches (entries.map fun (symbol, token) => .bind level symbol token)
      (suite.arena.bindAll (suite.scopeOf level) entries) suite.current := by
  induction entries generalizing suite with
  | nil => exact .nil
  | cons e entries ih =>
    obtain ⟨journal, rest⟩ := ih (suite.bind level e.1 e.2)
    rw [scopeOf_bind] at rest
    exact ⟨journal, .cons rfl rest⟩

/-! ## Fields, headers and assertions -/

theorem reaches_assertions (suite : Suite) (assertions : List Assertion) :
    suite.Reaches (assertions.map .assertion) suite.arena
      { suite.current with assertions := suite.current.assertions ++ assertions } := by
  induction assertions generalizing suite with
  | nil =>
    rw [List.append_nil]
    exact .nil
  | cons assertion assertions ih =>
    obtain ⟨journal, rest⟩ := ih { suite with current := { suite.current with
      assertions := suite.current.assertions ++ [assertion] } }
    simp only [List.append_assoc, List.singleton_append] at rest
    exact ⟨journal, .cons rfl rest⟩

theorem reaches_headers (suite : Suite) {entries : List (String × Header)}
    (h : ∀ e ∈ entries, e.1 = lowerCase e.2.name ∧ isHeaderName e.2.name = true ∧
      e.2.value.kind.isValue = true) :
    suite.Reaches (entries.map fun e => .header e.2.name e.2.value) suite.arena
      { suite.current with request := { suite.current.request with
        headers := entries.foldl (fun m e => m.insert e.1 e.2) suite.current.request.headers } } := by
  induction entries generalizing suite with
  | nil => exact .nil
  | cons e entries ih =>
    obtain ⟨⟨key, named, value⟩, others⟩ := List.forall_mem_cons.mp h
    have put : suite.apply (.header e.2.name e.2.value) =
        .ok { suite with current := { suite.current with request := { suite.current.request with
          headers := suite.current.request.headers.insert e.1 e.2 } } } := by
      refine setCurrent_eq_ok.mpr ⟨_, TestRecord.setHeader_eq_ok.mpr ⟨named, value, rfl⟩, ?_⟩
      rw [key]
      rfl
    obtain ⟨journal, rest⟩ := ih _ others
    exact ⟨journal, .cons put rest⟩

end Suite

/-- The request with a field set or unset. -/
def Request.withField (request : Request) (field : RequestField) (token : Option Token) : Request :=
  match field with
  | .method => { request with method := token }
  | .uri => { request with uri := token }
  | .httpVersion => { request with httpVersion := token }
  | .body => { request with body := token }

namespace Suite

variable {suite : Suite} {record : TestRecord} {source : String}

theorem reaches_field (suite : Suite) (field : RequestField)
    (unset : suite.current.request.field? field = none)
    (value : ∀ token ∈ record.request.field? field, token.kind.isValue = true) :
    suite.Reaches (record.fieldStatement field) suite.arena
      { suite.current with
        request := suite.current.request.withField field (record.request.field? field) } := by
  unfold TestRecord.fieldStatement
  cases found : record.request.field? field with
  | none =>
    have same : suite.current.request.withField field none = suite.current.request := by
      cases field <;> exact unset ▸ rfl
    dsimp only
    rw [same]
    exact .nil
  | some token =>
    have isValue := value token found
    refine .one ?_
    cases field with
    | body =>
      have grown : growBody suite.current.request.body token = .ok token := by
        have none : suite.current.request.body = none := unset
        rw [none]
        rfl
      exact setCurrent_eq_ok.mpr
        ⟨_, TestRecord.appendBody_eq_ok.mpr ⟨isValue, token, grown, rfl⟩, rfl⟩
    | method | uri | httpVersion =>
      exact setCurrent_eq_ok.mpr ⟨_, TestRecord.setField_eq_ok.mpr ⟨isValue, rfl⟩, rfl⟩

/-- The statements of a record make it of a record that was just created. -/
theorem replay_record (suite : Suite) (b : Arena) (h : record.From source)
    (current : suite.current = record.blank) :
    suite.Reaches (record.statements b)
      (suite.arena.bindAll record.scope (b.bindings record.scope)) record := by
  have fields : ∀ f, ∀ token ∈ record.request.field? f, token.kind.isValue = true :=
    fun f token ht => (h.fields f token ht).isValue
  have headers : ∀ e ∈ record.request.headers.entries, e.1 = lowerCase e.2.name ∧
      isHeaderName e.2.name = true ∧ e.2.value.kind.isValue = true := fun e he =>
    have ⟨key, named, value⟩ := h.headers e he
    ⟨key, named, value.isValue⟩
  have scope : suite.scopeOf .own = record.scope := by
    rw [scopeOf, current]
    rfl
  have statements : record.statements b = bindingStatements b .own record.scope ++
      (record.fieldStatement .method ++ (record.fieldStatement .uri ++
      (record.fieldStatement .httpVersion ++
      (record.request.headers.entries.map (fun e => .header e.2.name e.2.value) ++
      (record.fieldStatement .body ++ record.assertions.map .assertion))))) := by
    simp [TestRecord.statements]
  -- The statements are in the order of canonical text: bindings, fields, headers, body, assertions.
  have bindings := reaches_binds suite .own (b.bindings record.scope)
  rw [scope, current] at bindings
  rw [statements]
  refine bindings.append fun _ => ?_
  refine (reaches_field _ .method rfl (fields .method)).append fun _ => ?_
  refine (reaches_field _ .uri rfl (fields .uri)).append fun _ => ?_
  refine (reaches_field _ .httpVersion rfl (fields .httpVersion)).append fun _ => ?_
  refine (reaches_headers _ headers).append fun _ => ?_
  refine (reaches_field _ .body rfl (fields .body)).append fun _ => ?_
  -- This is all that a record of the source has: nothing of a response is set.
  have whole : { record.blank with
      request := { record.request with
        headers := record.request.headers.entries.foldl (fun m e => m.insert e.1 e.2) .empty }
      assertions := [] ++ record.assertions } = record := by
    rw [KeyMap.foldl_insert_entries, List.nil_append]
    obtain ⟨name, span, scope, request, response, assertions⟩ := record
    obtain rfl : response = {} := h.response
    rfl
  exact Eq.subst (motive := fun r => Reaches _ _ _ r) whole (reaches_assertions _ record.assertions)

end Suite

/-! ## Arenas of whole records -/

namespace Arena

variable {a b : Arena} {scope : ScopeId} {source : String}

/-- The bindings of a table, put into a new table of the same name, make it up. -/
theorem create_bindAll {n : Nat} {name : String} (hs : scope < n)
    (table : ∃ bindings, b.table? n = some ⟨name, some scope, bindings⟩) :
    ((b.truncate n).create name (some scope)).bindAll n (b.bindings n) = b.truncate (n + 1) := by
  obtain ⟨bindings, table⟩ := table
  have size : (b.truncate n).size = n := size_truncate (Nat.le_of_lt (lt_size_of_table? table))
  have entries : b.bindings n = bindings.entries := by
    rw [Arena.bindings, table]
  apply ext_table?
  intro d
  rw [table?_bindAll, table?_create, size, entries, table?_truncate, table?_truncate]
  by_cases hd : n = d
  · subst hd
    rw [if_pos rfl, if_pos rfl, if_pos (Nat.lt_succ_self n), table, Option.map_some,
      Option.filter_some, if_pos (decide_eq_true hs), KeyMap.foldl_insert_entries]
  · rw [if_neg hd, if_neg (Ne.symm hd)]
    by_cases lt : d < n
    · rw [if_pos lt, if_pos (Nat.lt_succ_of_lt lt)]
    · rw [if_neg lt, if_neg fun lt' => ?_]
      exact hd (Nat.le_antisymm (Nat.le_of_not_lt lt) (Nat.le_of_lt_succ lt'))

/-- No binding of the arena is from the source. -/
def Foreign (a : Arena) (source : String) : Prop :=
  ∀ s symbol token, a.binding? s symbol = some token → token.span.source ≠ source

/-- The table is the one from before the suite with its bindings from the source put in. -/
theorem Grown.table?_restored (h : a.Grown scope source b) {d : ScopeId} (hd : d < a.size) :
    (a.table? d).map (fun t => { t with
      bindings := ((b.bindings d).filter fun e => e.2.span.source == source).foldl
        (fun m e => m.insert e.1 e.2) t.bindings }) = b.table? d := by
  have heads := h.heads d hd
  have here := h.bindings d
  cases ha : a.table? d with
  | none =>
    rw [ha] at heads
    exact (Option.map_eq_none_iff.mp heads).symm
  | some old =>
    rw [ha] at heads
    obtain ⟨new, hb, head⟩ := Option.map_eq_some_iff.mp heads
    have made : (new.bindings.entries.filter fun e => e.2.span.source == source).foldl
        (fun m e => m.insert e.1 e.2) old.bindings = new.bindings := by
      apply KeyMap.foldl_insert_filter
      intro symbol
      have here := here symbol
      rw [binding?, binding?, ha, hb] at here
      rcases here with same | ⟨token, bound, -, value, -⟩
      · exact .inl same
      · exact .inr ⟨token, bound, beq_iff_eq.mpr value.source_eq⟩
    have entries : b.bindings d = new.bindings.entries := by
      rw [Arena.bindings, hb]
    obtain ⟨name, parent⟩ := Prod.mk.inj head
    rw [hb, entries, Option.map_some, made, ← name, ← parent]

theorem Grown.table?_eq (h : a.Grown scope source b) {d : ScopeId} (hd : d < a.size)
    (other : d ≠ scope ∧ d ≠ a.root scope) : b.table? d = a.table? d := by
  refine table?_congr (h.heads d hd) fun symbol => ?_
  rcases h.bindings d symbol with same | ⟨token, -, -, -, place⟩
  · exact same
  · exact absurd place (by simp [other, hd])

/-- The bindings from the source, put into the root and into the scope of the suite, make up all tables
from before the suite. -/
theorem Grown.create_bindAll (h : a.Grown scope source b) (hs : scope < a.size) (name : String) :
    (((a.create name (some scope)).bindAll (a.root scope)
          (if a.root scope = scope then [] else
            (b.bindings (a.root scope)).filter fun e => e.2.span.source == source)).bindAll scope
        ((b.bindings scope).filter fun e => e.2.span.source == source)) =
      (b.truncate a.size).create name (some scope) := by
  have size : (b.truncate a.size).size = a.size := size_truncate h.size_le
  have rootLt : a.root scope < a.size := Nat.lt_of_le_of_lt (a.root_le scope) hs
  apply ext_table?
  intro d
  rw [table?_bindAll, table?_bindAll, table?_create, table?_create, table?_truncate, size]
  by_cases new : d = a.size
  · have notScope : ¬ scope = d := fun eq => Nat.ne_of_lt hs (eq.trans new)
    have notRoot : ¬ a.root scope = d := fun eq => Nat.ne_of_lt rootLt (eq.trans new)
    rw [if_neg notScope, if_neg notRoot, if_pos new, if_pos new]
  · rw [if_neg new, if_neg new]
    by_cases old : d < a.size
    · rw [if_pos old]
      by_cases isScope : scope = d
      · -- The scope may be its own root: then its bindings are put in once.
        subst isScope
        rw [if_pos rfl, ← h.table?_restored old]
        by_cases isRoot : a.root scope = scope
        · rw [if_pos isRoot, if_pos isRoot]
          cases a.table? scope <;> rfl
        · rw [if_neg isRoot]
      · rw [if_neg isScope]
        by_cases isRoot : a.root scope = d
        · subst isRoot
          rw [if_pos rfl, if_neg (Ne.symm isScope)]
          exact h.table?_restored old
        · rw [if_neg isRoot]
          exact (h.table?_eq old ⟨Ne.symm isScope, Ne.symm isRoot⟩).symm
    · have notScope : ¬ scope = d := fun eq => old (eq ▸ hs)
      have notRoot : ¬ a.root scope = d := fun eq => old (eq ▸ rootLt)
      rw [if_neg notScope, if_neg notRoot, if_neg old, table?_eq_none (Nat.le_of_not_lt old)]

end Arena

/-! ## Whole suites -/

namespace Suite

variable {a : Arena} {scope : ScopeId} {source : String} {options : Options} {suite : Suite}

theorem filter_bindingStatements (b : Arena) (level : Level) (d : ScopeId) (source : String) :
    (bindingStatements b level d).filter (Statement.bindsFrom source) =
      ((b.bindings d).filter fun e => e.2.span.source == source).map
        fun (symbol, token) => .bind level symbol token := by
  rw [bindingStatements, List.filter_map]
  rfl

/-- The outer bindings of the preamble, in a suite that was just started. -/
theorem replay_outer {record : TestRecord} (options : Options) (hs : scope < a.size)
    (grown : a.Grown scope source suite.arena) (first : record.span.source = source)
    (parent : suite.arena.parent? record.scope = some scope) :
    (start a scope source options).Reaches (record.outerStatements suite.arena)
      ((suite.arena.truncate a.size).create options.implicitName (some scope))
      (start a scope source options).current := by
  have root : suite.arena.root scope = a.root scope := grown.root_eq hs
  have started : (a.create options.implicitName (some scope)).root scope = a.root scope :=
    ((Arena.Grown.refl a scope source).create _ _).root_eq hs
  rw [← grown.create_bindAll hs, TestRecord.outerStatements, parent]
  dsimp only
  rw [root, first, List.filter_append, filter_bindingStatements suite.arena .parent]
  -- First the bindings in the root, if it is another scope, then those in the scope.
  suffices rooted : (start a scope source options).Reaches
      ((if a.root scope = scope then [] else bindingStatements suite.arena .global (a.root scope)).filter
        (Statement.bindsFrom source))
      ((a.create options.implicitName (some scope)).bindAll (a.root scope)
        (if a.root scope = scope then [] else
          (suite.arena.bindings (a.root scope)).filter fun e => e.2.span.source == source))
      (start a scope source options).current from
    rooted.append fun journal => reaches_binds _ .parent _
  split
  · exact .nil
  · rw [filter_bindingStatements]
    have binds := reaches_binds (start a scope source options) .global
      ((suite.arena.bindings (a.root scope)).filter fun e => e.2.span.source == source)
    have place : (start a scope source options).scopeOf .global = a.root scope := started
    rwa [place] at binds

/-- A later record has none of the names before it. -/
theorem Regular.name_ne (h : suite.Regular a scope source options) {before after : List TestRecord}
    {current record : TestRecord} (records : suite.records = before ++ current :: record :: after)
    (unique : options.uniqueNames = true) :
    ∀ other ∈ before ++ [current], other.name ≠ record.name := by
  have nodup := h.unique unique
  have names : suite.blanks.map (·.name) =
      (before ++ [current]).map (·.name) ++ (record :: after).map (·.name) := by
    rw [blanks, records, List.map_map, List.append_cons, List.map_append]
    rfl
  rw [names, List.nodup_append] at nodup
  intro other ho
  exact nodup.2.2 _ (List.mem_map_of_mem ho) _ List.mem_cons_self

/-- The tests after the current one, when the suite has as many tables as records. -/
theorem replay_tests (hs : scope < a.size) (h : suite.Regular a scope source options)
    (before : List TestRecord) {current : TestRecord} {after : List TestRecord}
    (records : suite.records = before ++ current :: after) (now : Suite)
    (scope_eq : now.scope = scope) (options_eq : now.options = options)
    (arena : now.arena = suite.arena.truncate (a.size + before.length + 1))
    (soFar : now.records = before ++ [current]) :
    ∃ last, now.Applies (after.flatMap (·.testStatements suite.arena)) last ∧
      last.records = suite.records ∧ last.arena = suite.arena := by
  -- At each test the arena is that of the suite, cut behind the table of the current record.
  induction after generalizing before current now with
  | nil =>
    refine ⟨now, .nil, soFar.trans records.symm, ?_⟩
    have size : suite.arena.size = a.size + before.length + 1 := by
      rw [h.size_eq, blanks, records]
      simp [Nat.add_assoc]
    rw [arena, ← size, Arena.truncate_size]
  | cons record after ih =>
    have tests := h.tests (before.length + 1) record.blank (by simp [blanks, records])
    obtain ⟨number, -, bindings, table⟩ := tests
    have scopeOf : record.scope = a.size + before.length + 1 := number
    have fresh : now.namesake? record.name = none :=
      namesake?_eq_none.mpr fun unique => soFar ▸ h.name_ne records (options_eq ▸ unique)
    have inside : a.size + before.length + 1 ≤ suite.arena.size :=
      Nat.le_of_lt (Arena.lt_size_of_table? table)
    have size : now.arena.size = record.scope := by
      rw [arena, Arena.size_truncate inside, scopeOf]
    have blank : (now.startTest record.span record.name).current = record.blank := by
      rw [startTest, TestRecord.create, TestRecord.blank, size]
    obtain ⟨journal, made⟩ := replay_record _ suite.arena
      (h.contents record (by simp [records])) blank
    have grown : (now.startTest record.span record.name).arena.bindAll record.scope
        (suite.arena.bindings record.scope) = suite.arena.truncate (record.scope + 1) := by
      have same : (now.startTest record.span record.name).arena =
          (suite.arena.truncate record.scope).create record.name (some scope) := by
        rw [← scope_eq, scopeOf, ← arena]
        rfl
      rw [same]
      refine Arena.create_bindAll ?_ ⟨bindings, number ▸ table⟩
      exact scopeOf ▸ Nat.lt_of_lt_of_le hs (by omega)
    rw [grown] at made
    obtain ⟨last, rest, done⟩ := ih (before ++ [current])
      (by rw [records, List.append_assoc]; rfl)
      { now.startTest record.span record.name with
        arena := suite.arena.truncate (record.scope + 1), journal, current := record }
      scope_eq options_eq
      (by rw [scopeOf, List.length_append]; rfl)
      (by rw [← soFar]; simp [Suite.records, startTest, TestRecord.create])
    refine ⟨last, ?_, done⟩
    have started : now.apply (.test record.span record.name) =
        .ok (now.startTest record.span record.name) := by
      rw [apply, fresh]
    exact .cons started (made.append rest)

/-- The statements of a regular suite lead from its start to its records and its arena. -/
theorem replay_suite (hs : scope < a.size) (h : suite.Regular a scope source options) :
    ∃ last, (start a scope source options).Applies (suiteStatements suite.arena suite.records) last ∧
      last.records = suite.records ∧ last.arena = suite.arena := by
  obtain ⟨first, after, records⟩ : ∃ first after, suite.records = first :: after :=
    List.exists_cons_of_ne_nil (by simp [Suite.records])
  have created := h.first
  rw [blanks, records] at created
  have blank : first.blank = { name := options.implicitName, span := ⟨source, 0⟩, scope := a.size } :=
    Option.some.inj created
  have scopeOf : first.scope = a.size := congrArg TestRecord.scope blank
  have source_eq : first.span.source = source := congrArg (·.span.source) blank
  have name : first.name = options.implicitName := congrArg TestRecord.name blank
  obtain ⟨-, -, bindings, table⟩ := h.tests 0 first.blank (by simp [blanks, records])
  have parent : suite.arena.parent? first.scope = some scope := by
    rw [Arena.parent?, scopeOf]
    exact table ▸ rfl
  obtain ⟨journal, outer⟩ := replay_outer options hs h.grown source_eq parent
  have current : (start a scope source options).current = first.blank := blank.symm
  obtain ⟨journal', preamble⟩ := replay_record
    { start a scope source options with
      arena := (suite.arena.truncate a.size).create options.implicitName (some scope)
      journal
      current := (start a scope source options).current }
    suite.arena (h.contents first (by simp [records])) current
  have grown : ((suite.arena.truncate a.size).create options.implicitName (some scope)).bindAll
      first.scope (suite.arena.bindings first.scope) = suite.arena.truncate (a.size + 1) := by
    rw [scopeOf, ← name]
    exact Arena.create_bindAll hs ⟨bindings, table⟩
  rw [grown] at preamble
  obtain ⟨last, rest, done⟩ := replay_tests hs h [] records
    { start a scope source options with
      arena := suite.arena.truncate (a.size + 1), journal := journal', current := first }
    rfl rfl rfl rfl
  rw [records, suiteStatements]
  exact ⟨last, (outer.append preamble).append rest, records ▸ done⟩

end Suite

end HttpSuite
