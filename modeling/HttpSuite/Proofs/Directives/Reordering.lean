import HttpSuite.Proofs.Directives.Places
import HttpSuite.Proofs.Reformat.Regular

/-!
# Statements in another order

A suite is the same after statements that write the same to every place in another order. Its records
are, since each says what its block says and nothing else (`Applies.mirrors`). Its arena is, since the
tests say which tables there are, in which order, and the last value that is written to a symbol is
what a table binds it to (`Suite.Holds`).

* `Holds.apply`, `Applies.holds`: one statement, and any number of them.
* `Applies.reordered`: the suite after statements in another order.
* `parse_reordered`: the same for what is read, on whatever lines it stands.
-/

namespace HttpSuite

/-! ## Tables and their heads -/

namespace Arena

variable {a b : Arena}

/-- The heads of all tables, in order. -/
def heads (a : Arena) : List (String × Option ScopeId) := a.tables.toList.map Table.head

theorem heads_getElem? (a : Arena) (d : ScopeId) : a.heads[d]? = (a.table? d).map Table.head := by
  rw [heads, List.getElem?_map, Array.getElem?_toList, table?]

theorem length_heads (a : Arena) : a.heads.length = a.size := by
  rw [heads, List.length_map, Array.length_toList, size]

theorem parent?_eq_heads (a : Arena) (d : ScopeId) : a.parent? d = a.heads[d]?.bind (·.2) := by
  rw [heads_getElem?, parent?]
  cases a.table? d <;> rfl

@[simp] theorem heads_bind (a : Arena) (s : ScopeId) (symbol : String) (token : Token) :
    (a.bind s symbol token).heads = a.heads := by
  refine List.ext_getElem? fun d => ?_
  rw [heads_getElem?, heads_getElem?, table?_bind]
  split
  · cases a.table? d <;> rfl
  · rfl

theorem heads_create (a : Arena) (name : String) {scope : ScopeId} (hs : scope < a.size) :
    (a.create name (some scope)).heads = a.heads ++ [(name, some scope)] := by
  have parent : (some scope).filter (· < a.size) = some scope :=
    Option.filter_eq_some_iff.mpr ⟨rfl, decide_eq_true hs⟩
  simp only [heads, create, Array.toList_push, List.map_append, List.map_singleton, Table.head, parent]

/-- Arenas with the same heads and the same bindings are the same. -/
theorem ext_heads (heads : a.heads = b.heads)
    (bindings : ∀ d symbol, a.binding? d symbol = b.binding? d symbol) : a = b :=
  ext_table? fun d => table?_congr (by rw [← heads_getElem?, heads, heads_getElem?]) (bindings d)

/-- The root of a scope depends on the heads up to there only. -/
theorem root_of_heads {more : List (String × Option ScopeId)} {scope : ScopeId} (hs : scope < a.size)
    (grown : b.heads = a.heads ++ more) : b.root scope = a.root scope := by
  have chain : b.chain scope = a.chain scope := by
    refine chain_congr_of_le fun d le => ?_
    have old : d < a.heads.length := a.length_heads ▸ Nat.lt_of_le_of_lt le hs
    rw [parent?_eq_heads, parent?_eq_heads, grown, List.getElem?_append_left old]
  simp only [root, chain]

/-- A binding in one table is not seen through another one. -/
theorem binding?_bind_of_ne {s d : ScopeId} (h : s ≠ d) (symbol other : String) (token : Token) :
    (a.bind s symbol token).binding? d other = a.binding? d other := by
  rw [binding?, table?_bind, if_neg h, binding?]

end Arena

/-- The value that a symbol is bound to in a table outside a suite that is read in `scope` below
`root`. -/
def Statement.outer? (root scope table : ScopeId) (symbol : String) : Statement → Option Token
  | .bind .global other value => if root = table ∧ other = symbol then some value else none
  | .bind .parent other value => if scope = table ∧ other = symbol then some value else none
  | .bind .own .. | .test .. | .field .. | .header .. | .assertion .. => none

theorem outer?_place {root scope table : ScopeId} {symbol : String} {statement : Statement}
    {value : Token} (h : statement.outer? root scope table symbol = some value) :
    statement.place root scope = .outer table symbol := by
  cases statement with
  | bind level =>
    cases level with
    | global | parent =>
      obtain ⟨⟨rfl, rfl⟩, -⟩ := Option.ite_none_right_eq_some.mp h
      rfl
    | own => cases h
  | test | field | header | assertion => cases h

namespace Suite

variable {a : Arena} {scope : ScopeId} {source : String} {options : Options} {suite next last : Suite}
  {statement : Statement} {seen statements other : List Statement} {implicit : String}

/-! ## What the tables hold -/

/-- The tables of a suite that was started in the arena `a` and has seen these statements: one more for
each record, and in those from before the last value of each symbol that the statements bind. -/
structure Holds (suite : Suite) (a : Arena) (scope : ScopeId) (implicit : String)
    (seen : List Statement) : Prop where
  scope_eq : suite.scope = scope
  heads : suite.arena.heads = a.heads ++ (implicit, some scope) ::
    (seen.filterMap Statement.title?).map fun title => (title.1, some scope)
  current : a.size ≤ suite.current.scope
  outer : ∀ d < a.size, ∀ symbol, suite.arena.binding? d symbol =
    (lastOf (·.outer? (a.root scope) scope d symbol) seen).or (a.binding? d symbol)

theorem Holds.size_eq (h : suite.Holds a scope implicit seen) :
    suite.arena.size = a.size + (seen.filterMap Statement.title?).length + 1 := by
  rw [← Arena.length_heads, h.heads, List.length_append, List.length_cons, List.length_map,
    Arena.length_heads, Nat.add_assoc]

theorem Holds.lt_size (h : suite.Holds a scope implicit seen) {d : ScopeId}
    (hd : d < a.size) : d < suite.arena.size := by
  have size : a.size ≤ suite.arena.size := by
    rw [h.size_eq]
    omega
  exact Nat.lt_of_lt_of_le hd size

theorem start_holds (hs : scope < a.size) (source : String) (options : Options) :
    (start a scope source options).Holds a scope options.implicitName [] where
  scope_eq := rfl
  heads := a.heads_create options.implicitName hs
  current := Nat.le_refl _
  outer d _ symbol := a.binding?_create options.implicitName (some scope) d symbol

/-- A statement that starts no test and binds no symbol is not seen in the tables. -/
theorem Holds.keep (h : suite.Holds a scope implicit seen) {current : TestRecord}
    (same : current.scope = suite.current.scope) (title : statement.title? = none)
    (silent : ∀ d symbol, statement.outer? (a.root scope) scope d symbol = none) :
    { suite with current }.Holds a scope implicit (seen ++ [statement]) where
  scope_eq := h.scope_eq
  heads := by
    rw [filterMap_concat, title, Option.toList_none, List.append_nil]
    exact h.heads
  current := same ▸ h.current
  outer d hd symbol := by
    rw [lastOf_concat, silent]
    exact h.outer d hd symbol

theorem Holds.startTest (hs : scope < a.size) (h : suite.Holds a scope implicit seen) (span : Span)
    (name : String) :
    (suite.startTest span name).Holds a scope implicit (seen ++ [.test span name]) where
  scope_eq := h.scope_eq
  heads := by
    have inside : suite.scope < suite.arena.size := h.scope_eq ▸ h.lt_size hs
    have title : Statement.title? (.test span name) = some (name, span) := rfl
    rw [filterMap_concat, title, Option.toList_some, List.map_append, ← List.cons_append,
      ← List.append_assoc, ← h.heads]
    refine (suite.arena.heads_create name inside).trans ?_
    rw [h.scope_eq]
    rfl
  current := by
    show a.size ≤ suite.arena.size
    have := h.size_eq
    omega
  outer d hd symbol := by
    rw [lastOf_concat]
    exact (suite.arena.binding?_create name (some suite.scope) d symbol).trans (h.outer d hd symbol)

theorem Holds.bind (hs : scope < a.size) (h : suite.Holds a scope implicit seen) (level : Level)
    (symbol : String) (value : Token) :
    (suite.bind level symbol value).Holds a scope implicit (seen ++ [.bind level symbol value]) where
  scope_eq := h.scope_eq
  heads := by
    have title : Statement.title? (.bind level symbol value) = none := rfl
    rw [filterMap_concat, title, Option.toList_none, List.append_nil]
    exact (suite.arena.heads_bind ..).trans h.heads
  current := h.current
  outer d hd other := by
    have root : suite.arena.root scope = a.root scope := Arena.root_of_heads hs h.heads
    have rootLt : a.root scope < a.size := Nat.lt_of_le_of_lt (a.root_le scope) hs
    rw [lastOf_concat, Option.or_assoc, ← h.outer d hd other]
    show (suite.arena.bind (suite.scopeOf level) symbol value).binding? d other = _
    cases level with
    | global =>
      have place : suite.scopeOf .global = a.root scope := by rw [scopeOf, h.scope_eq, root]
      rw [place, Arena.binding?_bind (h.lt_size rootLt), Statement.outer?]
      split <;> rfl
    | parent =>
      have place : suite.scopeOf .parent = scope := h.scope_eq
      rw [place, Arena.binding?_bind (h.lt_size hs), Statement.outer?]
      split <;> rfl
    | own => exact Arena.binding?_bind_of_ne (Nat.ne_of_gt (Nat.lt_of_lt_of_le hd h.current)) ..

/-- What the tables hold after one more statement. -/
theorem Holds.apply (hs : scope < a.size) (h : suite.Holds a scope implicit seen)
    (ok : suite.apply statement = .ok next) : next.Holds a scope implicit (seen ++ [statement]) := by
  cases statement with
  | test span name =>
    simp only [Suite.apply] at ok
    split at ok
    · cases ok
    · cases ok
      exact h.startTest hs span name
  | bind level symbol value =>
    cases ok
    exact h.bind hs level symbol value
  | field | header | assertion =>
    rcases apply_cases ok with ⟨_, _, ⟨⟩, _⟩ | ⟨_, _, _, ⟨⟩, _⟩ | ⟨request, assertions, rfl⟩
    exact h.keep rfl rfl fun _ _ => rfl

/-- What the tables hold after any number of statements. -/
theorem Applies.holds (hs : scope < a.size) (h : suite.Applies statements last)
    (holds : suite.Holds a scope implicit seen) : last.Holds a scope implicit (seen ++ statements) := by
  induction h generalizing seen with
  | nil => rwa [List.append_nil]
  | @cons suite next last statement statements ok _ ih =>
    rw [List.append_cons]
    exact ih (holds.apply hs ok)

/-! ## Another order -/

/-- Records are the same if they are so but for their scopes and these are given out the same. -/
theorem eq_of_scopes {R : TestRecord → TestRecord → Prop} {records others : List TestRecord}
    (rows : List.Forall₂ R records others)
    (but : ∀ record other, R record other → { other with scope := record.scope } = record)
    (scopes : others.map (·.scope) = records.map (·.scope)) : others = records := by
  induction rows with
  | nil => rfl
  | @cons record other records others row _ ih =>
    rw [List.map_cons, List.map_cons] at scopes
    obtain ⟨head, tail⟩ := List.cons.inj scopes
    rw [ih tail]
    congr 1
    rw [← but record other row, ← head]

/-- The scopes of the records are the tables that are new. -/
theorem Applies.mem_scopes (hs : scope < a.size)
    (h : (start a scope source options).Applies statements last) {d : ScopeId} :
    (∃ record ∈ last.records, record.scope = d) ↔ a.size ≤ d ∧ d < last.arena.size := by
  have scopes := (Applies.mirrors hs h).1
  obtain ⟨blocks, block, -, tells⟩ := Applies.tells h (start_tells hs source options)
  have size : last.arena.size = a.size + last.records.length := by
    have length := congrArg List.length tells.scopes
    rw [List.length_map, List.length_range'] at length
    rw [length, tells.size_eq, Nat.add_assoc]
  rw [← List.mem_map, scopes, List.mem_range'_1, size]

/-- The records also say what the blocks of another order say. -/
theorem Applies.mirrors_reordered (hs : scope < a.size)
    (h : (start a scope source options).Applies statements last)
    (order : Reordering (a.root scope) scope statements other) :
    List.Forall₂ (fun block record =>
        record.Mirrors last.arena (options.implicitName, ⟨source, 0⟩) block)
      (cutBefore Statement.isTest other) last.records :=
  forall₂_trans (fun _ _ _ ⟨head, same⟩ mirrors => mirrors.of_same head same)
    (order.rows (options.implicitName, ⟨source, 0⟩)).flip (Applies.mirrors hs h).2

/-- Statements that write the same in another order lead to the same records and the same arena. -/
theorem Applies.reordered (hs : scope < a.size)
    (h : (start a scope source options).Applies statements last)
    (order : Reordering (a.root scope) scope statements other) :
    ∃ last', (start a scope source options).Applies other last' ∧
      last'.records = last.records ∧ last'.arena = last.arena := by
  have accepts := order.accepts (applies_iff_acceptable.mp ⟨last, h⟩)
  obtain ⟨last', h'⟩ := accepts.applies a scope source
  obtain ⟨scopes', rows'⟩ := Applies.mirrors hs h'
  have holds := h.holds hs (start_holds hs source options)
  have holds' := h'.holds hs (start_holds hs source options)
  rw [List.nil_append] at holds holds'
  -- Both say what the same blocks say.
  have pairs : List.Forall₂ (fun record record' => { record' with scope := record.scope } = record ∧
      ∀ symbol, last'.arena.binding? record'.scope symbol = last.arena.binding? record.scope symbol)
      last.records last'.records := by
    refine forall₂_trans ?_ (h.mirrors_reordered hs order).flip rows'
    exact fun record block record' mirrors mirrors' => mirrors.unique mirrors'
  have records : last'.records = last.records := by
    refine eq_of_scopes pairs (fun _ _ row => row.1) ?_
    rw [scopes', (Applies.mirrors hs h).1, pairs.length_eq]
  rw [records] at pairs
  refine ⟨last', h', records, Arena.ext_heads ?_ fun d symbol => ?_⟩
  · rw [holds.heads, holds'.heads, order.titles]
  by_cases old : d < a.size
  · -- A table that was there before: the last binding there is the same.
    rw [holds.outer d old, holds'.outer d old, order.outer.lastOf_eq rfl outer?_place]
  by_cases new : d < last.arena.size
  · -- A table of a record.
    obtain ⟨record, mem, rfl⟩ := (Applies.mem_scopes hs h).mpr ⟨Nat.le_of_not_lt old, new⟩
    exact (List.forall₂_same.mp pairs record mem).2 symbol
  · -- No table at all.
    have size : last'.arena.size = last.arena.size := by
      rw [holds.size_eq, holds'.size_eq, order.titles]
    have none := Nat.le_of_not_lt new
    rw [Arena.binding?, Arena.table?_eq_none (size ▸ none), Arena.binding?,
      Arena.table?_eq_none none]

end Suite

/-! ## Reading -/

/-- The feed ends without a fault, and its tokens write the statements. -/
def Feed.Writes (feed : Feed) (statements : List Statement) : Prop :=
  (∃ span, feed.stop = .ok span) ∧ Written feed.tokens statements

section Reading

variable {a after : Arena} {scope : ScopeId} {source : String} {options : Options} {feed feed' : Feed}
  {records : List TestRecord} {statements other : List Statement}

theorem Feed.Writes.script (h : feed.Writes statements) : Script.ofFeed feed = ⟨statements, none⟩ := by
  obtain ⟨⟨span, stop⟩, written⟩ := h
  rw [Script.ofFeed, readFrom_all written.reads, stop]
  rfl

/-- A feed without end tokens that is read to the end writes what is read. -/
theorem Feed.writes_of_fault (notEnd : ∀ token ∈ feed.tokens, token.kind ≠ .none)
    (clean : (Script.ofFeed feed).fault = none) : feed.Writes (Script.ofFeed feed).statements := by
  rw [Script.ofFeed] at clean ⊢
  rcases reads_or_faulty .directive feed.tokens with ⟨read, n, reads⟩ | faulty
  · rw [readFrom_all reads] at clean ⊢
    obtain ⟨done, rest, split, written, left⟩ := reads.written .directive notEnd
    cases stop : feed.stop with
    | error fault =>
      rw [stop] at clean
      cases clean
    | ok span =>
      rw [stop, faultAt_eq_none] at clean
      subst clean
      cases left
      rw [List.nil_append, List.append_nil] at split
      exact ⟨⟨span, stop⟩, split ▸ written⟩
  · exact absurd clean (fault_ne_none faulty _ _)

/-- The first record of a suite is on line 0. -/
theorem Suite.Applies.line_eq {last : Suite} (hs : scope < a.size)
    (h : (start a scope source options).Applies statements last) :
    ∀ record ∈ last.records.head?, record.span.line = 0 := by
  obtain ⟨-, rows⟩ := Applies.mirrors hs h
  obtain ⟨first, others, cut, clean, -⟩ := exists_cutBefore Statement.isTest statements
  rw [cut] at rows
  obtain ⟨record, records, mirrors, -, same⟩ := List.forall₂_cons_left_iff.mp rows
  intro other ho
  rw [same] at ho
  cases ho
  have head := mirrors.heading
  rw [heading_eq_self clean] at head
  exact congrArg (·.2.line) head

/-- What is accepted is accepted in another order, on whatever lines it stands then; it is written as
the same text, and all records evaluate to the same. -/
theorem Arena.parse_reordered (hs : scope < a.size)
    (parsed : a.parse scope source options feed = (.ok records, after))
    (writes : feed.Writes statements) (writes' : feed'.Writes other)
    (order : Reordering (a.root scope) scope (statements.map Statement.lineless)
      (other.map Statement.lineless)) :
    ∃ again after', a.parse scope source options feed' = (.ok again, after') ∧
      canonicalText after' again = canonicalText after records ∧
      again.map (fun record => (record.evaluate after').lineless) =
        records.map (fun record => (record.evaluate after).lineless) := by
  have idem (block : List Statement) :
      (block.map Statement.lineless).map Statement.lineless = block.map Statement.lineless := by
    rw [List.map_map]
    exact List.map_congr_left fun statement _ => statement.lineless_lineless
  obtain ⟨last, -, applies, rfl, rfl⟩ := Arena.parse_eq_ok.mp parsed
  rw [writes.script] at applies
  -- Without lines, in the other order, and on the new lines.
  obtain ⟨plain, applied, alike⟩ := applies.lineless rfl (idem statements)
  obtain ⟨plain', applied', records, arena⟩ := applied.reordered hs order
  obtain ⟨last', applies', alike'⟩ := applied'.lineless rfl (idem other).symm
  have sameArena : last'.arena.lineless = last.arena.lineless :=
    calc last'.arena.lineless = plain'.arena.lineless := congrArg Suite.arena alike'
      _ = plain.arena.lineless := by rw [arena]
      _ = last.arena.lineless := congrArg Suite.arena alike
  have sameRecords : last'.records.map TestRecord.lineless = last.records.map TestRecord.lineless := by
    rw [← Suite.records_lineless, alike', Suite.records_lineless, records, ← Suite.records_lineless,
      alike, Suite.records_lineless]
  refine ⟨last'.records, last'.arena, Arena.parse_eq_ok.mpr ⟨last', ?_, ?_, rfl, rfl⟩, ?_, ?_⟩
  · rw [writes'.script]
  · rw [writes'.script]
    exact applies'
  · exact canonicalText_congr sameArena sameRecords (applies.line_eq hs) (applies'.line_eq hs)
  · exact evaluate_congr sameArena sameRecords

/-- A table for a suite below a global one. -/
def Arena.stacked : Arena := (empty.create "global" none).create "suite" (some 0)

/-- A suite that binds in both tables outside, with a header and a body of two parts. -/
def orderedText : String :=
  ".uri X\n.global X 1\n.header a b\n.test T\n.body 'x'\n.method GET\n.parent Y X\n.body Y\n"

/-- The same in another order and on other lines: the bindings outside have changed their blocks. -/
def reorderedText : String :=
  ".parent Y X .header a b # c\n.uri X\n.test T .method GET\n.body 'x'\n.body Y .global X 1\n"

theorem Arena.parse_reordered_texts :
    ∃ records after, stacked.parseText 1 orderedText "in" {} = (.ok records, after) ∧
      ∃ again after', stacked.parseText 1 reorderedText "in" {} = (.ok again, after') ∧
        canonicalText after' again = canonicalText after records ∧
        again.map (fun record => (record.evaluate after').lineless) =
          records.map (fun record => (record.evaluate after).lineless) := by
  let feed (text : String) : Feed := .ofLexer { source := "in", rest := Read.ofText text }
  have writes : (feed orderedText).Writes (Script.ofFeed (feed orderedText)).statements :=
    Feed.writes_of_fault (by decide +kernel) (by decide +kernel)
  have writes' : (feed reorderedText).Writes (Script.ofFeed (feed reorderedText)).statements :=
    Feed.writes_of_fault (by decide +kernel) (by decide +kernel)
  have order : Reordering 0 1
      ((Script.ofFeed (feed orderedText)).statements.map Statement.lineless)
      ((Script.ofFeed (feed reorderedText)).statements.map Statement.lineless) := by decide +kernel
  have root : stacked.root 1 = 0 := by decide +kernel
  have accepted : (stacked.parseText 1 orderedText "in" {}).1.isOk = true := by decide +kernel
  cases parsed : stacked.parseText 1 orderedText "in" {} with
  | mk result after =>
    rw [parsed] at accepted
    cases result with
    | error error => cases accepted
    | ok records =>
      exact ⟨records, after, rfl, parse_reordered (by decide) parsed writes writes' (root ▸ order)⟩

end Reading

end HttpSuite
