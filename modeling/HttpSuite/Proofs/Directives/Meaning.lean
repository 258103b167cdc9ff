import HttpSuite.Proofs.Directives.Blocks

/-!
# What the records of a suite say

Every block of a suite makes one record, and the record and its table say what the statements of the
block say and nothing else (`TestRecord.Mirrors`): the last value of each field, the last header of each
name, all parts of the body, all assertions and the last binding of each symbol of its own. The bindings
of other levels go to tables outside the suite.

* `Tells.apply`, `Applies.tells`: one statement, and any number of them.
* `parseTokens_blocks`: the records of tokens, block by block.
-/

namespace HttpSuite

/-! ## What statements say -/

namespace Statement

/-- The value for a request field. -/
def value? (f : RequestField) : Statement → Option Token
  | .field g value => if g = f then some value else none
  | .test .. | .bind .. | .header .. | .assertion .. => none

/-- The header under a key. -/
def headerAt? (key : String) : Statement → Option Header
  | .header name value => if lowerCase name = key then some ⟨name, value⟩ else none
  | .test .. | .bind .. | .field .. | .assertion .. => none

/-- The assertion. -/
def assertion? : Statement → Option Assertion
  | .assertion asserted => some asserted
  | .test .. | .bind .. | .field .. | .header .. => none

/-- The value that a symbol is bound to in the test's own scope. -/
def own? (symbol : String) : Statement → Option Token
  | .bind .own other value => if other = symbol then some value else none
  | .bind .global .. | .bind .parent .. | .test .. | .field .. | .header .. | .assertion .. => none

end Statement

/-- The name and the place of the record that a block makes; the block before the first test has them
from outside. -/
def heading (implicit : String × Span) : List Statement → String × Span
  | .test span name :: _ => (name, span)
  | _ => implicit

/-- The last thing of one sort that a block says. -/
def lastOf {α : Type} (pick : Statement → Option α) (block : List Statement) : Option α :=
  (block.filterMap pick).getLast?

section Block

variable {implicit : String × Span} {block : List Statement} {statement : Statement}

theorem heading_concat (h : statement.isTest = false) :
    heading implicit (block ++ [statement]) = heading implicit block := by
  cases block with
  | nil =>
    cases statement with
    | test => cases h
    | bind | field | header | assertion => rfl
  | cons first block => cases first <;> rfl

theorem heading_eq_self (clean : ∀ statement ∈ block, statement.isTest = false) :
    heading implicit block = implicit := by
  cases block with
  | nil => rfl
  | cons first block =>
    cases first with
    | test => cases clean _ List.mem_cons_self
    | bind | field | header | assertion => rfl

theorem filterMap_concat {α : Type} (pick : Statement → Option α) :
    (block ++ [statement]).filterMap pick = block.filterMap pick ++ (pick statement).toList := by
  rw [List.filterMap_append, List.filterMap_cons, List.filterMap_nil]
  cases pick statement <;> rfl

theorem lastOf_concat {α : Type} (pick : Statement → Option α) :
    lastOf pick (block ++ [statement]) = (pick statement).or (lastOf pick block) := by
  rw [lastOf, filterMap_concat]
  cases pick statement with
  | none => simp [lastOf]
  | some value => simp

end Block

/-- The record and its own table in the arena say what the statements of a block say, and nothing
else. The parts of the body are joined as they would be in any record without a body. -/
structure TestRecord.Mirrors (record : TestRecord) (a : Arena) (implicit : String × Span)
    (block : List Statement) : Prop where
  heading : (record.name, record.span) = heading implicit block
  fields : ∀ f ≠ .body, record.request.field? f = lastOf (·.value? f) block
  headers : ∀ key, record.request.headers.get? key = lastOf (·.headerAt? key) block
  body : ∀ blank : TestRecord, blank.request.body = none → ∃ filled,
    (block.filterMap (·.value? .body)).foldlM TestRecord.appendBody blank = .ok filled ∧
      filled.request.body = record.request.body
  assertions : record.assertions = block.filterMap Statement.assertion?
  response : record.response = {}
  own : ∀ symbol, a.binding? record.scope symbol = lastOf (·.own? symbol) block

namespace TestRecord.Mirrors

variable {record : TestRecord} {a b : Arena} {implicit : String × Span} {block : List Statement}
  {value : Token}

/-- Only the record's own table matters. -/
theorem congr (h : record.Mirrors a implicit block)
    (same : ∀ symbol, b.binding? record.scope symbol = a.binding? record.scope symbol) :
    record.Mirrors b implicit block :=
  { h with own := fun symbol => (same symbol).trans (h.own symbol) }

/-- A new record says what the test alone says, or nothing before the first test. -/
theorem of_new {name : String} {span : Span} {scope : ScopeId} (hs : a.size ≤ scope)
    (head : (name, span) = HttpSuite.heading implicit block)
    (silent : block = [] ∨ block = [.test span name]) :
    ({ name, span, scope } : TestRecord).Mirrors a implicit block := by
  have unbound : ∀ symbol, a.binding? scope symbol = none := by
    intro symbol
    rw [Arena.binding?, Arena.table?_eq_none hs]
    rfl
  rcases silent with rfl | rfl
  · refine ⟨head, fun f _ => ?_, fun key => rfl, fun blank none => ⟨blank, rfl, none⟩, rfl, rfl, unbound⟩
    cases f <;> rfl
  · refine ⟨head, fun f _ => ?_, fun key => rfl, fun blank none => ⟨blank, rfl, none⟩, rfl, rfl, unbound⟩
    cases f <;> rfl

/-- A value for a field that is not the body replaces the one before. -/
theorem setField (h : record.Mirrors a implicit block) {f : RequestField} (other : f ≠ .body) :
    { record with request := record.request.setField f value }.Mirrors a implicit
      (block ++ [Statement.field f value]) where
  heading := h.heading.trans (heading_concat rfl).symm
  fields g hg := by
    rw [Request.field?_setField, lastOf_concat, h.fields g hg, Statement.value?]
    split <;> rfl
  headers key := by
    rw [Request.headers_setField, lastOf_concat]
    exact h.headers key
  body blank none := by
    obtain ⟨filled, joined, same⟩ := h.body blank none
    refine ⟨filled, ?_, same.trans ?_⟩
    · rw [filterMap_concat]
      simpa [Statement.value?, other] using joined
    · cases f with
      | body => exact absurd rfl other
      | method | uri | httpVersion => rfl
  assertions := h.assertions.trans ((filterMap_concat _).trans (List.append_nil _)).symm
  response := h.response
  own symbol := by
    rw [lastOf_concat]
    exact h.own symbol

/-- A part of a body is joined to the parts before it. -/
theorem appendBody (h : record.Mirrors a implicit block) {grown : Token}
    (isValue : value.kind.isValue = true) (ok : growBody record.request.body value = .ok grown) :
    { record with request := record.request.setField .body grown }.Mirrors a implicit
      (block ++ [Statement.field .body value]) where
  heading := h.heading.trans (heading_concat rfl).symm
  fields g hg := by
    rw [Request.field?_setField, if_neg (Ne.symm hg), lastOf_concat, h.fields g hg, Statement.value?,
      if_neg (Ne.symm hg)]
    rfl
  headers key := by
    rw [Request.headers_setField, lastOf_concat]
    exact h.headers key
  body blank none := by
    obtain ⟨filled, joined, same⟩ := h.body blank none
    rw [← same] at ok
    refine ⟨{ filled with request := filled.request.setField .body grown }, ?_, rfl⟩
    have next := TestRecord.appendBody_eq_ok.mpr ⟨isValue, grown, ok, rfl⟩
    rw [filterMap_concat, List.foldlM_append, joined]
    exact (bind_pure (filled.appendBody value)).trans next
  assertions := h.assertions.trans ((filterMap_concat _).trans (List.append_nil _)).symm
  response := h.response
  own symbol := by
    rw [lastOf_concat]
    exact h.own symbol

/-- A header replaces the one of the same name. -/
theorem putHeader (h : record.Mirrors a implicit block) {name : String} :
    { record with request := { record.request with
        headers := record.request.headers.put ⟨name, value⟩ } }.Mirrors a implicit
      (block ++ [Statement.header name value]) where
  heading := h.heading.trans (heading_concat rfl).symm
  fields f hf := by
    rw [lastOf_concat]
    refine Eq.trans ?_ (h.fields f hf)
    cases f <;> rfl
  headers key := by
    rw [lastOf_concat, HeaderMap.put, KeyMap.get?_insert, h.headers key, Statement.headerAt?]
    split <;> rfl
  body blank none := by
    rw [filterMap_concat]
    simpa [Statement.value?] using h.body blank none
  assertions := h.assertions.trans ((filterMap_concat _).trans (List.append_nil _)).symm
  response := h.response
  own symbol := by
    rw [lastOf_concat]
    exact h.own symbol

theorem addAssertion (h : record.Mirrors a implicit block) (assertion : Assertion) :
    { record with assertions := record.assertions ++ [assertion] }.Mirrors a implicit
      (block ++ [Statement.assertion assertion]) where
  heading := h.heading.trans (heading_concat rfl).symm
  fields f hf := by
    rw [lastOf_concat]
    exact h.fields f hf
  headers key := by
    rw [lastOf_concat]
    exact h.headers key
  body blank none := by
    rw [filterMap_concat]
    simpa [Statement.value?] using h.body blank none
  assertions := by
    rw [filterMap_concat, h.assertions]
    rfl
  response := h.response
  own symbol := by
    rw [lastOf_concat]
    exact h.own symbol

/-- A binding goes to the record's own table exactly if it is one of the test's own. -/
theorem bind (h : record.Mirrors a implicit block) {level : Level} {symbol : String}
    (own : ∀ other, b.binding? record.scope other =
      (Statement.own? other (.bind level symbol value)).or (a.binding? record.scope other)) :
    record.Mirrors b implicit (block ++ [Statement.bind level symbol value]) where
  heading := h.heading.trans (heading_concat rfl).symm
  fields f hf := by
    rw [lastOf_concat]
    exact h.fields f hf
  headers key := by
    rw [lastOf_concat]
    exact h.headers key
  body blank none := by
    rw [filterMap_concat]
    simpa [Statement.value?] using h.body blank none
  assertions := h.assertions.trans ((filterMap_concat _).trans (List.append_nil _)).symm
  response := h.response
  own other := by rw [lastOf_concat, own, h.own]

/-- Records of one block are the same but for their scopes, and so are their own tables. -/
theorem unique {other : TestRecord} (h : record.Mirrors a implicit block)
    (h' : other.Mirrors b implicit block) :
    { other with scope := record.scope } = record ∧
      ∀ symbol, b.binding? other.scope symbol = a.binding? record.scope symbol := by
  have request : other.request = record.request := by
    have field (f : RequestField) (hf : f ≠ .body) :
        other.request.field? f = record.request.field? f :=
      (h'.fields f hf).trans (h.fields f hf).symm
    have body : other.request.body = record.request.body := by
      let blank : TestRecord := { name := "", span := implicit.2, scope := 0 }
      obtain ⟨filled, joined, same⟩ := h.body blank rfl
      obtain ⟨filled', joined', same'⟩ := h'.body blank rfl
      rw [joined] at joined'
      rw [← same, ← same', Except.ok.inj joined']
    have headers : other.request.headers = record.request.headers :=
      KeyMap.ext_get? fun key => (h'.headers key).trans (h.headers key).symm
    have method := field .method (by simp)
    have uri := field .uri (by simp)
    have version := field .httpVersion (by simp)
    cases hr : record.request
    cases ho : other.request
    rw [hr, ho] at method uri version body headers
    cases method
    cases uri
    cases version
    cases body
    cases headers
    rfl
  obtain ⟨name, span⟩ := Prod.mk.inj (h'.heading.trans h.heading.symm)
  have response := h'.response.trans h.response.symm
  have assertions := h'.assertions.trans h.assertions.symm
  refine ⟨?_, fun symbol => (h'.own symbol).trans (h.own symbol).symm⟩
  rw [TestRecord.mk.injEq]
  exact ⟨name, span, rfl, request, response, assertions⟩

end TestRecord.Mirrors

/-! ## Suites -/

namespace Suite

/-- The suite holds the records of blocks, in order and with new scopes one after the other; the last
block is still being read. -/
structure Tells (suite : Suite) (a : Arena) (implicit : String × Span)
    (blocks : List (List Statement)) (block : List Statement) : Prop where
  outside : suite.scope < a.size
  size_eq : suite.arena.size = a.size + blocks.length + 1
  scopes : suite.records.map (·.scope) = List.range' a.size (blocks.length + 1)
  finished : List.Forall₂ (fun block record =>
      (a.size ≤ record.scope ∧ record.scope < suite.current.scope) ∧
        record.Mirrors suite.arena implicit block) blocks suite.finished.toList
  current : suite.current.Mirrors suite.arena implicit block

variable {suite next last : Suite} {a : Arena} {implicit : String × Span}
  {blocks : List (List Statement)} {block block' : List Statement} {statement : Statement}
  {statements : List Statement}

theorem Tells.scope_current (h : suite.Tells a implicit blocks block) :
    suite.current.scope = a.size + blocks.length := by
  have scopes := h.scopes
  rw [records, List.map_append, List.range'_concat, Nat.one_mul] at scopes
  have last := List.append_inj_right' scopes rfl
  exact List.singleton_inj.mp last

theorem start_tells {scope : ScopeId} (hs : scope < a.size) (source : String) (options : Options) :
    (start a scope source options).Tells a (options.implicitName, ⟨source, 0⟩) [] [] where
  outside := hs
  size_eq := Arena.size_create ..
  scopes := rfl
  finished := .nil
  current :=
    have new : ({ name := options.implicitName, span := ⟨source, 0⟩, scope := a.size } :
        TestRecord).Mirrors a (options.implicitName, ⟨source, 0⟩) [] :=
      .of_new (Nat.le_refl _) rfl (.inl rfl)
    new.congr fun _ => Arena.binding?_create ..

/-- A statement that starts no test changes the current record and its table, and tables outside the
suite. -/
theorem Tells.keep (h : suite.Tells a implicit blocks block) (scope : next.scope = suite.scope)
    (size : next.arena.size = suite.arena.size) (finished : next.finished = suite.finished)
    (same : next.current.scope = suite.current.scope)
    (others : ∀ d, a.size ≤ d → d < suite.current.scope → ∀ symbol,
      next.arena.binding? d symbol = suite.arena.binding? d symbol)
    (current : next.current.Mirrors next.arena implicit block') :
    next.Tells a implicit blocks block' where
  outside := scope ▸ h.outside
  size_eq := size.trans h.size_eq
  scopes := by
    have scopes := h.scopes
    rw [records, List.map_append] at scopes ⊢
    rw [finished, List.map_singleton, same]
    exact scopes
  finished := by
    rw [finished, same]
    exact h.finished.imp fun block record told =>
      ⟨told.1, told.2.congr (others record.scope told.1.1 told.1.2)⟩
  current := current

theorem Tells.setCurrent (h : suite.Tells a implicit blocks block) {current : TestRecord}
    (same : current.scope = suite.current.scope)
    (mirrors : current.Mirrors suite.arena implicit block') :
    { suite with current }.Tells a implicit blocks block' :=
  h.keep rfl rfl rfl same (fun _ _ _ _ => rfl) mirrors

/-- A test finishes the current block and starts the next one. -/
theorem Tells.startTest (h : suite.Tells a implicit blocks block) (span : Span) (name : String) :
    (suite.startTest span name).Tells a implicit (blocks ++ [block]) [.test span name] where
  outside := h.outside
  size_eq := by
    rw [Suite.startTest, TestRecord.create, Arena.size_create, h.size_eq, List.length_append]
    rfl
  scopes := by
    have same : (suite.startTest span name).records =
        suite.records ++ [{ name, span, scope := suite.arena.size }] := by
      simp [records, Suite.startTest, TestRecord.create]
    rw [same, List.map_append, h.scopes, List.length_append, List.length_singleton,
      List.range'_concat (n := blocks.length + 1), Nat.one_mul, List.map_singleton, h.size_eq,
      Nat.add_assoc]
  finished := by
    have new : (suite.startTest span name).current.scope = a.size + blocks.length + 1 := h.size_eq
    have bound := h.scope_current
    have kept {record : TestRecord} {block : List Statement}
        (mirrors : record.Mirrors suite.arena implicit block) :
        record.Mirrors (suite.startTest span name).arena implicit block :=
      mirrors.congr fun _ => Arena.binding?_create ..
    have whole : (suite.startTest span name).finished.toList =
        suite.finished.toList ++ [suite.current] := Array.toList_push
    rw [whole, new]
    refine List.rel_append (h.finished.imp fun block record told =>
      ⟨⟨told.1.1, ?_⟩, kept told.2⟩) (.cons ⟨⟨?_, ?_⟩, kept h.current⟩ .nil)
    · rw [bound]
      exact Nat.le_add_right ..
    · rw [bound]
      exact Nat.lt_succ_self _
    · have below := told.1.2
      rw [bound] at below
      exact Nat.lt_succ_of_lt below
  current :=
    have new : ({ name, span, scope := suite.arena.size } : TestRecord).Mirrors suite.arena implicit
        [.test span name] :=
      .of_new (Nat.le_refl _) rfl (.inr rfl)
    new.congr fun _ => Arena.binding?_create ..

theorem scopeOf_le {level : Level} (other : level ≠ .own) : suite.scopeOf level ≤ suite.scope := by
  cases level with
  | global => exact suite.arena.root_le suite.scope
  | parent => exact Nat.le_refl _
  | own => exact absurd rfl other

theorem Tells.bind (h : suite.Tells a implicit blocks block) (level : Level) (symbol : String)
    (value : Token) :
    (suite.bind level symbol value).Tells a implicit blocks (block ++ [.bind level symbol value]) := by
  -- The current record's table comes last, and those of the other levels before the suite's.
  have place : suite.scopeOf level < a.size ∨
      level = .own ∧ suite.scopeOf level = suite.current.scope := by
    cases level with
    | own => exact .inr ⟨rfl, rfl⟩
    | global | parent => exact .inl (Nat.lt_of_le_of_lt (scopeOf_le (by simp)) h.outside)
  have above : a.size ≤ suite.current.scope := h.scope_current ▸ Nat.le_add_right ..
  have inside : suite.scopeOf level < suite.arena.size := by
    rw [h.size_eq]
    rcases place with outer | ⟨-, own⟩
    · exact Nat.lt_of_lt_of_le outer (Nat.le_add_right _ (blocks.length + 1))
    · rw [own, h.scope_current]
      exact Nat.lt_succ_self _
  have bound (d : ScopeId) (other : String) : (suite.bind level symbol value).arena.binding? d other =
      if suite.scopeOf level = d ∧ symbol = other then some value
      else suite.arena.binding? d other := Arena.binding?_bind inside
  refine h.keep rfl (Arena.size_bind ..) rfl rfl (fun d lower upper other => ?_) (h.current.bind ?_)
  · -- The tables of finished records stand between the two.
    rw [bound, if_neg]
    rintro ⟨same, -⟩
    rcases place with outer | ⟨-, own⟩
    · exact absurd (same ▸ outer) (Nat.not_lt.mpr lower)
    · exact absurd (same.symm.trans own) (Nat.ne_of_lt upper)
  · intro other
    refine (bound suite.current.scope other).trans ?_
    rcases place with outer | ⟨rfl, own⟩
    · rw [if_neg]
      swap
      · rintro ⟨same, -⟩
        exact absurd (same ▸ outer) (Nat.not_lt.mpr above)
      cases level with
      | own => exact absurd outer (Nat.not_lt.mpr above)
      | global | parent => rfl
    · rw [Statement.own?, own]
      simp only [true_and]
      split <;> rfl

/-- One statement goes to the last block, or starts a new one. -/
theorem Tells.apply (h : suite.Tells a implicit blocks block)
    (ok : suite.apply statement = .ok next) :
    (statement.isTest = true ∧ next.Tells a implicit (blocks ++ [block]) [statement]) ∨
      (statement.isTest = false ∧ next.Tells a implicit blocks (block ++ [statement])) := by
  -- All but a test change the record that is current, or a table.
  cases statement with
  | test span name =>
    simp only [Suite.apply] at ok
    split at ok
    · cases ok
    · cases ok
      exact .inl ⟨rfl, h.startTest span name⟩
  | bind level symbol value =>
    cases ok
    exact .inr ⟨rfl, h.bind level symbol value⟩
  | field f value =>
    cases f with
    | body =>
      obtain ⟨current, set, rfl⟩ := setCurrent_eq_ok.mp ok
      obtain ⟨isValue, grown, joined, rfl⟩ := TestRecord.appendBody_eq_ok.mp set
      exact .inr ⟨rfl, h.setCurrent rfl (h.current.appendBody isValue joined)⟩
    | method | uri | httpVersion =>
      obtain ⟨current, set, rfl⟩ := setCurrent_eq_ok.mp ok
      obtain ⟨-, rfl⟩ := TestRecord.setField_eq_ok.mp set
      exact .inr ⟨rfl, h.setCurrent rfl (h.current.setField (by simp))⟩
  | header name value =>
    obtain ⟨current, set, rfl⟩ := setCurrent_eq_ok.mp ok
    obtain ⟨-, -, rfl⟩ := TestRecord.setHeader_eq_ok.mp set
    exact .inr ⟨rfl, h.setCurrent rfl h.current.putHeader⟩
  | assertion assertion =>
    cases ok
    exact .inr ⟨rfl, h.setCurrent rfl (h.current.addAssertion assertion)⟩

/-- Any number of statements make the records of their blocks; the first of these goes on with the
block that was being read. -/
theorem Applies.tells (h : suite.Applies statements last)
    (tells : suite.Tells a implicit blocks block) :
    ∃ blocks' block', blocks ++ (cutBefore Statement.isTest statements).modifyHead (block ++ ·) =
      blocks' ++ [block'] ∧ last.Tells a implicit blocks' block' := by
  induction h generalizing blocks block with
  | nil => exact ⟨blocks, block, by simp [cutBefore], tells⟩
  | @cons suite next last statement statements ok _ ih =>
    obtain ⟨first, others, cut, -⟩ := exists_cutBefore Statement.isTest statements
    rcases tells.apply ok with ⟨isTest, tells⟩ | ⟨isTest, tells⟩
    · obtain ⟨blocks', block', whole, tells⟩ := ih tells
      refine ⟨blocks', block', ?_, tells⟩
      rw [← whole, cutBefore, cut, isTest]
      simp
    · obtain ⟨blocks', block', whole, tells⟩ := ih tells
      refine ⟨blocks', block', ?_, tells⟩
      rw [← whole, cutBefore, cut, isTest]
      simp

/-- The records of statements from the start of a suite, block by block. -/
theorem Applies.mirrors {scope : ScopeId} {source : String} {options : Options} (hs : scope < a.size)
    (h : (start a scope source options).Applies statements last) :
    last.records.map (·.scope) = List.range' a.size last.records.length ∧
      List.Forall₂ (fun block record =>
          record.Mirrors last.arena (options.implicitName, ⟨source, 0⟩) block)
        (cutBefore Statement.isTest statements) last.records := by
  obtain ⟨blocks, block, whole, tells⟩ := Applies.tells h (start_tells hs source options)
  obtain ⟨first, others, cut, -⟩ := exists_cutBefore Statement.isTest statements
  have parts : cutBefore Statement.isTest statements = blocks ++ [block] := by
    rw [cut] at whole ⊢
    simpa using whole
  have scopes := tells.scopes
  have length := congrArg List.length scopes
  rw [List.length_map, List.length_range'] at length
  rw [length, parts, records]
  exact ⟨scopes, List.rel_append (tells.finished.imp fun _ _ h => h.2) (.cons tells.current .nil)⟩

end Suite

/-! ## Tokens -/

/-- Two rows that agree with one row agree with each other. -/
theorem forall₂_trans {α β γ : Type} {R : α → β → Prop} {S : β → γ → Prop} {T : α → γ → Prop}
    (step : ∀ x y z, R x y → S y z → T x z) {xs : List α} {ys : List β} {zs : List γ}
    (first : List.Forall₂ R xs ys) (second : List.Forall₂ S ys zs) : List.Forall₂ T xs zs := by
  induction first generalizing zs with
  | nil =>
    cases second
    exact .nil
  | cons head _ ih =>
    cases second with
    | cons head' tail => exact .cons (step _ _ _ head head') (ih tail)

section Tokens

variable {a after : Arena} {scope : ScopeId} {source : String} {options : Options}
  {tokens : List Token} {records : List TestRecord}

/-- A block that a suite accepts is accepted alone, and makes the record that it makes in the suite. -/
theorem parseTokens_alone (hs : scope < a.size) {block : List Token} {statements : List Statement}
    (notEnd : ∀ token ∈ block, token.kind ≠ .none) (written : Written block statements)
    (accepts : options.Accepts statements)
    (single : (cutBefore Statement.isTest statements).getLast? = some statements)
    {record : TestRecord}
    (mirrors : record.Mirrors after (options.implicitName, ⟨source, 0⟩) statements) :
    ∃ others alone after',
      a.parseTokens scope block source options = (.ok (others ++ [alone]), after') ∧
        { alone with scope := record.scope } = record ∧
        ∀ symbol, after'.binding? alone.scope symbol = after.binding? record.scope symbol := by
  obtain ⟨last, applies⟩ := accepts.applies a scope source
  obtain ⟨-, rows⟩ := Suite.Applies.mirrors hs applies
  obtain ⟨cut, whole⟩ := List.getLast?_eq_some_iff.mp single
  rw [whole] at rows
  obtain ⟨others, alone, same⟩ : ∃ others alone, last.records = others ++ [alone] := ⟨_, _, rfl⟩
  have ends := List.rel_reverse rows
  rw [same, List.reverse_concat, List.reverse_concat] at ends
  have mirrors' := (List.forall₂_cons.mp ends).1
  rw [← heard_eq_self notEnd] at written
  exact ⟨others, alone, last.arena,
    parseTokens_eq_ok.mpr ⟨statements, last, written, applies, same, rfl⟩, mirrors.unique mirrors'⟩

/-- The records of tokens, in order: one for the tokens before the first test, with the implicit name on
line 0, and one for each test. A record and its own table say what its block says and nothing else, and
the block alone makes the same record but for its scope. -/
theorem parseTokens_blocks (hs : scope < a.size)
    (parsed : a.parseTokens scope tokens source options = (.ok records, after)) :
    records.length = (heard tokens).countP Token.isTest + 1 ∧
      records.map (·.scope) = List.range' a.size records.length ∧
      records.head?.map (fun first => (first.name, first.span)) =
        some (options.implicitName, ⟨source, 0⟩) ∧
      List.Forall₂ (fun block record =>
          ∃ statements, Written block statements ∧
            record.Mirrors after (options.implicitName, ⟨source, 0⟩) statements ∧
            ∃ others alone after',
              a.parseTokens scope block source options = (.ok (others ++ [alone]), after') ∧
                { alone with scope := record.scope } = record ∧
                ∀ symbol, after'.binding? alone.scope symbol = after.binding? record.scope symbol)
        (cutBefore Token.isTest (heard tokens)) records := by
  obtain ⟨statements, last, written, applies, rfl, rfl⟩ := parseTokens_eq_ok.mp parsed
  have accepts := applies_iff_acceptable.mp ⟨last, applies⟩
  obtain ⟨scopes, rows⟩ := Suite.Applies.mirrors hs applies
  have blocks := written.blocks
  refine ⟨?_, scopes, ?_, ?_⟩
  · rw [← rows.length_eq, ← blocks.length_eq, length_cutBefore]
  · obtain ⟨first, others, cut, clean, -⟩ := exists_cutBefore Statement.isTest statements
    rw [cut] at rows
    obtain ⟨record, records, mirrors, -, same⟩ := List.forall₂_cons_left_iff.mp rows
    rw [same]
    exact congrArg some (mirrors.heading.trans (heading_eq_self clean))
  · have rows' := (List.forall₂_and_left _ _).mpr ⟨fun _ mem => mem, rows⟩
    have blocks' := (List.forall₂_and_left _ _).mpr ⟨fun _ mem => mem, blocks⟩
    refine forall₂_trans (fun block part record ⟨among, written⟩ ⟨mem, mirrors⟩ => ?_) blocks' rows'
    have notEnd (token : Token) (ht : token ∈ block) : token.kind ≠ .none :=
      heard_ne_none token (flatten_cutBefore Token.isTest (heard tokens) ▸
        List.mem_flatten.mpr ⟨block, among, ht⟩)
    exact ⟨part, written, mirrors,
      parseTokens_alone hs notEnd written (accepts.of_mem mem) (getLast?_cutBefore mem) mirrors⟩

/-- A body of two parts and a symbol in one test, and a header that is given twice in the next. -/
def blockTokens : List (List Token) :=
  [[⟨.directive, ".method", ⟨"in", 1⟩⟩, ⟨.string, "GET", ⟨"in", 1⟩⟩],
    [⟨.directive, ".test", ⟨"in", 2⟩⟩, ⟨.symbol, "FIRST", ⟨"in", 2⟩⟩,
      ⟨.directive, ".local", ⟨"in", 3⟩⟩, ⟨.symbol, "ID", ⟨"in", 3⟩⟩, ⟨.integer, "1", ⟨"in", 3⟩⟩,
      ⟨.directive, ".body", ⟨"in", 4⟩⟩, ⟨.string, "id=", ⟨"in", 4⟩⟩,
      ⟨.directive, ".body", ⟨"in", 5⟩⟩, ⟨.symbol, "ID", ⟨"in", 5⟩⟩],
    [⟨.directive, ".test", ⟨"in", 6⟩⟩, ⟨.symbol, "SECOND", ⟨"in", 6⟩⟩,
      ⟨.directive, ".header", ⟨"in", 7⟩⟩, ⟨.symbol, "Accept", ⟨"in", 7⟩⟩, ⟨.string, "*", ⟨"in", 7⟩⟩,
      ⟨.directive, ".header", ⟨"in", 8⟩⟩, ⟨.symbol, "accept", ⟨"in", 8⟩⟩,
      ⟨.string, "json", ⟨"in", 8⟩⟩]]

/-- Three blocks make three records, each as it is alone. -/
theorem parseTokens_blocks_blockTokens :
    0 < (Arena.empty.create "in" none).size ∧ ∃ records after,
      (Arena.empty.create "in" none).parseTokens 0 blockTokens.flatten "in" {} = (.ok records, after) ∧
        records.length = 3 ∧ records.map (·.scope) = [1, 2, 3] ∧
        List.Forall₂ (fun block record => ∃ others alone after',
            (Arena.empty.create "in" none).parseTokens 0 block "in" {} =
                (.ok (others ++ [alone]), after') ∧
              { alone with scope := record.scope } = record)
          blockTokens records := by
  have some_table : 0 < (Arena.empty.create "in" none).size := Nat.zero_lt_one
  refine ⟨some_table, ?_⟩
  have accepted : ((Arena.empty.create "in" none).parseTokens 0 blockTokens.flatten "in" {}).1.isOk =
      true := by decide +kernel
  cases parsed : (Arena.empty.create "in" none).parseTokens 0 blockTokens.flatten "in" {} with
  | mk result after =>
    rw [parsed] at accepted
    cases result with
    | error error => cases accepted
    | ok records =>
      obtain ⟨length, scopes, -, rows⟩ := parseTokens_blocks some_table parsed
      have three : (heard blockTokens.flatten).countP Token.isTest + 1 = 3 := by decide
      have cut : cutBefore Token.isTest (heard blockTokens.flatten) = blockTokens := by decide
      rw [three] at length
      rw [length] at scopes
      rw [cut] at rows
      refine ⟨records, after, rfl, length, scopes, rows.imp ?_⟩
      rintro block record ⟨statements, -, -, others, alone, after', parsed, same, -⟩
      exact ⟨others, alone, after', parsed, same⟩

end Tokens

end HttpSuite
