import HttpSuite.Proofs.Directives.Meaning
import Mathlib.Data.List.Count

/-!
# Where statements go

Every statement writes to one place: to a table outside the suite, or to one part of the test that it
stands in. A reordering of statements keeps, for every place, what is written to it and in which order
(`Reordering`); a statement that writes outside may move to any test, every other one stays in its own.

What is acceptable, and what a record says, is known place by place. So both are kept.

* `Reordering.perm`: the statements are the same, in another order.
* `acceptable_iff`: what is acceptable, without going through the statements in order.
* `Reordering.accepts`, `Mirrors.of_same`: both are kept.
-/

namespace HttpSuite

/-! ## Places -/

/-- What a statement writes to: the heading of a new test, a part of the test that it stands in, or a
symbol in a table outside the suite. -/
inductive Place where
  | heading
  | field (field : RequestField)
  | header (key : String)
  | assertions
  | own (symbol : String)
  | outer (table : ScopeId) (symbol : String)
  deriving DecidableEq

/-- The place is in a table outside the suite. -/
def Place.isOuter : Place → Bool
  | outer _ _ => true
  | heading | field _ | header _ | assertions | own _ => false

/-- The place that the statement writes to, in a suite that is read in `scope` below `root`. -/
def Statement.place (root scope : ScopeId) : Statement → Place
  | .test _ _ => .heading
  | .bind .global symbol _ => .outer root symbol
  | .bind .parent symbol _ => .outer scope symbol
  | .bind .own symbol _ => .own symbol
  | .field f _ => .field f
  | .header name _ => .header (lowerCase name)
  | .assertion _ => .assertions

/-- The statements that write to a place, in order. -/
def goingTo (root scope : ScopeId) (place : Place) (statements : List Statement) : List Statement :=
  statements.filter (·.place root scope = place)

/-- The name and the place of a test. -/
def Statement.title? : Statement → Option (String × Span)
  | .test span name => some (name, span)
  | .bind .. | .field .. | .header .. | .assertion .. => none

/-- The statements write the same, in the same order, to every place outside the suite, or to every
place inside. -/
def SameAt (root scope : ScopeId) (outside : Bool) (statements other : List Statement) : Prop :=
  ∀ place, place.isOuter = outside →
    goingTo root scope place statements = goingTo root scope place other

/-- The statements write the same to every place: block by block to the parts of the tests, and from
wherever they stand to the tables outside. -/
structure Reordering (root scope : ScopeId) (statements other : List Statement) : Prop where
  outer : SameAt root scope true statements other
  blocks : List.Forall₂ (SameAt root scope false) (cutBefore Statement.isTest statements)
    (cutBefore Statement.isTest other)

/-- Rows that are related are alike in all that the relation keeps. -/
theorem map_eq_of_forall₂ {α β : Type} {R : α → α → Prop} {f : α → β}
    (h : ∀ x y, R x y → f x = f y) {xs ys : List α} (rows : List.Forall₂ R xs ys) :
    xs.map f = ys.map f := by
  induction rows with
  | nil => rfl
  | cons first _ ih => rw [List.map_cons, List.map_cons, h _ _ first, ih]

section Places

variable {root scope : ScopeId} {statements other block block' : List Statement}

theorem title?_place {statement : Statement} {title : String × Span}
    (h : statement.title? = some title) : statement.place root scope = .heading := by
  cases statement with
  | test => rfl
  | bind | field | header | assertion => cases h

theorem value?_place (f : RequestField) {statement : Statement} {value : Token}
    (h : statement.value? f = some value) : statement.place root scope = .field f := by
  cases statement with
  | field g =>
    obtain ⟨rfl, -⟩ := Option.ite_none_right_eq_some.mp h
    rfl
  | test | bind | header | assertion => cases h

theorem headerAt?_place (key : String) {statement : Statement} {header : Header}
    (h : statement.headerAt? key = some header) : statement.place root scope = .header key := by
  cases statement with
  | header name =>
    obtain ⟨rfl, -⟩ := Option.ite_none_right_eq_some.mp h
    rfl
  | test | bind | field | assertion => cases h

theorem assertion?_place {statement : Statement} {assertion : Assertion}
    (h : statement.assertion? = some assertion) : statement.place root scope = .assertions := by
  cases statement with
  | assertion => rfl
  | test | bind | field | header => cases h

theorem own?_place (symbol : String) {statement : Statement} {value : Token}
    (h : statement.own? symbol = some value) : statement.place root scope = .own symbol := by
  cases statement with
  | bind level =>
    cases level with
    | own =>
      obtain ⟨rfl, -⟩ := Option.ite_none_right_eq_some.mp h
      rfl
    | global | parent => cases h
  | test | field | header | assertion => cases h

/-- What is picked at one place is picked from the statements that write there. -/
theorem filterMap_goingTo {α : Type} {pick : Statement → Option α} {place : Place}
    (h : ∀ {statement value}, pick statement = some value → statement.place root scope = place)
    (block : List Statement) :
    (goingTo root scope place block).filterMap pick = block.filterMap pick := by
  rw [goingTo, List.filterMap_filter]
  congr 1
  funext statement
  cases picked : pick statement with
  | none => simp
  | some value => simp [h picked]

/-- What is picked at one place is the same in statements that write the same there. -/
theorem SameAt.filterMap {α : Type} {pick : Statement → Option α} {place : Place} {outside : Bool}
    (h : SameAt root scope outside statements other) (sort : place.isOuter = outside)
    (here : ∀ {statement value}, pick statement = some value → statement.place root scope = place) :
    statements.filterMap pick = other.filterMap pick := by
  rw [← filterMap_goingTo here statements, h place sort, filterMap_goingTo here]

/-- The last thing that is said of one place is the same in such statements. -/
theorem SameAt.lastOf_eq {α : Type} {pick : Statement → Option α} {place : Place} {outside : Bool}
    (h : SameAt root scope outside statements other) (sort : place.isOuter = outside)
    (here : ∀ {statement value}, pick statement = some value → statement.place root scope = place) :
    lastOf pick statements = lastOf pick other := by
  rw [lastOf, h.filterMap sort here, lastOf]

/-- Only the places that are written to have to be looked at. -/
theorem sameAt_iff {outside : Bool} : SameAt root scope outside statements other ↔
    ∀ statement ∈ statements ++ other, (statement.place root scope).isOuter = outside →
      goingTo root scope (statement.place root scope) statements =
        goingTo root scope (statement.place root scope) other := by
  constructor
  · exact fun h statement _ sort => h _ sort
  · intro h place sort
    by_cases written : ∃ statement ∈ statements ++ other, statement.place root scope = place
    · obtain ⟨statement, mem, rfl⟩ := written
      exact h statement mem sort
    · have nothing {block : List Statement} (sub : block ⊆ statements ++ other) :
          goingTo root scope place block = [] :=
        List.filter_eq_nil_iff.mpr fun statement mem goes =>
          written ⟨statement, sub mem, of_decide_eq_true goes⟩
      rw [nothing (List.subset_append_left ..), nothing (List.subset_append_right ..)]

instance (outside : Bool) : Decidable (SameAt root scope outside statements other) :=
  decidable_of_iff _ sameAt_iff.symm

instance : Decidable (Reordering root scope statements other) :=
  decidable_of_iff (SameAt root scope true statements other ∧
      List.Forall₂ (SameAt root scope false) (cutBefore Statement.isTest statements)
        (cutBefore Statement.isTest other))
    ⟨fun h => ⟨h.1, h.2⟩, fun h => ⟨h.outer, h.blocks⟩⟩

/-- The statements are the same, in another order. -/
theorem Reordering.perm (h : Reordering root scope statements other) : statements.Perm other := by
  rw [List.perm_iff_count]
  intro statement
  have count (block : List Statement) :
      (goingTo root scope (statement.place root scope) block).count statement =
        block.count statement := List.count_filter (by simp)
  cases place : statement.place root scope with
  | outer table symbol =>
    rw [← count statements, ← count other, place, h.outer _ rfl]
  | heading | field | header | assertions | own =>
    have parts : (cutBefore Statement.isTest statements).map (List.count statement) =
        (cutBefore Statement.isTest other).map (List.count statement) :=
      map_eq_of_forall₂ (fun block block' same => by
        rw [← count block, ← count block', same _ (by rw [place]; rfl)]) h.blocks
    rw [← flatten_cutBefore Statement.isTest statements, ← flatten_cutBefore Statement.isTest other,
      List.count_flatten, List.count_flatten, parts]

/-- The headings of the tests are the same, in the same order. -/
theorem Reordering.titles (h : Reordering root scope statements other) :
    statements.filterMap Statement.title? = other.filterMap Statement.title? := by
  have whole (block : List Statement) : block.filterMap Statement.title? =
      ((cutBefore Statement.isTest block).map (List.filterMap Statement.title?)).flatten := by
    rw [← List.filterMap_flatten, flatten_cutBefore]
  rw [whole, whole other]
  congr 1
  exact map_eq_of_forall₂ (fun _ _ same => same.filterMap rfl title?_place) h.blocks

end Places

/-! ## What is acceptable -/

/-- The value that the statement gives is one, and the name of a header is allowed. -/
def Statement.Sound : Statement → Prop
  | .field _ value => value.kind.isValue = true
  | .header name value => isHeaderName name = true ∧ value.kind.isValue = true
  | .test .. | .bind .. | .assertion .. => True

/-- The parts can be joined to the body, one after the other. -/
def Joins (body : Option Token) : List Token → Prop
  | [] => True
  | part :: parts => ∃ grown, growBody body part = .ok grown ∧ Joins (some grown) parts

/-- New tests can have these titles where the names are taken. -/
def Untaken (unique : Bool) (names : List String) (titles : List (String × Span)) : Prop :=
  unique = true → (titles.map (·.1)).Nodup ∧ ∀ title ∈ titles, title.1 ∉ names

theorem untaken_cons {unique : Bool} {names : List String} {title : String × Span}
    {titles : List (String × Span)} :
    Untaken unique names (title :: titles) ↔
      (unique = true → title.1 ∉ names) ∧ Untaken unique (names ++ [title.1]) titles := by
  cases unique with
  | false => simp [Untaken]
  | true =>
    simp only [Untaken, true_implies, List.map_cons, List.nodup_cons, List.forall_mem_cons,
      List.mem_append, List.mem_singleton, not_or, List.mem_map, not_exists, not_and]
    constructor
    · rintro ⟨⟨others, nodup⟩, free, rest⟩
      exact ⟨free, nodup, fun title mem => ⟨rest title mem, others title mem⟩⟩
    · rintro ⟨free, nodup, rest⟩
      exact ⟨⟨fun title mem => (rest title mem).2, nodup⟩, free, fun title mem => (rest title mem).1⟩

/-- What is acceptable: titles that are not taken, statements that are sound, and in each block parts
of a body that can be joined. -/
theorem acceptable_iff {unique : Bool} {names : List String} {body : Option Token}
    {statements first : List Statement} {others : List (List Statement)}
    (cut : cutBefore Statement.isTest statements = first :: others) :
    Acceptable unique names body statements ↔
      Untaken unique names (statements.filterMap Statement.title?) ∧
      (∀ statement ∈ statements, statement.Sound) ∧
      Joins body (first.filterMap (·.value? .body)) ∧
      ∀ block ∈ others, Joins none (block.filterMap (·.value? .body)) := by
  -- Over the statements from the front, with the names and the body so far.
  induction statements generalizing names body first others with
  | nil =>
    cases cut
    simp [Acceptable, Untaken, Joins]
  | cons statement statements ih =>
    obtain ⟨next, more, cut', -⟩ := exists_cutBefore Statement.isTest statements
    rw [cutBefore, cut'] at cut
    -- A statement that is no part of a body only has to be sound.
    have stays (other : statement.title? = none) (silent : statement.value? .body = none)
        (step : Acceptable unique names body (statement :: statements) ↔
          statement.Sound ∧ Acceptable unique names body statements) :
        Acceptable unique names body (statement :: statements) ↔
          Untaken unique names ((statement :: statements).filterMap Statement.title?) ∧
          (∀ other ∈ statement :: statements, other.Sound) ∧
          Joins body (first.filterMap (·.value? .body)) ∧
          ∀ block ∈ others, Joins none (block.filterMap (·.value? .body)) := by
      have same : statement.isTest = false := by
        cases statement with
        | test => cases other
        | bind | field | header | assertion => rfl
      rw [same] at cut
      cases cut
      rw [step, ih cut', List.filterMap_cons_none other, List.filterMap_cons_none silent,
        List.forall_mem_cons, and_left_comm, and_assoc]
    cases statement with
    | test span name =>
      -- A test adds its title and closes a block without a part of a body.
      cases cut
      have silent : Statement.value? .body (.test span name) = none := rfl
      have title : Statement.title? (.test span name) = some (name, span) := rfl
      rw [Acceptable, ih cut', List.filterMap_cons_some title, untaken_cons, and_assoc,
        List.forall_mem_cons, List.modifyHead_cons, List.forall_mem_cons,
        List.filterMap_cons_none silent]
      simp only [Statement.Sound, Joins, List.filterMap_nil, true_and]
    | bind | assertion => exact stays rfl rfl (iff_of_eq (true_and _)).symm
    | field f value =>
      cases f with
      | body =>
        cases cut
        -- The one statement that adds a part: it comes first in its block.
        have part : Statement.value? .body (.field .body value) = some value := rfl
        have other : Statement.title? (.field .body value) = none := rfl
        simp only [Acceptable, ih cut']
        rw [List.filterMap_cons_none other, List.filterMap_cons_some part, List.forall_mem_cons]
        -- The same conditions on both sides, in another order.
        constructor
        · rintro ⟨isValue, grown, joined, free, sound, joins, rest⟩
          exact ⟨free, ⟨isValue, sound⟩, ⟨grown, joined, joins⟩, rest⟩
        · rintro ⟨free, ⟨isValue, sound⟩, ⟨grown, joined, joins⟩, rest⟩
          exact ⟨isValue, grown, joined, free, sound, joins, rest⟩
      | method | uri | httpVersion => exact stays rfl rfl .rfl
    | header => exact stays rfl rfl .rfl

section Kept

variable {root scope : ScopeId} {statements other block block' : List Statement}

/-- Statements that are acceptable are so in another order. -/
theorem Reordering.accepts {options : Options} (h : Reordering root scope statements other)
    (accepts : options.Accepts statements) : options.Accepts other := by
  obtain ⟨first, others, cut, -⟩ := exists_cutBefore Statement.isTest statements
  obtain ⟨first', others', cut', -⟩ := exists_cutBefore Statement.isTest other
  have blocks := h.blocks
  rw [cut, cut'] at blocks
  obtain ⟨begins, rows⟩ := List.forall₂_cons.mp blocks
  have parts {block block' : List Statement} (same : SameAt root scope false block block') :
      block.filterMap (·.value? .body) = block'.filterMap (·.value? .body) :=
    same.filterMap rfl (value?_place .body)
  obtain ⟨free, sound, joins, rest⟩ := (acceptable_iff cut).mp accepts
  refine (acceptable_iff cut').mpr ⟨h.titles ▸ free, fun statement mem => ?_, parts begins ▸ joins, ?_⟩
  · exact sound statement (h.perm.mem_iff.mpr mem)
  · have alike := map_eq_of_forall₂ (fun _ _ same => parts same) rows
    rw [← List.forall_mem_map (f := List.filterMap (Statement.value? .body)) (P := Joins none)] at rest ⊢
    exact alike ▸ rest

/-! ## What a record says -/

/-- The heading of a block is the one title that it has. -/
theorem heading_eq_title {implicit : String × Span} (h : block ∈ cutBefore Statement.isTest statements) :
    heading implicit block = (block.filterMap Statement.title?).head?.getD implicit := by
  have silent {rest : List Statement} (clean : ∀ statement ∈ rest, statement.isTest = false) :
      rest.filterMap Statement.title? = [] := by
    refine List.filterMap_eq_nil_iff.mpr fun statement mem => ?_
    cases statement with
    | test => cases clean _ mem
    | bind | field | header | assertion => rfl
  obtain ⟨first, others, cut, clean, opens⟩ := exists_cutBefore Statement.isTest statements
  rw [cut] at h
  rcases List.mem_cons.mp h with rfl | h
  · rw [silent clean, heading_eq_self clean]
    rfl
  · obtain ⟨statement, rest, rfl, isTest, clean⟩ := opens block h
    cases statement with
    | test span name => rfl
    | bind | field | header | assertion => cases isTest

/-- Block by block the statements write the same to the parts of the test, under the same heading. -/
theorem Reordering.rows (h : Reordering root scope statements other) (implicit : String × Span) :
    List.Forall₂ (fun block block' => heading implicit block = heading implicit block' ∧
        SameAt root scope false block block')
      (cutBefore Statement.isTest statements) (cutBefore Statement.isTest other) := by
  have parts := (List.forall₂_and_left _ _).mpr ⟨fun _ mem => mem, h.blocks⟩
  have parts' := (List.forall₂_and_left _ _).mpr ⟨fun _ mem => mem, parts.flip⟩
  refine parts'.flip.imp fun block block' ⟨mem', mem, same⟩ => ⟨?_, same⟩
  rw [heading_eq_title mem, heading_eq_title mem', same.filterMap rfl title?_place]

/-- A record that says what a block says also says what a block says that writes the same. -/
theorem TestRecord.Mirrors.of_same {record : TestRecord} {a : Arena} {implicit : String × Span}
    (h : record.Mirrors a implicit block)
    (head : HttpSuite.heading implicit block = HttpSuite.heading implicit block')
    (same : SameAt root scope false block block') : record.Mirrors a implicit block' where
  heading := h.heading.trans head
  fields f hf := (h.fields f hf).trans (same.lastOf_eq rfl (value?_place f))
  headers key := (h.headers key).trans (same.lastOf_eq rfl (headerAt?_place key))
  body := by
    rw [← same.filterMap rfl (value?_place .body)]
    exact h.body
  assertions := h.assertions.trans (same.filterMap rfl assertion?_place)
  response := h.response
  own symbol := (h.own symbol).trans (same.lastOf_eq rfl (own?_place symbol))

end Kept

end HttpSuite
