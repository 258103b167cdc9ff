import HttpSuite.Proofs.Setters
import HttpSuite.Suite
import Mathlib.Data.List.Forall2

/-!
# Suites in two arenas

A suite can be read in two arenas that have the global scope in common and nothing else. Then its own
tables are past the end of each (`n` and `m`), and what stands for each other are the global scopes and
the tables at the same distance past the ends (`Twin`). Arenas, records and suites are alike if twins
hold the same.

* `Arena.Alike.lookup?_eq`: a symbol is found alike from twins.
* `Alike.apply`, `Alike.applyAll`: one statement, and any number of them.
* `Arena.Alike.parse`: a suite is read alike, or fails with the same fault.
-/

namespace HttpSuite

/-- Scopes that stand for each other in two arenas: the global ones, and those at one distance past `n`
and `m`. -/
inductive Twin (n m : Nat) : ScopeId → ScopeId → Prop
  | global : Twin n m 0 0
  | inner (i : Nat) : Twin n m (n + i) (m + i)

section Twin

variable {n m k s t d e : Nat}

theorem Twin.eq_iff (hn : 0 < n) (hm : 0 < m) (h : Twin n m s t) (h' : Twin n m d e) :
    s = d ↔ t = e := by
  cases h <;> cases h' <;> omega

theorem Twin.lt_iff (hn : 0 < n) (hm : 0 < m) (h : Twin n m s t) : s < n + k ↔ t < m + k := by
  cases h <;> omega

end Twin

/-! ## Arenas -/

/-- The tables hold the same, and have no parents or twins. -/
structure Table.Alike (n m : Nat) (t u : Table) : Prop where
  name : t.name = u.name
  bindings : t.bindings = u.bindings
  parent : Option.Rel (Twin n m) t.parent u.parent

/-- Twins are tables that hold the same, and as many tables come after `n` as after `m`. -/
structure Arena.Alike (n m : Nat) (a b : Arena) : Prop where
  pos : 0 < n
  pos' : 0 < m
  size : ∃ k, a.size = n + k ∧ b.size = m + k
  tables : ∀ {s t}, Twin n m s t → Option.Rel (Table.Alike n m) (a.table? s) (b.table? t)

namespace Arena.Alike

variable {n m : Nat} {a b : Arena} {s t d e : ScopeId}

theorem lt_size_iff (h : Alike n m a b) (twin : Twin n m s t) : s < a.size ↔ t < b.size := by
  obtain ⟨k, left, right⟩ := h.size
  rw [left, right]
  exact twin.lt_iff h.pos h.pos'

theorem size_twin (h : Alike n m a b) : Twin n m a.size b.size := by
  obtain ⟨k, left, right⟩ := h.size
  rw [left, right]
  exact .inner k

/-! ### Look-up -/

/-- Twins are both absent, or hold the same. -/
theorem table?_cases (h : Alike n m a b) (twin : Twin n m s t) :
    (a.table? s = none ∧ b.table? t = none) ∨
      ∃ table other, a.table? s = some table ∧ b.table? t = some other ∧ table.Alike n m other := by
  have tables := h.tables twin
  generalize a.table? s = left at tables ⊢
  generalize b.table? t = right at tables ⊢
  cases tables with
  | none => exact .inl ⟨rfl, rfl⟩
  | some alike => exact .inr ⟨_, _, rfl, rfl, alike⟩

theorem name_eq (h : Alike n m a b) (twin : Twin n m s t) : a.name s = b.name t := by
  rcases h.table?_cases twin with ⟨left, right⟩ | ⟨table, other, left, right, alike⟩
  · rw [name, name, left, right]
  · rw [name, name, left, right]
    exact alike.name

theorem bindings_eq (h : Alike n m a b) (twin : Twin n m s t) : a.bindings s = b.bindings t := by
  rcases h.table?_cases twin with ⟨left, right⟩ | ⟨table, other, left, right, alike⟩
  · rw [bindings, bindings, left, right]
  · rw [bindings, bindings, left, right]
    exact congrArg KeyMap.entries alike.bindings

theorem binding?_eq (h : Alike n m a b) (twin : Twin n m s t) (symbol : String) :
    a.binding? s symbol = b.binding? t symbol := by
  rcases h.table?_cases twin with ⟨left, right⟩ | ⟨table, other, left, right, alike⟩
  · rw [binding?, binding?, left, right]
  · rw [binding?, binding?, left, right]
    exact congrArg (·.get? symbol) alike.bindings

/-- Twins have no parents, or parents that are twins. -/
theorem parent?_cases (h : Alike n m a b) (twin : Twin n m s t) :
    (a.parent? s = none ∧ b.parent? t = none) ∨
      ∃ p q, a.parent? s = some p ∧ b.parent? t = some q ∧ Twin n m p q := by
  rcases h.table?_cases twin with ⟨left, right⟩ | ⟨table, other, left, right, alike⟩
  · rw [parent?, parent?, left, right]
    exact .inl ⟨rfl, rfl⟩
  · rw [parent?, parent?, left, right]
    have parents := alike.parent
    dsimp only [Option.bind_some]
    generalize table.parent = up at parents ⊢
    generalize other.parent = up' at parents ⊢
    cases parents with
    | none => exact .inl ⟨rfl, rfl⟩
    | some twin => exact .inr ⟨_, _, rfl, rfl, twin⟩

theorem chain_forall₂ (h : Alike n m a b) (twin : Twin n m s t) :
    List.Forall₂ (Twin n m) (a.chain s) (b.chain t) := by
  induction s using Nat.strongRecOn generalizing t with
  | ind s ih =>
    rw [chain_eq, chain_eq]
    rcases h.parent?_cases twin with ⟨left, right⟩ | ⟨p, q, left, right, up⟩
    · rw [left, right]
      exact .cons twin .nil
    · rw [left, right]
      exact .cons twin (ih p (parent?_lt left) up)

theorem root_twin (h : Alike n m a b) (twin : Twin n m s t) : Twin n m (a.root s) (b.root t) := by
  have ends {xs ys : List ScopeId} (rows : List.Forall₂ (Twin n m) xs ys) (hx : xs ≠ [])
      (hy : ys ≠ []) : Twin n m (xs.getLast hx) (ys.getLast hy) := by
    induction rows with
    | nil => exact absurd rfl hx
    | cons first rest ih =>
      cases rest with
      | nil => exact first
      | cons => exact ih (List.cons_ne_nil _ _) (List.cons_ne_nil _ _)
  exact ends (h.chain_forall₂ twin) _ _

theorem lookup?_eq (h : Alike n m a b) (twin : Twin n m s t) : a.lookup? s = b.lookup? t := by
  funext symbol
  have found {xs ys : List ScopeId} (rows : List.Forall₂ (Twin n m) xs ys) :
      xs.findSome? (a.binding? · symbol) = ys.findSome? (b.binding? · symbol) := by
    induction rows with
    | nil => rfl
    | cons first _ ih => rw [List.findSome?_cons, List.findSome?_cons, h.binding?_eq first, ih]
  exact found (h.chain_forall₂ twin)

/-! ### Writes -/

theorem create (h : Alike n m a b) (twin : Twin n m s t) (name : String) :
    Alike n m (a.create name (some s)) (b.create name (some t)) where
  pos := h.pos
  pos' := h.pos'
  size := by
    obtain ⟨k, left, right⟩ := h.size
    exact ⟨k + 1, by rw [size_create, left, Nat.add_assoc], by rw [size_create, right, Nat.add_assoc]⟩
  tables {d e} other := by
    have last := other.eq_iff h.pos h.pos' h.size_twin
    have inside := h.lt_size_iff twin
    rw [table?_create, table?_create]
    by_cases new : d = a.size
    · rw [if_pos new, if_pos (last.mp new)]
      refine .some ⟨rfl, rfl, ?_⟩
      rw [Option.filter_some, Option.filter_some]
      by_cases found : s < a.size
      · rw [if_pos (decide_eq_true found), if_pos (decide_eq_true (inside.mp found))]
        exact .some twin
      · rw [if_neg (mt of_decide_eq_true found), if_neg (mt of_decide_eq_true (mt inside.mpr found))]
        exact .none
    · rw [if_neg new, if_neg (mt last.mpr new)]
      exact h.tables other

theorem bind (h : Alike n m a b) (twin : Twin n m s t) (symbol : String) (token : Token) :
    Alike n m (a.bind s symbol token) (b.bind t symbol token) where
  pos := h.pos
  pos' := h.pos'
  size := by
    rw [size_bind, size_bind]
    exact h.size
  tables {d e} other := by
    have same := twin.eq_iff h.pos h.pos' other
    rw [table?_bind, table?_bind]
    by_cases here : s = d
    · rw [if_pos here, if_pos (same.mp here)]
      rcases h.table?_cases other with ⟨left, right⟩ | ⟨table, other, left, right, alike⟩
      · rw [left, right]
        exact .none
      · rw [left, right]
        exact .some ⟨alike.name, congrArg (·.insert symbol token) alike.bindings, alike.parent⟩
    · rw [if_neg here, if_neg (mt same.mpr here)]
      exact h.tables other

end Arena.Alike

/-- Arenas with the same global scope, one new table under it in each: what stood between is unseen. -/
theorem Arena.alike_create {a b : Arena} (ha : 0 < a.size) (hb : 0 < b.size)
    (same : a.table? 0 = b.table? 0) (name : String) :
    (a.create name (some 0)).Alike a.size b.size (b.create name (some 0)) := by
  have global : (a.table? 0).bind (·.parent) = none := by
    cases parent : a.parent? 0 with
    | none => exact parent
    | some p => exact absurd (parent?_lt parent) (Nat.not_lt_zero p)
  have old : Alike a.size b.size a b := by
    refine ⟨ha, hb, ⟨0, rfl, rfl⟩, fun {s t} twin => ?_⟩
    cases twin with
    | global =>
      rw [← same]
      cases found : a.table? 0 with
      | none => exact .none
      | some table =>
        rw [found] at global
        have none : table.parent = none := global
        refine .some ⟨rfl, rfl, ?_⟩
        rw [none]
        exact .none
    | inner i =>
      rw [table?_eq_none (Nat.le_add_right ..), table?_eq_none (Nat.le_add_right ..)]
      exact .none
  exact old.create .global name

/-! ## Records -/

namespace TestRecord

/-- The record in another scope. -/
def inScope (record : TestRecord) (scope : ScopeId) : TestRecord := { record with scope }

/-- The records are the same but for their scopes, which are twins. -/
structure Alike (n m : Nat) (record other : TestRecord) : Prop where
  scope : Twin n m record.scope other.scope
  same : other = record.inScope other.scope

section Setters

variable (record : TestRecord) (scope : ScopeId) (value : Token)

theorem setField_inScope (f : RequestField) :
    (record.inScope scope).setField f value = (record.setField f value).map (·.inScope scope) := by
  unfold setField checkValue
  split <;> rfl

theorem appendBody_inScope :
    (record.inScope scope).appendBody value = (record.appendBody value).map (·.inScope scope) := by
  have request : (record.inScope scope).request = record.request := rfl
  unfold appendBody checkValue
  rw [request]
  split
  · cases record.request.body with
    | none => rfl
    | some body =>
      dsimp only [bind, Except.bind]
      cases joinBody body value <;> rfl
  · rfl

theorem setHeader_inScope (name : String) :
    (record.inScope scope).setHeader name value =
      (record.setHeader name value).map (·.inScope scope) := by
  unfold setHeader checkValue
  by_cases named : isHeaderName name = true
  · by_cases isValue : value.kind.isValue = true
    · simp [named, isValue, bind, Except.bind, pure, Except.pure, Except.map, inScope]
    · simp [named, isValue, bind, Except.bind, Except.map]
  · simp [named, bind, Except.bind, throw, throwThe, MonadExceptOf.throw, Except.map]

end Setters

end TestRecord

/-! ## Suites -/

/-- The suites are alike: the same records so far but for their scopes, in arenas that are alike. -/
structure Suite.Alike (n m : Nat) (suite other : Suite) : Prop where
  scope : Twin n m suite.scope other.scope
  options : other.options = suite.options
  arena : suite.arena.Alike n m other.arena
  finished : List.Forall₂ (TestRecord.Alike n m) suite.finished.toList other.finished.toList
  current : suite.current.Alike n m other.current

namespace Suite.Alike

variable {n m : Nat} {suite other : Suite}

theorem records (h : Alike n m suite other) :
    List.Forall₂ (TestRecord.Alike n m) suite.records other.records :=
  List.rel_append h.finished (.cons h.current .nil)

/-- The same name is taken, and by a test in the same place. -/
theorem namesake?_span (h : Alike n m suite other) (name : String) :
    (other.namesake? name).map (·.span) = (suite.namesake? name).map (·.span) := by
  have found {xs ys : List TestRecord} (rows : List.Forall₂ (TestRecord.Alike n m) xs ys) :
      (ys.find? (·.name == name)).map (·.span) = (xs.find? (·.name == name)).map (·.span) := by
    induction rows with
    | nil => rfl
    | @cons record twin xs ys alike _ ih =>
      have same : twin.name = record.name ∧ twin.span = record.span := by
        rw [alike.same]
        exact ⟨rfl, rfl⟩
      rw [List.find?_cons, List.find?_cons, same.1]
      split
      · exact congrArg some same.2
      · exact ih
  rw [namesake?, namesake?, h.options]
  split
  · exact found h.records
  · rfl

theorem scopeOf (h : Alike n m suite other) (level : Level) :
    Twin n m (suite.scopeOf level) (other.scopeOf level) := by
  cases level with
  | global => exact h.arena.root_twin h.scope
  | parent => exact h.scope
  | own => exact h.current.scope

theorem bind (h : Alike n m suite other) (level : Level) (symbol : String) (value : Token) :
    Alike n m (suite.bind level symbol value) (other.bind level symbol value) :=
  { h with arena := h.arena.bind (h.scopeOf level) symbol value }

theorem startTest (h : Alike n m suite other) (span : Span) (name : String) :
    Alike n m (suite.startTest span name) (other.startTest span name) where
  scope := h.scope
  options := h.options
  arena := h.arena.create h.scope name
  finished := by
    have whole (suite : Suite) : (suite.startTest span name).finished.toList = suite.records :=
      Array.toList_push
    rw [whole, whole]
    exact h.records
  current := ⟨h.arena.size_twin, rfl⟩

/-- A setter that does not look at the scope changes both records alike, or refuses for the same
reason. -/
theorem setCurrent (h : Alike n m suite other) (set : TestRecord → Except RecordError TestRecord)
    (keeps : ∀ record next, set record = .ok next → next.scope = record.scope)
    (blind : ∀ record scope, set (record.inScope scope) = (set record).map (·.inScope scope)) :
    (∃ error, suite.setCurrent (set suite.current) = .error error ∧
        other.setCurrent (set other.current) = .error error) ∨
      ∃ next next', suite.setCurrent (set suite.current) = .ok next ∧
        other.setCurrent (set other.current) = .ok next' ∧ Alike n m next next' := by
  have same := blind suite.current other.current.scope
  rw [← h.current.same] at same
  rw [same]
  cases result : set suite.current with
  | error error => exact .inl ⟨_, rfl, rfl⟩
  | ok current =>
    have scope : Twin n m current.scope other.current.scope :=
      keeps _ _ result ▸ h.current.scope
    exact .inr ⟨_, _, rfl, rfl, { h with current := ⟨scope, rfl⟩ }⟩

/-- A statement is refused alike, or does the same to both suites. -/
theorem apply (h : Alike n m suite other) (statement : Statement) :
    (∃ error, suite.apply statement = .error error ∧ other.apply statement = .error error) ∨
      ∃ next next', suite.apply statement = .ok next ∧ other.apply statement = .ok next' ∧
        Alike n m next next' := by
  cases statement with
  | test span name =>
    have taken := h.namesake?_span name
    rw [Suite.apply, Suite.apply]
    generalize suite.namesake? name = left at *
    generalize other.namesake? name = right at *
    cases left with
    | none =>
      obtain rfl := Option.map_eq_none_iff.mp taken
      exact .inr ⟨_, _, rfl, rfl, h.startTest span name⟩
    | some first =>
      obtain ⟨first', rfl, place⟩ := Option.map_eq_some_iff.mp taken
      have same : first'.span = first.span := place
      refine .inl ⟨_, rfl, ?_⟩
      dsimp only
      rw [same]
  | bind level symbol value => exact .inr ⟨_, _, rfl, rfl, h.bind level symbol value⟩
  | field f value =>
    cases f with
    | body =>
      refine h.setCurrent (·.appendBody value) (fun record next ok => ?_)
        fun record scope => record.appendBody_inScope scope value
      obtain ⟨-, grown, -, rfl⟩ := TestRecord.appendBody_eq_ok.mp ok
      rfl
    | method | uri | httpVersion =>
      refine h.setCurrent (·.setField _ value) (fun record next ok => ?_)
        fun record scope => record.setField_inScope scope value _
      obtain ⟨-, rfl⟩ := TestRecord.setField_eq_ok.mp ok
      rfl
  | header name value =>
    refine h.setCurrent (·.setHeader name value) (fun record next ok => ?_)
      fun record scope => record.setHeader_inScope scope value name
    obtain ⟨-, -, rfl⟩ := TestRecord.setHeader_eq_ok.mp ok
    rfl
  | assertion assertion =>
    refine .inr ⟨_, _, rfl, rfl, { h with current := ⟨h.current.scope, ?_⟩ }⟩
    rw [h.current.same]
    rfl

/-- Statements do the same to both suites, up to the same fault. -/
theorem applyAll (h : Alike n m suite other) (statements : List Statement) :
    (other.applyAll statements).2 = (suite.applyAll statements).2 ∧
      Alike n m (suite.applyAll statements).1 (other.applyAll statements).1 := by
  induction statements generalizing suite other with
  | nil => exact ⟨rfl, h⟩
  | cons statement statements ih =>
    rw [Suite.applyAll, Suite.applyAll]
    rcases h.apply statement with ⟨error, left, right⟩ | ⟨next, next', left, right, alike⟩
    · rw [left, right]
      exact ⟨rfl, h⟩
    · rw [left, right]
      exact ih alike

end Suite.Alike

/-- A suite is read alike in arenas that are alike, or fails with the same fault in both. -/
theorem Arena.Alike.parse {n m : Nat} {a b : Arena} {s t : ScopeId} (h : a.Alike n m b)
    (twin : Twin n m s t) (source : String) (options : Options) (feed : Feed) :
    (∃ error, (a.parse s source options feed).1 = .error error ∧
        (b.parse t source options feed).1 = .error error) ∨
      ∃ records records' after after', a.parse s source options feed = (.ok records, after) ∧
        b.parse t source options feed = (.ok records', after') ∧
        List.Forall₂ (TestRecord.Alike n m) records records' ∧ after.Alike n m after' := by
  have start : Suite.Alike n m (.start a s source options) (.start b t source options) :=
    ⟨twin, rfl, h.create twin _, .nil, ⟨h.size_twin, rfl⟩⟩
  obtain ⟨fault, alike⟩ := start.applyAll (Script.ofFeed feed).statements
  rw [Arena.parse, Arena.parse, Script.applyTo, Script.applyTo]
  generalize (Suite.start a s source options).applyAll (Script.ofFeed feed).statements = left at *
  generalize (Suite.start b t source options).applyAll (Script.ofFeed feed).statements = right at *
  obtain ⟨suite, fault₁⟩ := left
  obtain ⟨other, fault₂⟩ := right
  obtain rfl : fault₂ = fault₁ := fault
  cases fault₂ with
  | some error => exact .inl ⟨.parse error, rfl, rfl⟩
  | none =>
    cases (Script.ofFeed feed).fault with
    | some error => exact .inl ⟨error.error, rfl, rfl⟩
    | none => exact .inr ⟨_, _, _, _, rfl, rfl, alike.records, alike.arena⟩

end HttpSuite
