import HttpSuite.Scope

/-!
# Walking up the tables

The root of a scope and the value of a symbol are found by going from parent to parent. A parent stands
before its child, so no table is read twice, and a walk ends within as many steps as there are tables.

* `parent_induction`: what passes from a parent to its child holds of every scope.
* `root_eq`, `lookup?_eq`: one step of each walk.
* `climb_eq_root`, `search_eq_lookup?`: the walks, step by step, come to the root and to the value.
-/

namespace HttpSuite

namespace Arena

variable {a : Arena} {s d p : ScopeId} {symbol : String} {fuel : Nat}

/-- What holds of a scope if it holds of its parent holds of every scope. -/
theorem parent_induction {motive : ScopeId → Prop} (a : Arena)
    (step : ∀ s, (∀ p, a.parent? s = some p → motive p) → motive s) (s : ScopeId) : motive s := by
  induction s using Nat.strongRecOn with
  | ind s ih => exact step s fun p parent => ih p (parent?_lt parent)

theorem lt_size_of_parent? (h : a.parent? s = some p) : s < a.size := by
  obtain ⟨table, found, -⟩ := Option.bind_eq_some_iff.mp h
  exact lt_size_of_table? found

theorem parent?_of_table? {table : Table} (h : a.table? s = some table) :
    a.parent? s = table.parent := by
  rw [parent?, h, Option.bind_some]

theorem binding?_of_table? {table : Table} (h : a.table? s = some table) :
    a.binding? s symbol = table.bindings.get? symbol := by
  rw [binding?, h, Option.bind_some]

theorem exists_table? (h : s < a.size) : ∃ table, a.table? s = some table :=
  ⟨_, Array.getElem?_eq_getElem h⟩

/-! ## The root -/

/-- The root of a scope is that of its parent. -/
theorem root_eq (a : Arena) (s : ScopeId) :
    a.root s = match a.parent? s with | some p => a.root p | none => s := by
  have chain := a.chain_eq s
  cases parent : a.parent? s with
  | none =>
    simp only [parent] at chain
    simp only [root, chain, List.getLast_singleton]
  | some p =>
    simp only [parent] at chain
    simp only [root, chain, List.getLast_cons (a.chain_ne_nil p)]

theorem root_of_parent? (h : a.parent? s = some p) : a.root s = a.root p := by
  rw [root_eq, h]

theorem root_mem_chain (a : Arena) (s : ScopeId) : a.root s ∈ a.chain s :=
  List.getLast_mem _

theorem parent?_root (a : Arena) (s : ScopeId) : a.parent? (a.root s) = none := by
  induction s using a.parent_induction with
  | step s ih =>
    cases parent : a.parent? s with
    | none => rwa [root_eq, parent]
    | some p =>
      rw [root_of_parent? parent]
      exact ih p parent

/-- All scopes of a chain have one root. -/
theorem root_of_mem_chain (h : d ∈ a.chain s) : a.root d = a.root s := by
  induction s using a.parent_induction with
  | step s ih =>
    rw [chain_eq] at h
    rcases List.mem_cons.mp h with rfl | h
    · rfl
    · cases parent : a.parent? s with
      | none => simp [parent] at h
      | some p =>
        rw [root_of_parent? parent]
        exact ih p parent (by simpa only [parent] using h)

/-! ## Look-up -/

/-- A scope looks into its own table, and then asks its parent. -/
theorem lookup?_eq (a : Arena) (s : ScopeId) (symbol : String) :
    a.lookup? s symbol =
      (a.binding? s symbol).or ((a.parent? s).bind (a.lookup? · symbol)) := by
  rw [lookup?, chain_eq, List.findSome?_cons]
  cases a.binding? s symbol with
  | some token => rfl
  | none => cases a.parent? s <;> rfl

/-! ## Step by step -/

/-- Goes from parent to parent up to a table without one. There is no result if that takes more than
`fuel` tables, or a table is read that there is none of. -/
def climb (a : Arena) : Nat → ScopeId → Option ScopeId
  | 0, _ => none
  | fuel + 1, s =>
    match a.table? s with
    | none => none
    | some table =>
      match table.parent with
      | none => some s
      | some p => a.climb fuel p

/-- Goes from parent to parent up to a table that binds the symbol, or to the last one; the same
bounds. -/
def search (a : Arena) (symbol : String) : Nat → ScopeId → Option (Option Token)
  | 0, _ => none
  | fuel + 1, s =>
    match a.table? s with
    | none => none
    | some table =>
      match table.bindings.get? symbol, table.parent with
      | some token, _ => some (some token)
      | none, none => some none
      | none, some p => a.search symbol fuel p

/-- The walk to the root reads no more tables than there are up to the scope. -/
theorem climb_eq_root (inside : s < a.size) (enough : s < fuel) :
    a.climb fuel s = some (a.root s) := by
  induction fuel generalizing s with
  | zero => exact absurd enough (Nat.not_lt_zero s)
  | succ fuel ih =>
    obtain ⟨table, found⟩ := exists_table? inside
    have same := parent?_of_table? found
    cases parent : table.parent with
    | none => simp only [climb, found, root_eq a s, same, parent]
    | some p =>
      have above := same.trans parent
      have lt := parent?_lt above
      simp only [climb, found, parent, root_of_parent? above]
      exact ih (Nat.lt_trans lt inside) (Nat.lt_of_lt_of_le lt (Nat.le_of_lt_succ enough))

/-- The walk to a value reads no more tables than there are up to the scope. -/
theorem search_eq_lookup? (symbol : String) (inside : s < a.size) (enough : s < fuel) :
    a.search symbol fuel s = some (a.lookup? s symbol) := by
  induction fuel generalizing s with
  | zero => exact absurd enough (Nat.not_lt_zero s)
  | succ fuel ih =>
    obtain ⟨table, found⟩ := exists_table? inside
    have same := parent?_of_table? found
    simp only [search, found, lookup?_eq a s, binding?_of_table? found, same]
    cases table.bindings.get? symbol with
    | some token => rfl
    | none =>
      cases parent : table.parent with
      | none => rfl
      | some p =>
        have lt := parent?_lt (same.trans parent)
        exact ih (Nat.lt_trans lt inside) (Nat.lt_of_lt_of_le lt (Nat.le_of_lt_succ enough))

end Arena

end HttpSuite
