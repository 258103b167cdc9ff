import HttpSuite.KeyMap
import HttpSuite.Token

/-!
# Scopes

Symbols are bound in tables, and every table may have a parent that is asked when it has no binding
itself. All tables live in one arena and are named by their place in it. A parent always stands
before its children, so every chain of parents ends.

* `chain_eq`: a scope is followed by the chain of its parent.
* `binding?_create`, `binding?_bind`, `binding?_unbind`: the writes seen through one table.
* `chain_bind`: a binding changes no chain.
-/

namespace HttpSuite

/-- A table by its place in the arena. -/
abbrev ScopeId := Nat

/-- A named set of bindings with an optional parent. -/
structure Table where
  name : String
  parent : Option ScopeId
  bindings : KeyMap Token
  deriving DecidableEq

/-- All tables. Parents come before their children. -/
structure Arena where
  tables : Array Table
  parent_lt : ∀ (s : Nat) (table : Table), tables[s]? = some table →
    ∀ p, table.parent = some p → p < s

namespace Arena

@[ext] theorem ext {a b : Arena} (h : a.tables = b.tables) : a = b := by
  cases a
  cases b
  cases h
  rfl

/-- The arena without tables. -/
def empty : Arena := ⟨#[], by simp⟩

instance : Inhabited Arena := ⟨empty⟩

/-- The number of tables. -/
def size (a : Arena) : Nat := a.tables.size

/-- The table of a scope. -/
def table? (a : Arena) (s : ScopeId) : Option Table := a.tables[s]?

/-- The name of a scope. -/
def name (a : Arena) (s : ScopeId) : String :=
  match a.table? s with
  | some table => table.name
  | none => ""

/-- The parent of a scope. -/
def parent? (a : Arena) (s : ScopeId) : Option ScopeId :=
  (a.table? s).bind (·.parent)

/-- The bindings of a scope's own table, in order of symbol. -/
def bindings (a : Arena) (s : ScopeId) : List (String × Token) :=
  match a.table? s with
  | some table => table.bindings.entries
  | none => []

/-- What a scope's own table binds the symbol to. -/
def binding? (a : Arena) (s : ScopeId) (symbol : String) : Option Token :=
  (a.table? s).bind (·.bindings.get? symbol)

theorem table?_eq_none {a : Arena} {s : ScopeId} (h : a.size ≤ s) : a.table? s = none :=
  Array.getElem?_eq_none h

theorem lt_size_of_table? {a : Arena} {s : ScopeId} {table : Table}
    (h : a.table? s = some table) : s < a.size :=
  (Array.getElem?_eq_some_iff.mp h).1

/-- Arenas with the same tables in the same places are the same. -/
theorem ext_table? {a b : Arena} (h : ∀ s, a.table? s = b.table? s) : a = b :=
  ext (Array.ext_getElem? h)

theorem parent?_lt {a : Arena} {s p : ScopeId} (h : a.parent? s = some p) : p < s := by
  obtain ⟨table, found, parent⟩ := Option.bind_eq_some_iff.mp h
  exact a.parent_lt s table found p parent

/-! ## Writes -/

/-- Adds an empty table; a parent that is not in the arena counts for none. Its scope is the size
of the arena before. -/
def create (a : Arena) (name : String) (parent : Option ScopeId) : Arena where
  tables := a.tables.push ⟨name, parent.filter (· < a.size), .empty⟩
  parent_lt s table found p hp := by
    rw [Array.getElem?_push] at found
    split at found
    · next eq =>
      cases found
      exact eq ▸ of_decide_eq_true (Option.filter_eq_some_iff.mp hp).2
    · exact a.parent_lt s table found p hp

/-- Changes the table of a scope in a way that keeps its parent. -/
def modify (a : Arena) (s : ScopeId) (f : Table → Table)
    (keeps : ∀ table, (f table).parent = table.parent) : Arena where
  tables := a.tables.modify s f
  parent_lt d table found p hp := by
    rw [Array.getElem?_modify] at found
    split at found
    · obtain ⟨old, hold, rfl⟩ := Option.map_eq_some_iff.mp found
      exact a.parent_lt d old hold p (keeps old ▸ hp)
    · exact a.parent_lt d table found p hp

/-- Binds a symbol in a scope's own table. -/
def bind (a : Arena) (s : ScopeId) (symbol : String) (token : Token) : Arena :=
  a.modify s (fun t => { t with bindings := t.bindings.insert symbol token }) fun _ => rfl

/-- Removes the binding of a symbol from a scope's own table. -/
def unbind (a : Arena) (s : ScopeId) (symbol : String) : Arena :=
  a.modify s (fun t => { t with bindings := t.bindings.erase symbol }) fun _ => rfl

/-- Gives a scope another name. -/
def rename (a : Arena) (s : ScopeId) (name : String) : Arena :=
  a.modify s (fun t => { t with name }) fun _ => rfl

/-! ## Chains -/

/-- The scope, its parent, the parent of that, and so on. -/
def chain (a : Arena) (s : ScopeId) : List ScopeId :=
  match _h : a.parent? s with
  | some p => s :: a.chain p
  | none => [s]
termination_by s
decreasing_by exact parent?_lt _h

theorem chain_eq (a : Arena) (s : ScopeId) :
    a.chain s = s :: (match a.parent? s with | some p => a.chain p | none => []) := by
  rw [chain]
  split <;> simp_all

theorem chain_ne_nil (a : Arena) (s : ScopeId) : a.chain s ≠ [] := by
  rw [chain_eq]
  simp

/-- The outermost scope of the chain. -/
def root (a : Arena) (s : ScopeId) : ScopeId :=
  (a.chain s).getLast (a.chain_ne_nil s)

theorem le_of_mem_chain {a : Arena} {s d : ScopeId} (h : d ∈ a.chain s) : d ≤ s := by
  induction s using Nat.strongRecOn with
  | ind s ih =>
    rw [chain_eq] at h
    rcases List.mem_cons.mp h with rfl | h
    · exact Nat.le_refl d
    · cases hp : a.parent? s with
      | none =>
        rw [hp] at h
        cases h
      | some p =>
        rw [hp] at h
        have lt := parent?_lt hp
        exact Nat.le_trans (ih p lt h) (Nat.le_of_lt lt)

theorem root_le (a : Arena) (s : ScopeId) : a.root s ≤ s :=
  le_of_mem_chain (List.getLast_mem _)

/-- What the nearest scope of the chain that binds the symbol binds it to. -/
def lookup? (a : Arena) (s : ScopeId) (symbol : String) : Option Token :=
  (a.chain s).findSome? (a.binding? · symbol)

/-! ## Writes seen through look-up -/

theorem table?_create (a : Arena) (name : String) (parent : Option ScopeId) (d : ScopeId) :
    (a.create name parent).table? d =
      if d = a.size then some ⟨name, parent.filter (· < a.size), .empty⟩ else a.table? d :=
  Array.getElem?_push

@[simp] theorem size_create (a : Arena) (name : String) (parent : Option ScopeId) :
    (a.create name parent).size = a.size + 1 :=
  Array.size_push ..

@[simp] theorem size_bind (a : Arena) (s : ScopeId) (symbol : String) (token : Token) :
    (a.bind s symbol token).size = a.size :=
  Array.size_modify

theorem table?_modify {a : Arena} {s : ScopeId} {f : Table → Table}
    {keeps : ∀ table, (f table).parent = table.parent} (d : ScopeId) :
    (a.modify s f keeps).table? d = if s = d then (a.table? d).map f else a.table? d :=
  Array.getElem?_modify

theorem table?_bind (a : Arena) (s : ScopeId) (symbol : String) (token : Token) (d : ScopeId) :
    (a.bind s symbol token).table? d =
      if s = d then
        (a.table? d).map fun t => { t with bindings := t.bindings.insert symbol token }
      else a.table? d :=
  table?_modify d

theorem parent?_modify {a : Arena} {s : ScopeId} {f : Table → Table}
    {keeps : ∀ table, (f table).parent = table.parent} (d : ScopeId) :
    (a.modify s f keeps).parent? d = a.parent? d := by
  simp only [parent?, table?_modify]
  split
  · cases a.table? d <;> simp [keeps]
  · rfl

/-- A chain depends on the parents up to its scope only. -/
theorem chain_congr_of_le {a b : Arena} {s : ScopeId}
    (h : ∀ d ≤ s, a.parent? d = b.parent? d) : a.chain s = b.chain s := by
  induction s using Nat.strongRecOn with
  | ind s ih =>
    rw [chain_eq a, chain_eq b, h s (Nat.le_refl s)]
    cases hp : b.parent? s with
    | none => rfl
    | some p =>
      have lt := parent?_lt hp
      exact congrArg (s :: ·) (ih p lt fun d le => h d (Nat.le_trans le (Nat.le_of_lt lt)))

theorem chain_congr {a b : Arena} (h : ∀ s, a.parent? s = b.parent? s) (s : ScopeId) :
    a.chain s = b.chain s :=
  chain_congr_of_le fun d _ => h d

@[simp] theorem chain_bind (a : Arena) (s d : ScopeId) (symbol : String) (token : Token) :
    (a.bind s symbol token).chain d = a.chain d :=
  chain_congr (fun e => parent?_modify e) d

theorem binding?_bind {a : Arena} {s d : ScopeId} {symbol other : String} {token : Token}
    (h : s < a.size) :
    (a.bind s symbol token).binding? d other =
      if s = d ∧ symbol = other then some token else a.binding? d other := by
  simp only [binding?, bind, table?_modify]
  by_cases hs : s = d
  · subst hs
    have found : a.table? s = some a.tables[s] := Array.getElem?_eq_getElem h
    simp only [found, if_true, Option.map_some, Option.bind_some, KeyMap.get?_insert, true_and]
  · simp [hs]

/-- A new table binds nothing. -/
@[simp] theorem binding?_create (a : Arena) (name : String) (parent : Option ScopeId) (d : ScopeId)
    (symbol : String) : (a.create name parent).binding? d symbol = a.binding? d symbol := by
  rw [binding?, table?_create]
  split
  · next eq =>
    rw [binding?, eq, table?_eq_none (Nat.le_refl a.size)]
    rfl
  · rfl

theorem binding?_unbind (a : Arena) (s d : ScopeId) (symbol other : String) :
    (a.unbind s symbol).binding? d other =
      if s = d ∧ symbol = other then none else a.binding? d other := by
  simp only [binding?, unbind, table?_modify]
  by_cases hs : s = d
  · subst hs
    cases a.table? s with
    | none => simp
    | some table => simp
  · simp [hs]

end Arena

end HttpSuite
