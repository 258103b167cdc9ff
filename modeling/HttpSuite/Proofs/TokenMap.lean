import HttpSuite.Scope

/-!
# Changing every token of an arena

`Arena.mapTokens f` puts `f token` in the place of every bound token. Names, parents and symbols stay,
so every view of the arena is the old view with `f` applied to the tokens in it.

* `get?_map`, `map_insert`: the same for one map.
* `lookup?_mapTokens`: what a symbol stands for.
* `mapTokens_bind`, `mapTokens_create`: writes.
-/

namespace HttpSuite

namespace KeyMap

variable {β γ : Type}

/-- The map with `f` applied to every value. -/
def map (f : β → γ) (m : KeyMap β) : KeyMap γ where
  entries := m.entries.map fun e => (e.1, f e.2)
  ascending := List.pairwise_map.mpr m.ascending

@[simp] theorem map_empty (f : β → γ) : (empty : KeyMap β).map f = empty := rfl

@[simp] theorem get?_map (f : β → γ) (m : KeyMap β) (key : String) :
    (m.map f).get? key = (m.get? key).map f := by
  simp only [get?, map, List.find?_map, Option.map_map]
  rfl

@[simp] theorem map_insert (f : β → γ) (m : KeyMap β) (key : String) (value : β) :
    (m.insert key value).map f = (m.map f).insert key (f value) := by
  apply ext_get?
  intro other
  simp only [get?_map, get?_insert]
  split <;> rfl

end KeyMap

/-- The table with `f` applied to every bound token. -/
def Table.mapTokens (f : Token → Token) (table : Table) : Table :=
  { table with bindings := table.bindings.map f }

namespace Arena

variable (f : Token → Token) (a : Arena) (s : ScopeId)

/-- The arena with `f` applied to every bound token. -/
def mapTokens : Arena where
  tables := a.tables.map (Table.mapTokens f)
  parent_lt s table found p hp := by
    rw [Array.getElem?_map] at found
    obtain ⟨old, hold, rfl⟩ := Option.map_eq_some_iff.mp found
    exact a.parent_lt s old hold p hp

@[simp] theorem size_mapTokens : (a.mapTokens f).size = a.size := Array.size_map ..

@[simp] theorem table?_mapTokens :
    (a.mapTokens f).table? s = (a.table? s).map (Table.mapTokens f) :=
  Array.getElem?_map ..

@[simp] theorem parent?_mapTokens : (a.mapTokens f).parent? s = a.parent? s := by
  rw [parent?, table?_mapTokens, parent?]
  cases a.table? s <;> rfl

@[simp] theorem chain_mapTokens : (a.mapTokens f).chain s = a.chain s :=
  chain_congr (fun _ => parent?_mapTokens f a _) s

@[simp] theorem root_mapTokens : (a.mapTokens f).root s = a.root s := by
  simp only [root, chain_mapTokens]

@[simp] theorem bindings_mapTokens :
    (a.mapTokens f).bindings s = (a.bindings s).map fun e => (e.1, f e.2) := by
  rw [bindings, table?_mapTokens, bindings]
  cases a.table? s <;> rfl

@[simp] theorem binding?_mapTokens (symbol : String) :
    (a.mapTokens f).binding? s symbol = (a.binding? s symbol).map f := by
  rw [binding?, table?_mapTokens, binding?]
  cases a.table? s with
  | none => rfl
  | some table => exact KeyMap.get?_map f table.bindings symbol

/-- A symbol stands for the changed token of what it stood for. -/
@[simp] theorem lookup?_mapTokens (symbol : String) :
    (a.mapTokens f).lookup? s symbol = (a.lookup? s symbol).map f := by
  simp only [lookup?, chain_mapTokens, binding?_mapTokens]
  generalize a.chain s = scopes
  induction scopes with
  | nil => rfl
  | cons d scopes ih =>
    rw [List.findSome?_cons, List.findSome?_cons]
    cases a.binding? d symbol with
    | none => exact ih
    | some token => rfl

theorem mapTokens_bind (symbol : String) (token : Token) :
    (a.bind s symbol token).mapTokens f = (a.mapTokens f).bind s symbol (f token) := by
  apply ext_table?
  intro d
  rw [table?_mapTokens, table?_bind, table?_bind, table?_mapTokens]
  split
  · cases a.table? d with
    | none => rfl
    | some table => simp [Table.mapTokens]
  · rfl

theorem mapTokens_create (name : String) (parent : Option ScopeId) :
    (a.create name parent).mapTokens f = (a.mapTokens f).create name parent := by
  apply ext_table?
  intro d
  rw [table?_mapTokens, table?_create, table?_create, table?_mapTokens, size_mapTokens]
  split <;> rfl

end Arena

end HttpSuite
