import HttpSuite.Scope

/-!
# Journals

A journal holds every binding that was written and what stood in its place before, the newest
first. Rolling an arena back puts the old bindings in place again, newest first, and drops the tables
that were added meanwhile.

* `restore_bind`: undoing a write just made gives the arena from before it.
* `truncate_create`, `truncate_bind`, `truncate_restore`: what the dropped tables do not change.
* `rollback_eq`: the tables may as well be dropped first.
-/

namespace HttpSuite

/-- A binding that was written, and what the table bound the symbol to before. -/
structure Write where
  scope : ScopeId
  symbol : String
  previous : Option Token
  deriving DecidableEq

/-- Undoes a write in its table. Without a previous binding there is none afterwards. -/
def Write.undo (write : Write) (table : Table) : Table :=
  { table with
    bindings := match write.previous with
      | some token => table.bindings.insert write.symbol token
      | none => table.bindings.erase write.symbol }

namespace Arena

/-- Undoes a write. -/
def restore (a : Arena) (write : Write) : Arena :=
  a.modify write.scope write.undo fun _ => rfl

/-- Drops every table but the first `n`. -/
def truncate (a : Arena) (n : Nat) : Arena where
  tables := a.tables.take n
  parent_lt s table found p hp := by
    rw [Array.take_eq_extract, Array.getElem?_extract] at found
    split at found
    · exact a.parent_lt s table (by simpa using found) p hp
    · cases found

/-- Undoes writes, newest first, and drops every table but the first `n`. -/
def rollback (a : Arena) (journal : List Write) (n : Nat) : Arena :=
  (journal.foldl restore a).truncate n

/-! ## Dropping tables -/

theorem table?_truncate (a : Arena) (n d : Nat) :
    (a.truncate n).table? d = if d < n then a.table? d else none := by
  simp only [table?, truncate, Array.take_eq_extract, Array.getElem?_extract, Nat.zero_add,
    Nat.sub_zero]
  by_cases h : d < n
  · by_cases inside : d < a.tables.size
    · rw [if_pos (by omega), if_pos h]
    · rw [if_neg (by omega), if_pos h, Array.getElem?_eq_none (by omega)]
  · rw [if_neg (by omega), if_neg h]

theorem size_truncate_le (a : Arena) (n : Nat) : (a.truncate n).size ≤ n := by
  simp only [size, truncate, Array.take_eq_extract, Array.size_extract]
  omega

/-- A table that is left binds what it bound. -/
theorem binding?_truncate {a : Arena} {n : Nat} {s : ScopeId} (h : s < (a.truncate n).size)
    (symbol : String) : (a.truncate n).binding? s symbol = a.binding? s symbol := by
  have inside : s < n := Nat.lt_of_lt_of_le h (a.size_truncate_le n)
  rw [binding?, table?_truncate, if_pos inside]
  rfl

@[simp] theorem truncate_size (a : Arena) : a.truncate a.size = a := by
  apply ext_table?
  intro d
  rw [table?_truncate]
  split
  · rfl
  · next h => exact (table?_eq_none (Nat.le_of_not_lt h)).symm

theorem truncate_modify (a : Arena) (n : Nat) (s : ScopeId) (f : Table → Table)
    (keeps : ∀ table, (f table).parent = table.parent) :
    (a.modify s f keeps).truncate n = (a.truncate n).modify s f keeps := by
  apply ext_table?
  intro d
  simp only [table?_truncate, table?_modify]
  by_cases h : d < n <;> simp [h]

theorem truncate_bind (a : Arena) (n : Nat) (s : ScopeId) (symbol : String) (token : Token) :
    (a.bind s symbol token).truncate n = (a.truncate n).bind s symbol token :=
  truncate_modify ..

theorem truncate_restore (a : Arena) (n : Nat) (write : Write) :
    (a.restore write).truncate n = (a.truncate n).restore write :=
  truncate_modify ..

theorem truncate_create {a : Arena} {n : Nat} (h : n ≤ a.size) (name : String)
    (parent : Option ScopeId) : (a.create name parent).truncate n = a.truncate n := by
  apply ext_table?
  intro d
  simp only [table?_truncate, table?_create]
  by_cases hd : d < n
  · rw [if_neg (Nat.ne_of_lt (Nat.lt_of_lt_of_le hd h))]
  · rw [if_neg hd, if_neg hd]

/-! ## Undoing writes -/

theorem table?_restore (a : Arena) (write : Write) (d : ScopeId) :
    (a.restore write).table? d =
      if write.scope = d then (a.table? d).map write.undo else a.table? d :=
  table?_modify d

/-- Undoing a write just made gives the arena from before it. -/
theorem restore_bind {a : Arena} {s : ScopeId} {symbol : String} {token : Token}
    {previous : Option Token} (h : s < a.size → previous = a.binding? s symbol) :
    (a.bind s symbol token).restore ⟨s, symbol, previous⟩ = a := by
  apply ext_table?
  intro d
  rw [table?_restore, table?_bind]
  by_cases hd : s = d
  · subst hd
    cases found : a.table? s with
    | none => simp
    | some table =>
      have before : previous = table.bindings.get? symbol := by
        rw [h (lt_size_of_table? found), binding?, found, Option.bind_some]
      simp only [if_true, Option.map_some, Write.undo, before]
      cases hp : table.bindings.get? symbol with
      | none => simp only [KeyMap.erase_insert hp]
      | some old => simp only [KeyMap.insert_insert, KeyMap.insert_get? hp]
  · simp [hd]

/-- The tables may as well be dropped first. -/
theorem rollback_eq (a : Arena) (journal : List Write) (n : Nat) :
    a.rollback journal n = journal.foldl restore (a.truncate n) := by
  unfold rollback
  induction journal generalizing a with
  | nil => rfl
  | cons write journal ih =>
    rw [List.foldl_cons, List.foldl_cons, ih, truncate_restore]

end Arena

end HttpSuite
