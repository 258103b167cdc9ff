import HttpSuite.Suite
import Mathlib.Control.Monad.Basic

/-!
# A suite that cannot be read leaves no trace

`Suite.Reverts a` says that the journal of a suite leads from its arena back to `a`. The first record
establishes it and every statement keeps it: a binding is undone by the entry that it adds to the
journal, and a new table lies past the end of `a`. A fault can therefore come after any number of
statements.

* `Reverts.apply`, `Reverts.applyAll`: one statement, and any number of them.
* `arena_eq_of_error`: whatever a suite is read from, a fault leaves the arena as it was.
-/

namespace HttpSuite

namespace Suite

/-- The journal leads from the arena of the suite back to `a`. -/
structure Reverts (suite : Suite) (a : Arena) : Prop where
  size_le : a.size ≤ suite.arena.size
  rollback_eq : suite.arena.rollback suite.journal a.size = a

variable {suite next : Suite} {a : Arena}

theorem start_reverts (a : Arena) (scope : ScopeId) (source : String) (options : Options) :
    (start a scope source options).Reverts a where
  size_le := by
    rw [start, TestRecord.create, Arena.size_create]
    exact Nat.le_succ _
  rollback_eq := by
    rw [Arena.rollback_eq]
    exact (Arena.truncate_create (Nat.le_refl _) ..).trans a.truncate_size

theorem Reverts.startTest (h : suite.Reverts a) (span : Span) (name : String) :
    (suite.startTest span name).Reverts a where
  size_le := by
    rw [Suite.startTest, TestRecord.create, Arena.size_create]
    exact Nat.le_succ_of_le h.size_le
  rollback_eq := by
    have same := h.rollback_eq
    rw [Arena.rollback_eq] at same ⊢
    rw [Suite.startTest, TestRecord.create, Arena.truncate_create h.size_le]
    exact same

/-- The new entry of the journal undoes the binding, the older ones lead back from there. In a table
past the end of `a` there is nothing to undo: it has been dropped. -/
theorem Reverts.bind (h : suite.Reverts a) (level : Level) (symbol : String) (value : Token) :
    (suite.bind level symbol value).Reverts a where
  size_le := by
    rw [Suite.bind, Arena.size_bind]
    exact h.size_le
  rollback_eq := by
    have same := h.rollback_eq
    rw [Arena.rollback_eq] at same ⊢
    rw [Suite.bind, List.foldl_cons, Arena.truncate_bind, Arena.restore_bind]
    · exact same
    · intro inside
      exact (Arena.binding?_truncate inside symbol).symm

theorem Reverts.setCurrent {result : Except RecordError TestRecord} (h : suite.Reverts a)
    (ok : suite.setCurrent result = .ok next) : next.Reverts a := by
  cases result with
  | error error => cases ok
  | ok current =>
    cases ok
    exact ⟨h.size_le, h.rollback_eq⟩

theorem Reverts.apply {statement : Statement} (h : suite.Reverts a)
    (ok : suite.apply statement = .ok next) : next.Reverts a := by
  cases statement with
  | test span name =>
    simp only [Suite.apply] at ok
    split at ok
    · cases ok
    · cases ok
      exact h.startTest span name
  | bind level symbol value =>
    cases ok
    exact h.bind level symbol value
  | field field value =>
    cases field <;> exact h.setCurrent ok
  | header name value => exact h.setCurrent ok
  | assertion assertion =>
    cases ok
    exact ⟨h.size_le, h.rollback_eq⟩

theorem Reverts.applyAll (h : suite.Reverts a) (statements : List Statement) :
    (suite.applyAll statements).1.Reverts a := by
  induction statements generalizing suite with
  | nil => exact h
  | cons statement statements ih =>
    rw [Suite.applyAll]
    split
    · next ok => exact ih (h.apply ok)
    · exact h

end Suite

theorem Script.applyTo_reverts {start : Suite} {a : Arena} (h : start.Reverts a)
    (script : Script) : (script.applyTo start).1.Reverts a := by
  have all := h.applyAll script.statements
  unfold applyTo
  split <;> rename_i eq <;> rw [eq] at all <;> exact all

namespace Arena

theorem parse_error {a after : Arena} {scope : ScopeId} {source : String} {options : Options}
    {feed : Feed} {error : Error}
    (h : a.parse scope source options feed = (.error error, after)) : after = a := by
  have back := Script.applyTo_reverts (Suite.start_reverts a scope source options)
    (Script.ofFeed feed)
  unfold parse at h
  split at h <;> rename_i eq
  · cases h
  · cases h
    rw [eq] at back
    exact back.rollback_eq

/-- Whatever a suite is read from, a fault of any kind leaves every table as it was, and none in
addition. -/
theorem arena_eq_of_error {a after : Arena} {scope : ScopeId} {source : String}
    {options : Options} {error : Error} :
    (∀ tokens, a.parseTokens scope tokens source options = (.error error, after) → after = a) ∧
    (∀ reads, a.parseReads scope reads source options = (.error error, after) → after = a) ∧
    (∀ text, a.parseText scope text source options = (.error error, after) → after = a) ∧
    (∀ path file, a.parseFile scope path file options = (.error error, after) → after = a) := by
  refine ⟨fun tokens h => parse_error h, fun reads h => parse_error h, fun text h => parse_error h,
    fun path file h => ?_⟩
  cases file with
  | error reason =>
    cases h
    rfl
  | ok reads => exact parse_error h

/-- A suite scope with a binding, under a global scope. -/
def layered : Arena :=
  ((empty.create "global" none).create "suite" (some 0)).bind 1 "X" ⟨.string, "old", ⟨"other", 3⟩⟩

/-- Writes to all three kinds of table, `X` in the suite scope twice, before a second test `a`. -/
theorem arena_eq_of_error_duplicate :
    (layered.parseText 1 ".parent X 1 .global X 2 .parent X 3 .test a .local X 4 .test a" "in" {}).1 =
      .error (.parse ⟨.duplicateTestName "a" ⟨"in", 1⟩, ⟨"in", 1⟩⟩) ∧
    (layered.parseText 1 ".parent X 1 .global X 2 .parent X 3 .test a .local X 4 .test a" "in" {}).2 =
      layered := by
  have fails : (layered.parseText 1
      ".parent X 1 .global X 2 .parent X 3 .test a .local X 4 .test a" "in" {}).1 =
      .error (.parse ⟨.duplicateTestName "a" ⟨"in", 1⟩, ⟨"in", 1⟩⟩) := by decide +kernel
  exact ⟨fails, arena_eq_of_error.2.2.1 _ (Prod.ext fails rfl)⟩

end Arena

end HttpSuite
