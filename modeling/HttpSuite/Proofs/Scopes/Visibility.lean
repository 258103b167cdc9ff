import HttpSuite.Journal
import HttpSuite.Proofs.Scopes.Walks

/-!
# Which scopes see a write

A scope looks a symbol up along its chain, and the first table that binds the symbol decides. So a
write to one table is seen by the scopes that come to this table without finding the symbol before
(`Arena.Sees`), and by no other scope.

* `sees_iff_of_ne`: a scope sees another table through its parent, if it does not bind the symbol.
* `Rewrites.lookup?_of_sees`, `Rewrites.lookup?_of_not_sees`: a write to one symbol of one table, for
  the scopes that see it and for all others.
* `lookup?_write`: binding and unbinding.
-/

namespace HttpSuite

namespace Arena

variable {a b : Arena} {s d : ScopeId} {symbol other : String}

/-- A symbol that is bound to the same in every table is found as before. -/
theorem lookup?_congr (parent : ∀ d, b.parent? d = a.parent? d)
    (binding : ∀ d, b.binding? d symbol = a.binding? d symbol) (d : ScopeId) :
    b.lookup? d symbol = a.lookup? d symbol := by
  rw [lookup?, lookup?, chain_congr parent, funext binding]

/-! ## Scopes that see a table -/

/-- The table of `s` is on the chain of `d`, and no table before it binds the symbol. -/
def Sees (a : Arena) (d s : ScopeId) (symbol : String) : Prop :=
  ∃ nearer farther, a.chain d = nearer ++ s :: farther ∧ ∀ e ∈ nearer, a.binding? e symbol = none

/-- The scope `d` finds the symbol in the table of `s`. -/
def Finds (a : Arena) (d s : ScopeId) (symbol : String) : Prop :=
  a.Sees d s symbol ∧ a.binding? s symbol ≠ none

theorem sees_self (a : Arena) (s : ScopeId) (symbol : String) : a.Sees s s symbol :=
  ⟨[], _, a.chain_eq s, by simp⟩

/-- Another scope sees the table if it does not bind the symbol and its parent sees the table. -/
theorem sees_iff_of_ne (ne : d ≠ s) :
    a.Sees d s symbol ↔
      a.binding? d symbol = none ∧ ∃ p, a.parent? d = some p ∧ a.Sees p s symbol := by
  constructor
  · rintro ⟨nearer, farther, chain, free⟩
    rw [chain_eq] at chain
    cases nearer with
    | nil => exact absurd (List.cons.inj chain).1 ne
    | cons first nearer =>
      rw [List.cons_append] at chain
      obtain ⟨rfl, rest⟩ := List.cons.inj chain
      obtain ⟨here, free⟩ := List.forall_mem_cons.mp free
      cases parent : a.parent? d with
      | none => simp [parent] at rest
      | some p => exact ⟨here, p, rfl, nearer, farther, by simpa only [parent] using rest, free⟩
  · rintro ⟨here, p, parent, nearer, farther, chain, free⟩
    refine ⟨d :: nearer, farther, ?_, List.forall_mem_cons.mpr ⟨here, free⟩⟩
    rw [chain_eq, parent]
    exact congrArg (d :: ·) chain

/-- No scope sees a table that stands behind its own. -/
theorem not_sees_of_lt (lt : d < s) : ¬a.Sees d s symbol := by
  rintro ⟨nearer, farther, chain, -⟩
  have mem : s ∈ a.chain d := chain ▸ List.mem_append_right nearer List.mem_cons_self
  exact Nat.not_le_of_lt lt (le_of_mem_chain mem)

/-! ## Writes to one symbol of one table -/

/-- The arenas differ in what the table of `s` binds the symbol to, and in nothing else that a look-up
reads. -/
structure Rewrites (a b : Arena) (s : ScopeId) (symbol : String) : Prop where
  parent : ∀ d, b.parent? d = a.parent? d
  binding : ∀ d other, ¬(s = d ∧ symbol = other) → b.binding? d other = a.binding? d other

theorem bind_rewrites (hs : s < a.size) (symbol : String) (token : Token) :
    a.Rewrites (a.bind s symbol token) s symbol where
  parent := parent?_modify
  binding d other apart := by rw [binding?_bind hs, if_neg apart]

theorem unbind_rewrites (a : Arena) (s : ScopeId) (symbol : String) :
    a.Rewrites (a.unbind s symbol) s symbol where
  parent := parent?_modify
  binding d other apart := by rw [binding?_unbind, if_neg apart]

theorem Rewrites.lookup?_of_ne (h : a.Rewrites b s symbol) (ne : other ≠ symbol) (d : ScopeId) :
    b.lookup? d other = a.lookup? d other :=
  lookup?_congr h.parent (fun e => h.binding e other fun same => ne same.2.symm) d

/-- A scope that sees the table finds there what the table and its chain have now. -/
theorem Rewrites.lookup?_of_sees (h : a.Rewrites b s symbol) (sees : a.Sees d s symbol) :
    b.lookup? d symbol = b.lookup? s symbol := by
  induction d using a.parent_induction with
  | step d ih =>
    by_cases eq : d = s
    · rw [eq]
    · obtain ⟨free, p, parent, sees⟩ := (sees_iff_of_ne eq).mp sees
      have here : b.binding? d symbol = none :=
        (h.binding d symbol fun same => eq same.1.symm).trans free
      rw [lookup?_eq, here, h.parent, parent]
      exact ih p parent sees

theorem Rewrites.lookup?_of_not_sees (h : a.Rewrites b s symbol) (apart : ¬a.Sees d s symbol) :
    b.lookup? d symbol = a.lookup? d symbol := by
  induction d using a.parent_induction with
  | step d ih =>
    have ne : d ≠ s := by
      rintro rfl
      exact apart (a.sees_self d symbol)
    have here : b.binding? d symbol = a.binding? d symbol :=
      h.binding d symbol fun same => ne same.1.symm
    rw [lookup?_eq b, lookup?_eq a, here, h.parent]
    cases bound : a.binding? d symbol with
    | some token => rfl
    | none =>
      cases parent : a.parent? d with
      | none => rfl
      | some p =>
        exact ih p parent fun sees =>
          apart ((sees_iff_of_ne ne).mpr ⟨bound, p, parent, sees⟩)

/-! ## Binding and unbinding -/

/-- A symbol that is bound and unbound again was not bound: nothing has happened. -/
theorem unbind_bind (free : a.binding? s symbol = none) (token : Token) :
    (a.bind s symbol token).unbind s symbol = a :=
  @restore_bind a s symbol token none fun _ => free.symm

/-- What every scope finds after a write to the table of `s`. A symbol bound there is found by the
scopes that see the table, and every other look-up stays. A symbol unbound there is looked up from the
parent of `s` by the scopes that found it in `s`, and every other look-up stays. Binding a symbol that
was free in `s` and unbinding it again changes no look-up at all. -/
theorem lookup?_write (hs : s < a.size) (symbol : String) (token : Token) :
    (∀ d, a.Sees d s symbol → (a.bind s symbol token).lookup? d symbol = some token) ∧
      (∀ d other, ¬(other = symbol ∧ a.Sees d s symbol) →
        (a.bind s symbol token).lookup? d other = a.lookup? d other) ∧
      (∀ d, a.Finds d s symbol →
        (a.unbind s symbol).lookup? d symbol = (a.parent? s).bind (a.lookup? · symbol)) ∧
      (∀ d other, ¬(other = symbol ∧ a.Finds d s symbol) →
        (a.unbind s symbol).lookup? d other = a.lookup? d other) ∧
      (a.binding? s symbol = none → ∀ d other,
        ((a.bind s symbol token).unbind s symbol).lookup? d other = a.lookup? d other) := by
  have binds := bind_rewrites hs symbol token
  have unbinds := a.unbind_rewrites s symbol
  refine ⟨fun d sees => ?bound, fun d other apart => ?apart, fun d finds => ?unbound,
    fun d other apart => ?kept, fun free d other => ?undone⟩
  case bound =>
    rw [binds.lookup?_of_sees sees, lookup?_eq, binding?_bind hs, if_pos ⟨rfl, rfl⟩, Option.some_or]
  case apart =>
    by_cases eq : other = symbol
    · subst eq
      exact binds.lookup?_of_not_sees fun sees => apart ⟨rfl, sees⟩
    · exact binds.lookup?_of_ne eq d
  case unbound =>
    rw [unbinds.lookup?_of_sees finds.1, lookup?_eq, binding?_unbind, if_pos ⟨rfl, rfl⟩,
      Option.none_or, unbinds.parent]
    cases parent : a.parent? s with
    | none => rfl
    | some p => exact unbinds.lookup?_of_not_sees (not_sees_of_lt (parent?_lt parent))
  case kept =>
    by_cases eq : other = symbol
    · subst eq
      by_cases sees : a.Sees d s other
      · -- The table did not bind the symbol, so unbinding it changes no table.
        have free : a.binding? s other = none :=
          Classical.not_not.mp fun bound => apart ⟨rfl, sees, bound⟩
        refine lookup?_congr unbinds.parent (fun e => ?_) d
        rw [binding?_unbind]
        split
        · next same => exact (same.1 ▸ free).symm
        · rfl
      · exact unbinds.lookup?_of_not_sees sees
    · exact unbinds.lookup?_of_ne eq d
  case undone => rw [unbind_bind free]

/-- An outer scope, a middle one that binds another symbol only, an inner one below that, and two more
scopes: one below the outer scope, one below the middle one that binds `X` itself. -/
def family : Arena :=
  let value (text : String) : Token := ⟨.string, text, ⟨"in", 1⟩⟩
  let tables := ((((empty.create "outer" none).create "middle" (some 0)).create "inner" (some 1)).create
    "beside" (some 0)).create "own" (some 1)
  ((tables.bind 0 "X" (value "outer")).bind 1 "Y" (value "other")).bind 4 "X" (value "own")

/-- A symbol bound in the middle is found there by the inner scope, and by neither the scope beside nor
the one that binds it itself; the outer scope is found again when it is unbound. -/
theorem lookup?_write_family :
    let bound := family.bind 1 "X" ⟨.integer, "7", ⟨"in", 2⟩⟩
    1 < family.size ∧ family.binding? 1 "X" = none ∧
      bound.lookup? 2 "X" = some ⟨.integer, "7", ⟨"in", 2⟩⟩ ∧
      bound.lookup? 3 "X" = some ⟨.string, "outer", ⟨"in", 1⟩⟩ ∧
      bound.lookup? 4 "X" = some ⟨.string, "own", ⟨"in", 1⟩⟩ ∧
      bound.lookup? 2 "Y" = some ⟨.string, "other", ⟨"in", 1⟩⟩ ∧
      (bound.unbind 1 "X").lookup? 2 "X" = some ⟨.string, "outer", ⟨"in", 1⟩⟩ := by
  intro bound
  have inside : 1 < family.size := by decide
  have free : family.binding? 1 "X" = none := by decide +kernel
  have sees : family.Sees 2 1 "X" := ⟨[2], [0], by decide +kernel, by decide +kernel⟩
  have beside : ¬family.Sees 3 1 "X" := by
    rw [sees_iff_of_ne (by decide)]
    rintro ⟨-, p, parent, sees⟩
    cases parent
    exact not_sees_of_lt (by decide) sees
  have own : ¬family.Sees 4 1 "X" := by
    rw [sees_iff_of_ne (by decide)]
    rintro ⟨free, -⟩
    cases free
  obtain ⟨found, kept, -, -, undone⟩ := lookup?_write inside "X" ⟨.integer, "7", ⟨"in", 2⟩⟩
  refine ⟨inside, free, found 2 sees, ?_, ?_, ?_, ?_⟩
  · exact (kept 3 "X" fun same => beside same.2).trans (by decide +kernel)
  · exact (kept 4 "X" fun same => own same.2).trans (by decide +kernel)
  · exact (kept 2 "Y" fun same => absurd same.1 (by decide)).trans (by decide +kernel)
  · exact (undone free 2 "X").trans (by decide +kernel)

end Arena

end HttpSuite
