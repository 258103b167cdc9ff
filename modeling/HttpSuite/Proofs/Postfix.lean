import HttpSuite.Assertion
import Mathlib.Algebra.Ring.Int.Defs
import Mathlib.Data.List.Induction

/-!
# Postfix expressions

An assertion is well shaped exactly if it is an expression tree in postfix writing. Walking along the
entries, the values that there are at any moment are the trees written so far.

* `depthAfter_entries`: a tree is one more value.
* `exists_trees`: the values after any entries are trees that these entries write.
* `checkShape_eq_ok_iff`: both together, for one value.
* `entries_inj`, `flatMap_entries_inj`: the trees can be read off from the end, so they are unique.
* `lacking_iff`: an operator lacks trees exactly if the depth before it is below its arity.
* `checkShape_outcome`: what each outcome says about the entries.
-/

namespace HttpSuite

/-- An expression tree. An operator stands over as many trees as it takes values. -/
inductive Expression where
  | operand (token : Token)
  | unary (op : Operator) (arity : op.arity = 1) (span : Span) (argument : Expression)
  | binary (op : Operator) (arity : op.arity = 2) (span : Span) (first second : Expression)

namespace Expression

/-- The tree in postfix writing. -/
def entries : Expression → List Entry
  | operand token => [.operand token]
  | unary op _ span argument => argument.entries ++ [.operator op span]
  | binary op _ span first second => first.entries ++ second.entries ++ [.operator op span]

end Expression

theorem Operator.arity_eq (op : Operator) : op.arity = 1 ∨ op.arity = 2 := by
  cases op <;> simp [arity]

theorem depthAfter_operator {depth : Nat} {op : Operator} (span : Span) (rest : List Entry)
    (h : op.arity ≤ depth) :
    depthAfter depth (.operator op span :: rest) = depthAfter (depth - op.arity + 1) rest := by
  rw [depthAfter, if_neg (Nat.not_lt.mpr h)]

/-- A tree is one more value. -/
theorem depthAfter_entries (tree : Expression) (depth : Nat) (rest : List Entry) :
    depthAfter depth (tree.entries ++ rest) = depthAfter (depth + 1) rest := by
  induction tree generalizing depth rest with
  | operand token => rfl
  | unary op arity span argument ih =>
    rw [Expression.entries, List.append_assoc, ih, List.singleton_append,
      depthAfter_operator span rest (by omega)]
    congr 1
    omega
  | binary op arity span first second ih ih' =>
    rw [Expression.entries, List.append_assoc, List.append_assoc, ih, ih', List.singleton_append,
      depthAfter_operator span rest (by omega)]
    congr 1
    omega

/-- The values after any entries are trees that these entries write, after the trees that there were
before. The latest tree comes first. -/
theorem exists_trees {entries : List Entry} {final : Nat} (stack : List Expression)
    (h : depthAfter stack.length entries = .ok final) :
    ∃ trees : List Expression, trees.length = final ∧
      trees.reverse.flatMap Expression.entries =
        stack.reverse.flatMap Expression.entries ++ entries := by
  induction entries generalizing stack with
  | nil =>
    cases h
    exact ⟨stack, rfl, (List.append_nil _).symm⟩
  | cons entry entries ih =>
    cases entry with
    | operand token =>
      obtain ⟨trees, length, written⟩ := ih (.operand token :: stack) h
      exact ⟨trees, length, by simpa [Expression.entries] using written⟩
    | operator op span =>
      rw [depthAfter] at h
      split at h
      · cases h
      · next enough =>
        -- The operator takes the latest trees, and the one that it makes of them is the latest then.
        rcases op.arity_eq with arity | arity
        · obtain ⟨argument, stack, rfl⟩ := List.exists_cons_of_length_pos (l := stack) (by omega)
          rw [List.length_cons, arity, Nat.add_sub_cancel] at h
          obtain ⟨trees, length, written⟩ := ih (.unary op arity span argument :: stack) h
          exact ⟨trees, length, by simpa [Expression.entries] using written⟩
        · obtain ⟨second, stack, rfl⟩ := List.exists_cons_of_length_pos (l := stack) (by omega)
          rw [List.length_cons] at enough h
          obtain ⟨first, stack, rfl⟩ := List.exists_cons_of_length_pos (l := stack) (by omega)
          rw [List.length_cons, arity, Nat.add_assoc, Nat.add_sub_cancel] at h
          obtain ⟨trees, length, written⟩ := ih (.binary op arity span first second :: stack) h
          exact ⟨trees, length, by simpa [Expression.entries] using written⟩

/-- Entries come to one value exactly if they are the postfix writing of a tree. -/
theorem checkShape_eq_ok_iff {entries : List Entry} :
    checkShape entries = .ok () ↔ ∃ tree : Expression, tree.entries = entries := by
  rw [checkShape_eq_ok]
  constructor
  · intro h
    obtain ⟨trees, length, written⟩ := exists_trees [] h
    obtain ⟨tree, rfl⟩ := List.length_eq_one_iff.mp length
    exact ⟨tree, by simpa using written⟩
  · rintro ⟨tree, rfl⟩
    have whole := depthAfter_entries tree 0 []
    rwa [List.append_nil] at whole

/-! ## Trees are unique -/

namespace Expression

/-- The entry that is written last. -/
def last : Expression → Entry
  | operand token => .operand token
  | unary op _ span _ | binary op _ span _ _ => .operator op span

/-- What is written before the last entry. -/
def front : Expression → List Entry
  | operand _ => []
  | unary _ _ _ argument => argument.entries
  | binary _ _ _ first second => first.entries ++ second.entries

theorem entries_eq (tree : Expression) : tree.entries = tree.front ++ [tree.last] := by
  cases tree <;> rfl

theorem entries_ne_nil (tree : Expression) : tree.entries ≠ [] := by
  rw [entries_eq]
  exact List.concat_ne_nil _ _

end Expression

/-- The last tree can be read off from the end, whatever stands before it: the last entry says how it
is made, and its parts are the trees right before that. -/
theorem entries_inj {before before' : List Entry} {tree tree' : Expression}
    (h : before ++ tree.entries = before' ++ tree'.entries) : before = before' ∧ tree = tree' := by
  induction tree generalizing before before' tree' <;>
    rw [Expression.entries_eq, Expression.entries_eq, ← List.append_assoc, ← List.append_assoc] at h <;>
    obtain ⟨front, last⟩ := List.append_inj' h rfl <;>
    replace last := List.singleton_inj.mp last
  case operand token =>
    cases tree' with
    | operand token' =>
      cases last
      exact ⟨by simpa [Expression.front] using front, rfl⟩
    | unary | binary => cases last
  case unary op arity span argument ih =>
    cases tree' with
    | operand token' => cases last
    | unary op' arity' span' argument' =>
      cases last
      obtain ⟨rfl, rfl⟩ := ih front
      exact ⟨rfl, rfl⟩
    | binary op' arity' span' first' second' =>
      -- The two last entries are one operator, and it cannot have both arities.
      cases last
      omega
  case binary op arity span first second ih ih' =>
    cases tree' with
    | operand token' => cases last
    | unary op' arity' span' argument' =>
      cases last
      omega
    | binary op' arity' span' first' second' =>
      cases last
      simp only [Expression.front, ← List.append_assoc] at front
      -- The second tree is read off first, as it stands at the end.
      obtain ⟨rest, rfl⟩ := ih' front
      obtain ⟨rfl, rfl⟩ := ih rest
      exact ⟨rfl, rfl⟩

/-- Trees written one after the other are told apart by what is written. -/
theorem flatMap_entries_inj {trees trees' : List Expression}
    (h : trees.flatMap Expression.entries = trees'.flatMap Expression.entries) : trees = trees' := by
  induction trees using List.reverseRecOn generalizing trees' with
  | nil =>
    cases trees' with
    | nil => rfl
    | cons tree' trees' =>
      rw [List.flatMap_nil, List.flatMap_cons] at h
      exact absurd (List.append_eq_nil_iff.mp h.symm).1 tree'.entries_ne_nil
  | append_singleton trees tree ih =>
    rcases List.eq_nil_or_concat trees' with rfl | ⟨trees', tree', rfl⟩
    · rw [List.flatMap_append, List.flatMap_singleton] at h
      exact absurd (List.append_eq_nil_iff.mp h).2 tree.entries_ne_nil
    · rw [List.concat_eq_append, List.flatMap_append, List.flatMap_append, List.flatMap_singleton,
        List.flatMap_singleton] at h
      obtain ⟨front, rfl⟩ := entries_inj h
      rw [ih front, List.concat_eq_append]

/-! ## The walk along the entries -/

/-- Trees are as many more values. -/
theorem depthAfter_trees (trees : List Expression) (depth : Nat) (rest : List Entry) :
    depthAfter depth (trees.flatMap Expression.entries ++ rest) =
      depthAfter (depth + trees.length) rest := by
  induction trees generalizing depth with
  | nil => rfl
  | cons tree trees ih =>
    rw [List.flatMap_cons, List.append_assoc, depthAfter_entries, ih, List.length_cons]
    congr 1
    omega

/-- There are `k` values at the end exactly if the entries write `k` trees. -/
theorem depthAfter_eq_ok_iff {entries : List Entry} {k : Nat} :
    depthAfter 0 entries = .ok k ↔
      ∃ trees : List Expression, trees.length = k ∧ trees.flatMap Expression.entries = entries := by
  constructor
  · intro h
    obtain ⟨trees, length, written⟩ := exists_trees [] h
    exact ⟨trees.reverse, by simpa using length, by simpa using written⟩
  · rintro ⟨trees, rfl, rfl⟩
    have whole := depthAfter_trees trees 0 []
    rwa [List.append_nil, Nat.zero_add] at whole

theorem depthAfter_append (depth : Nat) (first second : List Entry) :
    depthAfter depth (first ++ second) = depthAfter depth first >>= (depthAfter · second) := by
  induction first generalizing depth with
  | nil => rfl
  | cons entry first ih =>
    cases entry with
    | operand token => exact ih _
    | operator op span =>
      simp only [List.cons_append, depthAfter]
      split
      · rfl
      · exact ih _

theorem depthAfter_append_eq_ok {depth final : Nat} {first second : List Entry} :
    depthAfter depth (first ++ second) = .ok final ↔
      ∃ reached, depthAfter depth first = .ok reached ∧ depthAfter reached second = .ok final := by
  rw [depthAfter_append]
  cases depthAfter depth first <;> simp [bind, Except.bind]

theorem depthAfter_singleton_eq_ok {depth next : Nat} {op : Operator} {span : Span} :
    depthAfter depth [.operator op span] = .ok next ↔
      op.arity ≤ depth ∧ next = depth - op.arity + 1 := by
  rw [depthAfter]
  split
  · next short =>
    constructor
    · intro passed
      cases passed
    · rintro ⟨enough, -⟩
      omega
  · next enough => simp [depthAfter, Nat.le_of_not_lt enough, eq_comm]

/-- The walk stops at the first operator that finds fewer values than it takes. -/
theorem depthAfter_eq_error {entries : List Entry} {depth : Nat} {fault : ShapeFault} :
    depthAfter depth entries = .error fault ↔
      ∃ before op span after reached, entries = before ++ .operator op span :: after ∧
        depthAfter depth before = .ok reached ∧ reached < op.arity ∧ fault = .underflow op span := by
  constructor
  · intro h
    induction entries generalizing depth with
    | nil => cases h
    | cons entry entries ih =>
      cases entry with
      | operand token =>
        obtain ⟨before, op, span, after, reached, rfl, walked, short, rfl⟩ := ih h
        exact ⟨.operand token :: before, op, span, after, reached, rfl, walked, short, rfl⟩
      | operator op span =>
        rw [depthAfter] at h
        split at h
        · next short =>
          cases h
          exact ⟨[], op, span, entries, depth, rfl, rfl, short, rfl⟩
        · next enough =>
          obtain ⟨before, op', span', after, reached, rfl, walked, short, rfl⟩ := ih h
          refine ⟨.operator op span :: before, op', span', after, reached, rfl, ?_, short, rfl⟩
          rwa [depthAfter, if_neg enough]
  · rintro ⟨before, op, span, after, reached, rfl, walked, short, rfl⟩
    rw [depthAfter_append, walked]
    exact if_pos short

/-- How many values more there are after the entry. -/
def Entry.gain : Entry → Int
  | .operand _ => 1
  | .operator op _ => 1 - op.arity

theorem depthAfter_gain {entries : List Entry} {depth final : Nat}
    (h : depthAfter depth entries = .ok final) :
    (final : Int) = depth + (entries.map Entry.gain).sum := by
  induction entries generalizing depth with
  | nil =>
    cases h
    simp
  | cons entry entries ih =>
    cases entry with
    | operand token =>
      have := ih h
      simp only [List.map_cons, List.sum_cons, Entry.gain]
      omega
    | operator op span =>
      rw [depthAfter] at h
      split at h
      · cases h
      · next enough =>
        have := ih h
        simp only [List.map_cons, List.sum_cons, Entry.gain]
        omega

/-! ## Operators with too few trees -/

/-- Right before the operator there are not as many trees as it takes. -/
def Lacking (before : List Entry) (op : Operator) : Prop :=
  ¬∃ (rest : List Entry) (trees : List Expression),
    trees.length = op.arity ∧ before = rest ++ trees.flatMap Expression.entries

/-- As long as no operator lacks trees, the depth is the number of trees. -/
theorem lacking_iff {before : List Entry} {op : Operator} {depth : Nat}
    (walked : depthAfter 0 before = .ok depth) : Lacking before op ↔ depth < op.arity := by
  rw [Lacking, ← Nat.not_le, not_iff_not]
  constructor
  · rintro ⟨rest, trees, length, rfl⟩
    obtain ⟨reached, -, walked⟩ := depthAfter_append_eq_ok.mp walked
    have all := depthAfter_trees trees reached []
    rw [List.append_nil, walked] at all
    cases all
    omega
  · intro enough
    obtain ⟨trees, length, rfl⟩ := depthAfter_eq_ok_iff.mp walked
    let latest := trees.length - op.arity
    refine ⟨(trees.take latest).flatMap Expression.entries, trees.drop latest, ?_, ?_⟩
    · rw [List.length_drop]
      omega
    · rw [← List.flatMap_append, List.take_append_drop]

/-- No operator that the walk has passed lacks trees. -/
theorem not_lacking_of_walked {before after : List Entry} {op : Operator} {span : Span} {final : Nat}
    (walked : depthAfter 0 (before ++ .operator op span :: after) = .ok final) :
    ¬Lacking before op := by
  obtain ⟨depth, reached, passed⟩ := depthAfter_append_eq_ok.mp walked
  rw [lacking_iff reached]
  intro short
  rw [depthAfter, if_pos short] at passed
  cases passed

/-- The walk stops at the first operator that lacks trees, and nowhere else. -/
theorem depthAfter_eq_underflow {entries : List Entry} {op : Operator} {span : Span} :
    depthAfter 0 entries = .error (.underflow op span) ↔
      ∃ before after, entries = before ++ .operator op span :: after ∧ Lacking before op ∧
        ∀ earlier op' span' later, before = earlier ++ .operator op' span' :: later →
          ¬Lacking earlier op' := by
  rw [depthAfter_eq_error]
  constructor
  · rintro ⟨before, op, span, after, depth, rfl, walked, short, ⟨⟩⟩
    refine ⟨before, after, rfl, (lacking_iff walked).mpr short, ?_⟩
    rintro earlier op' span' later rfl
    exact not_lacking_of_walked walked
  · rintro ⟨before, after, rfl, lacking, first⟩
    cases walked : depthAfter 0 before with
    | ok depth => exact ⟨before, op, span, after, depth, rfl, walked, (lacking_iff walked).mp lacking, rfl⟩
    | error fault =>
      obtain ⟨earlier, op', span', later, depth, rfl, walked, short, -⟩ := depthAfter_eq_error.mp walked
      exact absurd ((lacking_iff walked).mpr short) (first _ _ _ _ rfl)

/-! ## The outcomes -/

theorem checkShape_eq_empty {entries : List Entry} :
    checkShape entries = .error .empty ↔ entries = [] := by
  unfold checkShape
  split
  · simp
  · next fault ne walked =>
    obtain ⟨_, _, _, _, _, -, -, -, rfl⟩ := depthAfter_eq_error.mp walked
    simpa using ne
  · next ne _ =>
    split <;> simpa using ne

theorem checkShape_eq_leftover {entries : List Entry} {k : Nat} :
    checkShape entries = .error (.leftover k) ↔ 2 ≤ k ∧ depthAfter 0 entries = .ok k := by
  unfold checkShape
  split
  · simp only [depthAfter, Except.error.injEq, Except.ok.injEq, reduceCtorEq, false_iff, not_and]
    omega
  · next fault _ walked =>
    obtain ⟨_, _, _, _, _, -, -, -, rfl⟩ := depthAfter_eq_error.mp walked
    simp [walked]
  · next depth ne walked =>
    have pos : depth ≠ 0 := by
      rintro rfl
      obtain ⟨trees, length, rfl⟩ := depthAfter_eq_ok_iff.mp walked
      exact ne (by rw [List.length_eq_zero_iff.mp length, List.flatMap_nil])
    rw [walked]
    split
    · next one => simp only [reduceCtorEq, Except.ok.injEq, false_iff, not_and]; omega
    · next several =>
      simp only [Except.error.injEq, ShapeFault.leftover.injEq, Except.ok.injEq]
      omega

theorem checkShape_eq_underflow {entries : List Entry} {op : Operator} {span : Span} :
    checkShape entries = .error (.underflow op span) ↔
      depthAfter 0 entries = .error (.underflow op span) := by
  unfold checkShape
  split
  · simp [depthAfter]
  · next walked => simp [walked]
  · next walked => rw [walked]; split <;> simp

/-- The walk along the entries never subtracts more than there is: up to any operator that it reaches,
the depth is the sum of what the entries add, counted in integers, and an operator that it passes takes
no more than that. -/
theorem walk_exact {before : List Entry} {op : Operator} {span : Span} {depth : Nat}
    (walked : depthAfter 0 before = .ok depth) :
    (depth : Int) = (before.map Entry.gain).sum ∧
      ∀ next, depthAfter depth [.operator op span] = .ok next →
        0 ≤ (depth : Int) - op.arity ∧ (next : Int) = depth - op.arity + 1 := by
  refine ⟨by simpa using depthAfter_gain walked, fun next passed => ?_⟩
  obtain ⟨enough, rfl⟩ := depthAfter_singleton_eq_ok.mp passed
  omega

/-- Every outcome of the check of a shape. It is fine for the writing of one tree, and of one only. At
the end there are `k` other values if `k` trees are written, and there is an underflow if an operator
lacks trees; the fault names the first one. The depth never goes below zero. -/
theorem checkShape_outcome (entries : List Entry) :
    (checkShape entries = .error .empty ↔ entries = []) ∧
    (∀ op : Operator, op.arity = if op = .not then 1 else 2) ∧
    (checkShape entries = .ok () ↔ ∃ tree : Expression, tree.entries = entries) ∧
    (∀ tree tree' : Expression, tree.entries = entries → tree'.entries = entries → tree = tree') ∧
    (∀ k, checkShape entries = .error (.leftover k) ↔
      2 ≤ k ∧ ∃ trees : List Expression,
        trees.length = k ∧ trees.flatMap Expression.entries = entries) ∧
    (∀ trees trees' : List Expression, trees.flatMap Expression.entries = entries →
      trees'.flatMap Expression.entries = entries → trees = trees') ∧
    (∀ op span, checkShape entries = .error (.underflow op span) ↔
      ∃ before after, entries = before ++ .operator op span :: after ∧ Lacking before op ∧
        ∀ earlier op' span' later, before = earlier ++ .operator op' span' :: later →
          ¬Lacking earlier op') ∧
    ((∃ op span, checkShape entries = .error (.underflow op span)) ↔
      ∃ before op span after, entries = before ++ .operator op span :: after ∧ Lacking before op) ∧
    ∀ before op span after depth, entries = before ++ .operator op span :: after →
      depthAfter 0 before = .ok depth →
      (depth : Int) = (before.map Entry.gain).sum ∧
        ∀ next, depthAfter depth [.operator op span] = .ok next →
          0 ≤ (depth : Int) - op.arity ∧ (next : Int) = depth - op.arity + 1 := by
  have unique : ∀ trees trees' : List Expression, trees.flatMap Expression.entries = entries →
      trees'.flatMap Expression.entries = entries → trees = trees' :=
    fun _ _ written written' => flatMap_entries_inj (written.trans written'.symm)
  refine ⟨checkShape_eq_empty, fun op => by cases op <;> rfl, checkShape_eq_ok_iff, ?single,
    fun k => ?leftover, unique, fun op span => ?first, ?some, fun _ _ _ _ _ _ => walk_exact⟩
  case single =>
    intro tree tree' written written'
    exact (@entries_inj [] [] _ _ (written.trans written'.symm)).2
  case leftover => rw [checkShape_eq_leftover, depthAfter_eq_ok_iff]
  case first => rw [checkShape_eq_underflow, depthAfter_eq_underflow]
  case some =>
    constructor
    · rintro ⟨op, span, stopped⟩
      obtain ⟨before, after, rfl, lacking, -⟩ :=
        depthAfter_eq_underflow.mp (checkShape_eq_underflow.mp stopped)
      exact ⟨before, op, span, after, rfl, lacking⟩
    · rintro ⟨before, op, span, after, rfl, lacking⟩
      cases walked : depthAfter 0 (before ++ .operator op span :: after) with
      | ok final => exact absurd lacking (not_lacking_of_walked walked)
      | error fault =>
        obtain ⟨_, op', span', _, _, -, -, -, rfl⟩ := depthAfter_eq_error.mp walked
        exact ⟨op', span', checkShape_eq_underflow.mpr walked⟩

/-- An operator that lacks trees behind one that has its own: the second operand of `or` is missing. -/
example : checkShape [.operand ⟨.symbol, "A", ⟨"in", 1⟩⟩, .operator .not ⟨"in", 1⟩,
    .operator .or ⟨"in", 2⟩] = .error (.underflow .or ⟨"in", 2⟩) := rfl

end HttpSuite
