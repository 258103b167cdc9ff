import HttpSuite.Proofs.Directives.Acceptance
import Mathlib.Data.List.Forall2

/-!
# The blocks of a suite

A suite is cut before every test: what stands before the first one is the block of the implicit record,
and every test has a block that begins with it.

* `Written.blocks`: the blocks of the tokens write the blocks of the statements.
* `Acceptable.blocks`: what is acceptable in a suite is acceptable alone, block by block.
-/

namespace HttpSuite

/-! ## Cutting a list -/

section Cut

variable {α : Type} {p : α → Bool}

/-- Cuts a list before every element that is picked. The first part has none of these. -/
def cutBefore (p : α → Bool) : List α → List (List α)
  | [] => [[]]
  | x :: xs =>
    if p x then [] :: (cutBefore p xs).modifyHead (x :: ·)
    else (cutBefore p xs).modifyHead (x :: ·)

/-- The first part has no element that is picked, and every other part begins with the only one it
has. -/
theorem exists_cutBefore (p : α → Bool) (xs : List α) :
    ∃ first others, cutBefore p xs = first :: others ∧ (∀ x ∈ first, p x = false) ∧
      ∀ part ∈ others, ∃ x rest, part = x :: rest ∧ p x = true ∧ ∀ y ∈ rest, p y = false := by
  induction xs with
  | nil => exact ⟨[], [], rfl, by simp, by simp⟩
  | cons x xs ih =>
    obtain ⟨first, others, cut, clean, opens⟩ := ih
    rw [cutBefore, cut, List.modifyHead_cons]
    by_cases picked : p x = true
    · rw [if_pos picked]
      exact ⟨[], _, rfl, by simp, List.forall_mem_cons.mpr ⟨⟨x, first, rfl, picked, clean⟩, opens⟩⟩
    · rw [if_neg picked]
      have none : p x = false := Bool.eq_false_iff.mpr picked
      exact ⟨x :: first, others, rfl, List.forall_mem_cons.mpr ⟨none, clean⟩, opens⟩

theorem length_cutBefore (p : α → Bool) (xs : List α) :
    (cutBefore p xs).length = xs.countP p + 1 := by
  induction xs with
  | nil => rfl
  | cons x xs ih =>
    rw [cutBefore, List.countP_cons]
    split <;> simp [ih, List.length_modifyHead]

theorem flatten_cutBefore (p : α → Bool) (xs : List α) : (cutBefore p xs).flatten = xs := by
  induction xs with
  | nil => rfl
  | cons x xs ih =>
    obtain ⟨first, others, cut, -⟩ := exists_cutBefore p xs
    rw [cut] at ih
    rw [cutBefore, cut]
    split <;> simpa using ih

/-- What has no element that is picked is part of the first part. -/
theorem cutBefore_append {ys : List α} (h : ∀ y ∈ ys, p y = false) (xs : List α) :
    cutBefore p (ys ++ xs) = (cutBefore p xs).modifyHead (ys ++ ·) := by
  obtain ⟨first, others, cut, -⟩ := exists_cutBefore p xs
  induction ys with
  | nil =>
    rw [List.nil_append, cut]
    rfl
  | cons y ys ih =>
    obtain ⟨none, clean⟩ := List.forall_mem_cons.mp h
    rw [List.cons_append, cutBefore, ih clean, if_neg (Bool.eq_false_iff.mp none), cut]
    rfl

/-- A part that is cut once more is its own last part. -/
theorem getLast?_cutBefore {xs part : List α} (h : part ∈ cutBefore p xs) :
    (cutBefore p part).getLast? = some part := by
  have whole {ys : List α} (clean : ∀ y ∈ ys, p y = false) : cutBefore p ys = [ys] := by
    have cut := cutBefore_append clean []
    rwa [List.append_nil, cutBefore, List.modifyHead_cons, List.append_nil] at cut
  obtain ⟨first, others, cut, clean, opens⟩ := exists_cutBefore p xs
  rw [cut] at h
  rcases List.mem_cons.mp h with rfl | h
  · rw [whole clean]
    rfl
  · obtain ⟨x, rest, rfl, picked, clean⟩ := opens part h
    rw [cutBefore, if_pos picked, whole clean]
    rfl

end Cut

/-! ## Blocks -/

/-- The token starts a test. -/
def Token.isTest (token : Token) : Bool := token.word = Directive.test.word

/-- The statement starts a test. -/
def Statement.isTest : Statement → Bool
  | .test .. => true
  | .bind .. | .field .. | .header .. | .assertion .. => false

section Blocks

variable {tokens : List Token} {statement : Statement} {statements : List Statement}

theorem isTest_of_word {token : Token} {d : Directive} (h : token.word = d.word) (other : d ≠ .test) :
    token.isTest = false := by
  apply decide_eq_false
  intro same
  have keyword : d.keyword = Directive.test.keyword := congrArg Word.text (h.symm.trans same)
  have found := Directive.ofKeyword?_keyword d
  rw [keyword, Directive.ofKeyword?_keyword] at found
  exact other (Option.some.inj found).symm

theorem isTest_of_kind {token : Token} (h : token.kind ≠ .directive) : token.isTest = false :=
  decide_eq_false fun same => h (congrArg Word.kind same)

/-- Only the first token of a statement can start a test. -/
theorem Statement.WrittenAs.opens (h : statement.WrittenAs tokens) :
    ∃ first rest, tokens = first :: rest ∧ first.isTest = statement.isTest ∧
      ∀ token ∈ rest, token.isTest = false := by
  have value {token : Token} (h : token.kind.isValue = true) : token.isTest = false :=
    isTest_of_kind fun eq => by
      rw [eq] at h
      cases h
  have name {token : Token} (h : Expecting.isNameKind token.kind = true) : token.isTest = false :=
    isTest_of_kind fun eq => by
      rw [eq] at h
      cases h
  cases h with
  | @test directive text word named =>
    exact ⟨directive, [text], rfl, decide_eq_true word, by simpa using name named⟩
  | @bind level directive symbol token word kind isValue =>
    refine ⟨directive, [symbol, token], rfl, isTest_of_word word (by simp), ?_⟩
    simpa using ⟨isTest_of_kind (by simp [kind]), value isValue⟩
  | @field f directive token word isValue =>
    exact ⟨directive, [token], rfl, isTest_of_word word (by simp), by simpa using value isValue⟩
  | @header directive text token word named isValue =>
    refine ⟨directive, [text, token], rfl, isTest_of_word word (by simp), ?_⟩
    simpa using ⟨name named, value isValue⟩
  | @assertion directive finish operands tree word values entries ended =>
    refine ⟨directive, operands ++ [finish], rfl, isTest_of_word word (by simp), ?_⟩
    intro token ht
    rcases List.mem_append.mp ht with ht | ht
    · exact value (values token ht)
    · exact isTest_of_kind (by simp [List.mem_singleton.mp ht, ended])

/-- The blocks of the tokens write the blocks of the statements. -/
theorem Written.blocks (h : Written tokens statements) :
    List.Forall₂ Written (cutBefore Token.isTest tokens) (cutBefore Statement.isTest statements) := by
  induction h with
  | nil => exact .cons .nil .nil
  | @cons tokens rest statement statements written _ ih =>
    obtain ⟨token, more, rfl, same, clean⟩ := written.opens
    obtain ⟨first, others, cut, -⟩ := exists_cutBefore Token.isTest rest
    obtain ⟨first', others', cut', -⟩ := exists_cutBefore Statement.isTest statements
    rw [cut, cut'] at ih
    obtain ⟨begins, tails⟩ := List.forall₂_cons.mp ih
    have whole := Written.cons written begins
    rw [List.cons_append, cutBefore, cutBefore, cutBefore_append clean, same, cut, cut']
    simp only [List.modifyHead_cons]
    -- A test opens a block, any other statement joins the first one of the rest.
    split
    · exact .cons .nil (.cons whole tails)
    · exact .cons whole tails

/-- What is acceptable in a suite is acceptable alone, block by block: the first block whatever names
there are, any other one after any of the names that there were. -/
theorem Acceptable.blocks {unique : Bool} {base names : List String} {body : Option Token}
    (h : Acceptable unique names body statements) (sub : base ⊆ names) :
    ∃ first others, cutBefore Statement.isTest statements = first :: others ∧
      (∀ names, Acceptable unique names body first) ∧
      ∀ block ∈ others, ∀ body, Acceptable unique base body block := by
  induction statements generalizing names body with
  | nil => exact ⟨[], [], rfl, fun _ => trivial, by simp⟩
  | cons statement statements ih =>
    have stays {body' : Option Token} (other : statement.isTest = false)
        (rest : Acceptable unique names body' statements)
        (longer : ∀ {names block}, Acceptable unique names body' block →
          Acceptable unique names body (statement :: block)) :
        ∃ first others, cutBefore Statement.isTest (statement :: statements) = first :: others ∧
          (∀ names, Acceptable unique names body first) ∧
          ∀ block ∈ others, ∀ body, Acceptable unique base body block := by
      obtain ⟨first, others, cut, alone, later⟩ := ih rest sub
      refine ⟨statement :: first, others, ?_, fun names => longer (alone names), later⟩
      rw [cutBefore, other, cut]
      rfl
    cases statement with
    | test span name =>
      obtain ⟨fresh, rest⟩ := h
      obtain ⟨first, others, cut, alone, later⟩ :=
        ih rest (List.Subset.trans sub (List.subset_append_left names [name]))
      refine ⟨[], (.test span name :: first) :: others, ?_, fun _ => trivial, ?_⟩
      · rw [cutBefore, cut]
        rfl
      · refine List.forall_mem_cons.mpr ⟨fun _ => ⟨fun on mem => fresh on (sub mem), alone _⟩, later⟩
    | bind level symbol value => exact stays rfl h id
    | field f value =>
      cases f with
      | body =>
        obtain ⟨isValue, grown, ok, rest⟩ := h
        exact stays rfl rest fun rest => ⟨isValue, grown, ok, rest⟩
      | method | uri | httpVersion => exact stays rfl h.2 fun rest => ⟨h.1, rest⟩
    | header name value => exact stays rfl h.2 fun rest => ⟨h.1, rest⟩
    | assertion assertion => exact stays rfl h id

/-- What a suite accepts, it accepts block by block. -/
theorem Options.Accepts.of_mem {options : Options} {block : List Statement}
    (h : options.Accepts statements) (mem : block ∈ cutBefore Statement.isTest statements) :
    options.Accepts block := by
  obtain ⟨first, others, cut, alone, later⟩ := Acceptable.blocks h (List.Subset.refl _)
  rw [cut] at mem
  rcases List.mem_cons.mp mem with rfl | mem
  · exact alone _
  · exact later block mem none

end Blocks

end HttpSuite
