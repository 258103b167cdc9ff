import HttpSuite.Canonical
import HttpSuite.Proofs.Lexing.Spelled
import HttpSuite.Proofs.Reading

/-!
# The words of statements

Every statement is a directive and parameters, and its canonical text spells them as words. The
statements that are read from a source (`Statement.From`) have words that can be written.

* `canonical_toList`: the canonical text of a statement, word by word.
* `spells_canonicalText`: the text of records spells the words of their statements.
-/

namespace HttpSuite

open Word

/-! ## Statements from a source -/

/-- The token can stand as a value, is as a lexer reads it, and comes from the source. -/
structure Token.ValueFrom (source : String) (token : Token) : Prop where
  isValue : token.kind.isValue = true
  lexical : token.word.Lexical
  source_eq : token.span.source = source

/-- The entry is as it is read from a token of the source. -/
def Entry.From (source : String) : Entry → Prop
  | .operand token => token.ValueFrom source ∧ ofToken token = .operand token
  | .operator _ span => span.source = source

/-- The assertion comes to one value and is from the source. -/
structure Assertion.From (source : String) (assertion : Assertion) : Prop where
  source_eq : assertion.span.source = source
  shape : checkShape assertion.entries = .ok ()
  entries : ∀ entry ∈ assertion.entries, entry.From source

/-- The statement is as it is read from tokens of the source. -/
def Statement.From (source : String) : Statement → Prop
  | .test span _ => span.source = source
  | .bind _ symbol value => isSymbol symbol = true ∧ value.ValueFrom source
  | .field _ value | .header _ value => value.ValueFrom source
  | .assertion asserted => asserted.From source

/-! ## Words -/

/-- The name of a test or a header as a word. -/
def nameWord (name : String) : Word := ⟨if isSymbol name then .symbol else .string, name⟩

/-- The entry as a word. -/
def Entry.word : Entry → Word
  | .operand token => token.word
  | .operator op _ => ⟨.symbol, op.keyword⟩

namespace Statement

/-- The directive that starts the statement. -/
def directive : Statement → Directive
  | .test _ _ => .test
  | .bind level _ _ => .bind level
  | .field f _ => .field f
  | .header _ _ => .header
  | .assertion _ => .assertion

/-- The words after the directive. -/
def parameters : Statement → List Word
  | .test _ name => [nameWord name]
  | .bind _ symbol value => [⟨.symbol, symbol⟩, value.word]
  | .field _ value => [value.word]
  | .header name value => [nameWord name, value.word]
  | .assertion asserted => asserted.entries.map Entry.word ++ [⟨.assertEnd, ";"⟩]

/-- All words of the statement. -/
def words (statement : Statement) : List Word :=
  statement.directive.word :: statement.parameters

end Statement

theorem nameWord_lexical (name : String) : (nameWord name).Lexical := by
  unfold nameWord
  by_cases h : isSymbol name = true
  · rw [if_pos h]
    exact h
  · rw [if_neg h]
    trivial

theorem Directive.word_lexical (directive : Directive) : directive.word.Lexical := by
  have all : directive.keyword.toList.tail.all isDirectiveChar = true := by
    cases directive with
    | bind level => cases level <;> rfl
    | field f => cases f <;> rfl
    | test | header | assertion => rfl
  refine ⟨directive.keyword.toList.tail, ?_, List.all_eq_true.mp all⟩
  cases directive with
  | bind level => cases level <;> rfl
  | field f => cases f <;> rfl
  | test | header | assertion => rfl

theorem isSymbol_keyword (op : Operator) : isSymbol op.keyword = true := by
  cases op <;> decide

theorem Entry.word_lexical {source : String} {entry : Entry} (h : entry.From source) :
    entry.word.Lexical := by
  cases entry with
  | operand token => exact h.1.lexical
  | operator op span => exact isSymbol_keyword op

theorem Statement.words_lexical {source : String} {statement : Statement}
    (h : statement.From source) : ∀ w ∈ statement.words, w.Lexical := by
  refine List.forall_mem_cons.mpr ⟨Directive.word_lexical _, ?_⟩
  cases statement with
  | test span name => simpa [parameters] using nameWord_lexical name
  | bind level symbol value => simpa [parameters] using ⟨h.1, h.2.lexical⟩
  | field f value => simpa [parameters] using h.lexical
  | header name value => simpa [parameters] using ⟨nameWord_lexical name, h.lexical⟩
  | assertion asserted =>
    intro w hw
    rcases List.mem_append.mp hw with hw | hw
    · obtain ⟨entry, he, rfl⟩ := List.mem_map.mp hw
      exact Entry.word_lexical (h.entries entry he)
    · obtain rfl := List.mem_singleton.mp hw
      rfl

/-! ## Spelling -/

/-- The words, each after a space. -/
def spaced (ws : List Word) : List Char := ws.flatMap fun w => ' ' :: w.spelling

theorem canonicalName_toList (name : String) :
    (canonicalName name).toList = (nameWord name).spelling := by
  unfold canonicalName nameWord
  split <;> rfl

theorem Entry.canonical_toList {source : String} {entry : Entry} (h : entry.From source) :
    entry.canonical.toList = entry.word.spelling := by
  cases entry with
  | operand token => exact HttpSuite.canonical_toList h.1.isValue
  | operator op span => rfl

theorem Statement.canonical_toList {source : String} {statement : Statement}
    (h : statement.From source) :
    statement.canonical.toList =
      statement.directive.word.spelling ++ spaced statement.parameters := by
  have keyword : ∀ d : Directive, d.word.spelling = d.keyword.toList := fun _ => rfl
  have space : (" " : String).toList = [' '] := rfl
  cases statement with
  | test span name =>
    simp [canonical, directive, parameters, spaced, canonicalName_toList, keyword, space]
  | bind level symbol value =>
    have spelled := HttpSuite.canonical_toList h.2.isValue
    simp [canonical, directive, parameters, spaced, keyword, space, spelled]
    rfl
  | field f value =>
    have spelled := HttpSuite.canonical_toList h.isValue
    simp [canonical, directive, parameters, spaced, keyword, space, spelled]
  | header name value =>
    have spelled := HttpSuite.canonical_toList h.isValue
    simp [canonical, directive, parameters, spaced, canonicalName_toList, keyword, space, spelled]
  | assertion asserted =>
    have entries : asserted.entries.flatMap (fun entry => ' ' :: entry.canonical.toList) =
        asserted.entries.flatMap fun entry => ' ' :: entry.word.spelling := by
      rw [List.flatMap_def, List.flatMap_def, List.map_congr_left fun entry he => ?_]
      rw [Entry.canonical_toList (h.entries entry he)]
    have finish : (" ;" : String).toList = ' ' :: (⟨.assertEnd, ";"⟩ : Word).spelling := rfl
    simp [canonical, directive, parameters, spaced, keyword, String.toList_join, List.flatMap_map,
      space, entries, finish]

/-- A word and others behind it, each after a space, before what opens with a blank. -/
theorem spells_spaced {w : Word} {ws vs : List Word} {ds : List Char} (h : w.Lexical)
    (h' : ∀ v ∈ ws, v.Lexical) (tail : Spells ds vs) (opens : OpensBlank ds) :
    Spells (w.spelling ++ (spaced ws ++ ds)) (w :: ws ++ vs) := by
  induction ws generalizing w with
  | nil => exact .word h opens tail
  | cons v ws ih =>
    obtain ⟨first, others⟩ := List.forall_mem_cons.mp h'
    have opened : spaced (v :: ws) ++ ds = ' ' :: (v.spelling ++ (spaced ws ++ ds)) := by
      simp [spaced]
    rw [opened]
    exact .word h (fun c hc => Option.some.inj hc ▸ by decide) (.blank (by decide) (ih first others))

/-! ## Texts of whole statements -/

/-- The characters spell the words, whatever is spelled behind them. -/
def SpellsApart (cs : List Char) (ws : List Word) : Prop :=
  ∀ (ds : List Char) (vs : List Word), Spells ds vs → Spells (cs ++ ds) (ws ++ vs)

namespace SpellsApart

theorem nil : SpellsApart [] [] := fun _ _ h => h

theorem blank {c : Char} (h : isBlank c = true) : SpellsApart [c] [] :=
  fun _ _ h' => .blank h h'

theorem append {cs ds : List Char} {ws vs : List Word} (h : SpellsApart cs ws)
    (h' : SpellsApart ds vs) : SpellsApart (cs ++ ds) (ws ++ vs) := by
  intro es us tail
  rw [List.append_assoc, List.append_assoc]
  exact h _ _ (h' _ _ tail)

theorem spells {cs : List Char} {ws : List Word} (h : SpellsApart cs ws) : Spells cs ws := by
  have := h _ _ .nil
  rwa [List.append_nil, List.append_nil] at this

/-- A line of words. -/
theorem line {w : Word} {ws : List Word} (h : w.Lexical) (h' : ∀ v ∈ ws, v.Lexical) :
    SpellsApart (w.spelling ++ spaced ws ++ ['\n']) (w :: ws) := by
  intro ds vs tail
  have newline : Spells ('\n' :: ds) vs := .blank (by decide) tail
  rw [List.append_assoc, List.append_assoc, List.singleton_append]
  exact spells_spaced h h' newline fun c hc => Option.some.inj hc ▸ by decide

theorem flatMap {α : Type} {f : α → List Char} {g : α → List Word} {xs : List α}
    (h : ∀ x ∈ xs, SpellsApart (f x) (g x)) : SpellsApart (xs.flatMap f) (xs.flatMap g) := by
  induction xs with
  | nil => exact .nil
  | cons x xs ih =>
    obtain ⟨first, others⟩ := List.forall_mem_cons.mp h
    rw [List.flatMap_cons, List.flatMap_cons]
    exact first.append (ih others)

end SpellsApart

section Text

variable {source : String} {statements : List Statement}

theorem spells_canonicalLines (h : ∀ statement ∈ statements, statement.From source) :
    SpellsApart (canonicalLines statements).toList (statements.flatMap Statement.words) := by
  have lines : (canonicalLines statements).toList =
      statements.flatMap fun statement => statement.canonical.toList ++ ['\n'] := by
    simp [canonicalLines, String.toList_join, List.flatMap_map]
  rw [lines]
  refine SpellsApart.flatMap fun statement hs => ?_
  have written := h statement hs
  obtain ⟨directive, parameters⟩ := List.forall_mem_cons.mp (Statement.words_lexical written)
  rw [Statement.canonical_toList written]
  exact SpellsApart.line directive parameters

/-- The statements of a test and the one that starts it. -/
def TestRecord.testStatements (record : TestRecord) (a : Arena) : List Statement :=
  .test record.span record.name :: record.statements a

/-- The statements that the text of records holds, if the first one is the preamble. -/
def suiteStatements (a : Arena) : List TestRecord → List Statement
  | [] => []
  | first :: rest =>
    first.outerStatements a ++ first.statements a ++ rest.flatMap (·.testStatements a)

theorem spells_appendTest {a : Arena} {text : String} {ws : List Word} {record : TestRecord}
    (h : SpellsApart text.toList ws)
    (h' : ∀ statement ∈ record.testStatements a, statement.From source) :
    SpellsApart (appendTest a text record).toList
      (ws ++ (record.testStatements a).flatMap Statement.words) := by
  have test := spells_canonicalLines h'
  unfold appendTest
  split
  · rw [String.toList_append]
    exact h.append test
  · rw [String.toList_append, String.toList_append]
    have newline : SpellsApart ("\n" : String).toList [] := .blank (by decide)
    have apart := (h.append newline).append test
    rwa [List.append_nil] at apart

/-- The text of records spells the words of their statements. -/
theorem spells_canonicalText {a : Arena} {records : List TestRecord}
    (preamble : ∀ record ∈ records.head?, record.span.line = 0)
    (h : ∀ statement ∈ suiteStatements a records, statement.From source) :
    Spells (canonicalText a records).toList
      ((suiteStatements a records).flatMap Statement.words) := by
  cases records with
  | nil => exact .nil
  | cons first rest =>
    rw [suiteStatements] at h ⊢
    rw [canonicalText, if_pos (preamble first rfl), List.flatMap_append]
    obtain ⟨before, tests⟩ := List.forall_mem_append.mp h
    have start := spells_canonicalLines before
    generalize canonicalLines _ = text at start ⊢
    generalize List.flatMap Statement.words (first.outerStatements a ++ _) = ws at start ⊢
    clear h before preamble
    refine SpellsApart.spells ?_
    induction rest generalizing text ws with
    | nil => simpa using start
    | cons record rest ih =>
      rw [List.flatMap_cons] at tests ⊢
      obtain ⟨test, others⟩ := List.forall_mem_append.mp tests
      rw [List.foldl_cons, List.flatMap_append, ← List.append_assoc]
      exact ih others _ _ (spells_appendTest start test)

end Text

end HttpSuite
