import HttpSuite.Proofs.Lineless
import HttpSuite.Proofs.Postfix
import HttpSuite.Proofs.Reformat.Statements
import Mathlib.Data.List.Chain

/-!
# Reading the words of statements again

Tokens that say the words of statements (`Says`) are read as these statements, on other lines. Only an
assertion with two shell commands in a row is different: its words are read with the two merged, so
that one operand is missing and the assertion no longer comes to one value.

* `reads_statement`: one statement is read from its words.
* `gains_merged_lt`: merging takes values away.
* `readFrom_merged`, `readFrom_merged_fault`: the statements of a suite, and what stands in the way.
-/

namespace HttpSuite

open Word

/-! ## Tokens that say words -/

/-- The tokens say the words and come from the source. -/
structure Says (source : String) (tokens : List Token) (ws : List Word) : Prop where
  words : tokens.map Token.word = ws
  source_eq : ∀ token ∈ tokens, token.span.source = source

namespace Says

variable {source : String} {tokens : List Token} {w : Word} {ws vs : List Word}

theorem nil_inv (h : Says source tokens []) : tokens = [] := List.map_eq_nil_iff.mp h.words

theorem cons_inv (h : Says source tokens (w :: ws)) :
    ∃ token rest, tokens = token :: rest ∧ token.word = w ∧ token.span.source = source ∧
      Says source rest ws := by
  obtain ⟨token, rest, rfl, first, others⟩ := List.map_eq_cons_iff.mp h.words
  obtain ⟨from_, froms⟩ := List.forall_mem_cons.mp h.source_eq
  exact ⟨token, rest, rfl, first, from_, others, froms⟩

theorem append_inv (h : Says source tokens (ws ++ vs)) :
    ∃ first second, tokens = first ++ second ∧ Says source first ws ∧ Says source second vs := by
  obtain ⟨first, second, rfl, hw, hv⟩ := List.map_eq_append_iff.mp h.words
  obtain ⟨froms, froms'⟩ := List.forall_mem_append.mp h.source_eq
  exact ⟨first, second, rfl, ⟨hw, froms⟩, ⟨hv, froms'⟩⟩

theorem kinds (good : TokenKind → Prop) (h : Says source tokens ws) (all : ∀ w ∈ ws, good w.kind) :
    ∀ token ∈ tokens, good token.kind := by
  intro token ht
  exact all token.word (h.words ▸ List.mem_map_of_mem ht)

end Says

/-- The feed of a text says the words that the text spells. -/
theorem feed_of_spells (source : String) {text : String} {limit : Nat} {ws : List Word}
    (spells : Spells text.toList ws) (within : LinesWithin limit text) :
    ∃ tokens span, Feed.ofLexer { source, rest := Read.ofText text, limit } = ⟨tokens, .ok span⟩ ∧
      Says source tokens (merged ws) := by
  rw [ofText_eq]
  let lexer : Lexer := { source, rest := (bytesOf text.toList).map .byte, limit }
  obtain ⟨noFault, words⟩ :=
    lexer.tokens_of_spells spells rfl (Position.fits_of_linesWithin within)
  have feed := Feed.ofLexer_eq lexer
  rw [Lexer.stop, noFault] at feed
  exact ⟨lexer.tokens.1, _, feed, words, fun token ht => (lexer.tokens_found token ht).1⟩

theorem Token.lineless_eq {token other : Token} (word : token.word = other.word)
    (source : token.span.source = other.span.source) : token.lineless = other.lineless := by
  obtain ⟨kind, text, s, l⟩ := token
  obtain ⟨kind', text', s', l'⟩ := other
  obtain ⟨rfl, rfl⟩ := Word.mk.inj word
  cases source
  rfl

/-! ## Assertions -/

/-- How many values more there are after the word, read as an entry. -/
def Word.gain (w : Word) : Int :=
  match w.kind, Operator.ofKeyword? w.text with
  | .symbol, some op => 1 - op.arity
  | _, _ => 1

/-- How many values more there are after the words. -/
def gains (ws : List Word) : Int := (ws.map Word.gain).sum

/-- Not both words are shell commands. -/
def NotBothShell (w v : Word) : Prop := ¬ (w.kind = .shellCommand ∧ v.kind = .shellCommand)

instance : DecidableRel NotBothShell := fun _ _ => inferInstanceAs (Decidable (¬ _))

/-- No two operands in a row are shell commands. -/
def Assertion.ShellsApart (assertion : Assertion) : Prop :=
  (assertion.entries.map Entry.word).IsChain NotBothShell

instance (assertion : Assertion) : Decidable assertion.ShellsApart :=
  inferInstanceAs (Decidable (List.IsChain _ _))

theorem ofToken_gain (token : Token) : (Entry.ofToken token).gain = token.word.gain := by
  obtain ⟨kind, text, span⟩ := token
  cases kind with
  | symbol =>
    simp only [Entry.ofToken, Word.gain, Token.word]
    cases Operator.ofKeyword? text <;> rfl
  | directive | string | integer | shellCommand | assertEnd | none | unknown => rfl

theorem depthAfter_lineless (depth : Nat) (entries : List Entry) (final : Nat) :
    depthAfter depth (entries.map Entry.lineless) = .ok final ↔
      depthAfter depth entries = .ok final := by
  induction entries generalizing depth with
  | nil => exact Iff.rfl
  | cons entry entries ih =>
    cases entry with
    | operand token => exact ih _
    | operator op span =>
      simp only [List.map_cons, Entry.lineless, depthAfter]
      split
      · simp
      · exact ih _

/-! ## Merging takes values away -/

theorem gain_shellCommand {w : Word} (h : w.kind = .shellCommand) : w.gain = 1 := by
  simp only [Word.gain, h]

theorem gains_cons (w : Word) (ws : List Word) : gains (w :: ws) = w.gain + gains ws := by
  rw [gains, List.map_cons, List.sum_cons]
  rfl

/-- Two shell commands become one, so one value is missing. -/
theorem gains_joinFirst_shell {w v : Word} (vs : List Word) (h : ¬ NotBothShell w v) :
    gains (joinFirst w (v :: vs)) = gains (v :: vs) := by
  have both : w.kind = .shellCommand ∧ v.kind = .shellCommand := Classical.not_not.mp h
  rw [joinFirst, if_pos both, gains_cons, gains_cons, gain_shellCommand both.2,
    gain_shellCommand rfl]

theorem gains_joinFirst_le (w : Word) (ws : List Word) :
    gains (joinFirst w ws) ≤ w.gain + gains ws := by
  cases ws with
  | nil => exact Int.le_of_eq (gains_cons w [])
  | cons v vs =>
    by_cases h : NotBothShell w v
    · have same : joinFirst w (v :: vs) = w :: v :: vs := if_neg h
      exact Int.le_of_eq (same ▸ gains_cons w (v :: vs))
    · have one := gain_shellCommand (Classical.not_not.mp h).1
      rw [gains_joinFirst_shell vs h]
      omega

theorem gains_merged_le (ws : List Word) : gains (merged ws) ≤ gains ws := by
  induction ws with
  | nil => exact Int.le_refl _
  | cons w ws ih =>
    have := gains_joinFirst_le w (merged ws)
    rw [merged_cons, gains_cons]
    omega

/-- Merged words open with a word of the same kind. -/
theorem merged_opens (w : Word) (ws : List Word) :
    ∃ v vs, merged (w :: ws) = v :: vs ∧ v.kind = w.kind := by
  rw [merged_cons]
  cases merged ws with
  | nil => exact ⟨w, [], rfl, rfl⟩
  | cons u us =>
    rw [joinFirst]
    split
    · next both => exact ⟨_, us, rfl, both.1.symm⟩
    · exact ⟨w, u :: us, rfl, rfl⟩

theorem gains_merged_lt {ws : List Word} (h : ¬ ws.IsChain NotBothShell) :
    gains (merged ws) < gains ws := by
  induction ws with
  | nil => exact absurd .nil h
  | cons w ws ih =>
    cases ws with
    | nil => exact absurd (.singleton w) h
    | cons v vs =>
      have le := gains_joinFirst_le w (merged (v :: vs))
      rw [merged_cons, gains_cons]
      by_cases pair : NotBothShell w v
      · -- The pair is not the first two words, so it is among the others.
        have rest : ¬ (v :: vs).IsChain NotBothShell :=
          fun chain => h (List.isChain_cons_cons.mpr ⟨pair, chain⟩)
        have := ih rest
        omega
      · -- The first word is merged into what the second one has become.
        obtain ⟨u, us, opens, kind⟩ := merged_opens v vs
        have both : ¬ NotBothShell w u := by rwa [NotBothShell, kind]
        have one := gain_shellCommand (Classical.not_not.mp pair).1
        have less := gains_merged_le (v :: vs)
        rw [opens] at less ⊢
        rw [gains_joinFirst_shell us both]
        omega

theorem merged_eq_self {ws : List Word} (h : ws.IsChain NotBothShell) : merged ws = ws := by
  induction ws with
  | nil => rfl
  | cons w ws ih =>
    cases ws with
    | nil => rfl
    | cons v vs =>
      obtain ⟨pair, rest⟩ := List.isChain_cons_cons.mp h
      rw [merged_cons, ih rest]
      exact if_neg pair

/-- Words before what does not open with a shell command are merged among themselves. -/
theorem merged_append {ws vs : List Word} (h : ∀ v ∈ (merged vs).head?, v.kind ≠ .shellCommand) :
    merged (ws ++ vs) = merged ws ++ merged vs := by
  induction ws with
  | nil => rfl
  | cons w ws ih =>
    rw [List.cons_append, merged_cons, merged_cons, ih]
    cases merged ws with
    | nil => exact joinFirst_eq_cons fun _ => h
    | cons u us =>
      rw [List.cons_append, joinFirst, joinFirst]
      split <;> rfl

theorem kind_of_mem_merged {ws : List Word} {w : Word} (h : w ∈ merged ws) :
    ∃ v ∈ ws, v.kind = w.kind := by
  induction ws generalizing w with
  | nil => cases h
  | cons u us ih =>
    rw [merged_cons] at h
    have later : ∀ {x}, x ∈ merged us → ∃ v ∈ u :: us, v.kind = x.kind := fun hx =>
      have ⟨v, hv, kind⟩ := ih hx
      ⟨v, List.mem_cons_of_mem u hv, kind⟩
    cases hm : merged us with
    | nil =>
      rw [hm] at h
      obtain rfl := List.mem_singleton.mp h
      exact ⟨w, List.mem_cons_self, rfl⟩
    | cons x xs =>
      rw [hm, joinFirst] at h
      split at h
      · next both =>
        rcases List.mem_cons.mp h with rfl | h
        · exact ⟨u, List.mem_cons_self, both.1⟩
        · exact later (hm ▸ List.mem_cons_of_mem x h)
      · rcases List.mem_cons.mp h with rfl | h
        · exact ⟨w, List.mem_cons_self, rfl⟩
        · exact later (hm ▸ h)

/-! ## One statement -/

section Statement

variable {source : String} {tokens : List Token}

theorem Entry.word_isValue {entry : Entry} (h : entry.From source) :
    entry.word.kind.isValue = true := by
  cases entry with
  | operand token => exact h.1.isValue
  | operator op span => rfl

/-- An entry is read again from a token that says its word. -/
theorem Entry.ofToken_lineless {entry : Entry} {token : Token} (h : entry.From source)
    (word : token.word = entry.word) (source_eq : token.span.source = source) :
    (Entry.ofToken token).lineless = entry.lineless := by
  cases entry with
  | operand other =>
    have same : token.lineless = other.lineless :=
      Token.lineless_eq word (source_eq.trans h.1.source_eq.symm)
    obtain ⟨kind, text⟩ := Word.mk.inj word
    have operand : Entry.ofToken token = .operand token := by
      have := h.2
      unfold Entry.ofToken at this ⊢
      rw [kind, text]
      split at this
      · cases this
      · rfl
    rw [operand]
    exact congrArg Entry.operand same
  | operator op span =>
    obtain ⟨kind, text⟩ := Word.mk.inj word
    have operator : Entry.ofToken token = .operator op token.span := by
      unfold Entry.ofToken
      rw [kind, text, Operator.ofKeyword?_keyword]
    rw [operator]
    refine congrArg (Entry.operator op) ?_
    rw [Span.lineless, Span.lineless, source_eq, h]

/-- The entries of an assertion are read again from tokens that say their words. -/
theorem entries_lineless {entries : List Entry} (h : ∀ entry ∈ entries, entry.From source)
    (said : Says source tokens (entries.map Entry.word)) :
    (tokens.map Entry.ofToken).map Entry.lineless = entries.map Entry.lineless := by
  induction entries generalizing tokens with
  | nil =>
    rw [said.nil_inv]
    rfl
  | cons entry entries ih =>
    obtain ⟨first, others⟩ := List.forall_mem_cons.mp h
    obtain ⟨token, rest, rfl, word, from_, said'⟩ := said.cons_inv
    rw [List.map_cons, List.map_cons, List.map_cons, ih others said',
      Entry.ofToken_lineless first word from_]

theorem value_step {token value : Token} (word : token.word = value.word)
    (from_ : token.span.source = source) (h : value.ValueFrom source) :
    token.lineless = value.lineless ∧ token.kind.isValue = true ∧ token.kind ≠ .unknown := by
  have kind : token.kind = value.kind := congrArg Word.kind word
  refine ⟨Token.lineless_eq word (from_.trans h.source_eq.symm), kind ▸ h.isValue, ?_⟩
  intro eq
  have := h.isValue
  rw [← kind, eq] at this
  cases this

theorem name_step {token : Token} {name : String} (word : token.word = nameWord name) :
    token.text = name ∧ Expecting.isNameKind token.kind = true ∧ token.kind ≠ .unknown := by
  obtain ⟨kind, text⟩ := Word.mk.inj word
  refine ⟨text, ?_, ?_⟩ <;> rw [kind] <;> split <;> simp [Expecting.isNameKind]

/-- The entries of an assertion are read again up to the end of it. -/
theorem reads_assertion (span : Span) {asserted : Assertion} (h : asserted.From source)
    (said : Says source tokens (asserted.entries.map Entry.word ++ [⟨.assertEnd, ";"⟩])) :
    ∃ entries, entries.map Entry.lineless = asserted.entries.map Entry.lineless ∧
      (Expecting.operands span []).Reads tokens [.assertion ⟨span, entries⟩] .directive := by
  obtain ⟨operands, finish, rfl, saidOperands, saidFinish⟩ := said.append_inv
  obtain ⟨last, _, rfl, ended, -, none⟩ := saidFinish.cons_inv
  obtain rfl := none.nil_inv
  have values : ∀ token ∈ operands, token.kind.isValue = true := by
    refine saidOperands.kinds (fun kind => kind.isValue = true) ?_
    intro w hw
    obtain ⟨entry, he, rfl⟩ := List.mem_map.mp hw
    exact Entry.word_isValue (h.entries entry he)
  have entries := entries_lineless h.entries saidOperands
  -- The shape is that of the written entries, which the first reading accepted.
  have shape : checkShape (operands.map Entry.ofToken).reverse.reverse = .ok () := by
    rw [List.reverse_reverse, checkShape_eq_ok, ← depthAfter_lineless, entries,
      depthAfter_lineless, ← checkShape_eq_ok]
    exact h.shape
  have gathered := reads_operands span [] values
  rw [List.append_nil] at gathered
  have finished := step_finish span (congrArg Word.kind ended) shape
  rw [List.reverse_reverse] at finished
  exact ⟨operands.map Entry.ofToken, entries, gathered.append (.complete finished .nil)⟩

/-- A statement is read again from tokens that say its words. -/
theorem reads_statement {statement : Statement} (h : statement.From source)
    (said : Says source tokens statement.words) :
    ∃ again : Statement, again.lineless = statement.lineless ∧
      Expecting.directive.Reads tokens [again] .directive := by
  obtain ⟨token, parameters, rfl, word, from_, said⟩ := said.cons_inv
  have directive := step_directive_word word
  have here : ∀ span : Span, span.source = source → token.span.lineless = span.lineless := by
    intro span hs
    rw [Span.lineless, Span.lineless, from_, hs]
  -- The first token is the directive in every case, the others are the parameters.
  cases statement with
  | test span name =>
    obtain ⟨first, _, rfl, named, -, said⟩ := said.cons_inv
    obtain rfl := said.nil_inv
    obtain ⟨rfl, kind, known⟩ := name_step named
    refine ⟨.test token.span first.text, congrArg (Statement.test · first.text) (here span h), ?_⟩
    exact .more directive (.complete ((step_eq known _).trans (checked_eq_ok.mpr ⟨kind, rfl⟩)) .nil)
  | bind level symbol value =>
    obtain ⟨first, _, rfl, named, -, said⟩ := said.cons_inv
    obtain ⟨second, _, rfl, valued, from_', said⟩ := said.cons_inv
    obtain rfl := said.nil_inv
    obtain ⟨kind, rfl⟩ := Word.mk.inj named
    obtain ⟨same, isValue, known⟩ := value_step valued from_' h.2
    refine ⟨.bind level first.text second, congrArg (Statement.bind level first.text) same, ?_⟩
    have name : (Expecting.symbol level).step first = .ok (.symbolValue level first.text, none) :=
      (step_eq (by simp [kind]) _).trans (checked_eq_ok.mpr ⟨by simp [kind], rfl⟩)
    exact .more directive (.more name
      (.complete ((step_eq known _).trans (checked_eq_ok.mpr ⟨isValue, rfl⟩)) .nil))
  | field f value =>
    obtain ⟨first, _, rfl, valued, from_', said⟩ := said.cons_inv
    obtain rfl := said.nil_inv
    obtain ⟨same, isValue, known⟩ := value_step valued from_' h
    refine ⟨.field f first, congrArg (Statement.field f) same, ?_⟩
    exact .more directive
      (.complete ((step_eq known _).trans (checked_eq_ok.mpr ⟨isValue, rfl⟩)) .nil)
  | header name value =>
    obtain ⟨first, _, rfl, named, -, said⟩ := said.cons_inv
    obtain ⟨second, _, rfl, valued, from_', said⟩ := said.cons_inv
    obtain rfl := said.nil_inv
    obtain ⟨rfl, kind, known⟩ := name_step named
    obtain ⟨same, isValue, known'⟩ := value_step valued from_' h
    refine ⟨.header first.text second, congrArg (Statement.header first.text) same, ?_⟩
    exact .more directive (.more ((step_eq known _).trans (checked_eq_ok.mpr ⟨kind, rfl⟩))
      (.complete ((step_eq known' _).trans (checked_eq_ok.mpr ⟨isValue, rfl⟩)) .nil))
  | assertion asserted =>
    obtain ⟨entries, same, reads⟩ := reads_assertion token.span h said
    refine ⟨.assertion ⟨token.span, entries⟩, ?_, .more directive reads⟩
    simp only [Statement.lineless, Assertion.lineless, here asserted.span h.source_eq, same]

theorem gains_words {entries : List Entry} (h : ∀ entry ∈ entries, entry.From source) :
    (entries.map Entry.gain).sum = gains (entries.map Entry.word) := by
  rw [gains, List.map_map]
  refine congrArg List.sum (List.map_congr_left fun entry he => ?_)
  cases entry with
  | operand token =>
    have := ofToken_gain token
    rw [(h _ he).2] at this
    exact this
  | operator op span => simp [Entry.gain, Word.gain, Entry.word, Operator.ofKeyword?_keyword]

/-- Merged operands do not come to one value. -/
theorem checkShape_merged {asserted : Assertion} (h : asserted.From source)
    (joined : ¬ asserted.ShellsApart)
    (said : Says source tokens (merged (asserted.entries.map Entry.word))) :
    checkShape (tokens.map Entry.ofToken) ≠ .ok () := by
  intro shape
  have whole := depthAfter_gain (checkShape_eq_ok.mp h.shape)
  have left := depthAfter_gain (checkShape_eq_ok.mp shape)
  have same : ((tokens.map Entry.ofToken).map Entry.gain).sum =
      gains (merged (asserted.entries.map Entry.word)) := by
    rw [gains, ← said.words, List.map_map, List.map_map]
    exact congrArg List.sum (List.map_congr_left fun token _ => ofToken_gain token)
  -- Both would come to one value, but merging has taken one away.
  have less := gains_merged_lt joined
  rw [gains_words h.entries] at whole
  omega

end Statement

/-! ## Whole suites -/

/-- No assertion of the statement has two shell commands in a row. -/
def Statement.ShellsApart : Statement → Prop
  | .assertion asserted => asserted.ShellsApart
  | .test .. | .bind .. | .field .. | .header .. => True

section Suite

variable {source : String} {tokens : List Token} {statement : Statement}
  {statements : List Statement}

theorem merged_directive (d : Directive) (ws : List Word) :
    merged (d.word :: ws) = d.word :: merged ws :=
  joinFirst_eq_cons fun shell => nomatch shell

theorem merged_words_assertion (asserted : Assertion) :
    merged (Statement.assertion asserted).words =
      Directive.assertion.word ::
        (merged (asserted.entries.map Entry.word) ++ [⟨.assertEnd, ";"⟩]) := by
  have finish : ∀ v ∈ (merged [(⟨.assertEnd, ";"⟩ : Word)]).head?, v.kind ≠ .shellCommand := by
    intro v hv
    obtain rfl := Option.some.inj hv
    simp
  rw [Statement.words, Statement.parameters, merged_directive, merged_append finish]
  rfl

theorem merged_words (apart : statement.ShellsApart) : merged statement.words = statement.words := by
  have name : ∀ name, (nameWord name).kind ≠ .shellCommand := by
    intro name
    unfold nameWord
    split <;> simp
  cases statement with
  | assertion asserted =>
    rw [merged_words_assertion, merged_eq_self apart]
    rfl
  | test span text => exact merged_directive ..
  | field f value => exact merged_directive ..
  | bind level symbol value =>
    have first : joinFirst ⟨.symbol, symbol⟩ [value.word] = [⟨.symbol, symbol⟩, value.word] :=
      joinFirst_eq_cons fun shell => nomatch shell
    exact (merged_directive ..).trans (congrArg _ first)
  | header text value =>
    have first : joinFirst (nameWord text) [value.word] = [nameWord text, value.word] :=
      joinFirst_eq_cons fun shell => absurd shell (name text)
    exact (merged_directive ..).trans (congrArg _ first)

/-- The words of statements are merged statement by statement. -/
theorem merged_flatMap_words (statement : Statement) (statements : List Statement) :
    merged ((statement :: statements).flatMap Statement.words) =
      merged statement.words ++ merged (statements.flatMap Statement.words) := by
  rw [List.flatMap_cons]
  apply merged_append
  intro v hv
  cases statements with
  | nil => cases hv
  | cons next statements =>
    rw [List.flatMap_cons, Statement.words, List.cons_append] at hv
    obtain ⟨u, us, opens, kind⟩ := merged_opens next.directive.word
      (next.parameters ++ statements.flatMap Statement.words)
    rw [opens] at hv
    obtain rfl := Option.some.inj hv
    rw [kind]
    simp [Directive.word]

/-- The statements of a suite are read again from tokens that say their words. -/
theorem readFrom_merged (span : Span) (seen : List Statement)
    (h : ∀ statement ∈ statements, statement.From source)
    (apart : ∀ statement ∈ statements, statement.ShellsApart)
    (said : Says source tokens (merged (statements.flatMap Statement.words))) :
    ∃ again : List Statement, again.map Statement.lineless = statements.map Statement.lineless ∧
      Script.readFrom (.ok span) .directive seen tokens = ⟨seen.reverse ++ again, none⟩ := by
  induction statements generalizing tokens seen with
  | nil =>
    obtain rfl := said.nil_inv
    exact ⟨[], rfl, by rw [List.append_nil]; rfl⟩
  | cons statement statements ih =>
    obtain ⟨first, others⟩ := List.forall_mem_cons.mp h
    obtain ⟨apartFirst, apartOthers⟩ := List.forall_mem_cons.mp apart
    rw [merged_flatMap_words, merged_words apartFirst] at said
    obtain ⟨words, rest, rfl, saidFirst, saidOthers⟩ := said.append_inv
    obtain ⟨again, same, reads⟩ := reads_statement first saidFirst
    obtain ⟨more, same', whole⟩ := ih (again :: seen) others apartOthers saidOthers
    refine ⟨again :: more, by rw [List.map_cons, List.map_cons, same, same'], ?_⟩
    rw [readFrom_reads reads, List.reverse_singleton, List.singleton_append, whole,
      List.reverse_cons, List.append_assoc]
    rfl

/-- An assertion with shell commands in a row is not read again. -/
theorem readFrom_joined {stop : Except LexError Span} {asserted : Assertion} {rest : List Token}
    (seen : List Statement) (h : asserted.From source) (joined : ¬ asserted.ShellsApart)
    (said : Says source tokens (merged (Statement.assertion asserted).words)) :
    ∃ fault, (Script.readFrom stop .directive seen (tokens ++ rest)).fault = some fault := by
  rw [merged_words_assertion] at said
  obtain ⟨token, _, rfl, word, -, said⟩ := said.cons_inv
  obtain ⟨operands, finish, rfl, saidOperands, saidFinish⟩ := said.append_inv
  obtain ⟨last, _, rfl, ended, -, none⟩ := saidFinish.cons_inv
  obtain rfl := none.nil_inv
  have values : ∀ token ∈ operands, token.kind.isValue = true := by
    refine saidOperands.kinds (fun kind => kind.isValue = true) ?_
    intro w hw
    obtain ⟨v, hv, kind⟩ := kind_of_mem_merged hw
    obtain ⟨entry, he, rfl⟩ := List.mem_map.mp hv
    exact kind ▸ Entry.word_isValue (h.entries entry he)
  have gathered := reads_operands token.span [] values
  rw [List.append_nil] at gathered
  have shape : checkShape (operands.map Entry.ofToken).reverse.reverse ≠ .ok () := by
    rw [List.reverse_reverse]
    exact checkShape_merged h joined saidOperands
  obtain ⟨fault, failed⟩ :=
    step_finish_error token.span (congrArg Word.kind ended) shape
  have start := readFrom_reads (.more (step_directive_word word) gathered) stop seen (last :: rest)
  rw [List.cons_append, List.append_assoc, List.singleton_append, ← List.cons_append, start,
    Script.readFrom, failed]
  exact ⟨_, rfl⟩

theorem readFrom_merged_fault (stop : Except LexError Span) (seen : List Statement)
    (h : ∀ statement ∈ statements, statement.From source)
    (joined : ¬ ∀ statement ∈ statements, statement.ShellsApart)
    (said : Says source tokens (merged (statements.flatMap Statement.words))) :
    ∃ fault, (Script.readFrom stop .directive seen tokens).fault = some fault := by
  induction statements generalizing tokens seen with
  | nil => exact absurd (by simp) joined
  | cons statement statements ih =>
    obtain ⟨first, others⟩ := List.forall_mem_cons.mp h
    rw [merged_flatMap_words] at said
    obtain ⟨words, rest, rfl, saidFirst, saidOthers⟩ := said.append_inv
    by_cases apart : statement.ShellsApart
    · rw [merged_words apart] at saidFirst
      obtain ⟨again, -, reads⟩ := reads_statement first saidFirst
      rw [readFrom_reads reads]
      refine ih _ others (fun all => joined ?_) saidOthers
      exact List.forall_mem_cons.mpr ⟨apart, all⟩
    · cases statement with
      | assertion asserted => exact readFrom_joined seen first apart saidFirst
      | test | bind | field | header => exact absurd trivial apart

end Suite

end HttpSuite
