import HttpSuite.Proofs.Reformat.Reread
import Mathlib.Data.List.SplitBy

/-!
# Tokens that are written and read again

Value tokens that are written one after the other, with a space between two, are read back with the
kinds and texts that they had. Only shell commands in a row are read as one, with their texts joined;
strings stand in single quotes and never merge.

* `spells_printed`: what is written spells the words of the tokens.
* `shellRuns_uniform`, `shellRuns_apart`: the tokens in runs, each as long as possible.
* `merged_runs`: merging words is joining every run, by induction on the runs.
* `tokens_printed`: the tokens that are read back.
-/

namespace HttpSuite

open Word

/-! ## Writing -/

/-- Tokens as they are written, with a space between two. -/
def printed (tokens : List Token) : String :=
  " ".intercalate (tokens.map Token.canonical)

/-- The token can stand as a value and is as a lexer reads it. -/
def Token.Printable (token : Token) : Prop :=
  token.kind.isValue = true ∧ token.word.Lexical

theorem printed_toList {token : Token} {tokens : List Token}
    (h : ∀ other ∈ token :: tokens, other.Printable) :
    (printed (token :: tokens)).toList =
      token.word.spelling ++ spaced (tokens.map Token.word) := by
  induction tokens generalizing token with
  | nil => simp [printed, spaced, canonical_toList (h token List.mem_cons_self).1]
  | cons next tokens ih =>
    obtain ⟨first, others⟩ := List.forall_mem_cons.mp h
    have later := ih others
    have space : (" " : String).toList = [' '] := rfl
    simp only [printed, List.map_cons, String.intercalate_cons_cons, String.toList_append, space,
      canonical_toList first.1] at later ⊢
    rw [later]
    simp [spaced]

/-- What is written spells the words of the tokens. -/
theorem spells_printed {tokens : List Token} (h : ∀ token ∈ tokens, token.Printable) :
    Spells (printed tokens).toList (tokens.map Token.word) := by
  cases tokens with
  | nil => exact .nil
  | cons token tokens =>
    obtain ⟨first, others⟩ := List.forall_mem_cons.mp h
    have words : ∀ w ∈ tokens.map Token.word, w.Lexical := by
      intro w hw
      obtain ⟨other, mem, rfl⟩ := List.mem_map.mp hw
      exact (others other mem).2
    have spells := spells_spaced first.2 words .nil (fun c hc => nomatch hc)
    rw [printed_toList h]
    simpa using spells

/-! ## Runs -/

/-- The token is a shell command. -/
def Token.IsShell (token : Token) : Prop := token.kind = .shellCommand

instance (token : Token) : Decidable token.IsShell := inferInstanceAs (Decidable (_ = _))

/-- The tokens in runs: shell commands in a row are one run, and any other token is one of its own. -/
def shellRuns (tokens : List Token) : List (List Token) :=
  tokens.splitBy fun first second => first.IsShell ∧ second.IsShell

/-- What a run is read as: one word of the same kind, with all texts in a row. -/
def runWord (run : List Token) : Word :=
  ⟨(run.map (·.kind)).headD .none, String.join (run.map (·.text))⟩

/-- The run is a single token that is no shell command, or shell commands only. -/
def Uniform (run : List Token) : Prop :=
  (∃ token, run = [token] ∧ ¬ token.IsShell) ∨ (run ≠ [] ∧ ∀ token ∈ run, token.IsShell)

/-- Not both runs are shell commands. -/
def RunsApart (first second : List Token) : Prop :=
  ¬ ((∀ token ∈ first, token.IsShell) ∧ ∀ token ∈ second, token.IsShell)

theorem isShell_of_chain {token next : Token} {rest : List Token}
    (chain : (token :: next :: rest).IsChain fun first second => first.IsShell ∧ second.IsShell) :
    ∀ other ∈ token :: next :: rest, other.IsShell := by
  induction rest generalizing token next with
  | nil =>
    obtain ⟨pair, -⟩ := List.isChain_cons_cons.mp chain
    simpa using pair
  | cons last rest ih =>
    obtain ⟨pair, later⟩ := List.isChain_cons_cons.mp chain
    exact List.forall_mem_cons.mpr ⟨pair.1, ih later⟩

theorem shellRuns_uniform (tokens : List Token) : ∀ run ∈ shellRuns tokens, Uniform run := by
  intro run mem
  have chain := List.isChain_of_mem_splitBy mem
  simp only [decide_eq_true_eq] at chain
  match run, List.ne_nil_of_mem_splitBy mem with
  | [token], _ =>
    by_cases shell : token.IsShell
    · exact .inr ⟨by simp, by simpa using shell⟩
    · exact .inl ⟨token, rfl, shell⟩
  | token :: next :: rest, _ => exact .inr ⟨by simp, isShell_of_chain chain⟩

theorem shellRuns_apart (tokens : List Token) : (shellRuns tokens).IsChain RunsApart := by
  refine (List.isChain_getLast_head_splitBy _ tokens).imp fun first second => ?_
  rintro ⟨notEmpty, notEmpty', apart⟩ ⟨shells, shells'⟩
  simp only [decide_eq_false_iff_not] at apart
  exact apart ⟨shells _ (List.getLast_mem notEmpty), shells' _ (List.head_mem notEmpty')⟩

theorem runWord_singleton (token : Token) : runWord [token] = token.word := by
  simp [runWord, Token.word]

/-- The words of shell commands in a row are read as one. -/
theorem merged_shells {run : List Token} (notEmpty : run ≠ [])
    (shells : ∀ token ∈ run, token.IsShell) : merged (run.map Token.word) = [runWord run] := by
  induction run with
  | nil => exact absurd rfl notEmpty
  | cons token rest ih =>
    obtain ⟨first, others⟩ := List.forall_mem_cons.mp shells
    cases rest with
    | nil => exact congrArg ([·]) (runWord_singleton token).symm
    | cons next rest =>
      have both : token.word.kind = .shellCommand ∧ (runWord (next :: rest)).kind = .shellCommand :=
        ⟨first, others next List.mem_cons_self⟩
      rw [List.map_cons, merged_cons, ih (by simp) others, joinFirst, if_pos both]
      simp [runWord, Token.word, first.symm]

/-- Merging the words of runs is joining every run. -/
theorem merged_runs {runs : List (List Token)} (uniform : ∀ run ∈ runs, Uniform run)
    (apart : runs.IsChain RunsApart) :
    merged (runs.flatten.map Token.word) = runs.map runWord := by
  induction runs with
  | nil => rfl
  | cons run runs ih =>
    obtain ⟨first, others⟩ := List.forall_mem_cons.mp uniform
    obtain ⟨next, later⟩ := List.isChain_cons.mp apart
    have joined := ih others later
    rw [List.flatten_cons, List.map_append, List.map_cons]
    rcases first with ⟨token, rfl, other⟩ | ⟨notEmpty, shells⟩
    · rw [List.map_singleton, List.singleton_append, merged_cons, joined, runWord_singleton]
      exact joinFirst_eq_cons fun shell => absurd shell other
    · have stops : ∀ w ∈ (merged (runs.flatten.map Token.word)).head?, w.kind ≠ .shellCommand := by
        rw [joined, List.head?_map]
        intro w hw
        obtain ⟨second, opens, rfl⟩ := Option.map_eq_some_iff.mp hw
        rcases others second (List.mem_of_head? opens) with ⟨token, rfl, other⟩ | ⟨-, shells'⟩
        · rwa [runWord_singleton]
        · exact absurd ⟨shells, shells'⟩ (next second opens)
      rw [merged_append stops, merged_shells notEmpty shells, joined, List.singleton_append]

/-! ## Reading again -/

theorem length_le_of_mem_splitOn {mark : UInt8} {bytes line : List UInt8}
    (h : line ∈ bytes.splitOn mark) : line.length ≤ bytes.length := by
  induction bytes generalizing line with
  | nil =>
    obtain rfl := List.mem_singleton.mp h
    exact Nat.le_refl _
  | cons b bytes ih =>
    obtain ⟨first, later, split⟩ := List.exists_cons_of_ne_nil (List.splitOn_ne_nil mark bytes)
    rw [List.splitOn_cons_eq_if_modifyHead, split] at h
    rw [split] at ih
    split at h
    · rcases List.mem_cons.mp h with rfl | h
      · exact Nat.zero_le _
      · exact Nat.le_succ_of_le (ih h)
    · rcases List.mem_cons.mp h with rfl | h
      · exact Nat.succ_le_succ (ih List.mem_cons_self)
      · exact Nat.le_succ_of_le (ih (List.mem_cons_of_mem first h))

/-- No line is longer than the whole text. -/
theorem linesWithin_size (text : String) : LinesWithin text.utf8ByteSize text :=
  fun _ mem => length_le_of_mem_splitOn mem

/-- Value tokens that are written with single spaces between them are read back in order, with the
same kinds and texts; only every run of shell commands, as long as possible, is read as one token.
This is so under every limit on the lines that the text keeps, such as its own size. -/
theorem tokens_printed (source : String) {tokens : List Token}
    (printable : ∀ token ∈ tokens, token.Printable) :
    let text := printed tokens
    let runs := shellRuns tokens
    (∀ limit, LinesWithin limit text → ∃ read,
      ({ source, rest := Read.ofText text, limit } : Lexer).tokens = (read, none) ∧
        read.map Token.word = runs.map runWord) ∧
      LinesWithin text.utf8ByteSize text ∧
      (LinesWithin defaultLineLimit text → ∃ read, tokenize text source = .ok read ∧
        read.map Token.word = runs.map runWord) ∧
      runs.flatten = tokens ∧ (∀ run ∈ runs, Uniform run) ∧ runs.IsChain RunsApart := by
  intro text runs
  have joined : merged (tokens.map Token.word) = runs.map runWord := by
    have whole := merged_runs (shellRuns_uniform tokens) (shellRuns_apart tokens)
    rwa [shellRuns, List.flatten_splitBy] at whole
  have again (limit : Nat) (within : LinesWithin limit text) : ∃ read,
      ({ source, rest := Read.ofText text, limit } : Lexer).tokens = (read, none) ∧
        read.map Token.word = runs.map runWord := by
    obtain ⟨clean, words⟩ := Lexer.tokens_of_spells
      { source, rest := Read.ofText text, limit } (spells_printed printable) (ofText_eq text)
      (Position.fits_of_linesWithin within)
    exact ⟨_, Prod.ext rfl clean, words.trans joined⟩
  refine ⟨again, linesWithin_size text, fun within => ?_, List.flatten_splitBy ..,
    shellRuns_uniform tokens, shellRuns_apart tokens⟩
  obtain ⟨read, lexed, words⟩ := again defaultLineLimit within
  refine ⟨read, ?_, words⟩
  rw [tokenize, lexed]

/-- Strings with every character that is escaped, and shell commands in a row and alone. -/
def sampleTokens : List Token :=
  [(.string, "it's\\"), (.shellCommand, "date"), (.shellCommand, "`\n"), (.shellCommand, "-u"),
    (.symbol, "X"), (.string, "é"), (.shellCommand, ""), (.integer, "0x1F")].map
    fun (kind, text) => ⟨kind, text, ⟨"in", 1⟩⟩

theorem tokens_printed_sampleTokens :
    (∀ token ∈ sampleTokens, token.Printable) ∧ ∃ read,
      ({ source := "in", rest := Read.ofText (printed sampleTokens), limit := 60 } : Lexer).tokens =
          (read, none) ∧
        read.map Token.word = [⟨.string, "it's\\"⟩, ⟨.shellCommand, "date`\n-u"⟩, ⟨.symbol, "X"⟩,
          ⟨.string, "é"⟩, ⟨.shellCommand, ""⟩, ⟨.integer, "0x1F"⟩] := by
  have integer : IsInteger ['0', 'x', '1', 'F'] :=
    .hexadecimal (.inl rfl) (by simp) (by simp [Radix.isDigit])
  have printable : ∀ token ∈ sampleTokens, token.Printable := by
    simp only [sampleTokens, List.map_cons, List.map_nil, List.forall_mem_cons]
    exact ⟨⟨rfl, trivial⟩, ⟨rfl, trivial⟩, ⟨rfl, trivial⟩, ⟨rfl, trivial⟩, ⟨rfl, rfl⟩, ⟨rfl, trivial⟩,
      ⟨rfl, trivial⟩, ⟨rfl, integer⟩, by simp⟩
  have within : LinesWithin 60 (printed sampleTokens) := by
    decide
  exact ⟨printable, (tokens_printed "in" printable).1 60 within⟩

end HttpSuite
