import HttpSuite.Proofs.Directives.Acceptance
import HttpSuite.Proofs.Lexing.Found
import HttpSuite.Proofs.Rollback

/-!
# Reading a suite token by token

A source need not be lexed to its end before it is read. `Suite.readOn` pulls one token at a time and
applies a statement as soon as it is complete, so the first fault stops it, of whatever stage, and no
read is made behind that. Reading all tokens first comes to the same suite and the same fault.

* `readOn_eq`: by induction on the reads that are left, one pull at a time.
* `parseReads_eq`: a source that is read token by token.
* `parseText_lexed`: a text against its tokens, with and without a fault of the lexer.
-/

namespace HttpSuite

/-! ## One token at a time -/

/-- The effect of a token on a suite: what is waited for next, and the suite after the statement that
the token completes, if it does. -/
def Suite.readToken (suite : Suite) (expecting : Expecting) (token : Token) :
    Except ParseError (Expecting × Suite) :=
  match expecting.step token with
  | .error fault => .error fault
  | .ok (next, none) => .ok (next, suite)
  | .ok (next, some statement) => (suite.apply statement).map (next, ·)

/-- Where the reading of a suite has stopped: the suite so far, the fault if there was one, and the
reads that have not been made. -/
structure Stopped where
  suite : Suite
  fault : Option Error
  rest : List Read

/-- What has been read, or the first fault and the arena from before. -/
def Stopped.result (stopped : Stopped) (a : Arena) : Except Error (List TestRecord) × Arena :=
  match stopped.fault with
  | none => (.ok stopped.suite.records, stopped.suite.arena)
  | some error => (.error error, stopped.suite.arena.rollback stopped.suite.journal a.size)

namespace TokenStream

/-- An unfinished stream pulls from its lexer. -/
theorem next?_eq (lexer : Lexer) :
    (TokenStream.mk lexer false).next? =
      match lexer.pull.1 with
      | .error fault => (some (.error fault), ⟨lexer.pull.2, true⟩)
      | .ok token =>
        if token.kind = .none then (none, ⟨lexer.pull.2, true⟩)
        else (some (.ok token), ⟨lexer.pull.2, token.kind = .unknown⟩) := by
  rcases pulled : lexer.pull with ⟨_ | _, _⟩ <;> simp [next?, pulled]

/-- A stream that yields a token makes at least one read for it. -/
theorem next?_progress {stream : TokenStream} {token : Token}
    (h : stream.next?.1 = some (.ok token)) :
    stream.next?.2.lexer.rest.length < stream.lexer.rest.length := by
  rcases stream with ⟨lexer, _ | _⟩
  · rw [next?_eq] at h ⊢
    cases pulled : lexer.pull.1 with
    | error fault =>
      rw [pulled] at h
      cases h
    | ok found =>
      rw [pulled] at h
      dsimp only at h ⊢
      by_cases ended : found.kind = .none
      · rw [if_pos ended] at h
        cases h
      · rw [if_neg ended]
        refine Lexer.pull_progress fun other eq => ?_
        rw [pulled] at eq
        exact Except.ok.inj eq ▸ ended
  · cases h

end TokenStream

/-- Reads on from a stream; `line` is the line of the last token. -/
def Suite.readOn (suite : Suite) (expecting : Expecting) (line : Nat) (stream : TokenStream) :
    Stopped :=
  match _h : stream.next?.1 with
  | none =>
    ⟨suite, (expecting.atEnd ⟨stream.lexer.source, line⟩).map .parse, stream.next?.2.lexer.rest⟩
  | some (.error fault) => ⟨suite, some (.lex fault), stream.next?.2.lexer.rest⟩
  | some (.ok token) =>
    match suite.readToken expecting token with
    | .error fault => ⟨suite, some (.parse fault), stream.next?.2.lexer.rest⟩
    | .ok (expecting, suite) => suite.readOn expecting token.span.line stream.next?.2
termination_by stream.lexer.rest.length
decreasing_by exact TokenStream.next?_progress _h

/-- A failed read is a fault whatever is waited for. -/
theorem Suite.readToken_unknown {token : Token} (failed : token.kind = .unknown) (suite : Suite)
    (e : Expecting) :
    suite.readToken e token = .error ⟨.streamError token.text, token.span⟩ := by
  rw [readToken, Expecting.step, if_pos failed]

/-- Reading on from a lexer, by what its next pull finds. -/
theorem Suite.readOn_pull (suite : Suite) (e : Expecting) (line : Nat) (lexer : Lexer) :
    suite.readOn e line ⟨lexer, false⟩ =
      match lexer.pull.1 with
      | .error fault => ⟨suite, some (.lex fault), lexer.pull.2.rest⟩
      | .ok token =>
        if token.kind = .none then
          ⟨suite, (e.atEnd ⟨lexer.source, line⟩).map .parse, lexer.pull.2.rest⟩
        else
          match suite.readToken e token with
          | .error fault => ⟨suite, some (.parse fault), lexer.pull.2.rest⟩
          | .ok (e, suite) => suite.readOn e token.span.line ⟨lexer.pull.2, false⟩ := by
  have next := TokenStream.next?_eq lexer
  rw [readOn]
  cases pulled : lexer.pull.1 with
  | error fault => split <;> simp_all
  | ok token =>
    by_cases ended : token.kind = .none
    · split <;> simp_all
    · by_cases failed : token.kind = .unknown
      · split <;> simp_all [readToken_unknown]
      · split <;> simp_all

/-- The reading of a source, from its first read to where it stops. -/
def Arena.reading (a : Arena) (scope : ScopeId) (reads : List Read) (source : String)
    (options : Options) : Stopped :=
  (Suite.start a scope source options).readOn .directive 0
    ⟨{ source, rest := reads, limit := options.lineLimit }, false⟩

/-! ## All tokens at once -/

/-- A script over one more token. -/
theorem applyTo_readFrom_cons (stop : Except LexError Span) (suite : Suite) (e : Expecting)
    (token : Token) (tokens : List Token) :
    (Script.readFrom stop e [] (token :: tokens)).applyTo suite =
      match suite.readToken e token with
      | .error fault => (suite, some (.parse fault))
      | .ok (next, suite) => (Script.readFrom stop next [] tokens).applyTo suite := by
  rw [Script.readFrom, Suite.readToken]
  cases e.step token with
  | error fault => rfl
  | ok result =>
    obtain ⟨next, complete⟩ := result
    cases complete with
    | none => rfl
    | some statement =>
      dsimp only
      rw [readFrom_eq, Script.applyTo, List.reverse_singleton, List.singleton_append, Suite.applyAll]
      cases suite.apply statement <;> rfl

/-- Reading token by token stops where reading all tokens does, with the same suite and fault. -/
theorem Suite.readOn_eq (suite : Suite) (e : Expecting) (line : Nat) (lexer : Lexer) :
    ((suite.readOn e line ⟨lexer, false⟩).suite, (suite.readOn e line ⟨lexer, false⟩).fault) =
      (Script.readFrom (lexer.stop line) e [] lexer.tokens.1).applyTo suite := by
  rw [readOn_pull]
  cases pulled : lexer.pull.1 with
  | error fault =>
    rw [Lexer.stop, Lexer.tokens_eq, pulled]
    rfl
  | ok token =>
    dsimp only
    by_cases ended : token.kind = .none
    · -- The end: no more tokens, and a fault only if a statement is not complete.
      rw [if_pos ended, Lexer.stop, Lexer.tokens_eq, pulled]
      simp only [if_pos ended, Script.applyTo, Script.readFrom, Script.faultAt, List.reverse_nil,
        Suite.applyAll, Option.map_map]
      rfl
    rw [if_neg ended]
    by_cases failed : token.kind = .unknown
    · -- A failed read is the last of the tokens, and the parser refuses it.
      rw [Lexer.tokens_eq, pulled]
      simp only [if_neg ended, if_pos failed, applyTo_readFrom_cons, readToken_unknown failed]
    · rw [Lexer.stop_eq pulled ended failed, Lexer.tokens_eq, pulled]
      simp only [if_neg ended, if_neg failed, applyTo_readFrom_cons]
      cases suite.readToken e token with
      | error fault => rfl
      | ok result => exact readOn_eq result.2 result.1 token.span.line lexer.pull.2
termination_by lexer.rest.length
decreasing_by
  refine Lexer.pull_progress fun other eq => ?_
  rw [pulled] at eq
  exact Except.ok.inj eq ▸ ended

/-! ## Whole sources -/

namespace Arena

variable {a : Arena} {scope : ScopeId} {source : String} {options : Options}

theorem parseReads_eq (a : Arena) (scope : ScopeId) (reads : List Read) (source : String)
    (options : Options) :
    a.parseReads scope reads source options = (a.reading scope reads source options).result a := by
  have same := (Suite.start a scope source options).readOn_eq .directive 0
    { source, rest := reads, limit := options.lineLimit }
  rw [parseReads, parse, Feed.ofLexer_eq, Script.ofFeed, ← same, Stopped.result, reading]
  split <;> rename_i eq <;> obtain ⟨rfl, fault⟩ := Prod.mk.inj eq <;> rw [fault]

section Lexed

variable {tokens : List Token} {fault : LexError}

/-- A fault of the tokens alone comes before one of the lexer behind them, unless it is that of running
out. -/
theorem error_of_refused {error : Error} (notEnd : ∀ token ∈ tokens, token.kind ≠ .none)
    (refused : (a.parseTokens scope tokens source options).1 = .error error)
    (within : ¬ RunsOut options tokens) :
    (a.parse scope source options ⟨tokens, .error fault⟩).1 = .error error := by
  obtain ⟨span, feed⟩ := exists_feed source tokens
  rw [heard_eq_self notEnd] at feed
  rw [parseTokens, feed, parse_eq_error] at refused
  rw [parse_eq_error, ← tokens.append_nil]
  exact fault_append notEnd refused within (.error fault) []

/-- A fault of the lexer is that of the suite where the tokens before it are accepted or run out. -/
theorem error_of_left (notEnd : ∀ token ∈ tokens, token.kind ≠ .none)
    (left : (∃ records, (a.parseTokens scope tokens source options).1 = .ok records) ∨
      RunsOut options tokens) :
    (a.parse scope source options ⟨tokens, .error fault⟩).1 = .error (.lex fault) := by
  have behind {done rest : List Token} {statements : List Statement} {waiting : Expecting}
      (written : Written done statements) (accepts : options.Accepts statements)
      (begun : waiting.Begun rest) :
      (a.parse scope source options ⟨done ++ rest, .error fault⟩).1 = .error (.lex fault) := by
    rw [parse_eq_error, Script.ofFeed, applyTo_begun written accepts begun]
    rfl
  rcases left with accepted | ⟨done, rest, statements, waiting, rfl, written, accepts, begun, -⟩
  · obtain ⟨statements, written, accepts⟩ := (accepts_iff notEnd).mp accepted
    have whole := behind written accepts .directive
    rwa [List.append_nil] at whole
  · exact behind written accepts begun

end Lexed

/-- A text is read like its tokens, whether these are pulled one by one or are all there before. If
the lexer meets a fault behind them, that is the fault of the suite exactly where the tokens alone are
accepted or run out within a statement; any other fault of the tokens comes first. Neither leaves
anything in the arena. -/
theorem parseText_lexed (a : Arena) (scope : ScopeId) (text source : String) (options : Options) :
    let lexed := ({ source, rest := Read.ofText text, limit := options.lineLimit } : Lexer).tokens
    let whole := a.parseText scope text source options
    let tokens := a.parseTokens scope lexed.1 source options
    whole = (a.reading scope (Read.ofText text) source options).result a ∧
      (lexed.2 = none → whole = tokens) ∧
      ∀ fault, lexed.2 = some fault →
        whole.2 = a ∧
        (∀ error, tokens.1 = .error error → ¬ RunsOut options lexed.1 → whole.1 = .error error) ∧
        ((∃ records, tokens.1 = .ok records) ∨ RunsOut options lexed.1 →
          whole.1 = .error (.lex fault)) := by
  intro lexed whole tokens
  have notEnd : ∀ token ∈ lexed.1, token.kind ≠ .none :=
    fun token mem => (Lexer.tokens_found _ token mem).2.1
  refine ⟨parseReads_eq a scope _ source options, fun clean => ?_, fun fault failed => ?_⟩
  · exact congrArg (a.parse scope source options) (Feed.ofLexer_clean clean)
  · have eq : whole = a.parse scope source options ⟨lexed.1, .error fault⟩ :=
      congrArg (a.parse scope source options) (Feed.ofLexer_failed failed)
    rw [eq]
    refine ⟨?_, fun error => error_of_refused notEnd, error_of_left notEnd⟩
    -- One of the two faults is met, and no fault leaves anything.
    by_cases left : (∃ records, tokens.1 = .ok records) ∨ RunsOut options lexed.1
    · exact parse_error (Prod.ext (error_of_left notEnd left) rfl)
    · obtain ⟨accepted, within⟩ := not_or.mp left
      cases refused : tokens.1 with
      | ok records => exact absurd ⟨records, refused⟩ accepted
      | error error => exact parse_error (Prod.ext (error_of_refused notEnd refused within) rfl)

/-- The tokens of two texts up to a stray character: `.test a .test a` and `.test a .method`. -/
def strayTokens : List Token × List Token :=
  let test : List Token := [⟨.directive, ".test", ⟨"in", 1⟩⟩, ⟨.symbol, "a", ⟨"in", 1⟩⟩]
  (test ++ test, test ++ [⟨.directive, ".method", ⟨"in", 1⟩⟩])

/-- Behind a second test of the same name the stray character is never read; within a statement it is
the fault. -/
theorem parseText_lexed_strayTokens :
    (empty.parseText 0 ".test a .test a $" "in" {}).1 =
        .error (.parse ⟨.duplicateTestName "a" ⟨"in", 1⟩, ⟨"in", 1⟩⟩) ∧
      (empty.parseText 0 ".test a .method $" "in" {}).1 =
        .error (.lex ⟨.unexpectedCharacter '$', ⟨"in", 1⟩⟩) := by
  have stray (text : String) := parseText_lexed empty 0 text "in" {}
  constructor
  · have lexed : ({ source := "in", rest := Read.ofText ".test a .test a $" } : Lexer).tokens =
        (strayTokens.1, some ⟨.unexpectedCharacter '$', ⟨"in", 1⟩⟩) := by decide +kernel
    have refused : (empty.parseTokens 0 strayTokens.1 "in" {}).1 =
        .error (.parse ⟨.duplicateTestName "a" ⟨"in", 1⟩, ⟨"in", 1⟩⟩) := by decide +kernel
    refine ((stray ".test a .test a $").2.2 _ (congrArg Prod.snd lexed)).2.1 _
      (lexed ▸ refused) fun within => ?_
    have out : RunsOut {} strayTokens.1 := congrArg Prod.fst lexed ▸ within
    obtain ⟨span, waiting, fault, ends, other⟩ :=
      @error_of_runsOut empty 0 "in" {} strayTokens.1 (by decide) out
    rw [refused] at other
    cases other
    cases waiting <;> cases ends
  · have lexed : ({ source := "in", rest := Read.ofText ".test a .method $" } : Lexer).tokens =
        (strayTokens.2, some ⟨.unexpectedCharacter '$', ⟨"in", 1⟩⟩) := by decide +kernel
    refine ((stray ".test a .method $").2.2 _ (congrArg Prod.snd lexed)).2.2 (.inr ?_)
    have written : Written (strayTokens.2.take 2) [.test ⟨"in", 1⟩ "a"] :=
      .cons (.test rfl rfl) .nil
    exact lexed ▸ ⟨_, _, _, _, rfl, written, ⟨by decide, trivial⟩, .fieldValue (f := .method) rfl,
      by simp⟩

end Arena

end HttpSuite
