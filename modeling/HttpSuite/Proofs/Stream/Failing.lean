import HttpSuite.Proofs.Pulls.Accounts
import HttpSuite.Proofs.Stream.Pulling

/-!
# Sources that fail

A source that fails at some read never passes for a complete suite. As long as that read has not been
made, nothing depends on it or on what stands behind it. The pull that makes it finds an `unknown` token
with the text of the failure, whatever the bytes before it come to, and there the reading stops.

So every function that reads is looked at on bytes and what stands behind them: it gets by with the
bytes and does the same whatever is behind, or it comes to the failed read.

* `run_behind`, `Lexer.pull_behind`, `Suite.readOn_behind`: a run, by induction on the bytes; a pull;
  the reading of a suite, by induction on the bytes that are left, one pull at a time.
* `parseReads_failing`: which fault a source that fails has.
-/

namespace HttpSuite

/-! ## One pull -/

section Behind

variable (reason : String) (rest : List Read)

theorem takeBytes_sublist (n : Nat) (reads : List Read) :
    (takeBytes n reads).2.2.Sublist reads := by
  fun_induction takeBytes n reads with
  | case1 reads => exact .refl reads
  | case2 => exact .refl _
  | case3 => exact List.sublist_cons_self ..
  | case4 n b reads bytes failure rest eq ih =>
    rw [eq] at ih
    exact ih.cons _

theorem takeBytes_behind (n : Nat) (bytes : List UInt8) :
    (∃ (taken left : List UInt8), ∀ more, takeBytes n (bytes.map .byte ++ more) =
      (taken, none, left.map .byte ++ more)) ∨
    ∃ taken, takeBytes n (bytes.map .byte ++ .failed reason :: rest) = (taken, some reason, rest) := by
  induction n generalizing bytes with
  | zero => exact .inl ⟨[], bytes, fun more => by rw [takeBytes]⟩
  | succ n ih =>
    cases bytes with
    | nil => exact .inr ⟨[], rfl⟩
    | cons b bytes =>
      refine (ih bytes).imp ?_ ?_
      · rintro ⟨taken, left, eq⟩
        exact ⟨b :: taken, left, fun more => by
          rw [List.map_cons, List.cons_append, takeBytes, eq]⟩
      · rintro ⟨taken, eq⟩
        exact ⟨b :: taken, by rw [List.map_cons, List.cons_append, takeBytes, eq]⟩

theorem run_sublist (limit : Nat) (mode : Mode) (pos : Position) (failure : Option String)
    (reads : List Read) : (run limit mode pos failure reads).rest.Sublist reads := by
  fun_induction run limit mode pos failure reads with
  | case1 => exact .refl _
  | case2 _ _ _ _ _ ih => exact ih.cons _
  | case3 => exact List.sublist_cons_self ..
  | case4 => exact List.sublist_cons_self ..
  | case5 _ _ _ _ _ _ _ _ _ ih => exact ih.cons _
  | case6 => exact List.sublist_cons_self ..
  | case7 => exact .refl _
  | case8 mode pos failure b rest next _ inInteger _ bytes failed left eq =>
    have taken := takeBytes_sublist (charLength b - 1) rest
    rw [eq] at taken
    exact taken.cons _

theorem run_behind (limit : Nat) (mode : Mode) (pos : Position) (bytes : List UInt8) :
    (∃ (r : Run) (left : List UInt8), r.failure = none ∧ r.verdict.Lexeme ∧
      ∀ more, run limit mode pos none (bytes.map .byte ++ more) =
        { r with rest := left.map .byte ++ more }) ∨
    (run limit mode pos none (bytes.map .byte ++ .failed reason :: rest)).failure = some reason ∧
      (run limit mode pos none (bytes.map .byte ++ .failed reason :: rest)).rest.Sublist rest := by
  induction bytes generalizing mode pos with
  | nil =>
    right
    rw [List.map_nil, List.nil_append, run]
    split
    · -- A comment goes on past the failed read, but keeps the failure.
      exact ⟨run_failed .., run_sublist ..⟩
    · exact ⟨rfl, .refl rest⟩
  | cons b bytes ih =>
    simp only [List.map_cons, List.cons_append, run]
    by_cases long : limit < (pos.advance b).width
    · simp only [if_pos long]
      exact .inl ⟨⟨_, _, _, _, []⟩, bytes, rfl, Verdict.lexeme_error _, fun more => rfl⟩
    · simp only [if_neg long]
      have lexeme := mode.lexeme_step (pos.advance b).line b
      cases step : mode.step (pos.advance b).line b with
      | more mode => exact ih mode (pos.advance b)
      | closed verdict =>
        rw [step] at lexeme
        exact .inl ⟨⟨_, _, _, _, []⟩, bytes, rfl, lexeme, fun more => rfl⟩
      | ended verdict =>
        rw [step] at lexeme
        exact .inl ⟨⟨_, _, _, _, []⟩, b :: bytes, rfl, lexeme, fun more => rfl⟩
      | stray inInteger =>
        -- The other bytes of a stray character may be there, or run into the failed read.
        refine (takeBytes_behind reason rest (charLength b - 1) bytes).imp ?_ ?_
        · rintro ⟨taken, left, eq⟩
          exact ⟨⟨_, _, _, _, []⟩, left, rfl, Verdict.lexeme_error _, fun more => by
            simp only [eq]
            rfl⟩
        · rintro ⟨taken, eq⟩
          simp only [eq]
          exact ⟨rfl, .refl rest⟩

theorem skipMark_behind (bytes : List UInt8) :
    (∃ left : List UInt8, ∀ more, skipMark (bytes.map .byte ++ more) = (none, left.map .byte ++ more)) ∨
      skipMark (bytes.map .byte ++ .failed reason :: rest) = (some reason, bytes.map .byte ++ rest) := by
  match bytes with
  | [] => exact .inr rfl
  | [a] => exact .inr (by simp [skipMark])
  | [a, b] => exact .inr (by simp [skipMark])
  | a :: b :: c :: bytes =>
    left
    by_cases mark : a = 0xef ∧ b = 0xbb ∧ c = 0xbf
    · obtain ⟨rfl, rfl, rfl⟩ := mark
      exact ⟨bytes, fun more => rfl⟩
    · refine ⟨a :: b :: c :: bytes, fun more => ?_⟩
      simp only [List.map_cons, List.cons_append]
      unfold skipMark
      split <;> simp_all

/-- Fewer failed reads are left than there were. -/
theorem not_suffix {bytes : List UInt8} {left : List Read}
    (h : left.Sublist (bytes.map .byte ++ rest)) : ¬ .failed reason :: rest <:+ left := by
  intro suffix
  have counted := (suffix.sublist.trans h).count_le (.failed reason)
  have clean : (bytes.map Read.byte).count (.failed reason) = 0 := List.count_eq_zero.mpr (by simp)
  rw [List.count_append, clean, List.count_cons_self] at counted
  omega

namespace Lexer

/-- The lexer with other reads ahead of it. -/
def fed (lexer : Lexer) (reads : List Read) : Lexer := { lexer with rest := reads }

theorem start_behind (lexer : Lexer) (bytes : List UInt8) :
    (∃ left : List UInt8, ∀ more,
      (lexer.fed (bytes.map .byte ++ more)).start = (none, left.map .byte ++ more)) ∨
    (lexer.fed (bytes.map .byte ++ .failed reason :: rest)).start =
      (some reason, bytes.map .byte ++ rest) := by
  unfold start
  cases fresh : lexer.fresh with
  | true => simpa [fed, fresh] using skipMark_behind reason rest bytes
  | false => exact .inl ⟨bytes, fun more => by simp [fed, fresh]⟩

theorem next_behind (lexer : Lexer) (bytes : List UInt8) :
    (∃ (r : Run) (left : List UInt8), r.failure = none ∧ r.verdict.Lexeme ∧
      ∀ more, (lexer.fed (bytes.map .byte ++ more)).next = { r with rest := left.map .byte ++ more }) ∨
    (lexer.fed (bytes.map .byte ++ .failed reason :: rest)).next.failure = some reason ∧
      (lexer.fed (bytes.map .byte ++ .failed reason :: rest)).next.rest.Sublist
        (bytes.map .byte ++ rest) := by
  unfold next
  rcases lexer.start_behind reason rest bytes with ⟨unmarked, start⟩ | start
  · simp only [start]
    refine (run_behind reason rest lexer.limit .blank lexer.position unmarked).imp_right ?_
    exact fun ⟨failure, left⟩ => ⟨failure, left.trans (List.sublist_append_right ..)⟩
  · right
    rw [start]
    exact ⟨run_failed .., run_sublist ..⟩

/-- A pull gets by with the bytes, or it finds the failed read. -/
theorem pull_behind (lexer : Lexer) (bytes : List UInt8) :
    (∃ (found : Except LexError Token) (after : Lexer) (left : List UInt8),
      (∀ token, found = .ok token → token.kind ≠ .none) ∧ after.source = lexer.source ∧
      ∀ more, (lexer.fed (bytes.map .byte ++ more)).pull =
        (found, after.fed (left.map .byte ++ more))) ∨
    (∃ line, (lexer.fed (bytes.map .byte ++ .failed reason :: rest)).pull.1 =
        .ok ⟨.unknown, reason, ⟨lexer.source, line⟩⟩) ∧
      ¬ .failed reason :: rest <:+
        (lexer.fed (bytes.map .byte ++ .failed reason :: rest)).pull.2.rest := by
  unfold pull
  rcases lexer.next_behind reason rest bytes with ⟨r, left, intact, lexeme, next⟩ | ⟨failure, left⟩
  · left
    refine ⟨lexer.found r, { lexer with position := r.position, fresh := false }, left, ?_, rfl,
      fun more => ?_⟩
    · intro token found
      rw [Lexer.found, intact] at found
      cases verdict : r.verdict with
      | error cause =>
        rw [verdict] at found
        cases found
      | ok lexed =>
        obtain ⟨kind, text⟩ := lexed
        rw [verdict] at found
        cases found
        rintro rfl
        exact lexeme text verdict
    · rw [next]
      rfl
  · right
    refine ⟨⟨(lexer.fed (bytes.map .byte ++ .failed reason :: rest)).next.position.line, ?_⟩,
      not_suffix reason rest left⟩
    simp only [found, failure]
    rfl

end Lexer

/-! ## Whole sources -/

/-- The reading of a suite is stopped by a fault that is in the bytes, or by the failed read behind
them. -/
theorem Suite.readOn_behind (suite : Suite) (e : Expecting) (line : Nat) (lexer : Lexer)
    (bytes : List UInt8) :
    (∃ (last : Suite) (error : Error) (left : List UInt8), ∀ more,
      suite.readOn e line ⟨lexer.fed (bytes.map .byte ++ more), false⟩ =
        ⟨last, some error, left.map .byte ++ more⟩) ∨
    (∃ line', (suite.readOn e line
        ⟨lexer.fed (bytes.map .byte ++ .failed reason :: rest), false⟩).fault =
        some (.parse ⟨.streamError reason, ⟨lexer.source, line'⟩⟩)) ∧
      ¬ .failed reason :: rest <:+ (suite.readOn e line
        ⟨lexer.fed (bytes.map .byte ++ .failed reason :: rest), false⟩).rest := by
  simp only [suite.readOn_pull e line]
  rcases lexer.pull_behind reason rest bytes with
    ⟨found, after, left, lexeme, source, pull⟩ | ⟨⟨line', found⟩, left⟩
  · simp only [pull]
    cases found with
    | error fault => exact .inl ⟨suite, .lex fault, left, fun more => rfl⟩
    | ok token =>
      have notEnd := lexeme token rfl
      simp only [if_neg notEnd]
      cases read : suite.readToken e token with
      | error fault => exact .inl ⟨suite, .parse fault, left, fun more => rfl⟩
      | ok result =>
        have shorter : left.length < bytes.length := by
          have progress := (lexer.fed (bytes.map .byte ++ [])).pull_progress (by rw [pull]; exact lexeme)
          rw [pull] at progress
          simpa [Lexer.fed] using progress
        exact source ▸ readOn_behind result.2 result.1 token.span.line after left
  · right
    rw [found]
    simp only [readToken_unknown]
    exact ⟨⟨line', rfl⟩, left⟩
termination_by bytes.length

end Behind

/-- No read fails, or there is a first one that does. -/
theorem bytes_or_failed (reads : List Read) :
    (∃ bytes : List UInt8, reads = bytes.map .byte) ∨
      ∃ (bytes : List UInt8) (reason : String) (rest : List Read),
        reads = bytes.map .byte ++ .failed reason :: rest := by
  induction reads with
  | nil => exact .inl ⟨[], rfl⟩
  | cons read reads ih =>
    cases read with
    | failed reason => exact .inr ⟨[], reason, reads, rfl⟩
    | byte b =>
      refine ih.imp ?_ ?_
      · rintro ⟨bytes, rfl⟩
        exact ⟨b :: bytes, rfl⟩
      · rintro ⟨bytes, reason, rest, rfl⟩
        exact ⟨b :: bytes, reason, rest, rfl⟩

namespace Arena

variable {a : Arena} {scope : ScopeId} {reads : List Read} {source : String} {options : Options}

theorem parseReads_of_fault {error : Error}
    (h : (a.reading scope reads source options).fault = some error) :
    a.parseReads scope reads source options = (.error error, a) := by
  have failed : (a.parseReads scope reads source options).1 = .error error := by
    rw [parseReads_eq, Stopped.result, h]
  exact Prod.ext failed (parse_error (Prod.ext failed rfl))

/-- A failed read stops the reading, or a fault in the bytes before it does, which is met whatever is
read behind them. -/
theorem reading_behind (bytes : List UInt8) (reason : String) (rest : List Read)
    (split : reads = bytes.map .byte ++ .failed reason :: rest) :
    (∃ error, .failed reason :: rest <:+ (a.reading scope reads source options).rest ∧
      ∀ more, (a.reading scope (bytes.map .byte ++ more) source options).fault = some error) ∨
    ∃ line, ¬ .failed reason :: rest <:+ (a.reading scope reads source options).rest ∧
      (a.reading scope reads source options).fault =
        some (.parse ⟨.streamError reason, ⟨source, line⟩⟩) := by
  subst split
  rcases (Suite.start a scope source options).readOn_behind reason rest .directive 0
      { source, rest := [], limit := options.lineLimit } bytes with
    ⟨last, error, left, read⟩ | ⟨⟨line, fault⟩, made⟩
  · have same (more : List Read) : a.reading scope (bytes.map .byte ++ more) source options =
        ⟨last, some error, left.map .byte ++ more⟩ := read more
    refine .inl ⟨error, ?_, fun more => congrArg Stopped.fault (same more)⟩
    rw [same]
    exact List.suffix_append ..
  · exact .inr ⟨line, made, fault⟩

/-- A source with a failed read is refused, and leaves nothing in the arena. The fault is that of its
first failed read, unless that read has not been made where the reading stops: then the fault is in the
bytes before it, and the same whatever is read behind them. So no read of a source that is accepted has
failed. -/
theorem parseReads_failing (a : Arena) (scope : ScopeId) (reads : List Read) (source : String)
    (options : Options) :
    let stopped := a.reading scope reads source options
    let result := a.parseReads scope reads source options
    result = stopped.result a ∧
      (∀ (bytes : List UInt8) (reason : String) (rest : List Read),
        reads = bytes.map .byte ++ .failed reason :: rest →
          (∃ error, result = (.error error, a)) ∧
          (¬ .failed reason :: rest <:+ stopped.rest →
            ∃ line, result.1 = .error (.parse ⟨.streamError reason, ⟨source, line⟩⟩)) ∧
          (.failed reason :: rest <:+ stopped.rest →
            ∃ error, result.1 = .error error ∧ ∀ more,
              (a.parseReads scope (bytes.map .byte ++ more) source options).1 = .error error)) ∧
      ∀ records, result.1 = .ok records → ∃ bytes : List UInt8, reads = bytes.map .byte := by
  intro stopped result
  refine ⟨parseReads_eq a scope reads source options, fun bytes reason rest split => ?_,
    fun records ok => ?_⟩
  · rcases reading_behind (a := a) bytes reason rest split with
      ⟨error, unmade, fault⟩ | ⟨line, made, fault⟩
    · -- The fault is in the bytes, whatever is read behind them.
      have refused (more : List Read) :
          a.parseReads scope (bytes.map .byte ++ more) source options = (.error error, a) :=
        parseReads_of_fault (fault more)
      have whole : result = (.error error, a) := by
        rw [← refused (.failed reason :: rest), ← split]
      exact ⟨⟨error, whole⟩, fun made => absurd unmade made,
        fun _ => ⟨error, congrArg Prod.fst whole, fun more => congrArg Prod.fst (refused more)⟩⟩
    · have refused : result = _ := parseReads_of_fault fault
      exact ⟨⟨_, refused⟩, fun _ => ⟨line, congrArg Prod.fst refused⟩,
        fun unmade => absurd unmade made⟩
  · rcases bytes_or_failed reads with clean | ⟨bytes, reason, rest, split⟩
    · exact clean
    · -- Wherever the first failed read stands, there is a fault.
      obtain ⟨error, fault⟩ : ∃ error, stopped.fault = some error := by
        rcases reading_behind (a := a) bytes reason rest split with ⟨error, -, fault⟩ | ⟨line, -, fault⟩
        · refine ⟨error, ?_⟩
          rw [← fault (.failed reason :: rest), ← split]
        · exact ⟨_, fault⟩
      have refused : result = _ := parseReads_of_fault fault
      rw [refused] at ok
      cases ok

/-- A source that fails within a statement, and one that fails behind a second test of the same name. -/
theorem parseReads_failing_cut :
    (∃ line, (empty.parseReads 0 (Read.ofText ".test a .method " ++ [.failed "gone"]) "in" {}).1 =
        .error (.parse ⟨.streamError "gone", ⟨"in", line⟩⟩)) ∧
      ∀ more, (empty.parseReads 0 (Read.ofText ".test a .test a " ++ more) "in" {}).1 =
        .error (.parse ⟨.duplicateTestName "a" ⟨"in", 1⟩, ⟨"in", 1⟩⟩) := by
  have cut (text : String) := (parseReads_failing empty 0 (Read.ofText text ++ [.failed "gone"]) "in"
    {}).2.1 text.toByteArray.data.toList "gone" [] rfl
  constructor
  · have left : (empty.reading 0 (Read.ofText ".test a .method " ++ [.failed "gone"]) "in" {}).rest =
        [] := by decide +kernel
    exact (cut ".test a .method ").2.1 (by simp [left])
  · have left : (empty.reading 0 (Read.ofText ".test a .test a " ++ [.failed "gone"]) "in" {}).rest =
        [.byte 32, .failed "gone"] := by decide +kernel
    obtain ⟨error, refused, same⟩ := (cut ".test a .test a ").2.2 (by simp [left])
    have twice : (empty.parseReads 0 (Read.ofText ".test a .test a " ++ [.failed "gone"]) "in" {}).1 =
        .error (.parse ⟨.duplicateTestName "a" ⟨"in", 1⟩, ⟨"in", 1⟩⟩) := by decide +kernel
    rw [twice] at refused
    cases refused
    exact same

end Arena

end HttpSuite
