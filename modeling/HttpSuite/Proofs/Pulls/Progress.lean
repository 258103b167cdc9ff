import HttpSuite.Proofs.Lexing.Found
import HttpSuite.Proofs.Pulls.Accounts

/-!
# Pulls make progress

A pull looks ahead and leaves again what it does not need: up to three bytes where a byte order mark may
stand, one byte behind a lexeme. What it takes for good are bytes and failed reads from the front of
those ahead (`Consumed`), and unless it finds the end token there is at least one of them.

* `run_consumed`, `Lexer.next_consumed`: what a run and a pull take, and which failure they keep.
* `Lexer.pull_consumes`: what a pull finds, by what it takes.
* `Lexer.pulls_progress`: so for all pulls from a lexer, and how many there are before the end token.
-/

namespace HttpSuite

/-! ## Reads that are taken -/

/-- The byte that a read brings. -/
def Read.byte? : Read → Option UInt8
  | byte b => some b
  | failed _ => none

/-- The failure of a read. -/
def Read.failure? : Read → Option String
  | byte _ => none
  | failed reason => some reason

/-- The bytes that the reads bring. -/
def bytesIn (reads : List Read) : List UInt8 := reads.filterMap Read.byte?

/-- The failures of the reads. -/
def failuresIn (reads : List Read) : List String := reads.filterMap Read.failure?

theorem length_bytesIn_add_failuresIn (reads : List Read) :
    (bytesIn reads).length + (failuresIn reads).length = reads.length := by
  induction reads with
  | nil => rfl
  | cons read reads ih =>
    rw [List.length_cons, ← ih]
    cases read with
    | byte b => exact Nat.add_right_comm ..
    | failed reason => rfl

/-- Of the reads `before`, the bytes `taken` and the failures `failed` have been taken for good, and the
reads `after` are left. -/
structure Consumed (before after : List Read) (taken : List UInt8) (failed : List String) : Prop where
  bytes : bytesIn before = taken ++ bytesIn after
  failures : failuresIn before = failed ++ failuresIn after

namespace Consumed

variable {before middle after : List Read} {taken taken' : List UInt8} {failed failed' : List String}

theorem refl (reads : List Read) : Consumed reads reads [] [] := ⟨rfl, rfl⟩

theorem cons_byte (h : Consumed before after taken failed) (b : UInt8) :
    Consumed (.byte b :: before) after (b :: taken) failed :=
  ⟨congrArg (b :: ·) h.bytes, h.failures⟩

theorem cons_failed (h : Consumed before after taken failed) (reason : String) :
    Consumed (.failed reason :: before) after taken (reason :: failed) :=
  ⟨h.bytes, congrArg (reason :: ·) h.failures⟩

theorem trans (first : Consumed before middle taken failed)
    (second : Consumed middle after taken' failed') :
    Consumed before after (taken ++ taken') (failed ++ failed') :=
  ⟨by rw [first.bytes, second.bytes, List.append_assoc],
    by rw [first.failures, second.failures, List.append_assoc]⟩

/-- Fewer reads are left only if one of them has been taken. -/
theorem ne_nil (h : Consumed before after taken failed) (fewer : after.length < before.length) :
    taken ≠ [] ∨ failed ≠ [] := by
  have all := length_bytesIn_add_failuresIn before
  have left := length_bytesIn_add_failuresIn after
  rw [h.bytes, h.failures, List.length_append, List.length_append] at all
  by_contra none
  obtain ⟨rfl, rfl⟩ := not_or.mp none |>.imp not_not.mp not_not.mp
  simp only [List.length_nil] at all
  omega

end Consumed

/-! ## One pull -/

theorem takeBytes_consumed (n : Nat) (reads : List Read) :
    Consumed reads (takeBytes n reads).2.2 (takeBytes n reads).1 (takeBytes n reads).2.1.toList := by
  fun_induction takeBytes n reads with
  | case1 reads => exact .refl reads
  | case2 => exact .refl []
  | case3 n reason reads => exact (Consumed.refl reads).cons_failed reason
  | case4 n b reads bytes failure rest eq ih =>
    rw [eq] at ih
    exact ih.cons_byte b

/-- A run keeps the failure it starts with, or the first one that it takes. -/
theorem run_consumed (limit : Nat) (mode : Mode) (pos : Position) (failure : Option String)
    (reads : List Read) :
    ∃ taken failed, Consumed reads (run limit mode pos failure reads).rest taken failed ∧
      (run limit mode pos failure reads).failure = failure.or failed.head? := by
  fun_induction run limit mode pos failure reads with
  | case1 => exact ⟨[], [], .refl [], by simp⟩
  | case2 pos failure reason rest _ ih =>
    obtain ⟨taken, failed, consumed, kept⟩ := ih
    exact ⟨taken, reason :: failed, consumed.cons_failed reason, by rw [kept]; cases failure <;> rfl⟩
  | case3 mode pos failure reason rest =>
    exact ⟨[], [reason], (Consumed.refl rest).cons_failed reason, by cases failure <;> rfl⟩
  | case4 mode pos failure b rest =>
    exact ⟨[b], [], (Consumed.refl rest).cons_byte b, by simp⟩
  | case5 mode pos failure b rest next _ _ _ ih =>
    obtain ⟨taken, failed, consumed, kept⟩ := ih
    exact ⟨b :: taken, failed, consumed.cons_byte b, kept⟩
  | case6 mode pos failure b rest =>
    exact ⟨[b], [], (Consumed.refl rest).cons_byte b, by simp⟩
  | case7 mode pos failure b rest => exact ⟨[], [], .refl _, by simp⟩
  | case8 mode pos failure b rest next _ inInteger _ bytes failed left eq =>
    have late := takeBytes_consumed (charLength b - 1) rest
    rw [eq] at late
    exact ⟨b :: bytes, failed.toList, late.cons_byte b, by cases failure <;> cases failed <;> rfl⟩

/-- Only a whole byte order mark is taken, or a read that fails where one may stand. -/
theorem skipMark_consumed (reads : List Read) :
    ∃ taken failed, Consumed reads (skipMark reads).2 taken failed ∧
      (skipMark reads).1 = failed.head? := by
  unfold skipMark
  split
  · exact ⟨[0xef, 0xbb, 0xbf], [], ⟨rfl, rfl⟩, rfl⟩
  · next reason rest => exact ⟨[], [reason], ⟨rfl, rfl⟩, rfl⟩
  · next first reason rest notFirst =>
    cases first with
    | failed other => exact (notFirst other rfl).elim
    | byte a => exact ⟨[], [reason], ⟨rfl, rfl⟩, rfl⟩
  · next first second reason rest notFirst notSecond =>
    cases first with
    | failed other => exact (notFirst other rfl).elim
    | byte a =>
      cases second with
      | failed other => exact (notSecond other rfl).elim
      | byte b => exact ⟨[], [reason], ⟨rfl, rfl⟩, rfl⟩
  · exact ⟨[], [], .refl _, rfl⟩

/-- The end token. -/
def EndFound (found : Except LexError Token) : Prop :=
  ∃ token, found = .ok token ∧ token.kind = .none

/-- A token for a failed read. -/
def FailureFound (found : Except LexError Token) (reason : String) : Prop :=
  ∃ token, found = .ok token ∧ token.kind = .unknown ∧ token.text = reason

namespace Lexer

variable {lexer : Lexer}

theorem next_consumed (lexer : Lexer) :
    ∃ taken failed, Consumed lexer.rest lexer.next.rest taken failed ∧
      lexer.next.failure = failed.head? := by
  have start : ∃ taken failed, Consumed lexer.rest lexer.start.2 taken failed ∧
      lexer.start.1 = failed.head? := by
    unfold start
    split
    · exact skipMark_consumed lexer.rest
    · exact ⟨[], [], .refl _, rfl⟩
  obtain ⟨marked, failed, first, failure⟩ := start
  obtain ⟨taken, failed', second, kept⟩ :=
    run_consumed lexer.limit .blank lexer.position lexer.start.1 lexer.start.2
  refine ⟨marked ++ taken, failed ++ failed', first.trans second, ?_⟩
  rw [List.head?_append, ← failure]
  exact kept

/-- Once a read has failed, the token says so, whatever the bytes before it come to. -/
theorem failureFound_pull {reason : String} :
    FailureFound lexer.pull.1 reason ↔ lexer.next.failure = some reason := by
  have sound : lexer.next.verdict.Sound := run_sound .blank trivial _ _ _
  simp only [FailureFound, pull, found]
  split
  · next other _ failure =>
    rw [failure]
    constructor
    · rintro ⟨token, found, -, rfl⟩
      cases found
      rfl
    · rintro h
      cases h
      exact ⟨_, rfl, rfl, rfl⟩
  · next kind text failure verdict =>
    have known : kind ≠ .unknown := by
      rintro rfl
      exact (sound .unknown text verdict).elim (fun eq => by cases eq) id
    simp [failure, known]
  · next failure _ => simp [failure]

theorem endFound_pull :
    EndFound lexer.pull.1 ↔
      lexer.next.failure = none ∧ ∃ text, lexer.next.verdict = .ok (.none, text) := by
  simp only [EndFound, pull, found]
  split
  · next failure => simp [failure]
  · next kind text failure verdict => simp [failure, verdict]
  · next failure verdict => simp [failure, verdict]

theorem fewer_of_not_endFound (h : ¬ EndFound lexer.pull.1) :
    lexer.pull.2.rest.length < lexer.rest.length :=
  pull_progress fun token found kind => h ⟨token, found, kind⟩

/-- What a pull finds, by what it takes for good. Without the end token it takes something; it finds a
failure if it takes a failed read, and then the first one; and at the end nothing is left. -/
theorem pull_consumes (lexer : Lexer) :
    ∃ taken failed, Consumed lexer.rest lexer.pull.2.rest taken failed ∧
      (¬ EndFound lexer.pull.1 → taken ≠ [] ∨ failed ≠ []) ∧
      (∀ reason, FailureFound lexer.pull.1 reason ↔ failed.head? = some reason) ∧
      (EndFound lexer.pull.1 → lexer.pull.2.rest = []) := by
  obtain ⟨taken, failed, consumed, failure⟩ := lexer.next_consumed
  refine ⟨taken, failed, consumed, fun notEnd => ?_, fun reason => ?_, fun ended => ?_⟩
  · exact consumed.ne_nil (fewer_of_not_endFound notEnd)
  · rw [failureFound_pull, failure]
  · obtain ⟨intact, text, verdict⟩ := endFound_pull.mp ended
    have start : lexer.start.1 = none := by
      cases start : lexer.start.1 with
      | none => rfl
      | some reason =>
        rw [next, start, run_failed] at intact
        cases intact
    rw [next, start] at intact verdict
    show lexer.next.rest = []
    rw [next, start]
    exact run_end intact verdict

/-! ## All pulls -/

/-- The end token is found where nothing is left. -/
theorem endFound_of_rest (h : lexer.rest = []) : EndFound lexer.pull.1 := by
  by_contra notEnd
  have fewer := fewer_of_not_endFound notEnd
  rw [h] at fewer
  exact absurd fewer (Nat.not_lt_zero _)

/-- As long as no end token is found, every pull leaves a read less. -/
theorem endFound_or_fewer (lexer : Lexer) (n : Nat) :
    (∃ m < n, EndFound (lexer.pulled m).pull.1) ∨
      (lexer.pulled n).rest.length + n ≤ lexer.rest.length := by
  induction n with
  | zero => exact .inr le_rfl
  | succ n ih =>
    by_cases ended : EndFound (lexer.pulled n).pull.1
    · exact .inl ⟨n, Nat.lt_succ_self n, ended⟩
    · refine ih.imp (fun ⟨m, before, found⟩ => ⟨m, Nat.lt_succ_of_lt before, found⟩) fun within => ?_
      have fewer := fewer_of_not_endFound ended
      have same : lexer.pulled (n + 1) = (lexer.pulled n).pull.2 := rfl
      rw [same]
      omega

/-- Every pull from a lexer takes at least one byte or one failed read for good, unless it finds the end
token. It finds a token for a failed read if it takes one, with the failure that it takes first, and it
finds the end token only when nothing is left; from then on every pull does. So the end token is found
after no more pulls than there are bytes and failed reads. -/
theorem pulls_progress (lexer : Lexer) :
    (∀ n, ∃ taken failed,
      Consumed (lexer.pulled n).rest (lexer.pulled (n + 1)).rest taken failed ∧
      (¬ EndFound (lexer.pulled n).pull.1 → taken ≠ [] ∨ failed ≠ []) ∧
      (∀ reason, FailureFound (lexer.pulled n).pull.1 reason ↔ failed.head? = some reason) ∧
      (EndFound (lexer.pulled n).pull.1 → (lexer.pulled (n + 1)).rest = [])) ∧
    (∀ n, EndFound (lexer.pulled n).pull.1 → ∀ m, n ≤ m → EndFound (lexer.pulled m).pull.1) ∧
    ∃ n ≤ (bytesIn lexer.rest).length + (failuresIn lexer.rest).length,
      EndFound (lexer.pulled n).pull.1 := by
  refine ⟨fun n => (lexer.pulled n).pull_consumes, fun n ended m later => ?_, ?_⟩
  · induction m, later using Nat.le_induction with
    | base => exact ended
    | succ m _ ih =>
      obtain ⟨_, _, -, -, -, exhausted⟩ := (lexer.pulled m).pull_consumes
      exact endFound_of_rest (exhausted ih)
  · rw [length_bytesIn_add_failuresIn]
    obtain ⟨n, within, ended⟩ | within := lexer.endFound_or_fewer (lexer.rest.length + 1)
    · exact ⟨n, Nat.le_of_lt_succ within, ended⟩
    · omega

end Lexer

end HttpSuite
