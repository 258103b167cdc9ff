import HttpSuite.Proofs.Lexing.Encoding

/-!
# Runs over bytes that fit their lines

`Position.Fits` says that no line grows over the limit while bytes are read. Under it a run does what
the modes say: it takes the bytes of a partial lexeme (`Partial.Reads`) one by one, and stops where
the lexeme is complete.

* `fits_of_linesWithin`: a text without a long line fits from its start.
* `run_reads`: a run over the bytes that a partial lexeme takes.
* `run_ended`, `run_closed`, `run_nil`: the three ways in which a lexeme is complete.
-/

namespace HttpSuite

/-- No line of the text has more than `limit` bytes. -/
def LinesWithin (limit : Nat) (text : String) : Prop :=
  ∀ line ∈ text.toByteArray.data.toList.splitOn '\n'.toUInt8, line.length ≤ limit

instance (limit : Nat) (text : String) : Decidable (LinesWithin limit text) :=
  inferInstanceAs (Decidable (∀ line ∈ _, _))

namespace Position

/-- The position after bytes. -/
def after (pos : Position) (bytes : List UInt8) : Position := bytes.foldl advance pos

/-- No line grows over the limit while the bytes are read from here. -/
def Fits (limit : Nat) (pos : Position) : List UInt8 → Prop
  | [] => True
  | b :: bytes => (pos.advance b).width ≤ limit ∧ (pos.advance b).Fits limit bytes

theorem after_append (pos : Position) (first second : List UInt8) :
    pos.after (first ++ second) = (pos.after first).after second :=
  List.foldl_append

theorem fits_append {limit : Nat} {pos : Position} {first second : List UInt8} :
    pos.Fits limit (first ++ second) ↔
      pos.Fits limit first ∧ (pos.after first).Fits limit second := by
  induction first generalizing pos with
  | nil => simp [Fits, after]
  | cons b first ih =>
    simp only [List.cons_append, Fits, ih, and_assoc]
    rfl

/-- The rest of the line that is being read, and every later line, have room. -/
theorem fits_of_splitOn {limit : Nat} {pos : Position} {bytes : List UInt8}
    (first : ∀ line ∈ (bytes.splitOn '\n'.toUInt8).head?, pos.width + line.length ≤ limit)
    (later : ∀ line ∈ (bytes.splitOn '\n'.toUInt8).tail, line.length ≤ limit) :
    pos.Fits limit bytes := by
  induction bytes generalizing pos with
  | nil => trivial
  | cons b bytes ih =>
    obtain ⟨line, lines, hl⟩ := List.exists_cons_of_ne_nil (List.splitOn_ne_nil '\n'.toUInt8 bytes)
    rw [List.splitOn_cons_eq_if_modifyHead, hl] at first later
    rw [hl] at ih
    by_cases hb : b = '\n'.toUInt8
    · simp only [hb, beq_self_eq_true, if_true, List.tail_cons, List.mem_cons,
        forall_eq_or_imp] at later
      have next : pos.advance b = ⟨pos.line + 1, 0⟩ := if_pos hb
      refine ⟨by rw [next]; exact Nat.zero_le _, ih ?_ later.2⟩
      rw [next]
      simpa using later.1
    · simp only [beq_iff_eq, hb, if_false, List.modifyHead_cons, List.head?_cons,
        Option.mem_some_iff, forall_eq', List.length_cons, List.tail_cons] at first later
      have next : pos.advance b = ⟨pos.line, pos.width + 1⟩ := if_neg hb
      refine ⟨by rw [next]; simp only; omega, ih ?_ later⟩
      rw [next]
      simp only [List.head?_cons, Option.mem_some_iff, forall_eq']
      omega

theorem fits_of_linesWithin {limit : Nat} {text : String} (h : LinesWithin limit text) :
    ({} : Position).Fits limit (bytesOf text.toList) := by
  rw [LinesWithin, data_toByteArray] at h
  refine fits_of_splitOn (fun line hl => ?_) fun line hl => h line (List.mem_of_mem_tail hl)
  rw [Nat.zero_add]
  exact h line (List.mem_of_mem_head? hl)

end Position

/-! ## Bytes of a partial lexeme -/

/-- Reading the bytes makes one partial lexeme of another. -/
inductive Partial.Reads : Partial → List UInt8 → Partial → Prop
  | nil {p : Partial} : p.Reads [] p
  | cons {p m q : Partial} {b : UInt8} {bytes : List UInt8} :
      p.step b = .more m → m.Reads bytes q → p.Reads (b :: bytes) q

theorem Partial.Reads.append {p m q : Partial} {first second : List UInt8}
    (h : p.Reads first m) (h' : m.Reads second q) : p.Reads (first ++ second) q := by
  induction h with
  | nil => exact h'
  | cons step _ ih => exact .cons step (ih h')

section Run

variable {limit line : Nat} {pos : Position} {failure : Option String} {b : UInt8}
  {p q : Partial} {bytes : List UInt8} {rest : List Read} {verdict : Verdict}

theorem run_more {mode : Mode} (next : Mode) (fits : (pos.advance b).width ≤ limit)
    (step : mode.step (pos.advance b).line b = .more next) :
    run limit mode pos failure (.byte b :: rest) =
      run limit next (pos.advance b) failure rest := by
  rw [run]
  simp only [if_neg (Nat.not_lt.mpr fits), step]

/-- A run over the bytes that a partial lexeme takes. -/
theorem run_reads (h : p.Reads bytes q) (fits : pos.Fits limit bytes) :
    run limit (.within line p) pos failure (bytes.map .byte ++ rest) =
      run limit (.within line q) (pos.after bytes) failure rest := by
  induction h generalizing pos with
  | nil => rfl
  | cons step _ ih =>
    rw [List.map_cons, List.cons_append, run_more (.within line _) fits.1 ?_, ih fits.2]
    · rfl
    · rw [Mode.step, step]
      rfl

/-- The byte after the lexeme is left alone. -/
theorem run_ended (fits : (pos.advance b).width ≤ limit) (step : p.step b = .ended verdict) :
    run limit (.within line p) pos failure (.byte b :: rest) =
      ⟨line, verdict, failure, pos, .byte b :: rest⟩ := by
  rw [run]
  simp only [if_neg (Nat.not_lt.mpr fits), Mode.step, step, Step.within, Mode.line]

/-- The byte is the last one of the lexeme. -/
theorem run_closed (verdict : Verdict) (fits : (pos.advance b).width ≤ limit)
    (step : p.step b = .closed verdict) :
    run limit (.within line p) pos failure (.byte b :: rest) =
      ⟨line, verdict, failure, pos.advance b, rest⟩ := by
  rw [run]
  simp only [if_neg (Nat.not_lt.mpr fits), Mode.step, step, Step.within, Mode.line]

/-- The lexeme ends with the bytes. -/
theorem run_nil : run limit (.within line p) pos failure [] =
    ⟨line, p.atEnd, failure, pos, []⟩ := by
  rw [run]
  rfl

end Run

/-! ## Byte order marks -/

theorem skipMark_map_byte {bytes : List UInt8}
    (noMark : ∀ rest, bytes ≠ 0xef :: 0xbb :: 0xbf :: rest) :
    skipMark (bytes.map .byte) = (none, bytes.map .byte) := by
  have noFailure : ∀ reason, Read.failed reason ∉ bytes.map Read.byte := by simp
  unfold skipMark
  split
  · next eq =>
    simp only [List.map_eq_cons_iff, Read.byte.injEq] at eq
    obtain ⟨_, _, rfl, rfl, _, _, rfl, rfl, _, rest, rfl, rfl, -⟩ := eq
    exact absurd rfl (noMark rest)
  · next reason _ eq => exact absurd (by simp [eq]) (noFailure reason)
  · next reason _ _ eq => exact absurd (by simp [eq]) (noFailure reason)
  · next reason _ _ _ eq => exact absurd (by simp [eq]) (noFailure reason)
  · rfl

end HttpSuite
