import HttpSuite.Lexeme

/-!
# Pulling tokens from a source of bytes

A source is a list of reads, each of one byte or failed. A `Lexer` stands somewhere in a source;
`Lexer.pull` reads up to the end of the next token, `Lexer.tokens` pulls until the source ends.

Every byte is counted before its effect is looked at, so a line that grows over the limit is a fault
whatever stands there. Only the later bytes of a stray character are taken uncounted. A failed read
ends the open lexeme like the end of the source would; what the pull found is then replaced by an
`unknown` token with the text of its first failure.

* `pull_progress`: a pull that finds no end token leaves fewer reads.
* `tokens_eq`: the tokens of a source, from its first pull.
-/

namespace HttpSuite

/-- One read of a source. -/
inductive Read where
  | byte (b : UInt8)
  | failed (reason : String)
  deriving DecidableEq, Repr

/-- The reads that bring the given bytes. -/
def Read.ofBytes (bytes : ByteArray) : List Read :=
  bytes.data.toList.map .byte

/-- The reads that bring the UTF-8 bytes of a text. -/
def Read.ofText (text : String) : List Read :=
  ofBytes text.toByteArray

/-- The line that is being read, and the number of its bytes that have been read. -/
structure Position where
  line : Nat := 1
  width : Nat := 0
  deriving DecidableEq, Repr

/-- The position after one more byte. -/
def Position.advance (pos : Position) (b : UInt8) : Position :=
  if b = '\n'.toUInt8 then ⟨pos.line + 1, 0⟩ else ⟨pos.line, pos.width + 1⟩

/-! ## Stray characters -/

/-- The number of bytes of the character that starts with `first`. -/
def charLength (first : UInt8) : Nat :=
  if first < 0xc0 then 1
  else if first < 0xe0 then 2
  else if first < 0xf0 then 3
  else if first < 0xf8 then 4
  else 1

/-- The character that the bytes encode, or the replacement character. -/
def charOfBytes (bytes : List UInt8) : Char :=
  (bytes.toByteArray.utf8DecodeChar? 0).getD '\ufffd'

/-- Up to `n` bytes, the failure that cut them short if one did, and the reads after them. -/
def takeBytes : Nat → List Read → List UInt8 × Option String × List Read
  | 0, reads => ([], none, reads)
  | _ + 1, [] => ([], none, [])
  | _ + 1, .failed reason :: reads => ([], some reason, reads)
  | n + 1, .byte b :: reads =>
    let (bytes, failure, rest) := takeBytes n reads
    (b :: bytes, failure, rest)

theorem takeBytes_length_le (n : Nat) (reads : List Read) :
    (takeBytes n reads).2.2.length ≤ reads.length := by
  fun_induction takeBytes n reads <;> simp_all
  omega

/-! ## One run -/

/-- Where a run of the lexer stopped, and what it found. -/
structure Run where
  /-- The line of the token or fault. -/
  line : Nat
  verdict : Verdict
  /-- The text of the first failed read. -/
  failure : Option String
  position : Position
  rest : List Read

/-- Reads on in `mode` to the end of a lexeme. `failure` is the first failed read so far. -/
def run (limit : Nat) (mode : Mode) (pos : Position) (failure : Option String) :
    List Read → Run
  | [] => ⟨mode.line pos.line, mode.atEnd, failure, pos, []⟩
  | .failed reason :: rest =>
    let failure := failure <|> some reason
    if mode = .comment then run limit .blank pos failure rest
    else ⟨mode.line pos.line, mode.atEnd, failure, pos, rest⟩
  | .byte b :: rest =>
    let next := pos.advance b
    if limit < next.width then ⟨next.line, .error (.lineTooLong limit), failure, next, rest⟩
    else match mode.step next.line b with
      | .more mode => run limit mode next failure rest
      | .closed verdict => ⟨mode.line next.line, verdict, failure, next, rest⟩
      | .ended verdict => ⟨mode.line next.line, verdict, failure, pos, .byte b :: rest⟩
      | .stray inInteger =>
        let (bytes, failed, rest) := takeBytes (charLength b - 1) rest
        ⟨mode.line next.line, .error (strayCause inInteger (charOfBytes (b :: bytes))),
          failure <|> failed, next, rest⟩

theorem run_length_le (limit : Nat) (mode : Mode) (pos : Position) (failure : Option String)
    (reads : List Read) : (run limit mode pos failure reads).rest.length ≤ reads.length := by
  fun_induction run limit mode pos failure reads with
  | case1 => simp
  | case2 pos _ reason rest _ ih => simp only [List.length_cons]; omega
  | case3 => simp
  | case4 => simp
  | case5 mode pos failure b rest next _ mode' _ ih => simp only [List.length_cons]; omega
  | case6 => simp
  | case7 => simp
  | case8 mode pos failure b rest next _ inInteger _ bytes failed rest' h =>
    have := takeBytes_length_le (charLength b - 1) rest
    simp only [h] at this
    simp only [List.length_cons]
    omega

/-- Between lexemes, a run that comes to more than the end of the source takes a read for good. -/
theorem run_blank_length_lt (limit : Nat) (pos : Position) (failure : Option String)
    {reads : List Read} (h : reads ≠ []) :
    (run limit .blank pos failure reads).rest.length < reads.length := by
  cases reads with
  | nil => exact absurd rfl h
  | cons read rest =>
    have le := fun mode pos failure => run_length_le limit mode pos failure rest
    cases read with
    | failed reason => simp [run]
    | byte b =>
      simp only [run, List.length_cons]
      split
      · simp
      · split
        · next mode _ => exact Nat.lt_succ_of_le (le mode _ failure)
        · simp
        · next verdict eq => exact absurd eq (Mode.step_blank_ne_ended _ b verdict)
        · exact Nat.lt_succ_of_le (takeBytes_length_le _ rest)

/-! ## The lexer -/

/-- The limit on the bytes of a line, unless another one is given. -/
def defaultLineLimit : Nat := 1024 * 1024

/-- A place in a source. `fresh` says that nothing has been read, so that a byte order mark may
stand here. -/
structure Lexer where
  source : String
  rest : List Read
  limit : Nat := defaultLineLimit
  position : Position := {}
  fresh : Bool := true
  deriving DecidableEq

/-- Passes a byte order mark. A read that fails among the first three bytes is passed too, and the
bytes before it are kept. -/
def skipMark : List Read → Option String × List Read
  | .byte 0xef :: .byte 0xbb :: .byte 0xbf :: rest => (none, rest)
  | .failed reason :: rest => (some reason, rest)
  | a :: .failed reason :: rest => (some reason, a :: rest)
  | a :: b :: .failed reason :: rest => (some reason, a :: b :: rest)
  | reads => (none, reads)

theorem skipMark_length_le (reads : List Read) : (skipMark reads).2.length ≤ reads.length := by
  unfold skipMark
  split
  · exact Nat.le_add_right _ 3
  · exact Nat.le_succ _
  · exact Nat.le_succ _
  · exact Nat.le_succ _
  · exact Nat.le_refl _

namespace Lexer

/-- The first failure while passing a byte order mark, and the reads that are left. -/
def start (lexer : Lexer) : Option String × List Read :=
  if lexer.fresh then skipMark lexer.rest else (none, lexer.rest)

/-- The run of the next pull. -/
def next (lexer : Lexer) : Run :=
  run lexer.limit .blank lexer.position lexer.start.1 lexer.start.2

/-- The token or fault that a run found in this source. -/
def found (lexer : Lexer) (r : Run) : Except LexError Token :=
  match r.failure, r.verdict with
  | some reason, _ => .ok ⟨.unknown, reason, lexer.source, r.position.line⟩
  | none, .ok (kind, text) => .ok ⟨kind, text, lexer.source, r.line⟩
  | none, .error cause => .error ⟨cause, lexer.source, r.line⟩

/-- The next token or fault, and the lexer after it. At the end of the source the token is the end
token, again and again. -/
def pull (lexer : Lexer) : Except LexError Token × Lexer :=
  let r := lexer.next
  (lexer.found r, { lexer with rest := r.rest, position := r.position, fresh := false })

/-- The line that the lexer stands on. -/
def line (lexer : Lexer) : Nat := lexer.position.line

private theorem start_length_le (lexer : Lexer) :
    lexer.start.2.length ≤ lexer.rest.length := by
  unfold start
  split
  · exact skipMark_length_le lexer.rest
  · exact Nat.le_refl _

private theorem start_nil {lexer : Lexer} (h : lexer.rest = []) : lexer.start = (none, []) := by
  unfold start
  split <;> simp [h, skipMark]

/-- A pull that finds no end token leaves fewer reads. -/
theorem pull_progress {lexer : Lexer}
    (h : ∀ token, lexer.pull.1 = .ok token → token.kind ≠ .none) :
    lexer.pull.2.rest.length < lexer.rest.length := by
  by_cases empty : lexer.rest = []
  · have := h ⟨.none, "", lexer.source, lexer.position.line⟩
      (by simp [pull, found, next, start_nil empty, run, Mode.atEnd, Mode.line])
    exact absurd rfl this
  · have le := start_length_le lexer
    by_cases spent : lexer.start.2 = []
    · have : 0 < lexer.rest.length := List.length_pos_iff.mpr empty
      simpa [pull, next, spent, run] using this
    · exact Nat.lt_of_lt_of_le (run_blank_length_lt _ _ _ spent) le

/-- The tokens from here on, after those gathered in `seen`, and the fault that stopped them. -/
def tokensFrom (lexer : Lexer) (seen : Array Token) : Array Token × Option LexError :=
  match _h : lexer.pull.1 with
  | .error fault => (seen, some fault)
  | .ok token =>
    if token.kind = .none then (seen, none)
    else if token.kind = .unknown then (seen.push token, none)
    else lexer.pull.2.tokensFrom (seen.push token)
termination_by lexer.rest.length
decreasing_by exact pull_progress fun _ eq => Except.ok.inj (_h.symm.trans eq) ▸ ‹_›

/-- The tokens up to the end of the source, a failed read or a fault, and the fault if there is
one. An `unknown` token is the last one; the end token is left out. -/
def tokens (lexer : Lexer) : List Token × Option LexError :=
  let (seen, fault) := lexer.tokensFrom #[]
  (seen.toList, fault)

private theorem tokensFrom_step (lexer : Lexer) (seen : Array Token) :
    lexer.tokensFrom seen =
      match lexer.pull.1 with
      | .error fault => (seen, some fault)
      | .ok token =>
        if token.kind = .none then (seen, none)
        else if token.kind = .unknown then (seen.push token, none)
        else lexer.pull.2.tokensFrom (seen.push token) := by
  rw [tokensFrom]
  split <;> simp_all

private theorem tokensFrom_eq (lexer : Lexer) (seen : Array Token) :
    lexer.tokensFrom seen = (seen ++ (lexer.tokensFrom #[]).1, (lexer.tokensFrom #[]).2) := by
  rw [tokensFrom_step lexer seen, tokensFrom_step lexer #[]]
  split
  · simp
  · next token h =>
    split
    · simp
    · split
      · simp
      · have := tokensFrom_eq lexer.pull.2
        rw [this (seen.push token), this (#[].push token)]
        simp
termination_by lexer.rest.length
decreasing_by exact pull_progress (by simp_all)

/-- The tokens of a source, from its first pull. -/
theorem tokens_eq (lexer : Lexer) :
    lexer.tokens =
      match lexer.pull.1 with
      | .error fault => ([], some fault)
      | .ok token =>
        if token.kind = .none then ([], none)
        else if token.kind = .unknown then ([token], none)
        else (token :: lexer.pull.2.tokens.1, lexer.pull.2.tokens.2) := by
  simp only [tokens]
  rw [tokensFrom_step]
  split
  · rfl
  · next token _ =>
    split
    · rfl
    · split
      · rfl
      · rw [tokensFrom_eq]
        simp

end Lexer

/-- A lexer that is read as a stream. -/
structure TokenStream where
  lexer : Lexer
  finished : Bool := false

/-- The next item of a stream. A stream ends for good after a fault or a failed read, and where the
end token would come. -/
def TokenStream.next? (stream : TokenStream) : Option (Except LexError Token) × TokenStream :=
  if stream.finished then (none, stream)
  else
    match stream.lexer.pull with
    | (.error fault, lexer) => (some (.error fault), ⟨lexer, true⟩)
    | (.ok token, lexer) =>
      if token.kind = .none then (none, ⟨lexer, true⟩)
      else (some (.ok token), ⟨lexer, token.kind = .unknown⟩)

/-- The tokens of a text, or the first fault in it. -/
def tokenize (text source : String) : Except LexError (List Token) :=
  match ({ source, rest := Read.ofText text : Lexer }).tokens with
  | (_, some fault) => .error fault
  | (tokens, none) => .ok tokens

end HttpSuite
