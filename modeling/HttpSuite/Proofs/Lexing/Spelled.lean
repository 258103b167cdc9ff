import HttpSuite.Proofs.Lexing.Word

/-!
# Reading words from their spelling

`Spells cs ws` says that the characters spell the words one after the other, with blanks between
them. A lexer reads them as these words, but for one thing: shell commands in a row are read as one
(`merged`), since a closed one waits for the next quote behind the blanks.

* `run_joint`: what a closed shell command comes to, by induction on the characters behind it.
* `run_spells`: one run finds the first word and leaves the spelling of the others.
* `tokens_of_spells`: the tokens of spelled words.
-/

namespace HttpSuite

/-! ## Shell commands in a row -/

namespace Word

/-- Puts a word before others; a shell command before a shell command is read as one with it. -/
def joinFirst (w : Word) : List Word → List Word
  | [] => [w]
  | v :: vs =>
    if w.kind = .shellCommand ∧ v.kind = .shellCommand then
      ⟨.shellCommand, w.text ++ v.text⟩ :: vs
    else w :: v :: vs

/-- The words that are read where `ws` are written: shell commands in a row are one. -/
def merged (ws : List Word) : List Word := ws.foldr joinFirst []

@[simp] theorem merged_nil : merged [] = [] := rfl

theorem merged_cons (w : Word) (ws : List Word) : merged (w :: ws) = joinFirst w (merged ws) := rfl

theorem joinFirst_eq_cons {w : Word} {ws : List Word}
    (h : w.kind = .shellCommand → ∀ v ∈ ws.head?, v.kind ≠ .shellCommand) :
    joinFirst w ws = w :: ws := by
  cases ws with
  | nil => rfl
  | cons v vs => exact if_neg fun ⟨hw, hv⟩ => h hw v rfl hv

theorem joinFirst_joinFirst (s t : String) (ws : List Word) :
    joinFirst ⟨.shellCommand, s⟩ (joinFirst ⟨.shellCommand, t⟩ ws) =
      joinFirst ⟨.shellCommand, s ++ t⟩ ws := by
  cases ws with
  | nil => rfl
  | cons v vs =>
    by_cases hv : v.kind = .shellCommand
    · simp [joinFirst, hv, String.append_assoc]
    · simp [joinFirst, hv]

end Word

open Word

/-! ## Spelled words -/

/-- Characters that open with a blank, if there are any. -/
def OpensBlank (cs : List Char) : Prop := ∀ c ∈ cs.head?, isBlank c = true

/-- The characters spell the words, with blanks between them. -/
inductive Spells : List Char → List Word → Prop
  | nil : Spells [] []
  | blank {c : Char} {cs : List Char} {ws : List Word} :
      isBlank c = true → Spells cs ws → Spells (c :: cs) ws
  | word {w : Word} {cs : List Char} {ws : List Word} :
      w.Lexical → OpensBlank cs → Spells cs ws → Spells (w.spelling ++ cs) (w :: ws)

/-- What is spelled opens with an ASCII character. -/
theorem Spells.isAscii {cs : List Char} {ws : List Word} (h : Spells cs ws) :
    ∀ c ∈ cs.head?, IsAscii c := by
  cases h with
  | nil => simp
  | blank hc _ => simpa using isAscii_of_isBlank hc
  | @word w cs _ lexical _ _ =>
    cases lexical.shape with
    | bare _ spelled starts _ _ => simpa [spelled] using starts.1
    | string text => simpa [spelling, quote] using isAscii_delimiter .single
    | shellCommand text => simpa [spelling, quote] using isAscii_delimiter .backtick
    | assertEnd => simpa [spelling] using (by decide : IsAscii ';')

theorem quote_append_eq (delimiter : Delimiter) (text : String) (cs : List Char) :
    (quote delimiter text).toList ++ cs =
      delimiter.char :: (text.toList.flatMap (escapeIn delimiter) ++ delimiter.char :: cs) := by
  simp [quote]

/-- A word that is no shell command opens with neither a blank nor a backtick. -/
theorem spelling_opens {w : Word} (h : w.Lexical) (other : w.kind ≠ .shellCommand) :
    ∃ (c : Char) (cs : List Char), w.spelling = c :: cs ∧ IsAscii c ∧ isBlank c = false ∧
      c ≠ Delimiter.backtick.char := by
  cases h.shape with
  | bare _ spelled starts _ _ =>
    obtain ⟨ascii, blank, -, -, quote, -⟩ := starts
    exact ⟨_, _, spelled, ascii, blank, quote⟩
  | string text => exact ⟨_, _, List.append_nil _ ▸ quote_append_eq .single text [], by decide⟩
  | shellCommand text => exact absurd rfl other
  | assertEnd => exact ⟨';', [], rfl, by decide⟩

/-! ## Runs over spelled words -/

/-- The run found the word `w` and left the spelling of `ws`. -/
structure Run.Finds (r : Run) (limit : Nat) (w : Word) (ws : List Word) : Prop where
  lexical : w.Lexical
  verdict : r.verdict = .ok (w.kind, w.text)
  failure : r.failure = none
  rest : ∃ cs, r.rest = (bytesOf cs).map .byte ∧ Spells cs ws ∧ r.position.Fits limit (bytesOf cs)

section Run

variable {limit line : Nat} {pos : Position} {cs : List Char} {ws : List Word}

/-- A bare word ends with the blank behind it, or with the bytes. -/
theorem run_completes {p : Partial} {w : Word} (done : p.Completes w) (lexical : w.Lexical)
    (bounded : OpensBlank cs) (spells : Spells cs ws) (fits : pos.Fits limit (bytesOf cs)) :
    (run limit (.within line p) pos none ((bytesOf cs).map .byte)).Finds limit w ws := by
  cases cs with
  | nil =>
    rw [bytesOf_nil, List.map_nil, run_nil]
    exact ⟨lexical, done.atEnd, rfl, [], rfl, spells, trivial⟩
  | cons c cs =>
    have blank : isBlank c = true := bounded c rfl
    have ascii := isAscii_of_isBlank blank
    rw [bytesOf_cons ascii] at fits
    have stops := done.blank c.toUInt8 (by rwa [ofUInt8_toUInt8 ascii])
    have same : (bytesOf (c :: cs)).map Read.byte = .byte c.toUInt8 :: (bytesOf cs).map .byte := by
      rw [bytesOf_cons ascii, List.map_cons]
    rw [same, run_ended fits.1 stops]
    refine ⟨lexical, rfl, rfl, c :: cs, same.symm, spells, ?_⟩
    rwa [bytesOf_cons ascii]

/-- The inside of a quoted text, and the closing quote. -/
theorem run_literal {delimiter : Delimiter} {text : List Char} (seen : List Char)
    {ds : List Char}
    (fits : pos.Fits limit
      (bytesOf (text.flatMap (escapeIn delimiter) ++ delimiter.char :: ds))) :
    ∃ pos' : Position, (pos'.advance delimiter.char.toUInt8).Fits limit (bytesOf ds) ∧
      (pos'.advance delimiter.char.toUInt8).width ≤ limit ∧
      ∀ line, run limit (.within line (.literal delimiter false (bytesOf seen).reverse)) pos none
          ((bytesOf (text.flatMap (escapeIn delimiter) ++ delimiter.char :: ds)).map .byte) =
        run limit (.within line (.literal delimiter false (bytesOf (seen ++ text)).reverse)) pos' none
          (.byte delimiter.char.toUInt8 :: (bytesOf ds).map .byte) := by
  have reads := reads_escaped delimiter text (bytesOf seen).reverse
  rw [← List.reverse_append, ← bytesOf_append] at reads
  rw [bytesOf_append, bytesOf_cons (isAscii_delimiter delimiter)] at fits ⊢
  obtain ⟨inside, quote, outside⟩ := Position.fits_append.mp fits
  refine ⟨_, outside, quote, ?_⟩
  intro line
  rw [List.map_append, run_reads reads inside]
  rfl

/-- A closed shell command takes along the shell commands that follow it. -/
theorem run_joint (h : Spells cs ws) (seen : List Char) (fits : pos.Fits limit (bytesOf cs)) :
    ∃ text rest, merged (⟨.shellCommand, String.ofList seen⟩ :: ws) =
        ⟨.shellCommand, text⟩ :: merged rest ∧
      (run limit (.within line (.joint .backtick (bytesOf seen).reverse)) pos none
        ((bytesOf cs).map .byte)).Finds limit ⟨.shellCommand, text⟩ rest := by
  have found := ofBytes_bytesOf .shellCommand seen
  -- Over the words behind it, with the text gathered so far.
  induction h generalizing pos seen with
  | nil =>
    refine ⟨String.ofList seen, [], rfl, ?_⟩
    rw [bytesOf_nil, List.map_nil, run_nil]
    exact ⟨trivial, found, rfl, [], rfl, .nil, trivial⟩
  | @blank c cs ws hc h ih =>
    have ascii := isAscii_of_isBlank hc
    rw [bytesOf_cons ascii] at fits ⊢
    obtain ⟨text, rest, joined, finds⟩ := ih seen fits.2 found
    refine ⟨text, rest, joined, ?_⟩
    rw [List.map_cons, run_more (.within line (.joint .backtick _)) fits.1]
    · exact finds
    · simp only [Mode.step, Partial.step, ofUInt8_toUInt8 ascii, hc, if_true, Step.within]
  | @word w cs ws lexical bounded h ih =>
    obtain ⟨kind, text⟩ := w
    -- A shell command is gathered into the same text, any other word ends the literal unread.
    by_cases shell : kind = .shellCommand
    · subst shell
      have opened : (⟨.shellCommand, text⟩ : Word).spelling ++ cs = _ :=
        quote_append_eq .backtick text cs
      rw [opened, bytesOf_cons (isAscii_delimiter _)] at fits ⊢
      obtain ⟨pos', outside, width, inside⟩ := run_literal seen fits.2
      obtain ⟨whole, rest, joined, finds⟩ := ih (seen ++ text.toList) outside (ofBytes_bytesOf ..)
      refine ⟨whole, rest, ?_, ?_⟩
      · rw [← joined, merged_cons, merged_cons, merged_cons, joinFirst_joinFirst,
          String.ofList_append, String.ofList_toList]
      · rw [List.map_cons, run_more (.within line (.literal .backtick false _)) fits.1 rfl,
          inside, run_more (.within line (.joint .backtick _)) width rfl]
        exact finds
    · obtain ⟨c, more, opened, ascii, blank, quote⟩ := spelling_opens lexical shell
      refine ⟨String.ofList seen, ⟨kind, text⟩ :: ws, ?_, ?_⟩
      · rw [merged_cons, merged_cons, joinFirst_eq_cons (w := ⟨kind, text⟩) fun h => absurd h shell]
        exact joinFirst_eq_cons fun _ v hv => Option.some.inj hv ▸ shell
      · have ended : (Partial.joint .backtick (bytesOf seen).reverse).step c.toUInt8 =
            .ended (.ok (.shellCommand, String.ofList seen)) := by
          simp only [Partial.step, ofUInt8_toUInt8 ascii, blank, quote, if_false,
            Bool.false_eq_true, Partial.atEnd]
          exact congrArg _ found
        have whole := Spells.word lexical bounded h
        rw [opened, List.cons_append] at whole fits ⊢
        rw [bytesOf_cons ascii, List.map_cons, run_ended (bytesOf_cons ascii _ ▸ fits).1 ended]
        refine ⟨trivial, rfl, rfl, _, ?_, whole, fits⟩
        rw [bytesOf_cons ascii, List.map_cons]

/-- One run over spelled words: there are none, or it finds the first one and leaves the others. -/
theorem run_spells (h : Spells cs ws) (fits : pos.Fits limit (bytesOf cs)) :
    (ws = [] ∧ (run limit .blank pos none ((bytesOf cs).map .byte)).verdict = .ok (.none, "") ∧
      (run limit .blank pos none ((bytesOf cs).map .byte)).failure = none) ∨
    ∃ w rest, merged ws = w :: merged rest ∧
      (run limit .blank pos none ((bytesOf cs).map .byte)).Finds limit w rest := by
  induction h generalizing pos with
  | nil => exact .inl ⟨rfl, rfl, rfl⟩
  | @blank c cs ws hc h ih =>
    have ascii := isAscii_of_isBlank hc
    rw [bytesOf_cons ascii] at fits ⊢
    have step : Mode.blank.step (pos.advance c.toUInt8).line c.toUInt8 = .more .blank := by
      simp only [Mode.step, ofUInt8_toUInt8 ascii, hc, if_true]
    rw [List.map_cons, run_more _ fits.1 step]
    exact ih fits.2
  | @word w cs ws lexical bounded h _ =>
    -- Only a shell command reads past its own spelling, so only there the words may merge.
    refine .inr ?_
    cases lexical.shape with
    | bare other spelled starts reads done =>
      refine ⟨w, ws, joinFirst_eq_cons fun h => absurd h other, ?_⟩
      rw [spelled, List.cons_append, bytesOf_cons starts.1, bytesOf_append] at fits ⊢
      obtain ⟨inside, outside⟩ := Position.fits_append.mp fits.2
      rw [List.map_cons, run_more _ fits.1 (step_opening starts _), List.map_append,
        run_reads reads inside]
      exact run_completes done lexical bounded h outside
    | string text =>
      refine ⟨⟨.string, text⟩, ws, joinFirst_eq_cons (by simp), ?_⟩
      have opened : (⟨.string, text⟩ : Word).spelling ++ cs = _ := quote_append_eq .single text cs
      rw [opened, bytesOf_cons (isAscii_delimiter _)] at fits ⊢
      obtain ⟨pos', outside, width, inside⟩ := run_literal [] fits.2
      have closed : (Partial.literal .single false (bytesOf text.toList).reverse).step
          Delimiter.single.char.toUInt8 = .closed (.ok (.string, text)) := by
        have found := ofBytes_bytesOf .string text.toList
        rw [String.ofList_toList] at found
        exact congrArg Step.closed found
      rw [List.map_cons, run_more (.within _ (.literal .single false _)) fits.1 rfl]
      refine (inside _).symm ▸ ?_
      rw [List.nil_append, run_closed _ width closed]
      exact ⟨trivial, rfl, rfl, cs, rfl, h, outside⟩
    | shellCommand text =>
      have opened : (⟨.shellCommand, text⟩ : Word).spelling ++ cs = _ :=
        quote_append_eq .backtick text cs
      rw [opened, bytesOf_cons (isAscii_delimiter _)] at fits ⊢
      obtain ⟨pos', outside, width, inside⟩ := run_literal [] fits.2
      obtain ⟨whole, rest, joined, finds⟩ := run_joint h text.toList outside
      refine ⟨⟨.shellCommand, whole⟩, rest, by rw [← joined, String.ofList_toList], ?_⟩
      rw [List.map_cons, run_more (.within _ (.literal .backtick false _)) fits.1 rfl]
      refine (inside _).symm ▸ ?_
      rw [List.nil_append, run_more (.within _ (.joint .backtick _)) width rfl]
      exact finds
    | assertEnd =>
      refine ⟨⟨.assertEnd, ";"⟩, ws, joinFirst_eq_cons (by simp), ?_⟩
      have opened : (⟨.assertEnd, ";"⟩ : Word).spelling ++ cs = ';' :: cs := rfl
      rw [opened, bytesOf_cons (by decide)] at fits ⊢
      rw [List.map_cons, run, if_neg (Nat.not_lt.mpr fits.1)]
      exact ⟨rfl, rfl, rfl, cs, rfl, h, fits.2⟩

end Run

/-! ## Whole sources -/

namespace Lexer

theorem start_of_spells {lexer : Lexer} {cs : List Char} {ws : List Word} (h : Spells cs ws)
    (rest : lexer.rest = (bytesOf cs).map .byte) :
    lexer.start = (none, (bytesOf cs).map .byte) := by
  have noMark : ∀ more, bytesOf cs ≠ 0xef :: 0xbb :: 0xbf :: more := by
    intro more eq
    cases cs with
    | nil => cases eq
    | cons c cs =>
      have ascii := h.isAscii c rfl
      have first : c.toUInt8 ≠ 0xef :=
        ascii.check (P := fun c => c.toUInt8 ≠ 0xef) (by decide +kernel)
      rw [bytesOf_cons ascii] at eq
      exact first (List.cons.inj eq).1
  rw [start, rest, skipMark_map_byte noMark]
  split <;> rfl

/-- The tokens of spelled words are these words, with shell commands in a row merged. -/
theorem tokens_of_spells (lexer : Lexer) {cs : List Char} {ws : List Word} (h : Spells cs ws)
    (rest : lexer.rest = (bytesOf cs).map .byte)
    (fits : lexer.position.Fits lexer.limit (bytesOf cs)) :
    lexer.tokens.2 = none ∧ lexer.tokens.1.map Token.word = merged ws := by
  have started := start_of_spells h rest
  have run : lexer.next = run lexer.limit .blank lexer.position none ((bytesOf cs).map .byte) := by
    rw [next, started]
  rw [tokens_eq]
  rcases run_spells h fits with ⟨rfl, verdict, failure⟩ | ⟨w, others, joined, finds⟩
  · rw [← run] at verdict failure
    simp only [pull, found, failure, verdict, if_true, List.map_nil, merged_nil, and_self]
  · rw [← run] at finds
    obtain ⟨ds, left, spells, room⟩ := finds.rest
    have pulled : lexer.pull.1 = .ok ⟨w.kind, w.text, lexer.source, lexer.next.line⟩ := by
      simp only [pull, found, finds.failure, finds.verdict]
    have notEnd : w.kind ≠ .none := fun eq => by
      have := finds.lexical
      simp only [Lexical, eq] at this
    have notFailed : w.kind ≠ .unknown := fun eq => by
      have := finds.lexical
      simp only [Lexical, eq] at this
    have ih := tokens_of_spells lexer.pull.2 spells left room
    simp only [pulled, notEnd, notFailed, if_false, List.map_cons, joined, ih.1, ih.2, true_and]
    rfl
termination_by lexer.rest.length
decreasing_by
  apply pull_progress
  intro token eq
  rw [pulled] at eq
  exact Except.ok.inj eq ▸ notEnd

end Lexer

end HttpSuite
