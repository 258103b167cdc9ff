import HttpSuite.Canonical
import HttpSuite.Proofs.Lexing.Run

/-!
# Words and their spelling

A word is what a token says, without its place. `Word.Lexical` are the words that a lexer can come
to, and `Word.spelling` writes each of them so that it is read as itself.

* `reads_gather`: characters of one class are gathered one by one.
* `reads_escaped`: the inside of a quoted text is read as the text.
* `Lexical.shape`: how each word is written, and for a bare one, that it is read to its last
  character and completed by a blank or the end.
-/

namespace HttpSuite

/-- A kind of token and its text. -/
structure Word where
  kind : TokenKind
  text : String
  deriving DecidableEq

/-- What a token says. -/
def Token.word (token : Token) : Word := ⟨token.kind, token.text⟩

/-- The characters of an integer as it is written. -/
inductive IsInteger : List Char → Prop
  | zero : IsInteger ['0']
  | octal {digits : List Char} : digits ≠ [] → (∀ d ∈ digits, Radix.octal.isDigit d = true) →
      IsInteger ('0' :: digits)
  | decimal {first : Char} {digits : List Char} : first.isDigit = true → first ≠ '0' →
      (∀ d ∈ digits, d.isDigit = true) → IsInteger (first :: digits)
  | hexadecimal {x : Char} {digits : List Char} : x = 'x' ∨ x = 'X' → digits ≠ [] →
      (∀ d ∈ digits, Radix.hexadecimal.isDigit d = true) → IsInteger ('0' :: x :: digits)

namespace Word

/-- A word that a lexer can come to. -/
def Lexical (w : Word) : Prop :=
  match w.kind with
  | .directive => ∃ name, w.text.toList = '.' :: name ∧ ∀ c ∈ name, isDirectiveChar c = true
  | .symbol => isSymbol w.text = true
  | .integer => IsInteger w.text.toList
  | .string | .shellCommand => True
  | .assertEnd => w.text = ";"
  | .none | .unknown => False

/-- The word as it is written. -/
def spelling (w : Word) : List Char :=
  match w.kind with
  | .string => (quote .single w.text).toList
  | .shellCommand => (quote .backtick w.text).toList
  | .directive | .symbol | .integer | .assertEnd | .none | .unknown => w.text.toList

end Word

theorem canonical_toList {token : Token} (h : token.kind.isValue = true) :
    token.canonical.toList = token.word.spelling := by
  obtain ⟨kind, text, span⟩ := token
  cases kind with
  | string | symbol | integer | shellCommand => rfl
  | directive | assertEnd | none | unknown => cases h

/-! ## Character classes -/

private theorem toNat_le_of_le {c d : Char} (h : c ≤ d) : c.toNat ≤ d.toNat :=
  UInt32.le_iff_toNat_le.mp h

theorem isAscii_of_isDigit {c : Char} (h : c.isDigit = true) : IsAscii c := by
  simp only [Char.isDigit, Bool.and_eq_true, decide_eq_true_eq] at h
  exact Nat.lt_of_le_of_lt (UInt32.le_iff_toNat_le.mp h.2) (by decide)

theorem isAscii_of_isNameChar {c : Char} (h : isNameChar c = true) : IsAscii c := by
  have classes : ((c.isUpper || c.isLower) || c.isDigit || c == '_') = true := h
  simp only [Bool.or_eq_true, beq_iff_eq] at classes
  rcases classes with ((upper | lower) | digit) | rfl
  · have bounds : 'A' ≤ c ∧ c ≤ 'Z' := of_decide_eq_true upper
    exact Nat.lt_of_le_of_lt (toNat_le_of_le bounds.2) (by decide)
  · have bounds : decide ('a' ≤ c) = true ∧ decide (c ≤ 'z') = true := Bool.and_eq_true_iff.mp lower
    exact Nat.lt_of_le_of_lt (toNat_le_of_le (of_decide_eq_true bounds.2)) (by decide)
  · exact isAscii_of_isDigit digit
  · decide

theorem isAscii_of_isDirectiveChar {c : Char} (h : isDirectiveChar c = true) : IsAscii c := by
  simp only [isDirectiveChar, Bool.or_eq_true, beq_iff_eq] at h
  rcases h with (rfl | rfl) | h
  · decide
  · decide
  · exact isAscii_of_isNameChar h

theorem isAscii_of_radix {radix : Radix} {c : Char} (h : radix.isDigit c = true) : IsAscii c := by
  cases radix with
  | octal =>
    simp only [Radix.isDigit, Bool.and_eq_true, decide_eq_true_eq] at h
    exact Nat.lt_of_le_of_lt (toNat_le_of_le h.2) (by decide)
  | decimal => exact isAscii_of_isDigit h
  | hexadecimal =>
    simp only [Radix.isDigit, Bool.or_eq_true, Bool.and_eq_true, decide_eq_true_eq] at h
    rcases h with (h | ⟨-, h⟩) | ⟨-, h⟩
    · exact isAscii_of_isDigit h
    · exact Nat.lt_of_le_of_lt (toNat_le_of_le h) (by decide)
    · exact Nat.lt_of_le_of_lt (toNat_le_of_le h) (by decide)

theorem isAscii_of_isBlank {c : Char} (h : isBlank c = true) : IsAscii c := by
  simp only [isBlank, Bool.or_eq_true, beq_iff_eq] at h
  rcases h with (((rfl | rfl) | rfl) | rfl) | rfl <;> decide

/-- No blank belongs to a name, a directive or an integer. -/
theorem isBlank_eq_false {c : Char} (hc : IsAscii c) :
    (isDirectiveChar c = true → isBlank c = false) ∧
      (∀ radix : Radix, radix.isDigit c = true → isBlank c = false) := by
  refine ⟨hc.check (P := fun c => isDirectiveChar c = true → isBlank c = false)
    (by decide +kernel), fun radix => ?_⟩
  cases radix <;> exact hc.check (P := fun c => Radix.isDigit _ c = true → isBlank c = false)
    (by decide +kernel)

/-! ## Bare words -/

/-- Characters of one class are gathered one by one. -/
theorem reads_gather {gather : List Char → Partial} {good : Char → Bool}
    (ascii : ∀ c, good c = true → IsAscii c)
    (step : ∀ seen c, good c = true → (gather seen).step c.toUInt8 = .more (gather (c :: seen)))
    {cs : List Char} (all : ∀ c ∈ cs, good c = true) (seen : List Char) :
    (gather seen).Reads (bytesOf cs) (gather (cs.reverse ++ seen)) := by
  induction cs generalizing seen with
  | nil => exact .nil
  | cons c cs ih =>
    have hc := all c List.mem_cons_self
    rw [bytesOf_cons (ascii c hc), List.reverse_cons, List.append_assoc]
    exact .cons (step seen c hc) (ih (fun d hd => all d (List.mem_cons_of_mem _ hd)) _)

theorem step_directive {c : Char} (hc : isDirectiveChar c = true) (seen : List Char) :
    (Partial.directive seen).step c.toUInt8 = .more (.directive (c :: seen)) := by
  simp only [Partial.step, ofUInt8_toUInt8 (isAscii_of_isDirectiveChar hc), hc, if_true]

theorem step_symbol {c : Char} (hc : isNameChar c = true) (seen : List Char) :
    (Partial.symbol seen).step c.toUInt8 = .more (.symbol (c :: seen)) := by
  have ascii := isAscii_of_isNameChar hc
  have blank := (isBlank_eq_false ascii).1 (by simp [isDirectiveChar, hc])
  simp only [Partial.step, ofUInt8_toUInt8 ascii, blank, hc, if_true, Bool.false_eq_true, if_false]

theorem step_integer {radix : Radix} {c : Char} (hc : radix.isDigit c = true)
    (opening seen : List Char) :
    (Partial.integer radix opening seen).step c.toUInt8 =
      .more (.integer radix opening (c :: seen)) := by
  have ascii := isAscii_of_radix hc
  have blank := (isBlank_eq_false ascii).2 radix hc
  simp only [Partial.step, Partial.integerStep, ofUInt8_toUInt8 ascii, blank, hc, if_true,
    Bool.false_eq_true, if_false]

theorem step_zero_octal {c : Char} (hc : Radix.octal.isDigit c = true) :
    Partial.zero.step c.toUInt8 = .more (.integer .octal ['0'] [c]) := by
  have ascii := isAscii_of_radix hc
  have blank := (isBlank_eq_false ascii).2 .octal hc
  have notX : ¬ (c = 'x' ∨ c = 'X') :=
    ascii.check (P := fun c => Radix.octal.isDigit c = true → ¬ (c = 'x' ∨ c = 'X'))
      (by decide +kernel) hc
  simp only [Partial.step, Partial.integerStep, ofUInt8_toUInt8 ascii, blank, notX, hc, if_true,
    Bool.false_eq_true, if_false]

/-- What was read is the whole of a word: the end completes it, and so does a blank. -/
structure Partial.Completes (p : Partial) (w : Word) : Prop where
  atEnd : p.atEnd = .ok (w.kind, w.text)
  blank : ∀ b, isBlank (Char.ofUInt8 b) = true → p.step b = .ended (.ok (w.kind, w.text))

theorem completes_directive {text : String} {name : List Char} (h : text.toList = '.' :: name) :
    (Partial.directive name.reverse).Completes ⟨.directive, text⟩ := by
  have atEnd : (Partial.directive name.reverse).atEnd = .ok (.directive, text) := by
    simp [Partial.atEnd, Verdict.ofChars, ← h]
  refine ⟨atEnd, ?_⟩
  intro b hb
  have stops : isDirectiveChar (Char.ofUInt8 b) = false := by
    apply Bool.eq_false_iff.mpr
    intro hc
    have := (isBlank_eq_false (isAscii_of_isBlank hb)).1 hc
    rw [this] at hb
    cases hb
  simp only [Partial.step, stops, Bool.false_eq_true, if_false, atEnd]

theorem completes_symbol {text : String} {name : List Char} (h : text.toList = name) :
    (Partial.symbol name.reverse).Completes ⟨.symbol, text⟩ := by
  have atEnd : (Partial.symbol name.reverse).atEnd = .ok (.symbol, text) := by
    simp [Partial.atEnd, Verdict.ofChars, ← h]
  refine ⟨atEnd, ?_⟩
  intro b hb
  simp only [Partial.step, hb, if_true, atEnd]

theorem completes_zero : Partial.zero.Completes ⟨.integer, "0"⟩ := by
  refine ⟨rfl, ?_⟩
  intro b hb
  simp only [Partial.step, hb, if_true, Partial.atEnd]

theorem completes_integer {radix : Radix} {opening digits : List Char} {text : String}
    (h : text.toList = opening ++ digits) (digit : radix = .hexadecimal → digits ≠ []) :
    (Partial.integer radix opening digits.reverse).Completes ⟨.integer, text⟩ := by
  have whole : Partial.integerVerdict radix opening digits.reverse = .ok (.integer, text) := by
    rw [Partial.integerVerdict, if_neg, List.reverse_reverse, ← h, String.ofList_toList]
    exact fun ⟨hex, empty⟩ => digit hex (List.reverse_eq_nil_iff.mp empty)
  refine ⟨whole, ?_⟩
  intro b hb
  simp only [Partial.step, Partial.integerStep, hb, if_true, whole]

/-- The character starts a lexeme without quotes wherever none is open. -/
def Partial.StartsWith (p : Partial) (c : Char) : Prop :=
  IsAscii c ∧ isBlank c = false ∧ c ≠ '#' ∧ c ≠ ';' ∧ c ≠ Delimiter.backtick.char ∧
    opening c = some p

instance (p : Partial) (c : Char) : Decidable (p.StartsWith c) :=
  inferInstanceAs (Decidable (_ ∧ _))

theorem step_opening {p : Partial} {c : Char} (h : p.StartsWith c) (here : Nat) :
    Mode.blank.step here c.toUInt8 = .more (.within here p) := by
  obtain ⟨ascii, blank, comment, finish, -, starts⟩ := h
  simp only [Mode.step, ofUInt8_toUInt8 ascii, blank, comment, finish, starts, if_false,
    Bool.false_eq_true]

theorem startsWith_symbol {c : Char} (start : isNameStart c = true) :
    (Partial.symbol [c]).StartsWith c :=
  (isAscii_of_isNameChar (isNameChar_of_isNameStart start)).check
    (P := fun c => isNameStart c = true → (Partial.symbol [c]).StartsWith c)
    (by decide +kernel) start

theorem startsWith_decimal {c : Char} (digit : c.isDigit = true) (ne : c ≠ '0') :
    (Partial.integer .decimal [] [c]).StartsWith c :=
  (isAscii_of_isDigit digit).check
    (P := fun c => c.isDigit = true → c ≠ '0' → (Partial.integer .decimal [] [c]).StartsWith c)
    (by decide +kernel) digit ne

/-- How a word is written: bare, or as one of the lexemes with a last character of their own. A bare
word is read to its last character, and then a blank or the end completes it. -/
inductive Word.Shape : Word → Prop
  | bare {w : Word} {c : Char} {cs : List Char} {p q : Partial} :
      w.kind ≠ .shellCommand → w.spelling = c :: cs → p.StartsWith c → p.Reads (bytesOf cs) q →
      q.Completes w → Shape w
  | string (text : String) : Shape ⟨.string, text⟩
  | shellCommand (text : String) : Shape ⟨.shellCommand, text⟩
  | assertEnd : Shape ⟨.assertEnd, ";"⟩

theorem shape_directive {text : String} {name : List Char} (spelled : text.toList = '.' :: name)
    (all : ∀ c ∈ name, isDirectiveChar c = true) : Word.Shape ⟨.directive, text⟩ := by
  have reads := reads_gather (fun _ => isAscii_of_isDirectiveChar)
    (fun seen _ hc => step_directive hc seen) all []
  rw [List.append_nil] at reads
  exact .bare (by simp) spelled (p := .directive []) (by decide) reads
    (completes_directive spelled)

theorem shape_symbol {text : String} (h : isSymbol text = true) :
    Word.Shape ⟨.symbol, text⟩ := by
  obtain ⟨c, cs, spelled, start, all⟩ := isSymbol_iff.mp h
  have reads := reads_gather (fun _ => isAscii_of_isNameChar)
    (fun seen _ hc => step_symbol hc seen) all [c]
  have done := completes_symbol spelled
  rw [List.reverse_cons] at done
  exact .bare (by simp) spelled (startsWith_symbol start) reads done

theorem shape_integer {text : String} (h : IsInteger text.toList) :
    Word.Shape ⟨.integer, text⟩ := by
  have gather : ∀ (radix : Radix) (opening digits seen : List Char),
      (∀ d ∈ digits, radix.isDigit d = true) →
      (Partial.integer radix opening seen).Reads (bytesOf digits)
        (.integer radix opening (digits.reverse ++ seen)) := fun radix opening digits seen all =>
    reads_gather (fun _ => isAscii_of_radix) (fun seen _ hd => step_integer hd opening seen) all seen
  generalize spelled : text.toList = cs at h
  cases h with
  | zero =>
    have same : text = "0" := String.toList_inj.mp spelled
    exact .bare (by simp) spelled (p := .zero) (by decide) .nil (same ▸ completes_zero)
  | @octal digits ne all =>
    obtain ⟨d, ds, rfl⟩ := List.exists_cons_of_ne_nil ne
    have hd := all d List.mem_cons_self
    have rest := gather .octal ['0'] ds [d] fun e he => all e (List.mem_cons_of_mem _ he)
    have reads : Partial.zero.Reads (bytesOf (d :: ds)) (.integer .octal ['0'] (d :: ds).reverse) := by
      rw [bytesOf_cons (isAscii_of_radix hd), List.reverse_cons]
      exact .cons (step_zero_octal hd) rest
    refine .bare (by simp) spelled (by decide) reads (completes_integer spelled ?_)
    intro hex
    cases hex
  | @decimal d ds digit ne all =>
    have reads := gather .decimal [] ds [d] all
    rw [← List.reverse_cons] at reads
    refine .bare (by simp) spelled (startsWith_decimal digit ne) reads (completes_integer spelled ?_)
    intro hex
    cases hex
  | @hexadecimal x digits hx ne all =>
    have first : Partial.zero.step x.toUInt8 = .more (.integer .hexadecimal ['0', x] []) := by
      rcases hx with rfl | rfl <;> rfl
    have ascii : IsAscii x := by
      rcases hx with rfl | rfl <;> decide
    have rest := gather .hexadecimal ['0', x] digits [] all
    rw [List.append_nil] at rest
    have reads : Partial.zero.Reads (bytesOf (x :: digits))
        (.integer .hexadecimal ['0', x] digits.reverse) := by
      rw [bytesOf_cons ascii]
      exact .cons first rest
    exact .bare (by simp) spelled (by decide) reads (completes_integer spelled fun _ => ne)

theorem Word.Lexical.shape {w : Word} (h : w.Lexical) : w.Shape := by
  obtain ⟨kind, text⟩ := w
  cases kind with
  | directive =>
    obtain ⟨name, spelled, all⟩ := h
    exact shape_directive spelled all
  | string => exact .string text
  | symbol => exact shape_symbol h
  | integer => exact shape_integer h
  | shellCommand => exact .shellCommand text
  | assertEnd =>
    have same : text = ";" := h
    exact same ▸ .assertEnd
  | none | unknown => exact h.elim

/-! ## Quoted words -/

theorem toUInt8_ne_of_not_isAscii {c d : Char} (hd : IsAscii d) (hc : ¬ IsAscii c) {b : UInt8}
    (hb : b ∈ String.utf8EncodeChar c) : b ≠ d.toUInt8 := by
  rintro rfl
  have large := le_of_mem_utf8EncodeChar hc hb
  have small : d.toUInt8.toNat < 128 :=
    hd.check (P := fun d => d.toUInt8.toNat < 128) (by decide +kernel)
  exact Nat.not_le_of_lt small large

theorem isAscii_delimiter (delimiter : Delimiter) : IsAscii delimiter.char := by
  cases delimiter <;> decide

theorem step_literal {delimiter : Delimiter} {b : UInt8} (hq : b ≠ delimiter.char.toUInt8)
    (hb : b ≠ '\\'.toUInt8) (seen : List UInt8) :
    (Partial.literal delimiter false seen).step b =
      .more (.literal delimiter false (b :: seen)) := by
  simp only [Partial.step, Partial.literalStep, hq, hb, if_false, Bool.false_eq_true]

/-- Bytes that are neither quote nor backslash are gathered one by one. -/
theorem reads_plain {delimiter : Delimiter} {bytes : List UInt8}
    (plain : ∀ b ∈ bytes, b ≠ delimiter.char.toUInt8 ∧ b ≠ '\\'.toUInt8) (seen : List UInt8) :
    (Partial.literal delimiter false seen).Reads bytes
      (.literal delimiter false (bytes.reverse ++ seen)) := by
  induction bytes generalizing seen with
  | nil => exact .nil
  | cons b bytes ih =>
    obtain ⟨hq, hb⟩ := plain b List.mem_cons_self
    rw [List.reverse_cons, List.append_assoc]
    exact .cons (step_literal hq hb seen) (ih (fun d hd => plain d (List.mem_cons_of_mem _ hd)) _)

theorem reads_escapeIn (delimiter : Delimiter) (c : Char) (seen : List UInt8) :
    (Partial.literal delimiter false seen).Reads (bytesOf (escapeIn delimiter c))
      (.literal delimiter false ((bytesOf [c]).reverse ++ seen)) := by
  by_cases special : c = delimiter.char ∨ c = '\\'
  · have ascii : IsAscii c := by
      rcases special with rfl | rfl
      · exact isAscii_delimiter delimiter
      · decide
    have backslash : (Partial.literal delimiter false seen).step '\\'.toUInt8 =
        .more (.literal delimiter true seen) := by
      cases delimiter <;> rfl
    rw [escapeIn, if_pos special, bytesOf_cons (by decide), bytesOf_cons ascii, bytesOf_nil]
    exact .cons backslash (.cons rfl .nil)
  · rw [escapeIn, if_neg special]
    obtain ⟨notQuote, notBackslash⟩ := not_or.mp special
    refine reads_plain (fun b hb => ?_) seen
    rw [bytesOf, List.flatMap_singleton] at hb
    by_cases ascii : IsAscii c
    · rw [utf8EncodeChar_of_isAscii ascii, List.mem_singleton] at hb
      subst hb
      have inj : ∀ {d : Char}, IsAscii d → c.toUInt8 = d.toUInt8 → c = d := fun hd same => by
        rw [← ofUInt8_toUInt8 ascii, same, ofUInt8_toUInt8 hd]
      exact ⟨fun same => notQuote (inj (isAscii_delimiter delimiter) same),
        fun same => notBackslash (inj (by decide) same)⟩
    · exact ⟨toUInt8_ne_of_not_isAscii (isAscii_delimiter delimiter) ascii hb,
        toUInt8_ne_of_not_isAscii (by decide) ascii hb⟩

/-- The inside of a quoted text is read as the text. -/
theorem reads_escaped (delimiter : Delimiter) (cs : List Char) (seen : List UInt8) :
    (Partial.literal delimiter false seen).Reads (bytesOf (cs.flatMap (escapeIn delimiter)))
      (.literal delimiter false ((bytesOf cs).reverse ++ seen)) := by
  induction cs generalizing seen with
  | nil => exact .nil
  | cons c cs ih =>
    have whole : (bytesOf (c :: cs)).reverse ++ seen =
        (bytesOf cs).reverse ++ ((bytesOf [c]).reverse ++ seen) := by
      rw [← List.singleton_append, bytesOf_append, List.reverse_append, List.append_assoc]
    rw [List.flatMap_cons, bytesOf_append, whole]
    exact (reads_escapeIn delimiter c seen).append (ih _)

end HttpSuite
