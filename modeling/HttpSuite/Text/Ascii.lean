/-!
# ASCII classes and case

The classes of single characters that lexemes, symbol names and header names are made of. All of
them are ASCII: a character above `U+007F` is in none.

* `isSymbol_iff`: a symbol name is a name start followed by name characters.
* `isNameChar_of_isSymbol`: a symbol name has name characters only.
-/

namespace HttpSuite

/-- Space, tab, line feed, form feed and carriage return. -/
def isBlank (c : Char) : Bool :=
  c == ' ' || c == '\t' || c == '\n' || c == '\x0c' || c == '\r'

/-- A letter or an underscore. -/
def isNameStart (c : Char) : Bool :=
  c.isAlpha || c == '_'

/-- A letter, a digit or an underscore. -/
def isNameChar (c : Char) : Bool :=
  c.isAlphanum || c == '_'

theorem isNameChar_of_isNameStart {c : Char} (h : isNameStart c = true) : isNameChar c = true := by
  simp only [isNameStart, isNameChar, Char.isAlphanum, Bool.or_eq_true] at h ⊢
  exact h.imp_left .inl

/-- What may follow the leading dot of a directive. -/
def isDirectiveChar (c : Char) : Bool :=
  c == '.' || c == '-' || isNameChar c

/-- The text is a symbol name: a name start and then name characters only. -/
def isSymbol (text : String) : Bool :=
  match text.toList with
  | [] => false
  | c :: cs => isNameStart c && cs.all isNameChar

theorem isSymbol_iff {text : String} :
    isSymbol text = true ↔
      ∃ c cs, text.toList = c :: cs ∧ isNameStart c = true ∧ ∀ d ∈ cs, isNameChar d = true := by
  unfold isSymbol
  split
  · simp_all
  · next c cs h =>
    simp only [h, Bool.and_eq_true, List.all_eq_true, List.cons.injEq]
    exact ⟨fun ⟨hc, hcs⟩ => ⟨c, cs, ⟨rfl, rfl⟩, hc, hcs⟩,
      fun ⟨_, _, ⟨hc, hcs⟩, start, others⟩ => by subst hc hcs; exact ⟨start, others⟩⟩

theorem isNameChar_of_isSymbol {name : String} (h : isSymbol name = true) :
    ∀ c ∈ name.toList, isNameChar c = true := by
  obtain ⟨first, others, chars, start, all⟩ := isSymbol_iff.mp h
  rw [chars]
  exact List.forall_mem_cons.mpr ⟨isNameChar_of_isNameStart start, all⟩

/-- Lowers `A` to `Z` and keeps every other character. -/
def lowerCase (text : String) : String :=
  String.ofList (text.toList.map Char.toLower)

end HttpSuite
