import HttpSuite.Evaluation
import HttpSuite.Proofs.Lexing.Word
import HttpSuite.Proofs.Setters
import HttpSuite.Proofs.Template.Joining
import HttpSuite.Proofs.TokenMap

/-!
# Bodies of several parts

A body of several parts holds the templates of its parts one after the other, and evaluating it fills
the references that are found in the whole text. These are the references of the parts unless the
parts run together: a brace at the end of a text goes with the braces of the name after it, and two
texts can make a reference that neither has.

* `foldlM_appendBody`: what a body of several parts holds.
* `fill_bodyTemplate`: filling the joined templates of the parts joins what the parts resolve to.
* `body_joins_iff`: a body evaluates to what its parts do, in every scope that resolves the parts,
  exactly when the joined templates are found in its text.
-/

namespace HttpSuite

/-! ## Parts -/

/-- The texts that parts resolve to. -/
def partTexts (lookup : String → Option Token) (parts : List Token) :
    Except EvalCause (List String) :=
  parts.mapM fun part => return (← resolve lookup part).text

/-- Some scope resolves every part. -/
def Resolvable (parts : List Token) : Prop :=
  ∃ (a : Arena) (s : ScopeId) (texts : List String), partTexts (a.lookup? s) parts = .ok texts

/-- The templates of the parts, one after the other. -/
def bodyTemplate (parts : List Token) : Template :=
  .joined (parts.map fun part => .ofText part.template)

theorem toChars_bodyTemplate (parts : List Token) :
    (bodyTemplate parts).toChars = (String.join (parts.map Token.template)).toList := by
  simp [bodyTemplate, Template.toChars_joined, List.flatMap_map, Template.toChars_ofText]

/-! ## Names and numbers as templates -/

theorem isSpace_eq_false_of_isNameChar {c : Char} (h : isNameChar c = true) : isSpace c = false :=
  (isAscii_of_isNameChar h).check (P := fun c => isNameChar c = true → isSpace c = false)
    (by decide +kernel) h

theorem trim_eq_of_isSymbol {name : String} (h : isSymbol name = true) : trim name = name := by
  have chars : ∀ c ∈ name.toList, isSpace c = false := fun c mem =>
    isSpace_eq_false_of_isNameChar (isNameChar_of_isSymbol h c mem)
  rw [trim, trimChars_of_isSpace_eq_false, String.ofList_toList]
  · exact fun c mem => chars c (List.mem_of_mem_head? mem)
  · exact fun c mem => chars c (List.mem_of_mem_getLast? mem)

theorem isNameChar_of_isInteger {cs : List Char} (h : IsInteger cs) :
    ∀ c ∈ cs, isNameChar c = true := by
  have digit (radix : Radix) (c : Char) (hc : radix.isDigit c = true) : isNameChar c = true := by
    have all := (isAscii_of_radix hc).check
      (P := fun c => ∀ radix ∈ [Radix.octal, .decimal, .hexadecimal], radix.isDigit c = true →
        isNameChar c = true) (by decide +kernel)
    exact all radix (by cases radix <;> simp) hc
  cases h with
  | zero => simp; decide
  | octal _ digits => exact List.forall_mem_cons.mpr ⟨by decide, fun c mem => digit _ c (digits c mem)⟩
  | decimal first _ digits =>
    exact List.forall_mem_cons.mpr ⟨digit .decimal _ first, fun c mem => digit .decimal c (digits c mem)⟩
  | hexadecimal x _ digits =>
    refine List.forall_mem_cons.mpr ⟨by decide, List.forall_mem_cons.mpr ⟨?_, ?_⟩⟩
    · rcases x with rfl | rfl <;> decide
    · exact fun c mem => digit _ c (digits c mem)

section Interpolate

variable {lookup : String → Option Token}

/-- A name in double braces is filled by what it stands for. -/
theorem interpolate_reference {name : String} (h : isSymbol name = true) :
    interpolate lookup ("\x7b\x7b" ++ name ++ "\x7d\x7d") = do
      let token ← lookupSymbol lookup name
      return token.text := by
  have chars := isNameChar_of_isSymbol h
  have noBrace : '\x7d' ∉ name.toList := fun mem => absurd (chars _ mem) (by decide)
  have leftmost : (Template.cons ⟨[], name.toList⟩ ⟨[], []⟩).Leftmost :=
    (Template.leftmost_cons _ _).mpr ⟨⟨not_hasPair_singleton, not_hasPair_of_not_mem noBrace⟩,
      by simp, by simp [HasReference]⟩
  have split : Template.ofText ("\x7b\x7b" ++ name ++ "\x7d\x7d") =
      Template.cons ⟨[], name.toList⟩ ⟨[], []⟩ := by
    have found := Template.leftmost_iff.mp leftmost
    rw [Template.toChars_cons] at found
    simpa [Template.ofText, Template.toChars] using found
  have named : referenceName name = pure name := by
    rw [referenceName, trim_eq_of_isSymbol h]
    exact if_pos h
  have rest : Template.fill lookup ⟨[], []⟩ = pure "" := Template.fill_plain []
  rw [interpolate, split, Template.fill_cons, rest, Template.fillPiece, String.ofList_toList, named]
  simp only [pure_bind, bind_assoc, String.ofList_nil, String.empty_append, String.append_empty]

theorem interpolate_of_not_mem {text : String} (h : '\x7b' ∉ text.toList) :
    interpolate lookup text = .ok text := by
  have plain : ¬HasReference text.toList := by
    rintro ⟨inside, mem⟩
    exact h (mem.subset (by simp))
  rw [interpolate, Template.ofText, Template.ofCharsFrom_tail plain, List.reverse_nil,
    Template.fill_plain, String.ofList_toList]

/-- A part resolves to its filled template. -/
theorem resolve_text {part : Token} (lexical : part.word.Lexical) (value : part.kind.isValue = true) :
    (do return (← resolve lookup part).text) = interpolate lookup part.template := by
  obtain ⟨kind, text, span⟩ := part
  cases kind with
  | directive | assertEnd | none | unknown => cases value
  | symbol =>
    rw [Token.template, if_pos rfl]
    refine Eq.trans ?_ (interpolate_reference lexical).symm
    simp only [resolve, Token.word, bind_assoc, pure_bind]
  | integer =>
    have plain : '\x7b' ∉ text.toList := fun mem =>
      absurd (isNameChar_of_isInteger lexical _ mem) (by decide)
    exact (interpolate_of_not_mem plain).symm
  | string | shellCommand =>
    simp only [resolve, bind_assoc, pure_bind]
    exact bind_pure _

/-- Filling the joined templates of the parts joins what the parts resolve to. -/
theorem fill_bodyTemplate {parts : List Token} (lexical : ∀ part ∈ parts, part.word.Lexical)
    (value : ∀ part ∈ parts, part.kind.isValue = true) {text : String} :
    (bodyTemplate parts).fill lookup = .ok text ↔
      ∃ texts, partTexts lookup parts = .ok texts ∧ String.join texts = text := by
  have texts : partTexts lookup parts =
      (parts.map fun part => Template.ofText part.template).mapM (Template.fill lookup) := by
    rw [partTexts]
    induction parts with
    | nil => rfl
    | cons part parts ih =>
      obtain ⟨word, words⟩ := List.forall_mem_cons.mp lexical
      obtain ⟨here, later⟩ := List.forall_mem_cons.mp value
      rw [List.map_cons, List.mapM_cons, List.mapM_cons, ih words later, resolve_text word here]
      rfl
  rw [bodyTemplate, Template.fill_joined, ← texts]
  cases partTexts lookup parts with
  | error cause => simp [bind, Except.bind]
  | ok found => simp [bind, Except.bind, pure, Except.pure]

end Interpolate

/-! ## The body -/

theorem growBody_template {body part grown : Token} (h : growBody (some body) part = .ok grown) :
    grown.template = body.template ++ part.template := by
  have text : grown.text = body.template ++ part.template := joinBody_text h
  rcases growBody_kind h with kind | kind <;> simp [Token.template, kind, text]

/-- A body grows by the templates of the parts, and becomes a string or a shell command with the first
of them. -/
theorem foldlM_appendBody {record final : TestRecord} {body : Token} {parts : List Token}
    (set : record.request.body = some body)
    (accepted : parts.foldlM TestRecord.appendBody record = .ok final) :
    (∀ part ∈ parts, part.kind.isValue = true) ∧
      ∃ grown, final.request.body = some grown ∧
        grown.template = body.template ++ String.join (parts.map Token.template) ∧
        (parts ≠ [] → grown.kind = .string ∨ grown.kind = .shellCommand) := by
  induction parts generalizing record body with
  | nil =>
    cases accepted
    exact ⟨by simp, body, set, by simp, fun ne => absurd rfl ne⟩
  | cons part parts ih =>
    obtain ⟨value, grown, grows, accepted⟩ := TestRecord.foldlM_appendBody_cons.mp accepted
    rw [set] at grows
    obtain ⟨values, last, held, template, kind⟩ := ih (TestRecord.body_withBody record grown) accepted
    refine ⟨List.forall_mem_cons.mpr ⟨value, values⟩, last, held, ?_, fun _ => ?_⟩
    · rw [template, growBody_template grows, List.map_cons, String.join_cons, String.append_assoc]
    · cases parts with
      | nil =>
        cases accepted
        cases held
        exact growBody_kind grows
      | cons part' parts => exact kind (by simp)

/-- A body of two or more parts is a string or a shell command, and its text has the characters of the
joined templates. -/
theorem body_of_parts {record final : TestRecord} {parts : List Token}
    (unset : record.request.body = none) (several : 2 ≤ parts.length)
    (accepted : parts.foldlM TestRecord.appendBody record = .ok final) :
    (∀ part ∈ parts, part.kind.isValue = true) ∧
      ∃ body, final.request.body = some body ∧ (body.kind = .string ∨ body.kind = .shellCommand) ∧
        body.text.toList = (bodyTemplate parts).toChars := by
  match parts, several with
  | first :: second :: parts, _ =>
    obtain ⟨value, body, grows, accepted⟩ := TestRecord.foldlM_appendBody_cons.mp accepted
    rw [unset] at grows
    cases grows
    obtain ⟨values, body, held, template, kind⟩ :=
      foldlM_appendBody (TestRecord.body_withBody record first) accepted
    have kind := kind (by simp)
    refine ⟨List.forall_mem_cons.mpr ⟨value, values⟩, body, held, kind, ?_⟩
    have text : body.template = body.text := by
      rcases kind with kind | kind <;> simp [Token.template, kind]
    rw [toChars_bodyTemplate, List.map_cons, String.join_cons, ← text, template]

/-- A string or a shell command resolves to its filled text. -/
theorem resolve_eq_ok {lookup : String → Option Token} {body : Token} {text : String}
    (kind : body.kind = .string ∨ body.kind = .shellCommand) :
    (∃ token, resolve lookup body = .ok token ∧ token.text = text) ↔
      interpolate lookup body.text = .ok text := by
  have filled : resolve lookup body = do
      let text ← interpolate lookup body.text
      return body.withText text := by
    rcases kind with kind | kind <;> simp [resolve, kind]
  rw [filled]
  cases interpolate lookup body.text with
  | error cause => simp [bind, Except.bind]
  | ok text' => simp [bind, Except.bind, pure, Except.pure, Token.withText]

/-- A body of several parts evaluates to what the parts resolve to, in every scope that resolves them
on their own, exactly when the references of the parts are those that are found in its text. -/
theorem body_joins_iff {record final : TestRecord} {parts : List Token}
    (unset : record.request.body = none) (several : 2 ≤ parts.length)
    (lexical : ∀ part ∈ parts, part.word.Lexical)
    (accepted : parts.foldlM TestRecord.appendBody record = .ok final) :
    (∀ (a : Arena) (s : ScopeId) (texts : List String),
        partTexts (a.lookup? s) parts = .ok texts →
          ∃ body token, final.request.body = some body ∧ resolve (a.lookup? s) body = .ok token ∧
            token.text = String.join texts) ↔
      (Resolvable parts → (bodyTemplate parts).Leftmost) := by
  obtain ⟨values, body, held, kind, chars⟩ := body_of_parts unset several accepted
  have joined {lookup : String → Option Token} {text : String} :
      (bodyTemplate parts).fill lookup = .ok text ↔
        ∃ texts, partTexts lookup parts = .ok texts ∧ String.join texts = text :=
    fill_bodyTemplate lexical values
  constructor
  · rintro joins ⟨a, s, texts, resolved⟩
    -- In the scope where every name stands for a text longer than the body.
    let w := String.ofList (List.replicate ((bodyTemplate parts).toChars.length + 1) 'w')
    have long : (bodyTemplate parts).toChars.length < w.length := by simp [w]
    have lookup : (a.mapTokens (·.withText w)).lookup? s =
        fun name => (a.lookup? s name).map (·.withText w) := funext (Arena.lookup?_mapTokens _ a s)
    have all : ∀ name token, (a.mapTokens (·.withText w)).lookup? s name = some token →
        token.text = w := by
      intro name token bound
      rw [lookup] at bound
      obtain ⟨old, -, rfl⟩ := Option.map_eq_some_iff.mp bound
      rfl
    obtain ⟨text, filled⟩ := Template.fill_map_ok (·.withText w) (joined.mpr ⟨texts, resolved, rfl⟩)
    rw [← lookup] at filled
    obtain ⟨texts', resolved', rfl⟩ := joined.mp filled
    obtain ⟨body', token, held', eq, text⟩ := joins _ s texts' resolved'
    cases held.symm.trans held'
    have again := (resolve_eq_ok kind).mp ⟨token, eq, text⟩
    rw [interpolate, Template.ofText, chars] at again
    exact Template.leftmost_of_fill all long filled again
  · intro leftmost a s texts resolved
    have found := Template.leftmost_iff.mp (leftmost ⟨a, s, texts, resolved⟩)
    have filled : interpolate (a.lookup? s) body.text = .ok (String.join texts) := by
      rw [interpolate, Template.ofText, chars, found]
      exact joined.mpr ⟨texts, resolved, rfl⟩
    obtain ⟨token, eq, text⟩ := (resolve_eq_ok kind).mpr filled
    exact ⟨body, token, held, eq, text⟩

/-- A test without a body. -/
def bodiless : TestRecord := { name := "t", span := ⟨"in", 1⟩, scope := 0 }

/-- A string that ends in a blank after its brace, a name and a number. -/
def spacedParts : List Token :=
  [⟨.string, "\x7b ", ⟨"in", 1⟩⟩, ⟨.symbol, "X", ⟨"in", 1⟩⟩, ⟨.integer, "7", ⟨"in", 2⟩⟩]

theorem body_joins_iff_spaced :
    ∃ final, spacedParts.foldlM TestRecord.appendBody bodiless = .ok final ∧
      ∀ (a : Arena) (s : ScopeId) (texts : List String),
        partTexts (a.lookup? s) spacedParts = .ok texts →
          ∃ body token, final.request.body = some body ∧ resolve (a.lookup? s) body = .ok token ∧
            token.text = String.join texts := by
  have lexical : ∀ part ∈ spacedParts, part.word.Lexical := by
    simp only [spacedParts, List.forall_mem_cons, List.not_mem_nil]
    exact ⟨trivial, rfl, .decimal rfl (by decide) (by simp), by simp⟩
  have leftmost : (bodyTemplate spacedParts).Leftmost := Template.leftmost_iff.mpr (by decide +kernel)
  obtain ⟨final, accepted⟩ : ∃ final, spacedParts.foldlM TestRecord.appendBody bodiless = .ok final :=
    ⟨_, rfl⟩
  exact ⟨final, accepted, (body_joins_iff rfl (by decide) lexical accepted).mpr fun _ => leftmost⟩

/-- A scope in which `X` stands for `v`. -/
def bindsX : Arena :=
  (Arena.empty.create "global" none).bind 0 "X" ⟨.string, "v", ⟨"in", 1⟩⟩

/-- A brace and a name. -/
def bracedParts : List Token := [⟨.string, "\x7b", ⟨"in", 1⟩⟩, ⟨.symbol, "X", ⟨"in", 1⟩⟩]

/-- The reference that is found begins at the brace before the name. -/
theorem not_body_joins_braced :
    partTexts (bindsX.lookup? 0) bracedParts = .ok ["\x7b", "v"] ∧
      (bracedParts.foldlM TestRecord.appendBody bodiless).map (·.request.body) =
        .ok (some ⟨.string, "\x7b\x7b\x7bX\x7d\x7d", ⟨"in", 1⟩⟩) ∧
      resolve (bindsX.lookup? 0) ⟨.string, "\x7b\x7b\x7bX\x7d\x7d", ⟨"in", 1⟩⟩ =
        .error (.invalidReference "\x7bX") := by
  have found : Template.ofText "\x7b\x7b\x7bX\x7d\x7d" = ⟨[⟨[], ['\x7b', 'X']⟩], []⟩ := by decide +kernel
  refine ⟨?_, rfl, ?_⟩
  · simp only [partTexts, bracedParts, List.mapM_cons, List.mapM_nil]
    decide +kernel
  · rw [resolve, interpolate, found]
    rfl

end HttpSuite
