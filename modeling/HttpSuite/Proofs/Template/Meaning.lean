import HttpSuite.Proofs.Template.Joining

/-!
# What a text with references stands for

A text divides in one way only into plain texts and references: every plain text before a reference
is as short as it can be, every reference is as short as it can be, and the plain text at the end has
no reference. Each reference then stands for the text of the token that its name is bound to, or is
refused for a reason of its own; the first one that is refused decides.

* `divides_iff`: the division of a text is the leftmost template of its characters.
* `fillPiece_eq_ok_iff`, `fillPiece_eq_error_iff`: what one reference stands for, or why it is
  refused.
* `fill_eq_ok_iff`, `fill_eq_error_iff`: the same for all references of a template.
* `interpolate_meaning`: what a text stands for in any scope.
-/

namespace HttpSuite

/-! ## What names are bound to -/

namespace Arena

/-- The nearest scope of the chain that binds the symbol binds it to this token. -/
def Binds (a : Arena) (s : ScopeId) (symbol : String) (token : Token) : Prop :=
  ∃ nearer d farther, a.chain s = nearer ++ d :: farther ∧ a.binding? d symbol = some token ∧
    ∀ e ∈ nearer, a.binding? e symbol = none

/-- No scope of the chain binds the symbol. -/
def Unbound (a : Arena) (s : ScopeId) (symbol : String) : Prop :=
  ∀ d ∈ a.chain s, a.binding? d symbol = none

theorem lookup?_eq_some {a : Arena} {s : ScopeId} {symbol : String} {token : Token} :
    a.lookup? s symbol = some token ↔ a.Binds s symbol token :=
  List.findSome?_eq_some_iff

theorem lookup?_eq_none {a : Arena} {s : ScopeId} {symbol : String} :
    a.lookup? s symbol = none ↔ a.Unbound s symbol :=
  List.findSome?_eq_none_iff

theorem unbound_iff {a : Arena} {s : ScopeId} {symbol : String} :
    a.Unbound s symbol ↔ ∀ token, ¬a.Binds s symbol token := by
  simp only [← lookup?_eq_none, ← lookup?_eq_some, Option.eq_none_iff_forall_ne_some, ne_eq]

end Arena

/-! ## References -/

/-- A call of this name: the name, and anything in brackets after it. -/
def IsCall (inner name : String) : Prop :=
  ∃ before arguments, inner.toList = before ++ '(' :: (arguments ++ [')']) ∧ '(' ∉ before ∧
    name = trim (String.ofList before) ∧ isSymbol name = true

theorem callName?_eq_some {inner name : String} : callName? inner = some name ↔ IsCall inner name := by
  unfold callName? cut
  constructor
  · intro h
    cases found : cutChars '(' inner.toList with
    | none => simp [found] at h
    | some p =>
      obtain ⟨before, after⟩ := p
      obtain ⟨whole, absent⟩ := cutChars_eq_some.mp found
      simp only [found, Option.map_some, Option.ite_none_right_eq_some, Bool.and_eq_true,
        beq_iff_eq, Option.some.injEq] at h
      obtain ⟨⟨symbol, last⟩, rfl⟩ := h
      rcases List.eq_nil_or_concat' after with rfl | ⟨arguments, c, rfl⟩
      · simp [whole] at last
      · have closed : c = ')' := by
          rw [whole, ← List.cons_append, ← List.append_assoc, List.getLast?_concat] at last
          exact Option.some.inj last
        exact ⟨before, arguments, closed ▸ whole, absent, rfl, symbol⟩
  · rintro ⟨before, arguments, whole, absent, rfl, symbol⟩
    have found : cutChars '(' inner.toList = some (before, arguments ++ [')']) :=
      cutChars_eq_some.mpr ⟨whole, absent⟩
    have last : inner.toList.getLast? = some ')' := by
      rw [whole, ← List.cons_append, ← List.append_assoc, List.getLast?_concat]
    simp [found, last, symbol]

theorem IsCall.isSymbol_eq_false {inner name : String} (h : IsCall inner name) :
    isSymbol inner = false := by
  obtain ⟨before, arguments, whole, -⟩ := h
  rw [← Bool.not_eq_true]
  intro symbol
  have bracket := isNameChar_of_isSymbol symbol '(' (by simp [whole])
  exact absurd bracket (by decide)

theorem referenceName_eq_ok {inside name : String} :
    referenceName inside = .ok name ↔ isSymbol (trim inside) = true ∧ trim inside = name := by
  rw [referenceName]
  split
  next symbol => simp [symbol]
  next symbol => split <;> simp [symbol]

theorem referenceName_eq_error {inside : String} {cause : EvalCause} :
    referenceName inside = .error cause ↔
      (∃ name, IsCall (trim inside) name ∧ .unsupportedCall name = cause) ∨
        isSymbol (trim inside) = false ∧ (∀ name, ¬IsCall (trim inside) name) ∧
          .invalidReference (trim inside) = cause := by
  simp only [← callName?_eq_some]
  rw [referenceName]
  split
  next symbol =>
    have uncalled : callName? (trim inside) = none := by
      rw [Option.eq_none_iff_forall_ne_some]
      intro name called
      simp [(callName?_eq_some.mp called).isSymbol_eq_false] at symbol
    simp [symbol, uncalled]
  next symbol =>
    split
    next name called => simp [called]
    next uncalled => simp [symbol, uncalled]

/-- What is in the braces, without the white space around it. -/
def Piece.inner (piece : Piece) : String := trim (String.ofList piece.inside)

namespace Arena

/-- The reference is a symbol name, and it is bound to this token. -/
structure Refers (a : Arena) (s : ScopeId) (piece : Piece) (token : Token) : Prop where
  symbol : isSymbol piece.inner = true
  bound : a.Binds s piece.inner token

/-- The reference stands for nothing, for this cause. -/
inductive Refuses (a : Arena) (s : ScopeId) (piece : Piece) : EvalCause → Prop where
  | undefined (symbol : isSymbol piece.inner = true) (unbound : a.Unbound s piece.inner) :
    Refuses a s piece (.undefinedSymbol piece.inner)
  | call {name : String} (call : IsCall piece.inner name) :
    Refuses a s piece (.unsupportedCall name)
  | invalid (symbol : isSymbol piece.inner = false) (call : ∀ name, ¬IsCall piece.inner name) :
    Refuses a s piece (.invalidReference piece.inner)

variable {a b : Arena} {s d : ScopeId} {piece : Piece} {cause : EvalCause}

theorem exists_refers :
    (∃ token, a.Refers s piece token) ↔ isSymbol piece.inner = true ∧ ¬a.Unbound s piece.inner := by
  rw [unbound_iff, not_forall_not]
  exact ⟨fun ⟨token, symbol, bound⟩ => ⟨symbol, token, bound⟩,
    fun ⟨symbol, token, bound⟩ => ⟨token, symbol, bound⟩⟩

theorem exists_refers_congr (same : ∀ symbol, a.Unbound s symbol ↔ b.Unbound d symbol) :
    (∃ token, a.Refers s piece token) ↔ ∃ token, b.Refers d piece token := by
  rw [exists_refers, exists_refers, same]

theorem Refuses.congr (same : ∀ symbol, a.Unbound s symbol ↔ b.Unbound d symbol)
    (h : a.Refuses s piece cause) : b.Refuses d piece cause := by
  cases h with
  | undefined symbol unbound => exact .undefined symbol ((same _).mp unbound)
  | call call => exact .call call
  | invalid symbol call => exact .invalid symbol call

theorem refuses_congr (same : ∀ symbol, a.Unbound s symbol ↔ b.Unbound d symbol) :
    a.Refuses s piece cause ↔ b.Refuses d piece cause :=
  ⟨.congr same, .congr fun symbol => (same symbol).symm⟩

end Arena

namespace Template

variable {a b : Arena} {s d : ScopeId} {piece : Piece} {t : Template} {text out : String}
  {cause : EvalCause}

theorem fillPiece_eq_ok_iff :
    fillPiece (a.lookup? s) piece = .ok text ↔
      ∃ token, a.Refers s piece token ∧ text = String.ofList piece.plain ++ token.text := by
  rw [fillPiece_eq_ok]
  constructor
  · rintro ⟨name, token, named, bound, rfl⟩
    obtain ⟨symbol, rfl⟩ := referenceName_eq_ok.mp named
    exact ⟨token, ⟨symbol, Arena.lookup?_eq_some.mp bound⟩, rfl⟩
  · rintro ⟨token, ⟨symbol, bound⟩, rfl⟩
    exact ⟨_, token, referenceName_eq_ok.mpr ⟨symbol, rfl⟩, Arena.lookup?_eq_some.mpr bound, rfl⟩

/-- A reference fails for its form, or for its name. -/
private theorem fillPiece_eq_error {lookup : String → Option Token} :
    fillPiece lookup piece = .error cause ↔
      referenceName (String.ofList piece.inside) = .error cause ∨
        ∃ name, referenceName (String.ofList piece.inside) = .ok name ∧
          lookup name = none ∧ .undefinedSymbol name = cause := by
  unfold fillPiece lookupSymbol
  cases referenceName (String.ofList piece.inside) with
  | error cause => simp [bind, Except.bind]
  | ok name => cases hl : lookup name <;> simp [hl, bind, Except.bind, pure, Except.pure]

theorem fillPiece_eq_error_iff :
    fillPiece (a.lookup? s) piece = .error cause ↔ a.Refuses s piece cause := by
  rw [fillPiece_eq_error, referenceName_eq_error]
  constructor
  · rintro ((⟨name, call, rfl⟩ | ⟨symbol, call, rfl⟩) | ⟨name, named, unbound, rfl⟩)
    · exact .call call
    · exact .invalid symbol call
    · obtain ⟨symbol, rfl⟩ := referenceName_eq_ok.mp named
      exact .undefined symbol (Arena.lookup?_eq_none.mp unbound)
  · intro refused
    cases refused with
    | undefined symbol unbound =>
      exact .inr ⟨_, referenceName_eq_ok.mpr ⟨symbol, rfl⟩, Arena.lookup?_eq_none.mpr unbound, rfl⟩
    | call call => exact .inl (.inl ⟨_, call, rfl⟩)
    | invalid symbol call => exact .inl (.inr ⟨symbol, call, rfl⟩)

/-! ## All references of a template -/

/-- The text of the template with the texts of these tokens in place of its references. -/
def withTokens (t : Template) (tokens : List Token) : String :=
  String.join (t.pieces.zipWith (fun piece token => String.ofList piece.plain ++ token.text) tokens) ++
    String.ofList t.tail

theorem fill_eq_ok_iff :
    t.fill (a.lookup? s) = .ok out ↔
      ∃ tokens, List.Forall₂ (a.Refers s) t.pieces tokens ∧ out = t.withTokens tokens := by
  induction t generalizing out with
  | plain tail =>
    rw [fill_plain]
    constructor
    · rintro ⟨⟩
      exact ⟨[], .nil, by simp [withTokens]⟩
    · rintro ⟨tokens, -, rfl⟩
      simp [withTokens]
  | cons piece t ih =>
    rw [fill_cons_eq_ok]
    constructor
    · rintro ⟨here, later, first, rest, rfl⟩
      obtain ⟨token, refers, rfl⟩ := fillPiece_eq_ok_iff.mp first
      obtain ⟨tokens, others, rfl⟩ := ih.mp rest
      exact ⟨token :: tokens, .cons refers others, by simp [withTokens, cons, String.append_assoc]⟩
    · rintro ⟨tokens, all, rfl⟩
      cases all with
      | @cons _ token _ tokens refers others =>
        exact ⟨_, _, fillPiece_eq_ok_iff.mpr ⟨token, refers, rfl⟩, ih.mpr ⟨tokens, others, rfl⟩,
          by simp [withTokens, cons, String.append_assoc]⟩

theorem fill_cons_eq_error {lookup : String → Option Token} :
    (t.cons piece).fill lookup = .error cause ↔
      fillPiece lookup piece = .error cause ∨
        (∃ here, fillPiece lookup piece = .ok here) ∧ t.fill lookup = .error cause := by
  rw [fill_cons]
  cases fillPiece lookup piece with
  | error cause => simp [bind, Except.bind]
  | ok here => cases t.fill lookup <;> simp [bind, Except.bind, pure, Except.pure]

theorem fill_eq_error_iff :
    t.fill (a.lookup? s) = .error cause ↔
      ∃ before piece after, t.pieces = before ++ piece :: after ∧
        (∀ earlier ∈ before, ∃ token, a.Refers s earlier token) ∧ a.Refuses s piece cause := by
  induction t with
  | plain tail => simp
  | cons first t ih =>
    rw [fill_cons_eq_error, fillPiece_eq_error_iff, ih]
    constructor
    · rintro (refused | ⟨⟨here, filled⟩, before, piece, after, split, earlier, refused⟩)
      · exact ⟨[], first, t.pieces, rfl, by simp, refused⟩
      · obtain ⟨token, refers, -⟩ := fillPiece_eq_ok_iff.mp filled
        exact ⟨first :: before, piece, after, by simp [split],
          List.forall_mem_cons.mpr ⟨⟨token, refers⟩, earlier⟩, refused⟩
    · rintro ⟨before, piece, after, split, earlier, refused⟩
      cases before with
      | nil =>
        obtain ⟨rfl, -⟩ := List.cons.inj split
        exact .inl refused
      | cons _ before =>
        obtain ⟨rfl, rest⟩ := List.cons.inj split
        obtain ⟨⟨token, refers⟩, earlier⟩ := List.forall_mem_cons.mp earlier
        exact .inr ⟨⟨_, fillPiece_eq_ok_iff.mpr ⟨token, refers, rfl⟩⟩,
          before, piece, after, rest, earlier, refused⟩

/-- Whether a template can be filled, and why not, depends on which symbols are bound, not on what
they are bound to. -/
theorem fill_congr (same : ∀ symbol, a.Unbound s symbol ↔ b.Unbound d symbol) :
    (t.fill (a.lookup? s)).map (fun _ => ()) = (t.fill (b.lookup? d)).map fun _ => () := by
  have faults : ∀ cause, t.fill (a.lookup? s) = .error cause ↔ t.fill (b.lookup? d) = .error cause := by
    intro cause
    simp only [fill_eq_error_iff, Arena.exists_refers_congr same, Arena.refuses_congr same]
  cases left : t.fill (a.lookup? s) with
  | error cause => rw [(faults cause).mp left]
  | ok text =>
    cases right : t.fill (b.lookup? d) with
    | error cause => simp [(faults cause).mpr right] at left
    | ok text => rfl

/-! ## The one division of a text -/

/-- The text divides into the pieces and the tail: no plain text before a reference and no reference
can end earlier, and nothing in the tail is a reference. -/
structure Divides (t : Template) (text : String) : Prop where
  chars : t.toChars = text.toList
  plains : ∀ piece ∈ t.pieces, ¬HasPair '\x7b' piece.plain ∧ piece.plain.getLast? ≠ some '\x7b'
  insides : ∀ piece ∈ t.pieces, ¬HasPair '\x7d' piece.inside ∧ piece.inside.getLast? ≠ some '\x7d'
  tail : ¬HasReference t.tail

theorem divides_iff : t.Divides text ↔ t.Leftmost ∧ t.toChars = text.toList := by
  constructor
  · rintro ⟨chars, plains, insides, tail⟩
    refine ⟨⟨fun piece mem => ⟨?_, ?_⟩, tail⟩, chars⟩
    · rw [hasPair_concat, not_or]
      exact plains piece mem
    · rw [hasPair_concat, not_or]
      exact insides piece mem
  · rintro ⟨⟨pieces, tail⟩, chars⟩
    refine ⟨chars, fun piece mem => ?_, fun piece mem => ?_, tail⟩
    · rw [← not_or, ← hasPair_concat]
      exact (pieces piece mem).opens
    · rw [← not_or, ← hasPair_concat]
      exact (pieces piece mem).closes

/-- A text divides in one way, the one that it is taken apart into. -/
theorem divides_iff_eq_ofText : t.Divides text ↔ t = ofText text := by
  rw [divides_iff]
  constructor
  · rintro ⟨leftmost, chars⟩
    rw [ofText, ← chars, leftmost_iff.mp leftmost]
  · rintro rfl
    exact ⟨leftmost_ofCharsFrom (by simp), toChars_ofText text⟩

-- Of three opening braces the first two open the reference, of three closing ones the first two close.
example : Divides ⟨[⟨['a'], ['\x7b', 'x']⟩], ['\x7d']⟩ "a\x7b\x7b\x7bx\x7d\x7d\x7d" where
  chars := rfl
  plains := by decide
  insides := by decide
  tail := fun ⟨_, reference⟩ => by simpa using reference.length_le

end Template

/-- Every text divides in one way into plain texts and references. In every scope it stands for the
plain texts with the texts of the bound tokens between them if every reference is a bound name; if
not, it is refused for the cause of the first reference that is not. So what the bound texts are, and
whether they have references themselves, makes no difference to what is refused. -/
theorem interpolate_meaning (text : String) :
    ∃ t : Template, t.Divides text ∧ (∀ other : Template, other.Divides text → other = t) ∧
      ∀ (a : Arena) (s : ScopeId),
        (∀ out, interpolate (a.lookup? s) text = .ok out ↔
          ∃ tokens, List.Forall₂ (a.Refers s) t.pieces tokens ∧ out = t.withTokens tokens) ∧
        (∀ cause, interpolate (a.lookup? s) text = .error cause ↔
          ∃ before piece after, t.pieces = before ++ piece :: after ∧
            (∀ earlier ∈ before, ∃ token, a.Refers s earlier token) ∧ a.Refuses s piece cause) ∧
        ∀ (b : Arena) (d : ScopeId), (∀ symbol, a.Unbound s symbol ↔ b.Unbound d symbol) →
          (interpolate (a.lookup? s) text).map (fun _ => ()) =
            (interpolate (b.lookup? d) text).map fun _ => () := by
  refine ⟨.ofText text, Template.divides_iff_eq_ofText.mpr rfl,
    fun other => Template.divides_iff_eq_ofText.mp, fun a s => ⟨fun out => ?_, fun cause => ?_, ?_⟩⟩
  · exact Template.fill_eq_ok_iff
  · exact Template.fill_eq_error_iff
  · exact fun b d same => Template.fill_congr same

end HttpSuite
