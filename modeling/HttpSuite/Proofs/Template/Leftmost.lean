import HttpSuite.Template
import Mathlib.Data.List.Infix

/-!
# References are found leftmost first

Text is taken apart at the first pair of opening braces that is closed, and its reference ends at the
first pair of closing braces after that. A template whose pieces stand where they are found is
`Leftmost`, and only such a template comes back when its characters are taken apart.

Other templates of the same characters have fewer pieces, as long as no reference has a brace inside:
the leftmost one finds every reference of the other, or one in its plain text before it.

* `first_pair_cases`: where another pair can stand.
* `splitAtPair_append_pair`, `not_hasPair_of_splitAtPair`: what the split finds is the first pair.
* `leftmost_iff`: a template comes back from its characters exactly when it is leftmost.
* `eq_or_pieces_length_lt`: no other template of the same characters has as many pieces.
-/

namespace HttpSuite

/-! ## Pairs of marks -/

/-- Two `mark`s in a row are among the characters. -/
def HasPair (mark : Char) (cs : List Char) : Prop := [mark, mark] <:+: cs

instance (mark : Char) (cs : List Char) : Decidable (HasPair mark cs) :=
  inferInstanceAs (Decidable ([mark, mark] <:+: cs))

section Pairs

variable {mark c d : Char} {cs left right left' right' : List Char}

theorem HasPair.cons (h : HasPair mark cs) : HasPair mark (c :: cs) := List.infix_cons h

theorem hasPair_append_pair : HasPair mark (left ++ mark :: mark :: right) :=
  ⟨left, right, by simp⟩

theorem HasPair.append_left (h : HasPair mark right) : HasPair mark (left ++ right) :=
  List.infix_append_of_infix_right h

theorem hasPair_cons_cons :
    HasPair mark (c :: d :: cs) ↔ (c = mark ∧ d = mark) ∨ HasPair mark (d :: cs) := by
  unfold HasPair
  rw [List.infix_cons_iff, List.cons_prefix_cons, List.cons_prefix_cons]
  simp [eq_comm]

@[simp] theorem not_hasPair_singleton : ¬HasPair mark [c] := fun h => by
  simpa using h.length_le

/-- Characters without the mark have no pair of it, and get none by one mark after them. -/
theorem not_hasPair_of_not_mem (h : mark ∉ cs) : ¬HasPair mark (cs ++ [mark]) := by
  rintro ⟨left, right, eq⟩
  have count := congrArg (List.count mark) eq
  simp only [List.count_append, List.count_cons_self, List.count_nil,
    List.count_eq_zero.mpr h] at count
  omega

/-- One mark more makes a pair only with a mark before it. -/
theorem hasPair_concat : HasPair mark (cs ++ [mark]) ↔ HasPair mark cs ∨ cs.getLast? = some mark := by
  have last : [mark] ++ [mark] <:+ cs ++ [mark] ↔ cs.getLast? = some mark :=
    List.suffix_append_self_iff.trans List.singleton_suffix_iff_getLast?_eq_some
  exact (List.infix_concat_iff.trans (or_congr_left last)).trans or_comm

/-- Every pair is the first one, or shares a mark with it, or stands after it. -/
theorem first_pair_cases (first : ¬HasPair mark (left ++ [mark]))
    (eq : left ++ mark :: mark :: right = left' ++ mark :: mark :: right') :
    (left' = left ∧ right' = right) ∨ (left' = left ++ [mark] ∧ right = mark :: right') ∨
      ∃ gap, left' = left ++ mark :: mark :: gap ∧ right = gap ++ mark :: mark :: right' := by
  rcases List.append_eq_append_iff.mp eq with ⟨gap, hleft, hright⟩ | ⟨gap, hleft, hright⟩
  · match gap, hright with
    | [], hright =>
      cases hright
      exact .inl ⟨by simp [hleft], rfl⟩
    | [c], hright =>
      cases hright
      exact .inr (.inl ⟨hleft, rfl⟩)
    | c :: d :: gap, hright =>
      cases hright
      exact .inr (.inr ⟨gap, hleft, rfl⟩)
  · -- The other pair would begin before the first one.
    match gap, hright with
    | [], hright =>
      cases hright
      exact .inl ⟨by simp [hleft], rfl⟩
    | [c], hright =>
      cases hright
      exact absurd ⟨left', [], by simp [hleft]⟩ first
    | c :: d :: gap, hright =>
      cases hright
      exact absurd ⟨left', gap ++ [mark], by simp [hleft]⟩ first

/-! ## Splitting at a pair -/

theorem splitAtPair_seen (before : List Char) :
    splitAtPair mark before cs =
      (splitAtPair mark [] cs).map fun p => (before.reverse ++ p.1, p.2) := by
  induction cs generalizing before with
  | nil => rfl
  | cons c cs ih =>
    cases cs with
    | nil => rfl
    | cons d ds =>
      rw [splitAtPair, splitAtPair]
      split
      · simp
      · rw [ih, ih [c], Option.map_map]
        congr 1
        funext p
        simp

theorem splitAtPair_cons_cons :
    splitAtPair mark [] (c :: d :: cs) =
      if c = mark ∧ d = mark then some ([], cs)
      else (splitAtPair mark [] (d :: cs)).map fun p => (c :: p.1, p.2) := by
  rw [splitAtPair]
  split
  · rfl
  · rw [splitAtPair_seen]
    rfl

theorem splitAtPair_append_pair (first : ¬HasPair mark (left ++ [mark])) :
    splitAtPair mark [] (left ++ mark :: mark :: right) = some (left, right) := by
  induction left with
  | nil => simp [splitAtPair_cons_cons]
  | cons c left ih =>
    have rest := ih fun h => first h.cons
    cases left with
    | nil =>
      have ne : c ≠ mark := by simpa [hasPair_cons_cons] using first
      rw [List.nil_append] at rest
      rw [List.cons_append, List.nil_append, splitAtPair_cons_cons, if_neg (fun h => ne h.1), rest]
      rfl
    | cons d left =>
      have ne : ¬(c = mark ∧ d = mark) := fun h => first (hasPair_cons_cons.mpr (.inl h))
      rw [List.cons_append] at rest
      rw [List.cons_append, List.cons_append, splitAtPair_cons_cons, if_neg ne, rest]
      rfl

theorem splitAtPair_eq_none : splitAtPair mark [] cs = none ↔ ¬HasPair mark cs := by
  induction cs with
  | nil => simp [splitAtPair, HasPair]
  | cons c cs ih =>
    cases cs with
    | nil => simp [splitAtPair]
    | cons d ds =>
      rw [splitAtPair_cons_cons, hasPair_cons_cons, not_or, ← ih]
      split <;> simp [*]

theorem not_hasPair_of_splitAtPair (h : splitAtPair mark [] cs = some (left, right)) :
    ¬HasPair mark (left ++ [mark]) := by
  induction cs generalizing left with
  | nil => cases h
  | cons c cs ih =>
    cases cs with
    | nil => cases h
    | cons d ds =>
      rw [splitAtPair_cons_cons] at h
      split at h
      · cases h
        simp
      next ne =>
        obtain ⟨⟨before, after⟩, found, eq⟩ := Option.map_eq_some_iff.mp h
        cases eq
        have rest := ih found
        have whole : d :: ds = before ++ mark :: mark :: after := splitAtPair_append found
        -- The character after `c` is the first one of what is found in the rest.
        cases before with
        | nil =>
          cases whole
          simpa [hasPair_cons_cons] using ne
        | cons e before =>
          cases whole
          rw [List.cons_append, List.cons_append, hasPair_cons_cons, not_or]
          exact ⟨ne, rest⟩

end Pairs

/-! ## Templates as they are found -/

/-- A pair of opening braces and a pair of closing braces somewhere after it. -/
def HasReference (cs : List Char) : Prop :=
  ∃ inside, '\x7b' :: '\x7b' :: inside ++ ['\x7d', '\x7d'] <:+: cs

/-- The reference begins at the first pair of opening braces and ends at the first pair of closing
ones. -/
structure Piece.Leftmost (piece : Piece) : Prop where
  opens : ¬HasPair '\x7b' (piece.plain ++ ['\x7b'])
  closes : ¬HasPair '\x7d' (piece.inside ++ ['\x7d'])

/-- Every piece is where it is found, and there is no reference in the text at the end. -/
structure Template.Leftmost (t : Template) : Prop where
  pieces : ∀ piece ∈ t.pieces, piece.Leftmost
  tail : ¬HasReference t.tail

/-- No brace is inside the reference. -/
def Piece.Braceless (piece : Piece) : Prop := '\x7b' ∉ piece.inside ∧ '\x7d' ∉ piece.inside

theorem hasReference_iff {cs : List Char} :
    HasReference cs ↔ ∃ plain after, splitAtPair '\x7b' [] cs = some (plain, after) ∧
      HasPair '\x7d' after := by
  constructor
  · rintro ⟨inside, left, right, eq⟩
    have whole : cs = left ++ '\x7b' :: '\x7b' :: (inside ++ '\x7d' :: '\x7d' :: right) := by
      simp [← eq]
    cases found : splitAtPair '\x7b' [] cs with
    | none => exact absurd (whole ▸ hasPair_append_pair) (splitAtPair_eq_none.mp found)
    | some p =>
      obtain ⟨plain, after⟩ := p
      refine ⟨plain, after, rfl, ?_⟩
      have split : cs = plain ++ '\x7b' :: '\x7b' :: after := splitAtPair_append found
      rcases first_pair_cases (not_hasPair_of_splitAtPair found) (split.symm.trans whole) with
        ⟨-, rest⟩ | ⟨-, rest⟩ | ⟨gap, -, rest⟩
      · exact rest ▸ hasPair_append_pair
      · exact rest ▸ hasPair_append_pair.cons
      · exact rest ▸ (hasPair_append_pair.cons.cons).append_left
  · rintro ⟨plain, after, found, left, right, eq⟩
    refine ⟨left, plain, right, ?_⟩
    have split : cs = plain ++ '\x7b' :: '\x7b' :: after := splitAtPair_append found
    simp [split, ← eq]

namespace Template

/-- No reference has a brace inside. -/
def Braceless (t : Template) : Prop := ∀ piece ∈ t.pieces, piece.Braceless

/-- A template with one more piece before it. -/
def cons (piece : Piece) (t : Template) : Template := { t with pieces := piece :: t.pieces }

/-- A template is plain text, or a piece before another template. -/
@[elab_as_elim, induction_eliminator, cases_eliminator]
theorem induction {motive : Template → Prop} (plain : ∀ tail, motive ⟨[], tail⟩)
    (cons : ∀ piece t, motive t → motive (cons piece t)) (t : Template) : motive t := by
  obtain ⟨pieces, tail⟩ := t
  induction pieces with
  | nil => exact plain tail
  | cons piece pieces ih => exact cons piece ⟨pieces, tail⟩ ih

section Cons

variable (piece : Piece) (t : Template)

@[simp] theorem pieces_cons : (t.cons piece).pieces = piece :: t.pieces := rfl

theorem toChars_cons :
    (t.cons piece).toChars =
      piece.plain ++ '\x7b' :: '\x7b' :: (piece.inside ++ '\x7d' :: '\x7d' :: t.toChars) := by
  simp [cons, toChars, Piece.toChars]

theorem leftmost_cons : (t.cons piece).Leftmost ↔ piece.Leftmost ∧ t.Leftmost :=
  ⟨fun ⟨pieces, tail⟩ => ⟨(List.forall_mem_cons.mp pieces).1, (List.forall_mem_cons.mp pieces).2, tail⟩,
    fun ⟨here, pieces, tail⟩ => ⟨List.forall_mem_cons.mpr ⟨here, pieces⟩, tail⟩⟩

theorem braceless_cons : (t.cons piece).Braceless ↔ piece.Braceless ∧ t.Braceless :=
  List.forall_mem_cons

end Cons

theorem ofCharsFrom_tail {seen : List Piece} {cs : List Char} (h : ¬HasReference cs) :
    ofCharsFrom seen cs = ⟨seen.reverse, cs⟩ := by
  rw [ofCharsFrom]
  split
  · rfl
  next plain after found =>
    have closed : splitAtPair '\x7d' [] after = none :=
      splitAtPair_eq_none.mpr fun pair => h (hasReference_iff.mpr ⟨plain, after, found, pair⟩)
    split
    · rfl
    · simp_all

theorem ofCharsFrom_piece {seen : List Piece} {piece : Piece} (h : piece.Leftmost)
    (rest : List Char) :
    ofCharsFrom seen
        (piece.plain ++ '\x7b' :: '\x7b' :: (piece.inside ++ '\x7d' :: '\x7d' :: rest)) =
      ofCharsFrom (piece :: seen) rest := by
  conv => lhs; rw [ofCharsFrom]
  split
  next none => simp [splitAtPair_append_pair h.opens] at none
  next plain after found =>
    rw [splitAtPair_append_pair h.opens] at found
    cases found
    split
    next none => simp [splitAtPair_append_pair h.closes] at none
    next inside rest' found =>
      rw [splitAtPair_append_pair h.closes] at found
      cases found
      rfl

/-- A leftmost template comes back from its characters. -/
theorem ofCharsFrom_toChars {t : Template} (h : t.Leftmost) (seen : List Piece) :
    ofCharsFrom seen t.toChars = ⟨seen.reverse ++ t.pieces, t.tail⟩ := by
  induction t generalizing seen with
  | plain tail =>
    rw [List.append_nil]
    exact ofCharsFrom_tail h.tail
  | cons piece t ih =>
    obtain ⟨here, later⟩ := (leftmost_cons piece t).mp h
    rw [toChars_cons, ofCharsFrom_piece here, ih later]
    simp [cons]

theorem leftmost_ofCharsFrom {seen : List Piece} {cs : List Char}
    (h : ∀ piece ∈ seen, piece.Leftmost) : (ofCharsFrom seen cs).Leftmost := by
  fun_induction ofCharsFrom seen cs with
  | case1 seen cs none =>
    refine ⟨fun piece mem => h piece (List.mem_reverse.mp mem), ?_⟩
    intro reference
    obtain ⟨plain, after, found, -⟩ := hasReference_iff.mp reference
    simp [none] at found
  | case2 seen cs plain after found none =>
    refine ⟨fun piece mem => h piece (List.mem_reverse.mp mem), ?_⟩
    intro reference
    obtain ⟨plain', after', found', pair⟩ := hasReference_iff.mp reference
    rw [found] at found'
    cases found'
    exact splitAtPair_eq_none.mp none pair
  | case3 seen cs plain after found inside rest found' ih =>
    have here : Piece.Leftmost ⟨plain, inside⟩ :=
      ⟨not_hasPair_of_splitAtPair found, not_hasPair_of_splitAtPair found'⟩
    exact ih (List.forall_mem_cons.mpr ⟨here, h⟩)

/-- The leftmost templates are those that come back from their characters. -/
theorem leftmost_iff {t : Template} : t.Leftmost ↔ ofCharsFrom [] t.toChars = t := by
  constructor
  · intro h
    simpa using ofCharsFrom_toChars h []
  · intro h
    exact h ▸ leftmost_ofCharsFrom (by simp)

/-! ## Other templates of the same characters -/

/-- A reference that begins in the inside of another one, or after it, begins after it. -/
private theorem reference_after {inside gap rest inner : List Char} (braceless : '\x7b' ∉ inside)
    (eq : inside ++ '\x7d' :: '\x7d' :: rest = gap ++ '\x7b' :: '\x7b' :: inner) :
    ∃ plain, rest = plain ++ '\x7b' :: '\x7b' :: inner := by
  rcases List.append_eq_append_iff.mp eq with ⟨more, -, hrest⟩ | ⟨more, hinside, hinner⟩
  · match more, hrest with
    | [], hrest => cases hrest
    | [c], hrest => cases hrest
    | c :: d :: plain, hrest =>
      cases hrest
      exact ⟨plain, rfl⟩
  · match more, hinner with
    | [], hinner => cases hinner
    | c :: more, hinner =>
      obtain ⟨rfl, -⟩ := List.cons.inj hinner
      exact absurd (by simp [hinside]) braceless

private theorem inside_eq {inside inside' rest rest' : List Char}
    (first : ¬HasPair '\x7d' (inside ++ ['\x7d'])) (braceless : '\x7d' ∉ inside')
    (eq : inside ++ '\x7d' :: '\x7d' :: rest = inside' ++ '\x7d' :: '\x7d' :: rest') :
    inside' = inside ∧ rest' = rest := by
  rcases first_pair_cases first eq with same | ⟨hinside, -⟩ | ⟨gap, hinside, -⟩
  · exact same
  · exact absurd (by simp [hinside]) braceless
  · exact absurd (by simp [hinside]) braceless

section SameChars

variable {t d : Template}

/-- Of two templates of the same characters, the leftmost one begins with the piece of the other, or
with one that the other has in its plain text. -/
theorem first_piece {piece first : Piece} (leftmost : first.Leftmost)
    (hfirst : first.Braceless) (hpiece : piece.Braceless)
    (same : (t.cons piece).toChars = (d.cons first).toChars) :
    piece = first ∧ t.toChars = d.toChars ∨
      ∃ plain, (t.cons ⟨plain, piece.inside⟩).toChars = d.toChars := by
  have both := same.symm
  rw [toChars_cons, toChars_cons] at both
  rcases first_pair_cases leftmost.opens both with ⟨plain, eq⟩ | ⟨-, eq⟩ | ⟨gap, -, eq⟩
  · obtain ⟨inside, rest⟩ := inside_eq leftmost.closes hpiece.2 eq.symm
    exact .inl ⟨congr (congrArg Piece.mk plain) inside, rest⟩
  · -- Three braces in a row: the reference that is found has the third one inside.
    cases inner : first.inside with
    | nil => simp [inner] at eq
    | cons e inside =>
      rw [inner] at eq
      obtain ⟨rfl, -⟩ := List.cons.inj eq
      exact absurd (by simp [inner]) hfirst.1
  · obtain ⟨plain, rest⟩ := reference_after hfirst.1 eq
    exact .inr ⟨plain, by rw [rest, toChars_cons]⟩

/-- No other template of the same characters has as many pieces as the leftmost one. -/
theorem eq_or_pieces_length_lt (leftmost : d.Leftmost) (hd : d.Braceless) (ht : t.Braceless)
    (same : t.toChars = d.toChars) : t = d ∨ t.pieces.length < d.pieces.length := by
  induction d generalizing t with
  | plain tail =>
    cases t with
    | plain tail' => exact .inl (congrArg (Template.mk []) same)
    | cons piece t =>
      refine absurd ⟨piece.inside, piece.plain, t.toChars, ?_⟩ leftmost.tail
      rw [toChars_cons] at same
      simpa [toChars] using same
  | cons first d ih =>
    cases t with
    | plain tail => exact .inr (Nat.succ_pos _)
    | cons piece t =>
      obtain ⟨here, later⟩ := (leftmost_cons first d).mp leftmost
      obtain ⟨hfirst, found⟩ := (braceless_cons first d).mp hd
      obtain ⟨hpiece, others⟩ := (braceless_cons piece t).mp ht
      rcases first_piece here hfirst hpiece same with ⟨rfl, rest⟩ | ⟨plain, rest⟩
      · rcases ih later found others rest with eq | shorter
        · exact .inl (congrArg (cons piece) eq)
        · exact .inr (Nat.succ_lt_succ shorter)
      · -- What is left has a reference less, and still all those of the other template.
        have kept := (braceless_cons ⟨plain, piece.inside⟩ t).mpr ⟨hpiece, others⟩
        have fewer : t.pieces.length + 1 ≤ d.pieces.length := by
          rcases ih later found kept rest with eq | shorter
          · exact Nat.le_of_eq (congrArg (·.pieces.length) eq)
          · exact Nat.le_of_lt shorter
        right
        rw [pieces_cons, pieces_cons, List.length_cons, List.length_cons]
        omega

end SameChars

end Template

end HttpSuite
