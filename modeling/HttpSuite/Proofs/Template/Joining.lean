import HttpSuite.Proofs.Template.Leftmost

/-!
# Filling templates one after the other

Templates one after the other make one template, in which the plain text at the end of the one and at
the beginning of the next runs together. Filling it puts the filled templates one after the other.

The joined template need not be the one that its text is taken apart into. Where it is not, the two
differ in the number of references, so a text that is long enough tells them apart.

* `fill_joined`: filling the joined template joins the filled ones.
* `braceless_of_fill`: no reference that can be filled has a brace inside.
* `leftmost_of_fill`: with long texts, only a leftmost template is filled like its characters.
-/

namespace HttpSuite

/-! ## Names in references -/

theorem isSpace_or_mem_trimChars {c : Char} {cs : List Char} (h : c ∈ cs) :
    isSpace c = true ∨ c ∈ trimChars cs := by
  have drop : ∀ ds : List Char, c ∈ ds → isSpace c = true ∨ c ∈ ds.dropWhile isSpace := by
    intro ds mem
    rw [← List.takeWhile_append_dropWhile (p := isSpace) (l := ds), List.mem_append] at mem
    exact mem.imp_left fun mem => List.all_eq_true.mp List.all_takeWhile c mem
  rcases drop cs h with space | mem
  · exact .inl space
  · rw [trimChars, List.mem_reverse]
    exact drop _ (List.mem_reverse.mpr mem)

/-- What can stand in a reference: white space and the characters of names. -/
theorem referenceName_chars {inside : List Char} {name : String}
    (h : referenceName (String.ofList inside) = .ok name) :
    ∀ c ∈ inside, isSpace c = true ∨ isNameChar c = true := by
  intro c mem
  rw [referenceName] at h
  split at h
  next symbol =>
    refine (isSpace_or_mem_trimChars mem).imp_right fun mem => isNameChar_of_isSymbol symbol c ?_
    rw [trim, String.toList_ofList, String.toList_ofList]
    exact mem
  · split at h <;> cases h

namespace Template

variable {lookup : String → Option Token} {t : Template} {text w : String}

/-! ## Filling, piece by piece -/

theorem fillPiece_eq_ok {piece : Piece} :
    fillPiece lookup piece = .ok text ↔
      ∃ name token, referenceName (String.ofList piece.inside) = .ok name ∧
        lookup name = some token ∧ text = String.ofList piece.plain ++ token.text := by
  unfold fillPiece lookupSymbol
  cases hn : referenceName (String.ofList piece.inside) with
  | error cause => simp [bind, Except.bind]
  | ok name =>
    cases hl : lookup name with
    | none => simp [hl, bind, Except.bind]
    | some token => simp [hl, bind, Except.bind, pure, Except.pure, eq_comm]

/-- A fold that puts texts one after the other finds all of them first. -/
private theorem foldlM_append (find : Piece → Except EvalCause String) (out : String)
    (pieces : List Piece) :
    pieces.foldlM (fun out piece => return out ++ (← find piece)) out = do
      let texts ← pieces.mapM find
      return out ++ String.join texts := by
  induction pieces generalizing out with
  | nil => simp
  | cons piece pieces ih =>
    rw [List.foldlM_cons, List.mapM_cons]
    simp only [bind_assoc, pure_bind, ih, String.join_cons, String.append_assoc]

theorem fill_eq (t : Template) :
    t.fill lookup = do
      let texts ← t.pieces.mapM (fillPiece lookup)
      return String.join texts ++ String.ofList t.tail := by
  rw [fill, foldlM_append]
  simp only [bind_assoc, pure_bind, String.empty_append]

@[simp] theorem fill_plain (tail : List Char) :
    fill lookup ⟨[], tail⟩ = .ok (String.ofList tail) := by
  rw [fill_eq, List.mapM_nil, pure_bind, String.join_nil, String.empty_append]
  rfl

theorem fill_cons (piece : Piece) (t : Template) :
    (t.cons piece).fill lookup = do
      let here ← fillPiece lookup piece
      let later ← t.fill lookup
      return here ++ later := by
  rw [fill_eq, fill_eq, pieces_cons, List.mapM_cons, cons]
  simp only [bind_assoc, pure_bind, String.join_cons, String.append_assoc]

theorem fill_cons_eq_ok {piece : Piece} :
    (t.cons piece).fill lookup = .ok text ↔
      ∃ here later, fillPiece lookup piece = .ok here ∧ t.fill lookup = .ok later ∧
        text = here ++ later := by
  rw [fill_cons]
  cases fillPiece lookup piece with
  | error cause => simp [bind, Except.bind]
  | ok here =>
    cases t.fill lookup with
    | error cause => simp [bind, Except.bind]
    | ok later => simp [bind, Except.bind, pure, Except.pure, eq_comm]

/-- No reference that can be filled has a brace inside. -/
theorem braceless_of_fill (h : t.fill lookup = .ok text) : t.Braceless := by
  induction t generalizing text with
  | plain tail => simp [Braceless]
  | cons piece t ih =>
    obtain ⟨here, later, first, rest, -⟩ := fill_cons_eq_ok.mp h
    obtain ⟨name, token, named, -⟩ := fillPiece_eq_ok.mp first
    have chars := referenceName_chars named
    refine (braceless_cons piece t).mpr ⟨⟨fun mem => ?_, fun mem => ?_⟩, ih rest⟩
    · exact absurd (chars _ mem) (by decide)
    · exact absurd (chars _ mem) (by decide)

/-- Which tokens names stand for makes no difference to whether a template can be filled. -/
theorem fill_map_ok (f : Token → Token) (h : t.fill lookup = .ok text) :
    ∃ text', t.fill (fun name => (lookup name).map f) = .ok text' := by
  induction t generalizing text with
  | plain tail => exact ⟨_, fill_plain tail⟩
  | cons piece t ih =>
    obtain ⟨here, later, first, rest, -⟩ := fill_cons_eq_ok.mp h
    obtain ⟨name, token, named, bound, -⟩ := fillPiece_eq_ok.mp first
    obtain ⟨later', rest'⟩ := ih rest
    have first' : fillPiece (fun name => (lookup name).map f) piece =
        .ok (String.ofList piece.plain ++ (f token).text) :=
      fillPiece_eq_ok.mpr ⟨name, f token, named, by simp [bound], rfl⟩
    exact ⟨_, fill_cons_eq_ok.mpr ⟨_, later', first', rest', rfl⟩⟩

/-! ## How long the filled text is -/

/-- If every name stands for the text `w`, the filled text has one `w` for each piece and, beside
them, at most the characters of the template. -/
theorem length_fill (all : ∀ name token, lookup name = some token → token.text = w)
    (h : t.fill lookup = .ok text) :
    t.pieces.length * w.length ≤ text.length ∧
      text.length ≤ t.pieces.length * w.length + t.toChars.length := by
  induction t generalizing text with
  | plain tail =>
    obtain rfl := Except.ok.inj ((fill_plain tail).symm.trans h)
    simp [toChars]
  | cons piece t ih =>
    obtain ⟨here, later, first, rest, rfl⟩ := fill_cons_eq_ok.mp h
    obtain ⟨name, token, -, bound, rfl⟩ := fillPiece_eq_ok.mp first
    have bounds := ih rest
    have len := all name token bound
    simp only [pieces_cons, List.length_cons, toChars_cons, List.length_append, Nat.succ_mul,
      String.length_append, String.length_ofList, len]
    omega

/-- With texts longer than the template, only a leftmost template is filled like its characters. -/
theorem leftmost_of_fill (all : ∀ name token, lookup name = some token → token.text = w)
    (long : t.toChars.length < w.length) (h : t.fill lookup = .ok text)
    (h' : (ofCharsFrom [] t.toChars).fill lookup = .ok text) : t.Leftmost := by
  have leftmost : (ofCharsFrom [] t.toChars).Leftmost := leftmost_ofCharsFrom (by simp)
  have same : t.toChars = (ofCharsFrom [] t.toChars).toChars := by
    rw [toChars_ofCharsFrom, List.reverse_nil, List.flatMap_nil, List.nil_append]
  rcases eq_or_pieces_length_lt leftmost (braceless_of_fill h') (braceless_of_fill h) same with
    eq | shorter
  · exact eq ▸ leftmost
  · -- One more `w` is longer than everything else in the other text.
    have upper := (length_fill all h).2
    have lower := (length_fill all h').1
    have more := Nat.mul_le_mul_right w.length (Nat.succ_le_of_lt shorter)
    rw [Nat.succ_mul] at more
    omega

/-! ## Joining -/

/-- A template with more plain text before it. -/
def withPlain (plain : List Char) (t : Template) : Template :=
  match t with
  | ⟨[], tail⟩ => ⟨[], plain ++ tail⟩
  | ⟨piece :: pieces, tail⟩ => ⟨{ piece with plain := plain ++ piece.plain } :: pieces, tail⟩

/-- Two templates, one after the other. -/
def append (first second : Template) : Template :=
  first.pieces.foldr cons (second.withPlain first.tail)

/-- Templates, one after the other. -/
def joined (ts : List Template) : Template := ts.foldr append ⟨[], []⟩

theorem toChars_withPlain (plain : List Char) (t : Template) :
    (t.withPlain plain).toChars = plain ++ t.toChars := by
  cases t with
  | plain tail => rfl
  | cons piece t => simp [withPlain, cons, toChars, Piece.toChars]

theorem fill_withPlain (plain : List Char) (t : Template) :
    (t.withPlain plain).fill lookup = do
      let text ← t.fill lookup
      return String.ofList plain ++ text := by
  cases t with
  | plain tail =>
    rw [withPlain, fill_plain, fill_plain, String.ofList_append]
    rfl
  | cons piece t =>
    have split : (t.cons piece).withPlain plain =
      t.cons { piece with plain := plain ++ piece.plain } := rfl
    rw [split, fill_cons, fill_cons, fillPiece, fillPiece]
    simp only [bind_assoc, pure_bind, String.ofList_append, String.append_assoc]

theorem toChars_append (first second : Template) :
    (first.append second).toChars = first.toChars ++ second.toChars := by
  induction first with
  | plain tail => exact toChars_withPlain tail second
  | cons piece first ih =>
    have step : (first.cons piece).append second = (first.append second).cons piece := rfl
    rw [step, toChars_cons, ih, toChars_cons]
    simp

theorem fill_append (first second : Template) :
    (first.append second).fill lookup = do
      let left ← first.fill lookup
      let right ← second.fill lookup
      return left ++ right := by
  induction first with
  | plain tail =>
    refine (fill_withPlain tail second).trans ?_
    rw [fill_plain]
    rfl
  | cons piece first ih =>
    have step : (first.cons piece).append second = (first.append second).cons piece := rfl
    rw [step, fill_cons, ih, fill_cons]
    simp only [bind_assoc, pure_bind, String.append_assoc]

theorem toChars_joined (ts : List Template) : (joined ts).toChars = ts.flatMap toChars := by
  induction ts with
  | nil => rfl
  | cons t ts ih =>
    have step : joined (t :: ts) = t.append (joined ts) := rfl
    rw [step, toChars_append, ih, List.flatMap_cons]

/-- Filling the joined template joins the filled ones. -/
theorem fill_joined (ts : List Template) :
    (joined ts).fill lookup = do
      let texts ← ts.mapM (fill lookup)
      return String.join texts := by
  induction ts with
  | nil =>
    rw [joined, List.foldr_nil, fill_plain, List.mapM_nil, pure_bind, String.join_nil]
    rfl
  | cons t ts ih =>
    have step : joined (t :: ts) = t.append (joined ts) := rfl
    rw [step, fill_append, ih, List.mapM_cons]
    simp only [bind_assoc, pure_bind, String.join_cons]

end Template

end HttpSuite
