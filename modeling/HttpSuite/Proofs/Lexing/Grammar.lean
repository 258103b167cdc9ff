import HttpSuite.Proofs.Lexing.Spelled
import Mathlib.Data.List.TakeWhile

/-!
# The lexical grammar

The grammar says which stretches of text there are (`Segment.Begins`): blanks, comments and lexemes.
It says nothing of how they are found. A text is split from left to right, each segment being the
longest one that the rest of the text begins with (`Splits`), and its tokens are those of the segments
(`tokensOf`).

Whether a segment is the longest one can be seen from the characters behind it (`Segment.Stops`).

* `longest_of_stops`, `Longest.stops`: these characters decide.
-/

namespace HttpSuite

/-! ## Segments -/

/-- The kinds of stretches that a text is made of. -/
inductive SegmentKind where
  | blanks
  | comment
  | finish
  | directive
  | literal (delimiter : Delimiter)
  | integer
  | symbol
  deriving DecidableEq, Repr

namespace SegmentKind

/-- The kind of token that the segment makes, if it makes one. -/
def token? : SegmentKind → Option TokenKind
  | blanks | comment => none
  | finish => some .assertEnd
  | directive => some .directive
  | literal delimiter => some delimiter.kind
  | integer => some .integer
  | symbol => some .symbol

/-- The kind of the segments that start with `c`. -/
def ofOpening? (c : Char) : Option SegmentKind :=
  if isBlank c then some blanks
  else if c = '#' then some comment
  else if c = ';' then some finish
  else if c = '.' then some directive
  else if c = Delimiter.single.char then some (literal .single)
  else if c = Delimiter.double.char then some (literal .double)
  else if c = Delimiter.backtick.char then some (literal .backtick)
  else if c.isDigit then some integer
  else if isNameStart c then some symbol
  else none

end SegmentKind

/-- The characters after an opening quote, up to the last closing one, and the text that they stand
for. A backslash stands for the character after it. Where literals join, more of them may follow after
blanks, and their texts are put together. -/
inductive Closes (delimiter : Delimiter) : List Char → List Char → Prop
  | quote : Closes delimiter [delimiter.char] []
  | plain {c : Char} {cs text : List Char} :
      c ≠ delimiter.char → c ≠ '\\' → Closes delimiter cs text → Closes delimiter (c :: cs) (c :: text)
  | escaped {c : Char} {cs text : List Char} :
      Closes delimiter cs text → Closes delimiter ('\\' :: c :: cs) (c :: text)
  | joined {gap cs text : List Char} :
      delimiter.joins = true → (∀ c ∈ gap, isBlank c = true) → Closes delimiter cs text →
      Closes delimiter (delimiter.char :: (gap ++ delimiter.char :: cs)) text

/-- A stretch of text and what it stands for. -/
structure Segment where
  kind : SegmentKind
  chars : List Char
  text : List Char
  deriving DecidableEq

/-- A text begins with the segment, and `rest` is what follows. -/
inductive Segment.Begins : Segment → List Char → Prop
  | blanks {cs rest : List Char} :
      cs ≠ [] → (∀ c ∈ cs, isBlank c = true) → Begins ⟨.blanks, cs, cs⟩ rest
  | comment {cs rest : List Char} :
      '\n' ∉ cs → Begins ⟨.comment, '#' :: (cs ++ ['\n']), cs⟩ rest
  | lastComment {cs : List Char} : '\n' ∉ cs → Begins ⟨.comment, '#' :: cs, cs⟩ []
  | finish {rest : List Char} : Begins ⟨.finish, [';'], [';']⟩ rest
  | directive {name rest : List Char} :
      (∀ c ∈ name, isDirectiveChar c = true) → Begins ⟨.directive, '.' :: name, '.' :: name⟩ rest
  | literal {delimiter : Delimiter} {cs text rest : List Char} :
      Closes delimiter cs text → Begins ⟨.literal delimiter, delimiter.char :: cs, text⟩ rest
  | integer {cs rest : List Char} :
      IsInteger cs → OpensBlank rest → Begins ⟨.integer, cs, cs⟩ rest
  | symbol {c : Char} {cs rest : List Char} :
      isNameStart c = true → (∀ d ∈ cs, isNameChar d = true) → OpensBlank rest →
      Begins ⟨.symbol, c :: cs, c :: cs⟩ rest

/-- The text begins with no segment that is longer. -/
structure Segment.Longest (s : Segment) (rest : List Char) : Prop where
  begins : s.Begins rest
  length_le : ∀ (other : Segment) (rest' : List Char), other.chars ++ rest' = s.chars ++ rest →
    other.Begins rest' → other.chars.length ≤ s.chars.length

/-- A text split into segments, each as long as possible. -/
inductive Splits : List Char → List Segment → Prop
  | nil : Splits [] []
  | cons {s : Segment} {rest : List Char} {segments : List Segment} :
      s.Longest rest → Splits rest segments → Splits (s.chars ++ rest) (s :: segments)

/-- The tokens of segments, the first of which starts on `line`. -/
def tokensOf (source : String) (line : Nat) : List Segment → List Token
  | [] => []
  | s :: segments =>
    (s.kind.token?.map fun kind => ⟨kind, String.ofList s.text, ⟨source, line⟩⟩).toList ++
      tokensOf source (line + s.chars.count '\n') segments

/-! ## Openings -/

theorem ofOpening?_blank {c : Char} (h : isBlank c = true) :
    SegmentKind.ofOpening? c = some .blanks := if_pos h

theorem ofOpening?_quote (delimiter : Delimiter) :
    SegmentKind.ofOpening? delimiter.char = some (.literal delimiter) := by
  cases delimiter <;> decide

theorem ofOpening?_digit {c : Char} (h : c.isDigit = true) :
    SegmentKind.ofOpening? c = some .integer :=
  (isAscii_of_isDigit h).check
    (P := fun c => c.isDigit = true → SegmentKind.ofOpening? c = some .integer)
    (by decide +kernel) h

theorem ofOpening?_nameStart {c : Char} (h : isNameStart c = true) :
    SegmentKind.ofOpening? c = some .symbol :=
  (isAscii_of_isNameChar (isNameChar_of_isNameStart h)).check
    (P := fun c => isNameStart c = true → SegmentKind.ofOpening? c = some .symbol)
    (by decide +kernel) h

theorem IsInteger.opens {cs : List Char} (h : IsInteger cs) :
    ∃ c ds, cs = c :: ds ∧ c.isDigit = true := by
  cases h with
  | zero => exact ⟨'0', [], rfl, rfl⟩
  | octal _ _ => exact ⟨'0', _, rfl, rfl⟩
  | decimal digit _ _ => exact ⟨_, _, rfl, digit⟩
  | hexadecimal _ _ _ => exact ⟨'0', _, rfl, rfl⟩

namespace Segment

variable {s other : Segment} {rest rest' : List Char}

/-- The first character of a segment tells its kind. -/
theorem Begins.opens (h : s.Begins rest) :
    ∃ c cs, s.chars = c :: cs ∧ SegmentKind.ofOpening? c = some s.kind := by
  cases h with
  | @blanks cs _ ne blank =>
    obtain ⟨c, ds, rfl⟩ := List.exists_cons_of_ne_nil ne
    exact ⟨c, ds, rfl, ofOpening?_blank (blank c List.mem_cons_self)⟩
  | comment _ => exact ⟨_, _, rfl, rfl⟩
  | lastComment _ => exact ⟨_, _, rfl, rfl⟩
  | finish => exact ⟨_, _, rfl, rfl⟩
  | directive _ => exact ⟨_, _, rfl, rfl⟩
  | literal _ => exact ⟨_, _, rfl, ofOpening?_quote _⟩
  | integer digits _ =>
    obtain ⟨c, ds, rfl, digit⟩ := digits.opens
    exact ⟨c, ds, rfl, ofOpening?_digit digit⟩
  | symbol start _ _ => exact ⟨_, _, rfl, ofOpening?_nameStart start⟩

theorem Begins.kind_eq {c : Char} {cs : List Char} {kind : SegmentKind} (h : s.Begins rest)
    (chars : s.chars ++ rest = c :: cs) (opening : SegmentKind.ofOpening? c = some kind) :
    s.kind = kind := by
  obtain ⟨d, ds, spelled, opens⟩ := h.opens
  rw [spelled] at chars
  obtain rfl := (List.cons.inj chars).1
  exact Option.some.inj (opens.symm.trans opening)

/-- It is enough to compare a segment with those of its kind. -/
theorem longest_of_kind (h : s.Begins rest)
    (le : ∀ chars text rest', chars ++ rest' = s.chars ++ rest → Begins ⟨s.kind, chars, text⟩ rest' →
      chars.length ≤ s.chars.length) : s.Longest rest := by
  refine ⟨h, fun other rest' same h' => ?_⟩
  obtain ⟨c, cs, spelled, opens⟩ := h.opens
  have kind : other.kind = s.kind :=
    h'.kind_eq (same.trans (congrArg (· ++ rest) spelled)) opens
  exact le other.chars other.text rest' same (kind ▸ h')

end Segment

/-! ## Stretches of one class -/

section Stretch

variable {p : Char → Bool} {cs ds rest rest' : List Char}

/-- Characters of a class reach no further than to the first one that is not in it. -/
theorem length_le_of_all (all : ∀ c ∈ ds, p c = true) (stops : ∀ c ∈ rest.head?, p c = false)
    (same : ds ++ rest' = cs ++ rest) : ds.length ≤ cs.length := by
  rcases List.append_eq_append_iff.mp same with ⟨more, rfl, -⟩ | ⟨more, rfl, rfl⟩
  · simp
  · cases more with
    | nil => simp
    | cons c more =>
      have := stops c rfl
      rw [all c (by simp)] at this
      cases this

theorem eq_of_all (all : ∀ c ∈ ds, p c = true) (all' : ∀ c ∈ cs, p c = true)
    (stops : ∀ c ∈ rest.head?, p c = false) (stops' : ∀ c ∈ rest'.head?, p c = false)
    (same : ds ++ rest' = cs ++ rest) : ds = cs ∧ rest' = rest :=
  List.append_inj same (Nat.le_antisymm (length_le_of_all all stops same)
    (length_le_of_all all' stops' same.symm))

theorem dropWhile_append_stop (all : ∀ c ∈ cs, p c = true) (stops : ∀ c ∈ rest.head?, p c = false) :
    (cs ++ rest).dropWhile p = rest := by
  rw [List.dropWhile_append_of_pos all]
  cases rest with
  | nil => rfl
  | cons c rest => simp [stops c rfl]

theorem stops_dropWhile (p : Char → Bool) (cs : List Char) :
    ∀ c ∈ (cs.dropWhile p).head?, p c = false := by
  have head := List.head?_dropWhile_not p cs
  intro c hc
  rw [hc] at head
  exact head

/-- A text opens with a stretch of a class that stops. -/
theorem exists_stretch (p : Char → Bool) (cs : List Char) :
    ∃ ds rest, cs = ds ++ rest ∧ (∀ c ∈ ds, p c = true) ∧ ∀ c ∈ rest.head?, p c = false :=
  ⟨cs.takeWhile p, cs.dropWhile p, List.takeWhile_append_dropWhile.symm,
    fun _ hc => List.mem_takeWhile_imp hc, stops_dropWhile p cs⟩

end Stretch

/-! ## Literals -/

section Literal

variable {delimiter : Delimiter} {cs ds text other rest rest' gap : List Char}

theorem isBlank_quote (delimiter : Delimiter) : isBlank delimiter.char = false := by
  cases delimiter <;> decide

theorem quote_ne_backslash (delimiter : Delimiter) : delimiter.char ≠ '\\' := by
  cases delimiter <;> decide

/-- A literal that joins grows by the next one. -/
theorem Closes.join (h : Closes delimiter cs text) (joins : delimiter.joins = true)
    (blank : ∀ c ∈ gap, isBlank c = true) (h' : Closes delimiter ds other) :
    Closes delimiter (cs ++ (gap ++ delimiter.char :: ds)) (text ++ other) := by
  induction h with
  | quote => exact .joined joins blank h'
  | plain notQuote notBackslash _ ih => exact .plain notQuote notBackslash ih
  | escaped _ ih => exact .escaped ih
  | joined joins blank' _ ih =>
    rw [List.cons_append, List.append_assoc, List.cons_append]
    exact .joined joins blank' ih

/-- Behind blanks there is no quote with which a joining literal could go on. -/
def QuoteApart (delimiter : Delimiter) (rest : List Char) : Prop :=
  delimiter.joins = true → ∀ c ∈ (rest.dropWhile isBlank).head?, c ≠ delimiter.char

theorem not_quoteApart (joins : delimiter.joins = true) (blank : ∀ c ∈ gap, isBlank c = true) :
    ¬ QuoteApart delimiter (gap ++ delimiter.char :: rest) := by
  intro apart
  have stops : (gap ++ delimiter.char :: rest).dropWhile isBlank = delimiter.char :: rest :=
    dropWhile_append_stop blank (by simpa using isBlank_quote delimiter)
  exact apart joins delimiter.char (by rw [stops]; rfl) rfl

/-- What is not apart from the quotes goes on with blanks and one more quote. -/
theorem exists_gap_of_not_quoteApart (h : ¬ QuoteApart delimiter rest) :
    delimiter.joins = true ∧ ∃ gap more, rest = gap ++ delimiter.char :: more ∧
      ∀ c ∈ gap, isBlank c = true := by
  simp only [QuoteApart, Classical.not_imp, not_forall, Classical.not_not] at h
  obtain ⟨joins, c, hc, rfl⟩ := h
  obtain ⟨more, stops⟩ := List.head?_eq_some_iff.mp hc
  refine ⟨joins, rest.takeWhile isBlank, more, ?_, fun c hc => List.mem_takeWhile_imp hc⟩
  rw [← stops, List.takeWhile_append_dropWhile]

theorem Closes.length_le (h : Closes delimiter cs text) (apart : QuoteApart delimiter rest)
    (h' : Closes delimiter ds other) (same : ds ++ rest' = cs ++ rest) : ds.length ≤ cs.length := by
  have escape := quote_ne_backslash delimiter
  -- Over the first literal: it cannot end before the other one has.
  induction h generalizing ds other with
  | quote =>
    cases h' with
    | quote => exact Nat.le_refl _
    | plain notQuote _ _ => exact absurd (List.cons.inj same).1 notQuote
    | escaped _ => exact absurd (List.cons.inj same).1.symm escape
    | @joined gap more _ joins blank _ =>
      -- The other one goes on behind the quote, where no quote may follow.
      have follows : gap ++ delimiter.char :: (more ++ rest') = rest := by simpa using same
      exact absurd (follows ▸ apart) (not_quoteApart joins blank)
  | plain notQuote notBackslash _ ih =>
    cases h' with
    | quote => exact absurd (List.cons.inj same).1.symm notQuote
    | plain _ _ closes => exact Nat.succ_le_succ (ih closes (List.cons.inj same).2)
    | escaped _ => exact absurd (List.cons.inj same).1.symm notBackslash
    | joined _ _ _ => exact absurd (List.cons.inj same).1.symm notQuote
  | escaped _ ih =>
    cases h' with
    | quote => exact absurd (List.cons.inj same).1 escape
    | plain _ notBackslash _ => exact absurd (List.cons.inj same).1 notBackslash
    | escaped closes =>
      have tails := (List.cons.inj (List.cons.inj same).2).2
      exact Nat.succ_le_succ (Nat.succ_le_succ (ih closes tails))
    | joined _ _ _ => exact absurd (List.cons.inj same).1 escape
  | @joined gap cs text joins blank _ ih =>
    cases h' with
    | quote => exact Nat.succ_le_succ (Nat.zero_le _)
    | plain notQuote _ _ => exact absurd (List.cons.inj same).1 notQuote
    | escaped _ => exact absurd (List.cons.inj same).1.symm escape
    | @joined gap' ds _ _ blank' closes =>
      have stops : ∀ more : List Char, ∀ c ∈ (delimiter.char :: more).head?, isBlank c = false := by
        intro more c hc
        exact Option.some.inj hc ▸ isBlank_quote delimiter
      have tails : gap' ++ delimiter.char :: (ds ++ rest') = gap ++ delimiter.char :: (cs ++ rest) := by
        simpa using same
      -- Both go on, behind the same blanks.
      obtain ⟨rfl, opened⟩ := eq_of_all blank' blank (stops _) (stops _) tails
      have := ih closes (List.cons.inj opened).2
      simp only [List.length_cons, List.length_append]
      omega

end Literal

/-! ## The longest segment -/

namespace Segment

variable {s : Segment} {rest : List Char} {segments : List Segment}

/-- The characters behind a segment do not make it longer. -/
def Stops (s : Segment) (rest : List Char) : Prop :=
  match s.kind with
  | .blanks => ∀ c ∈ rest.head?, isBlank c = false
  | .directive => ∀ c ∈ rest.head?, isDirectiveChar c = false
  | .literal delimiter => QuoteApart delimiter rest
  | .comment | .finish | .integer | .symbol => True

theorem isBlank_of_isInteger {cs : List Char} (h : IsInteger cs) : ∀ c ∈ cs, isBlank c = false := by
  have digit (radix : Radix) (c : Char) (hc : radix.isDigit c = true) : isBlank c = false :=
    (isBlank_eq_false (isAscii_of_radix hc)).2 radix hc
  cases h with
  | zero => simp; decide
  | octal _ digits => exact List.forall_mem_cons.mpr ⟨by decide, fun c hc => digit _ c (digits c hc)⟩
  | decimal first _ digits =>
    exact List.forall_mem_cons.mpr ⟨digit .decimal _ first, fun c hc => digit .decimal c (digits c hc)⟩
  | hexadecimal x _ digits =>
    refine List.forall_mem_cons.mpr ⟨by decide, List.forall_mem_cons.mpr ⟨?_, ?_⟩⟩
    · rcases x with rfl | rfl <;> decide
    · exact fun c hc => digit _ c (digits c hc)

theorem isBlank_of_isNameChar {c : Char} (h : isNameChar c = true) : isBlank c = false :=
  (isBlank_eq_false (isAscii_of_isNameChar h)).1 (by simp [isDirectiveChar, h])

/-- What is followed by a blank or the end is as long as anything without blanks. -/
theorem length_le_of_opensBlank {cs ds rest' : List Char} (bounded : OpensBlank rest)
    (all : ∀ c ∈ ds, isBlank c = false) (same : ds ++ rest' = cs ++ rest) : ds.length ≤ cs.length :=
  length_le_of_all (p := fun c => !isBlank c) (by simpa using all)
    (fun c hc => by simp [bounded c hc]) same

theorem longest_of_stops (h : s.Begins rest) (stops : s.Stops rest) : s.Longest rest := by
  -- Only segments of one kind compete, as the first character tells the kind.
  refine longest_of_kind h fun chars text rest' same h' => ?_
  cases h with
  | blanks _ _ =>
    cases h' with
    | blanks _ all => exact length_le_of_all all stops same
  | @comment cs rest clean =>
    -- Neither has a line feed inside, so neither can pass that of the other.
    have before : ∀ ds more : List Char, '\n' ∉ ds → ds ++ more = cs ++ '\n' :: rest →
        ds.length ≤ cs.length := by
      intro ds more clean' same
      refine length_le_of_all (p := (· != '\n')) (fun c hc => ?_) (by simp) same
      simpa using fun eq : c = '\n' => clean' (eq ▸ hc)
    cases h' with
    | comment clean' =>
      have := before _ _ clean' (by simpa using same)
      simpa using this
    | lastComment clean' =>
      have := before _ [] clean' (by simpa using same)
      simp only [List.length_cons, List.length_append, List.length_nil]
      omega
  | lastComment _ =>
    have := congrArg List.length same
    rw [List.length_append, List.append_nil] at this
    omega
  | finish =>
    cases h' with
    | finish => exact Nat.le_refl _
  | directive _ =>
    cases h' with
    | directive all =>
      exact Nat.succ_le_succ (length_le_of_all all stops (List.cons.inj same).2)
  | @literal delimiter cs text _ closes =>
    generalize hk : SegmentKind.literal delimiter = kind at h'
    cases h' with
    | @literal delimiter' _ _ _ closes' =>
      cases hk
      exact Nat.succ_le_succ (closes.length_le stops closes' (List.cons.inj same).2)
    | _ => cases hk
  | integer _ bounded =>
    cases h' with
    | integer digits _ => exact length_le_of_opensBlank bounded (isBlank_of_isInteger digits) same
  | symbol _ _ bounded =>
    cases h' with
    | symbol start all _ =>
      refine length_le_of_opensBlank bounded (List.forall_mem_cons.mpr ⟨?_, ?_⟩) same
      · exact isBlank_of_isNameChar (isNameChar_of_isNameStart start)
      · exact fun c hc => isBlank_of_isNameChar (all c hc)

end Segment

/-- Behind the blanks that a split text opens with, a quote opens a literal that is closed. -/
theorem Splits.closes {delimiter : Delimiter} {cs gap more : List Char} {segments : List Segment}
    (h : Splits cs segments) (blank : ∀ c ∈ gap, isBlank c = true)
    (opens : cs = gap ++ delimiter.char :: more) :
    ∃ ds text rest, more = ds ++ rest ∧ Closes delimiter ds text := by
  induction h generalizing gap with
  | nil => simp at opens
  | @cons s rest segments longest _ ih =>
    have begins := longest.begins
    cases gap with
    | nil =>
      have kind := begins.kind_eq opens (ofOpening?_quote delimiter)
      obtain ⟨kind', chars, text⟩ := s
      obtain rfl : kind' = .literal delimiter := kind
      generalize hk : SegmentKind.literal delimiter = kind at begins
      cases begins with
      | @literal delimiter' ds _ _ closes =>
        cases hk
        exact ⟨ds, text, rest, (List.cons.inj opens).2.symm, closes⟩
      | _ => cases hk
    | cons c gap =>
      have kind := begins.kind_eq opens (ofOpening?_blank (blank c List.mem_cons_self))
      obtain ⟨kind', chars, text⟩ := s
      obtain rfl : kind' = .blanks := kind
      cases begins with
      | blanks ne all =>
        have within : chars.length ≤ (c :: gap).length :=
          length_le_of_all all (by simpa using isBlank_quote delimiter) opens
        rcases List.append_eq_append_iff.mp opens with ⟨left, eq, eq'⟩ | ⟨left, eq, eq'⟩
        · exact ih (fun d hd => blank d (eq ▸ List.mem_append_right _ hd)) eq'
        · have empty : left = [] := by
            have : chars.length = (c :: gap).length + left.length :=
              (congrArg List.length eq).trans List.length_append
            exact List.eq_nil_of_length_eq_zero (by omega)
          subst empty
          have none : ∀ c ∈ ([] : List Char), isBlank c = true := by simp
          exact ih none eq'.symm

/-- A segment that is the longest one stops, if the rest of the text is split too. -/
theorem Segment.Longest.stops {s : Segment} {rest : List Char} {segments : List Segment}
    (h : s.Longest rest) (splits : Splits rest segments) : s.Stops rest := by
  have le := h.length_le
  -- If it did not stop, a longer segment could be given that begins the text.
  cases h.begins with
  | @blanks cs _ ne all =>
    intro c hc
    apply Bool.eq_false_iff.mpr
    intro blank
    obtain ⟨rest, rfl⟩ := List.head?_eq_some_iff.mp hc
    have := le ⟨.blanks, cs ++ [c], cs ++ [c]⟩ rest (by simp)
      (.blanks (by simp) fun d hd => (List.mem_append.mp hd).elim (all d) fun hd =>
        List.mem_singleton.mp hd ▸ blank)
    rw [List.length_append] at this
    exact Nat.not_succ_le_self _ this
  | @directive name _ all =>
    intro c hc
    apply Bool.eq_false_iff.mpr
    intro good
    obtain ⟨rest, rfl⟩ := List.head?_eq_some_iff.mp hc
    have := le ⟨.directive, '.' :: (name ++ [c]), '.' :: (name ++ [c])⟩ rest (by simp)
      (.directive fun d hd => (List.mem_append.mp hd).elim (all d) fun hd =>
        List.mem_singleton.mp hd ▸ good)
    rw [List.length_cons, List.length_append] at this
    exact Nat.not_succ_le_self _ this
  | @literal delimiter cs text _ closes =>
    refine Classical.byContradiction fun together => ?_
    obtain ⟨joins, gap, more, rfl, blank⟩ := exists_gap_of_not_quoteApart together
    -- The rest is split too, so the quote behind the blanks opens a literal that is closed.
    obtain ⟨ds, text', rest', rfl, closes'⟩ := splits.closes blank rfl
    have := le ⟨.literal delimiter, delimiter.char :: (cs ++ (gap ++ delimiter.char :: ds)),
      text ++ text'⟩ rest' (by simp) (.literal (closes.join joins blank closes'))
    simp only [List.length_cons, List.length_append] at this
    omega
  | comment _ | lastComment _ | finish | integer _ _ | symbol _ _ _ => trivial

end HttpSuite
