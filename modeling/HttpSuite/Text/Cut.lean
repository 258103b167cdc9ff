/-!
# Cutting a text in two

* `cutChars_eq_some`: a cut is at the first place of the mark, and nothing but the mark is lost.
-/

namespace HttpSuite

/-- The characters before the first `mark` and those after it. -/
def cutChars (mark : Char) (cs : List Char) : Option (List Char × List Char) :=
  match cs.dropWhile (· != mark) with
  | [] => none
  | _ :: after => some (cs.takeWhile (· != mark), after)

/-- The text before the first `mark` and that after it. -/
def cut (mark : Char) (text : String) : Option (String × String) :=
  (cutChars mark text.toList).map fun (before, after) => (String.ofList before, String.ofList after)

theorem cutChars_eq_some {mark : Char} {cs before after : List Char} :
    cutChars mark cs = some (before, after) ↔ cs = before ++ mark :: after ∧ mark ∉ before := by
  unfold cutChars
  constructor
  · intro h
    have whole := @List.takeWhile_append_dropWhile _ (· != mark) cs
    have others := List.all_eq_true.mp (@List.all_takeWhile _ (· != mark) cs)
    have stopped := List.head?_dropWhile_not (· != mark) cs
    split at h
    · cases h
    · next c rest rest_eq =>
      cases h
      rw [rest_eq] at whole stopped
      have first : c = mark := by simpa using stopped
      exact ⟨(first ▸ whole).symm, fun mem => by simpa using others mark mem⟩
  · rintro ⟨rfl, absent⟩
    have other : ∀ c ∈ before, (c != mark) = true :=
      fun c hc => bne_iff_ne.mpr fun eq => absent (eq ▸ hc)
    rw [List.dropWhile_append_of_pos other, List.takeWhile_append_of_pos other]
    simp

end HttpSuite
