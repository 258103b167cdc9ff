import HttpSuite.Proofs.Setters
import HttpSuite.Suite

/-!
# Applying statements

`Suite.Applies` relates a suite to the one that statements make of it. A source is accepted exactly if
its script has no fault and all its statements can be applied.

* `applies_iff`: the relation is the function without a fault.
* `apply_cases`: what one statement can do.
* `parse_eq_ok`, `parse_eq_error`: what is accepted, and the result or the fault.
-/

namespace HttpSuite

/-- The statements can be applied one after the other, and lead from one suite to the other. -/
inductive Suite.Applies : Suite → List Statement → Suite → Prop
  | nil {suite : Suite} : suite.Applies [] suite
  | cons {suite next last : Suite} {statement : Statement} {statements : List Statement} :
      suite.apply statement = .ok next → next.Applies statements last →
      suite.Applies (statement :: statements) last

namespace Suite

variable {suite next last : Suite} {statements : List Statement}

theorem applies_iff : suite.Applies statements last ↔ suite.applyAll statements = (last, none) := by
  constructor
  · intro h
    induction h with
    | nil => rfl
    | cons ok _ ih =>
      rw [applyAll, ok]
      exact ih
  · intro h
    induction statements generalizing suite with
    | nil =>
      cases h
      exact .nil
    | cons statement statements ih =>
      rw [applyAll] at h
      split at h
      · next ok => exact .cons ok (ih h)
      · cases h

theorem Applies.append {more : List Statement} (h : suite.Applies statements next)
    (h' : next.Applies more last) : suite.Applies (statements ++ more) last := by
  induction h with
  | nil => exact h'
  | cons ok _ ih => exact .cons ok (ih h')

theorem setCurrent_eq_ok {result : Except RecordError TestRecord} :
    suite.setCurrent result = .ok next ↔
      ∃ current, result = .ok current ∧ next = { suite with current } := by
  cases result with
  | error error => simp [setCurrent]
  | ok current => simp [setCurrent, eq_comm]

/-- What a statement can do to a suite: start a test, bind a symbol, or change the request and the
assertions of the current record. -/
theorem apply_cases {statement : Statement} (ok : suite.apply statement = .ok next) :
    (∃ span name, statement = .test span name ∧ next = suite.startTest span name) ∨
      (∃ level symbol value,
        statement = .bind level symbol value ∧ next = suite.bind level symbol value) ∨
      ∃ request assertions,
        next = { suite with current := { suite.current with request, assertions } } := by
  cases statement with
  | test span name =>
    simp only [apply] at ok
    split at ok
    · cases ok
    · cases ok
      exact .inl ⟨span, name, rfl, rfl⟩
  | bind level symbol value =>
    cases ok
    exact .inr (.inl ⟨level, symbol, value, rfl, rfl⟩)
  | field f value =>
    cases f with
    | body =>
      -- A part joins the body; a value takes the place of any other field.
      obtain ⟨current, set, rfl⟩ := setCurrent_eq_ok.mp ok
      obtain ⟨-, grown, -, rfl⟩ := TestRecord.appendBody_eq_ok.mp set
      exact .inr (.inr ⟨_, _, rfl⟩)
    | method | uri | httpVersion =>
      obtain ⟨current, set, rfl⟩ := setCurrent_eq_ok.mp ok
      obtain ⟨-, rfl⟩ := TestRecord.setField_eq_ok.mp set
      exact .inr (.inr ⟨_, _, rfl⟩)
  | header name value =>
    obtain ⟨current, set, rfl⟩ := setCurrent_eq_ok.mp ok
    obtain ⟨-, -, rfl⟩ := TestRecord.setHeader_eq_ok.mp set
    exact .inr (.inr ⟨_, _, rfl⟩)
  | assertion assertion =>
    cases ok
    exact .inr (.inr ⟨_, _, rfl⟩)

end Suite

/-! ## Whole sources -/

theorem Script.applyTo_eq_none {script : Script} {start last : Suite} :
    script.applyTo start = (last, none) ↔
      script.fault = none ∧ start.Applies script.statements last := by
  rw [Suite.applies_iff, applyTo]
  cases h : start.applyAll script.statements with
  | mk suite error =>
    cases error with
    | some error => simp
    | none =>
      simp only [Prod.mk.injEq, Option.map_eq_none_iff, and_true]
      exact And.comm

theorem Arena.parse_eq_ok {a after : Arena} {scope : ScopeId} {source : String} {options : Options}
    {feed : Feed} {records : List TestRecord} :
    a.parse scope source options feed = (.ok records, after) ↔
      ∃ last, (Script.ofFeed feed).fault = none ∧
        (Suite.start a scope source options).Applies (Script.ofFeed feed).statements last ∧
        last.records = records ∧ last.arena = after := by
  unfold parse
  split <;> rename_i eq
  · obtain ⟨fault, applies⟩ := Script.applyTo_eq_none.mp eq
    constructor
    · intro h
      cases h
      exact ⟨_, fault, applies, rfl, rfl⟩
    · rintro ⟨last, -, applies', rfl, rfl⟩
      have same := Suite.applies_iff.mp applies
      rw [Suite.applies_iff.mp applies'] at same
      obtain ⟨rfl, -⟩ := Prod.mk.inj same
      rfl
  · constructor
    · intro h
      cases h
    · rintro ⟨last, fault, applies, -⟩
      rw [Script.applyTo_eq_none.mpr ⟨fault, applies⟩] at eq
      cases eq

theorem Arena.parse_eq_error {a : Arena} {scope : ScopeId} {source : String} {options : Options}
    {feed : Feed} {error : Error} :
    (a.parse scope source options feed).1 = .error error ↔
      ((Script.ofFeed feed).applyTo (Suite.start a scope source options)).2 = some error := by
  unfold parse
  split <;> rename_i eq <;> simp [eq]

end HttpSuite
