import HttpSuite.Record

/-!
# What a setter does when it takes a value

Each setter either refuses its value or gives the record with one part of the request or of the response
changed. A body of a request that is there already grows by the new part.

* `setField_eq_ok`, `appendBody_eq_ok`, `setBody_eq_ok`, `setHeader_eq_ok`: when the request takes a
  value, and what the record is then.
* `setStatusCode_eq_ok`, `setResponseBody_eq_ok`, `setResponseHeader_eq_ok`: the same for the response.
* `foldlM_appendBody_cons`: parts of a body are appended one by one.
-/

namespace HttpSuite

/-- The body after one more part: the part itself if there was no body. -/
def growBody (body : Option Token) (part : Token) : Except RecordCause Token :=
  match body with
  | none => .ok part
  | some body => joinBody body part

theorem growBody_span {body : Option Token} {part grown : Token} (h : growBody body part = .ok grown) :
    grown.span = (body.getD part).span := by
  cases body with
  | none =>
    cases h
    rfl
  | some body =>
    simp only [growBody, joinBody] at h
    split at h
    · cases h
    · cases h
      rfl

/-- A body that has grown is a string or a shell command. -/
theorem growBody_kind {body part grown : Token} (h : growBody (some body) part = .ok grown) :
    grown.kind = .string ∨ grown.kind = .shellCommand := by
  simp only [growBody, joinBody] at h
  split at h
  · cases h
  · cases h
    dsimp only
    split
    · exact .inr rfl
    · exact .inl rfl

namespace TestRecord

variable {record next : TestRecord} {token : Token}

theorem setField_eq_ok {field : RequestField} :
    record.setField field token = .ok next ↔
      token.kind.isValue = true ∧
        next = { record with request := record.request.setField field token } := by
  unfold setField checkValue
  by_cases value : token.kind.isValue = true
  · simp [value, bind, Except.bind, pure, Except.pure, eq_comm]
  · simp [value, bind, Except.bind]

theorem appendBody_eq_ok :
    record.appendBody token = .ok next ↔
      token.kind.isValue = true ∧ ∃ body, growBody record.request.body token = .ok body ∧
        next = { record with request := record.request.setField .body body } := by
  unfold appendBody checkValue
  by_cases value : token.kind.isValue = true
  · cases hb : record.request.body with
    | none => simp [value, growBody, bind, Except.bind, pure, Except.pure, eq_comm]
    | some body =>
      cases hj : joinBody body token with
      | error cause => simp [value, growBody, hj, bind, Except.bind]
      | ok joined => simp [value, growBody, hj, bind, Except.bind, pure, Except.pure, eq_comm]
  · simp [value, bind, Except.bind]

/-- The record with this body. -/
def withBody (record : TestRecord) (body : Token) : TestRecord :=
  { record with request := record.request.setField .body body }

@[simp] theorem body_withBody (record : TestRecord) (body : Token) :
    (record.withBody body).request.body = some body := rfl

/-- Parts are appended if the first one is a value and can be joined to the body, and the others can
be appended then. -/
theorem foldlM_appendBody_cons {parts : List Token} :
    (token :: parts).foldlM appendBody record = .ok next ↔
      token.kind.isValue = true ∧ ∃ body, growBody record.request.body token = .ok body ∧
        parts.foldlM appendBody (record.withBody body) = .ok next := by
  rw [List.foldlM_cons]
  constructor
  · intro accepted
    cases appended : record.appendBody token with
    | error fault =>
      rw [appended] at accepted
      cases accepted
    | ok first =>
      rw [appended] at accepted
      obtain ⟨value, body, grows, rfl⟩ := appendBody_eq_ok.mp appended
      exact ⟨value, body, grows, accepted⟩
  · rintro ⟨value, body, grows, accepted⟩
    rw [appendBody_eq_ok.mpr ⟨value, body, grows, rfl⟩]
    exact accepted

theorem setHeader_eq_ok {name : String} :
    record.setHeader name token = .ok next ↔
      isHeaderName name = true ∧ token.kind.isValue = true ∧
        next = { record with
          request := { record.request with headers := record.request.headers.put ⟨name, token⟩ } } := by
  unfold setHeader checkValue
  by_cases named : isHeaderName name = true
  · by_cases value : token.kind.isValue = true
    · simp [named, value, bind, Except.bind, pure, Except.pure, eq_comm]
    · simp [named, value, bind, Except.bind]
  · simp [named, bind, Except.bind, throw, throwThe, MonadExceptOf.throw]

theorem setBody_eq_ok :
    record.setBody token = .ok next ↔
      record.request.body = none ∧ token.kind.isValue = true ∧ next = record.withBody token := by
  unfold setBody
  cases unset : record.request.body with
  | some body => simp
  | none =>
    simp only [Option.isSome_none, Bool.false_eq_true, if_false, appendBody_eq_ok, unset, growBody,
      Except.ok.injEq, exists_eq_left', true_and]
    rfl

theorem setStatusCode_eq_ok {code : String} :
    record.setStatusCode code = .ok next ↔
      ∃ n, readNatural? (trim code) = some n ∧ 100 ≤ n ∧ n ≤ 999 ∧
        next = { record with response := { record.response with statusCode := some n } } := by
  unfold setStatusCode
  split
  · next n found =>
    obtain ⟨read, bounds⟩ := Option.filter_eq_some_iff.mp found
    obtain ⟨low, high⟩ : 100 ≤ n ∧ n ≤ 999 := by simpa using bounds
    constructor
    · rintro ⟨⟩
      exact ⟨n, read, low, high, rfl⟩
    · rintro ⟨m, read', -, -, rfl⟩
      cases read.symm.trans read'
      rfl
  · next refused =>
    constructor
    · intro h
      cases h
    · rintro ⟨n, read, low, high, -⟩
      have beyond : 999 < n := by simpa [read, low] using refused
      omega

theorem setResponseBody_eq_ok {text : String} :
    record.setResponseBody text = .ok next ↔
      record.response.body = "" ∧
        next = { record with response := { record.response with body := text } } := by
  unfold setResponseBody
  split
  · next unset => simp [unset, eq_comm]
  · next set => simp [set]

theorem setResponseHeader_eq_ok {span : Span} {raw : String} :
    record.setResponseHeader span raw = .ok next ↔
      ∃ before after, cut ':' raw = some (before, after) ∧ isHeaderName (trim before) = true ∧
        next = { record with response := { record.response with
          headers := record.response.headers.put
            ⟨trim before, { kind := .string, text := trim after, span }⟩ } } := by
  unfold setResponseHeader
  cases found : cut ':' raw with
  | none => simp
  | some parts =>
    obtain ⟨before, after⟩ := parts
    by_cases named : isHeaderName (trim before) = true
    · simp only [if_pos named]
      constructor
      · rintro ⟨⟩
        exact ⟨before, after, rfl, named, rfl⟩
      · rintro ⟨_, _, ⟨⟩, -, rfl⟩
        rfl
    · simp [named]

end TestRecord

end HttpSuite
