import HttpSuite.Assertion
import HttpSuite.Record.Request
import HttpSuite.Scope
import HttpSuite.Text.Blank
import HttpSuite.Text.Cut
import HttpSuite.Text.Numeral

/-!
# Test records

A record holds one test: its request, the response it expects, its assertions, and the scope of its
own symbols. Each setter gives the changed record or says why the value cannot be taken.

* `joinBody_text`: a body of several parts holds the templates of its parts, one after the other.
-/

namespace HttpSuite

/-- Why a record cannot take a value. -/
inductive RecordCause where
  | notAValue (kind : TokenKind)
  | invalidHeaderName (name : String)
  | malformedHeader (raw : String)
  | invalidStatusCode (code : String)
  | bodyAlreadySet
  | bodyKindMismatch (body appended : TokenKind)
  deriving DecidableEq, Repr

/-- The wording of the fault. -/
def RecordCause.message : RecordCause → String
  | notAValue kind => kind.name ++ " cannot be used as a value"
  | invalidHeaderName name => "invalid header name '" ++ name ++ "'"
  | malformedHeader raw => "malformed header '" ++ raw ++ "'"
  | invalidStatusCode code => "invalid status code '" ++ code ++ "'"
  | bodyAlreadySet => "body already set, use append"
  | bodyKindMismatch body appended =>
    "cannot append " ++ appended.name ++ " to " ++ body.name ++ " body"

/-- A value that a record cannot take, and its place. -/
abbrev RecordError := Located RecordCause

/-- One test. -/
structure TestRecord where
  name : String
  span : Span
  scope : ScopeId
  request : Request := {}
  response : Response := {}
  assertions : List Assertion := []
  deriving DecidableEq

/-! ## Bodies of several parts -/

/-- The text that a token contributes to a body of several parts: a bare name becomes a
reference. -/
def Token.template (token : Token) : String :=
  if token.kind = .symbol then "\x7b\x7b" ++ token.text ++ "\x7d\x7d" else token.text

/-- Joins one more part to a body. The result is a shell command if either part is one, and a
string otherwise; the two cannot be mixed. -/
def joinBody (body part : Token) : Except RecordCause Token :=
  let kinds := [body.kind, part.kind]
  if .string ∈ kinds ∧ .shellCommand ∈ kinds then
    .error (.bodyKindMismatch body.kind part.kind)
  else
    .ok {
      kind := if .shellCommand ∈ kinds then .shellCommand else .string
      text := body.template ++ part.template
      span := body.span }

theorem joinBody_text {body part joined : Token} (h : joinBody body part = .ok joined) :
    joined.text = body.template ++ part.template := by
  unfold joinBody at h
  dsimp only at h
  split at h
  · cases h
  · exact Except.ok.inj h ▸ rfl

namespace TestRecord

/-- A record with a new scope under `parent`, and the arena with that scope. -/
def create (a : Arena) (name : String) (span : Span) (parent : Option ScopeId) :
    TestRecord × Arena :=
  ({ name, span, scope := a.size }, a.create name parent)

/-- Changes the name of a record and of its scope. -/
def rename (record : TestRecord) (a : Arena) (name : String) : TestRecord × Arena :=
  ({ record with name }, a.rename record.scope name)

/-! ## Setters of the request -/

/-- Refuses a token that cannot stand as a value. -/
def checkValue (token : Token) : Except RecordError Unit :=
  if token.kind.isValue then .ok () else .error ⟨.notAValue token.kind, token.span⟩

/-- Sets a field, whatever it held. -/
def setField (record : TestRecord) (field : RequestField) (token : Token) :
    Except RecordError TestRecord := do
  checkValue token
  return { record with request := record.request.setField field token }

/-- Joins one more part to the body. The first part is kept as it is. -/
def appendBody (record : TestRecord) (part : Token) : Except RecordError TestRecord := do
  checkValue part
  match record.request.body with
  | none => return { record with request := record.request.setField .body part }
  | some body =>
    match joinBody body part with
    | .error cause => .error ⟨cause, part.span⟩
    | .ok body => return { record with request := record.request.setField .body body }

/-- Sets the body of a record that has none. -/
def setBody (record : TestRecord) (body : Token) : Except RecordError TestRecord :=
  if record.request.body.isSome then .error ⟨.bodyAlreadySet, body.span⟩
  else record.appendBody body

/-- Sets a request header in the stead of one of the same name. -/
def setHeader (record : TestRecord) (name : String) (value : Token) :
    Except RecordError TestRecord := do
  unless isHeaderName name do
    throw ⟨.invalidHeaderName name, value.span⟩
  checkValue value
  return { record with
    request := { record.request with headers := record.request.headers.put ⟨name, value⟩ } }

/-- Gives the request header under `key` another text; without such a header nothing changes. -/
def setHeaderText (record : TestRecord) (key text : String) : TestRecord :=
  match record.request.headers.get? key with
  | none => record
  | some header =>
    let header := { header with value := header.value.withText text }
    { record with
      request := { record.request with headers := record.request.headers.insert key header } }

/-! ## Setters of the response -/

/-- Sets the HTTP version of the response. -/
def setResponseHttpVersion (record : TestRecord) (version : String) : TestRecord :=
  { record with response := { record.response with httpVersion := some version } }

/-- Sets the status code, a number of three digits that white space may surround. -/
def setStatusCode (record : TestRecord) (code : String) : Except RecordError TestRecord :=
  match (readNatural? (trim code)).filter fun n => 100 ≤ n && n ≤ 999 with
  | some n => .ok { record with response := { record.response with statusCode := some n } }
  | none => .error ⟨.invalidStatusCode code, record.span⟩

/-- Sets the reason phrase of the response. -/
def setReason (record : TestRecord) (reason : String) : TestRecord :=
  { record with response := { record.response with reason := some reason } }

/-- Adds text to the body of the response. -/
def appendResponseBody (record : TestRecord) (text : String) : TestRecord :=
  { record with response := { record.response with body := record.response.body ++ text } }

/-- Sets the body of a response that has none. -/
def setResponseBody (record : TestRecord) (text : String) : Except RecordError TestRecord :=
  if record.response.body = "" then
    .ok { record with response := { record.response with body := text } }
  else .error ⟨.bodyAlreadySet, record.span⟩

/-- Sets a response header from a line of a response: a name, a colon and a value. -/
def setResponseHeader (record : TestRecord) (span : Span) (raw : String) :
    Except RecordError TestRecord :=
  match cut ':' raw with
  | none => .error ⟨.malformedHeader raw, span⟩
  | some (before, after) =>
    let name := trim before
    if isHeaderName name then
      let header := ⟨name, { kind := .string, text := trim after, span }⟩
      .ok { record with
        response := { record.response with headers := record.response.headers.put header } }
    else .error ⟨.invalidHeaderName name, span⟩

/-! ## Reading a record -/

/-- The text of a request field. -/
def fieldText? (record : TestRecord) (field : RequestField) : Option String :=
  (record.request.field? field).map (·.text)

/-- The text of a request header, found without regard to case. -/
def headerText? (record : TestRecord) (name : String) : Option String :=
  (record.request.headers.find? name).map (·.value.text)

/-- The text of a response header, found without regard to case. -/
def responseHeaderText? (record : TestRecord) (name : String) : Option String :=
  (record.response.headers.find? name).map (·.value.text)

end TestRecord

end HttpSuite
