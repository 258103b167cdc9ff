import HttpSuite.Record.Draft

/-!
# Setters in place

A setter that changes a record in place makes its checks and its writes one after the other, and a
write that was made stays when a later check fails. Each setter here is the sequence of these steps.

* `Setter.call`: the setter as a function from records to records.
* `Setter.update`: the same setter, step by step.
* `Update.all`: setters in order, up to the first fault.
-/

namespace HttpSuite

/-- Steps on a record. A fault ends them; what was written before it stays. -/
abbrev Update := EStateM RecordError TestRecord Unit

namespace Update

/-- Refuses a token that cannot stand as a value. -/
def checkValue (token : Token) : Update := do
  unless token.kind.isValue do
    throw ⟨.notAValue token.kind, token.span⟩

/-- Changes the request. -/
def onRequest (f : Request → Request) : Update :=
  modify fun record => { record with request := f record.request }

/-- Changes the response. -/
def onResponse (f : Response → Response) : Update :=
  modify fun record => { record with response := f record.response }

/-- Changes the body, if there is one. -/
def onBody (f : Token → Token) : Update :=
  onRequest fun request => { request with body := request.body.map f }

/-- Sets a field, whatever it held. -/
def setField (field : RequestField) (token : Token) : Update := do
  checkValue token
  onRequest (·.setField field token)

/-- Turns the body into a template if it gets another kind: first its text, then its kind. -/
def turnBody (body : Token) (kind : TokenKind) : Update := do
  if body.kind ≠ kind then
    onBody fun body => body.withText body.template
    onBody fun body => { body with kind }

/-- Adds a part to a body of this kind. -/
def addPart (kind : TokenKind) (part : Token) : Update :=
  if part.kind = kind then onBody (·.append part)
  else onBody fun body => body.withText (body.text ++ part.template)

/-- Joins one more part to the body. The first part is kept as it is. -/
def appendBody (part : Token) : Update := do
  checkValue part
  match (← get).request.body with
  | none => onRequest (·.setField .body part)
  | some body =>
    let kinds := [body.kind, part.kind]
    if .string ∈ kinds ∧ .shellCommand ∈ kinds then
      throw ⟨.bodyKindMismatch body.kind part.kind, part.span⟩
    let kind := if .shellCommand ∈ kinds then .shellCommand else .string
    turnBody body kind
    addPart kind part

/-- Sets the body of a record that has none. -/
def setBody (body : Token) : Update := do
  if (← get).request.body.isSome then
    throw ⟨.bodyAlreadySet, body.span⟩
  appendBody body

/-- Sets a request header in the stead of one of the same name. -/
def setHeader (name : String) (value : Token) : Update := do
  unless isHeaderName name do
    throw ⟨.invalidHeaderName name, value.span⟩
  checkValue value
  onRequest fun request => { request with headers := request.headers.put ⟨name, value⟩ }

/-- Sets the status code. -/
def setStatusCode (code : String) : Update := do
  match (readNatural? (trim code)).filter fun n => 100 ≤ n && n ≤ 999 with
  | some n => onResponse fun response => { response with statusCode := some n }
  | none => throw ⟨.invalidStatusCode code, (← get).span⟩

/-- Sets the body of a response that has none. -/
def setResponseBody (text : String) : Update := do
  if (← get).response.body ≠ "" then
    throw ⟨.bodyAlreadySet, (← get).span⟩
  onResponse fun response => { response with body := text }

/-- Sets a response header from a line of a response. -/
def setResponseHeader (span : Span) (raw : String) : Update := do
  match cut ':' raw with
  | none => throw ⟨.malformedHeader raw, span⟩
  | some (before, after) =>
    let name := trim before
    unless isHeaderName name do
      throw ⟨.invalidHeaderName name, span⟩
    let header := ⟨name, { kind := .string, text := trim after, span }⟩
    onResponse fun response => { response with headers := response.headers.put header }

end Update

/-- A setter with its arguments. -/
inductive Setter where
  | field (field : RequestField) (token : Token)
  | body (body : Token)
  | appendBody (part : Token)
  | header (name : String) (value : Token)
  | responseHttpVersion (version : String)
  | statusCode (code : String)
  | reason (phrase : String)
  | responseBody (text : String)
  | appendResponseBody (text : String)
  | responseHeader (span : Span) (raw : String)

namespace Setter

/-- The changed record, or why the value cannot be taken. -/
def call (setter : Setter) (record : TestRecord) : Except RecordError TestRecord :=
  match setter with
  | field f token => record.setField f token
  | body token => record.setBody token
  | appendBody part => record.appendBody part
  | header name value => record.setHeader name value
  | responseHttpVersion version => .ok (record.setResponseHttpVersion version)
  | statusCode code => record.setStatusCode code
  | reason phrase => .ok (record.setReason phrase)
  | responseBody text => record.setResponseBody text
  | appendResponseBody text => .ok (record.appendResponseBody text)
  | responseHeader span raw => record.setResponseHeader span raw

/-- The setter in place. -/
def update : Setter → Update
  | field f token => .setField f token
  | body token => .setBody token
  | appendBody part => .appendBody part
  | header name value => .setHeader name value
  | responseHttpVersion version => .onResponse fun response => { response with httpVersion := some version }
  | statusCode code => .setStatusCode code
  | reason phrase => .onResponse fun response => { response with reason := some phrase }
  | responseBody text => .setResponseBody text
  | appendResponseBody text => .onResponse fun response => { response with body := response.body ++ text }
  | responseHeader span raw => .setResponseHeader span raw

/-- The setter that puts a token into a field; a body grows by it. -/
def putField (f : RequestField) (token : Token) : Setter :=
  match f with
  | .body => appendBody token
  | .method | .uri | .httpVersion => field f token

end Setter

/-- Calls the setters in order, up to the first fault. -/
def Update.all (setters : List Setter) : Update :=
  forM setters Setter.update

/-- The setter that an edit calls on a record at this place. -/
def Edit.setter (span : Span) : Edit → Setter
  | .field f token => .putField f token
  | .text f value => .putField f { kind := .string, text := value, span }
  | .header name value => .header name { kind := .string, text := value, span }
  | .statusCode code => .statusCode code
  | .reason phrase => .reason phrase
  | .responseBody more => .appendResponseBody more
  | .responseHeader raw => .responseHeader span raw

end HttpSuite
