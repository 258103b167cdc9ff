import HttpSuite.Evaluation
import HttpSuite.Record.InPlace

/-!
# Headers as they are stored

A record stores a header in four parts: its name and its value, and with them its place and the text that
is sent. `Header` makes the last two from the first two. Here all four are stored, and whoever writes a
header writes each of them: a setter makes a new header, a change of text changes the value and then the
text that is sent, and an evaluation makes every header anew.

* `Change`: what can be done to a record.
* `TestRecord.change`: the record after a change.
* `StoredHeaders.change`: the stored headers of the record after it.
-/

namespace HttpSuite

/-- A header with its place and with the text that is sent. -/
structure StoredHeader where
  span : Span
  name : String
  value : Token
  raw : String
  deriving DecidableEq

namespace StoredHeader

/-- A new header. -/
def make (name : String) (value : Token) : StoredHeader where
  span := value.span
  name := name
  value := value
  raw := name ++ ": " ++ value.text

/-- The header with another text: the value is changed, and then what is sent. -/
def setText (header : StoredHeader) (text : String) : StoredHeader :=
  let header := { header with value := header.value.withText text }
  { header with raw := header.name ++ ": " ++ header.value.text }

end StoredHeader

/-- The headers of a record by lower-case name. -/
structure StoredHeaders where
  request : KeyMap StoredHeader := .empty
  response : KeyMap StoredHeader := .empty
  deriving DecidableEq

/-! ## Changes -/

/-- What can be done to a record. -/
inductive Change where
  | set (setter : Setter)
  /-- Another text for a stored request header. -/
  | headerText (key text : String)
  | evaluate (a : Arena)

/-- The record after a change. A setter that refuses its value changes nothing; an evaluation that fails
has replaced what comes before the failure. -/
def TestRecord.change (record : TestRecord) : Change → TestRecord
  | .set setter =>
    match setter.call record with
    | .ok next => next
    | .error _ => record
  | .headerText key text => record.setHeaderText key text
  | .evaluate a => (record.evaluate a).record

/-- The record after changes. -/
def TestRecord.changes (record : TestRecord) (changes : List Change) : TestRecord :=
  changes.foldl change record

namespace StoredHeaders

/-- Stores a request header in the stead of one of the same name. -/
def setHeader (stored : StoredHeaders) (name : String) (value : Token) : StoredHeaders :=
  if isHeaderName name ∧ value.kind.isValue then
    { stored with request := stored.request.insert (lowerCase name) (.make name value) }
  else stored

/-- Changes the text of the request header under `key`. -/
def setHeaderText (stored : StoredHeaders) (key text : String) : StoredHeaders :=
  match stored.request.get? key with
  | none => stored
  | some header => { stored with request := stored.request.insert key (header.setText text) }

/-- Stores a response header from a line of a response. -/
def setResponseHeader (stored : StoredHeaders) (span : Span) (raw : String) : StoredHeaders :=
  match cut ':' raw with
  | none => stored
  | some (before, after) =>
    let name := trim before
    if isHeaderName name then
      let value := { kind := .string, text := trim after, span }
      { stored with response := stored.response.insert (lowerCase name) (.make name value) }
    else stored

/-- Makes request headers anew with their values resolved, up to the first one that does not resolve. -/
def evaluate (lookup : String → Option Token) (stored : StoredHeaders) : List String → StoredHeaders
  | [] => stored
  | key :: keys =>
    match stored.request.get? key with
    | none => stored.evaluate lookup keys
    | some header =>
      match resolve lookup header.value with
      | .ok value =>
        let request := stored.request.insert key (.make header.name value)
        { stored with request }.evaluate lookup keys
      | .error _ => stored

/-- The stored headers of the record after a change. An evaluation comes to the headers if all fields
resolve. -/
def change (stored : StoredHeaders) (record : TestRecord) : Change → StoredHeaders
  | .set (.header name value) => stored.setHeader name value
  | .set (.responseHeader span raw) => stored.setResponseHeader span raw
  | .set (.field ..) | .set (.body _) | .set (.appendBody _) | .set (.responseHttpVersion _)
  | .set (.statusCode _) | .set (.reason _) | .set (.responseBody _)
  | .set (.appendResponseBody _) => stored
  | .headerText key text => stored.setHeaderText key text
  | .evaluate a =>
    let lookup := a.lookup? record.scope
    if (evaluateTargets lookup record (RequestField.all.map .field)).fault = none then
      stored.evaluate lookup (stored.request.entries.map (·.1))
    else stored

/-- The stored headers of the record after changes. -/
def changes (stored : StoredHeaders) (record : TestRecord) : List Change → StoredHeaders
  | [] => stored
  | change :: changes => (stored.change record change).changes (record.change change) changes

end StoredHeaders

end HttpSuite
