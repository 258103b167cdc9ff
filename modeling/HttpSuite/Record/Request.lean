import HttpSuite.KeyMap
import HttpSuite.Text.Ascii
import HttpSuite.Token

/-!
# Requests and responses

A request has four fields, each a token or unset, and headers. Headers are found by name without
regard to ASCII case and listed in order of their lower-case names.

* `field?_setField`: setting a field changes that field only.
* `find?_put`: a header just put is found under every spelling of its name.
-/

namespace HttpSuite

/-- The fields of a request, in the order in which they are evaluated. -/
inductive RequestField where
  | method
  | uri
  | httpVersion
  | body
  deriving DecidableEq, Repr

namespace RequestField

/-- Every field, in order. -/
def all : List RequestField := [method, uri, httpVersion, body]

/-- The name of the field. -/
def name : RequestField → String
  | method => "method"
  | uri => "uri"
  | httpVersion => "http_version"
  | body => "body"

/-- The field of that name. -/
def ofName? (name : String) : Option RequestField :=
  all.find? (·.name == name)

end RequestField

/-- A header: its name as written, and its value. -/
structure Header where
  name : String
  value : Token
  deriving DecidableEq

namespace Header

/-- The header as it is sent. -/
def raw (header : Header) : String :=
  header.name ++ ": " ++ header.value.text

/-- A header stands where its value stands. -/
def span (header : Header) : Span := header.value.span

end Header

/-- Headers by lower-case name. -/
abbrev HeaderMap := KeyMap Header

namespace HeaderMap

/-- Adds a header in the stead of one of the same name. -/
def put (headers : HeaderMap) (header : Header) : HeaderMap :=
  headers.insert (lowerCase header.name) header

/-- The header of that name. -/
def find? (headers : HeaderMap) (name : String) : Option Header :=
  headers.get? (lowerCase name)

@[simp] theorem find?_put (headers : HeaderMap) (header : Header) (name : String) :
    (headers.put header).find? name =
      if lowerCase header.name = lowerCase name then some header else headers.find? name := by
  simp [find?, put]

end HeaderMap

/-- What a header can be called: one or more characters without a colon or a blank. -/
def isHeaderName (name : String) : Bool :=
  name != "" && !name.toList.any fun c => c == ':' || isBlank c

/-- The request of a test. -/
structure Request where
  method : Option Token := none
  uri : Option Token := none
  httpVersion : Option Token := none
  body : Option Token := none
  headers : HeaderMap := .empty
  deriving DecidableEq

namespace Request

/-- The token of a field. -/
def field? (request : Request) : RequestField → Option Token
  | .method => request.method
  | .uri => request.uri
  | .httpVersion => request.httpVersion
  | .body => request.body

/-- Sets a field. -/
def setField (request : Request) (field : RequestField) (token : Token) : Request :=
  match field with
  | .method => { request with method := some token }
  | .uri => { request with uri := some token }
  | .httpVersion => { request with httpVersion := some token }
  | .body => { request with body := some token }

@[simp] theorem field?_setField (request : Request) (field other : RequestField) (token : Token) :
    (request.setField field token).field? other =
      if field = other then some token else request.field? other := by
  cases field <;> cases other <;> rfl

@[simp] theorem headers_setField (request : Request) (field : RequestField) (token : Token) :
    (request.setField field token).headers = request.headers := by
  cases field <;> rfl

end Request

/-- The response that a test expects. -/
structure Response where
  httpVersion : Option String := none
  statusCode : Option Nat := none
  reason : Option String := none
  body : String := ""
  headers : HeaderMap := .empty
  deriving DecidableEq

end HttpSuite
