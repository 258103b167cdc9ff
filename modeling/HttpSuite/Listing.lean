import HttpSuite.Canonical
import HttpSuite.Text.Lines

/-!
# Listings

A listing shows records to a reader: one line for every field, header and assertion, and the own
bindings of the record. Texts are quoted; only assertions are shown as they are written.

* `listing_append`: records are listed one after the other.
-/

namespace HttpSuite

/-- The lines with their ends. -/
def unlines (lines : List String) : String :=
  String.join (lines.map (· ++ "\n"))

/-- The text, filled up with spaces to a width. -/
def padRight (width : Nat) (text : String) : String :=
  text ++ String.ofList (List.replicate (width - text.length) ' ')

/-! ## Scopes -/

/-- The lines that show the bindings of a scope's own table. -/
def Arena.listingLines (a : Arena) (scope : ScopeId) : List String :=
  let name := a.name scope
  ("symbols [" ++ name ++ "]:") ::
    (a.bindings scope).map fun (symbol, token) =>
      "  [" ++ name ++ "] " ++ symbol ++ " = " ++ Quoted.text token.text ++
        " (" ++ token.kind.name ++ ", " ++ token.span.text ++ ")"

/-- The bindings of a scope's own table, to a reader. -/
def Arena.listing (a : Arena) (scope : ScopeId) : String :=
  unlines (a.listingLines scope)

/-! ## Records -/

namespace TestRecord

/-- The line of a request field. -/
def fieldLine (record : TestRecord) (field : RequestField) : String :=
  "  " ++ padRight 13 field.name ++ " " ++
    match record.request.field? field with
    | some token =>
      Quoted.text token.text ++ " [" ++ token.kind.name ++ ", " ++ token.span.text ++ "]"
    | none => "(unset)"

/-- The line of a request header. -/
def headerLine (key : String) (header : Header) : String :=
  "  header " ++ key ++ ": " ++ Quoted.text header.raw ++ " [" ++ header.span.text ++ "]"

/-- The lines of the expected response: only what is set. -/
def responseLines (response : Response) : List String :=
  (response.httpVersion.toList.map fun version => "  response http_version " ++ Quoted.text version)
    ++ (response.statusCode.toList.map fun code => "  response status_code " ++ toString code)
    ++ (response.reason.toList.map fun reason => "  response reason " ++ Quoted.text reason)
    ++ (if response.body = "" then [] else ["  response body " ++ Quoted.text response.body])
    ++ response.headers.entries.map fun (key, header) =>
      "  response header " ++ key ++ ": " ++ Quoted.text header.raw

/-- The line of an assertion. -/
def assertionLine (assertion : Assertion) : String :=
  "  assert [" ++ assertion.span.text ++ "]:" ++
    String.join (assertion.entries.map fun entry => " " ++ entry.canonical)

/-- The lines of a record. A name with line breaks spreads over lines of its own. -/
def listingLines (record : TestRecord) (a : Arena) : List String :=
  ("test " ++ Quoted.text record.name ++ " [" ++ record.span.text ++ "]") ::
    RequestField.all.map record.fieldLine
    ++ (record.request.headers.entries.map fun (key, header) => headerLine key header)
    ++ responseLines record.response
    ++ record.assertions.map assertionLine
    ++ (lines (a.listing record.scope)).map ("  " ++ ·)

end TestRecord

/-- The records, to a reader. -/
def listing (a : Arena) (records : List TestRecord) : String :=
  String.join (records.map fun record => unlines (record.listingLines a))

theorem listing_append (a : Arena) (first second : List TestRecord) :
    listing a (first ++ second) = listing a first ++ listing a second := by
  simp [listing, String.join_append]

end HttpSuite
