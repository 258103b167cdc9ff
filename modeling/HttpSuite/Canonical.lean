import HttpSuite.Lexeme
import HttpSuite.Record
import HttpSuite.Statement

/-!
# Canonical text

Records are written back as statements, one to a line, in a fixed order: own bindings, fields before
the body, headers, body, assertions. Strings stand in single quotes, so neighbours never merge.

A first record on line 0 is the preamble: it has no `.test` line, and brings along the bindings of
the outer scopes that come from its own source.

* `Token.canonical`: a token as it is written.
* `canonicalLines`: statements, one to a line.
* `canonicalText`: the records of a suite as they are written.
-/

namespace HttpSuite

/-! ## Tokens -/

/-- The spelling of a character between two quotes. -/
def escapeIn (delimiter : Delimiter) (c : Char) : List Char :=
  if c = delimiter.char ∨ c = '\\' then ['\\', c] else [c]

/-- The text as a literal. -/
def quote (delimiter : Delimiter) (text : String) : String :=
  String.ofList
    ([delimiter.char] ++ text.toList.flatMap (escapeIn delimiter) ++ [delimiter.char])

/-- The token as it is written: names and integers bare, all else quoted. -/
def Token.canonical (token : Token) : String :=
  match token.kind with
  | .shellCommand => quote .backtick token.text
  | .symbol | .integer => token.text
  | .directive | .string | .assertEnd | .none | .unknown => quote .single token.text

/-- The name of a test or a header as it is written: bare if it is a symbol name. -/
def canonicalName (name : String) : String :=
  if isSymbol name then name else quote .single name

/-- The entry as it is written. -/
def Entry.canonical : Entry → String
  | .operand token => token.canonical
  | .operator op _ => op.keyword

/-! ## Statements -/

/-- The statement as it is written. -/
def Statement.canonical : Statement → String
  | .test _ name => Directive.test.keyword ++ " " ++ canonicalName name
  | .bind level symbol value =>
    (Directive.bind level).keyword ++ " " ++ symbol ++ " " ++ value.canonical
  | .field f value => (Directive.field f).keyword ++ " " ++ value.canonical
  | .header name value =>
    Directive.header.keyword ++ " " ++ canonicalName name ++ " " ++ value.canonical
  | .assertion asserted =>
    Directive.assertion.keyword ++
      String.join (asserted.entries.map fun entry => " " ++ entry.canonical) ++ " ;"

/-- The statements as they are written, each on a line. -/
def canonicalLines (statements : List Statement) : String :=
  String.join (statements.map fun statement => statement.canonical ++ "\n")

/-- The statements that bind what a scope's own table binds. -/
def bindingStatements (a : Arena) (level : Level) (scope : ScopeId) : List Statement :=
  (a.bindings scope).map fun (symbol, token) => .bind level symbol token

/-- The statement binds a symbol to a token of that source. -/
def Statement.bindsFrom (source : String) : Statement → Bool
  | .bind _ _ token => token.span.source == source
  | .test .. | .field .. | .header .. | .assertion .. => false

namespace TestRecord

/-- The statement that sets a field, if it is set. -/
def fieldStatement (record : TestRecord) (field : RequestField) : List Statement :=
  match record.request.field? field with
  | some token => [.field field token]
  | none => []

/-- The statements of a record, without the one that starts it. -/
def statements (record : TestRecord) (a : Arena) : List Statement :=
  bindingStatements a .own record.scope ++
    [RequestField.method, .uri, .httpVersion].flatMap record.fieldStatement ++
    record.request.headers.entries.map (fun e => .header e.2.name e.2.value) ++
    record.fieldStatement .body ++
    record.assertions.map .assertion

/-- The statements that bind in the outer scopes what comes from the source of the record. -/
def outerStatements (record : TestRecord) (a : Arena) : List Statement :=
  match a.parent? record.scope with
  | none => []
  | some parent =>
    let root := a.root parent
    ((if root = parent then [] else bindingStatements a .global root) ++
      bindingStatements a .parent parent).filter (Statement.bindsFrom record.span.source)

end TestRecord

/-! ## Records -/

/-- The text with one more test, after an empty line unless it is the first text. -/
def appendTest (a : Arena) (text : String) (record : TestRecord) : String :=
  (if text = "" then text else text ++ "\n") ++
    canonicalLines (.test record.span record.name :: record.statements a)

/-- The records as they are written. -/
def canonicalText (a : Arena) : List TestRecord → String
  | [] => ""
  | first :: rest =>
    rest.foldl (appendTest a)
      (if first.span.line = 0 then
        canonicalLines (first.outerStatements a ++ first.statements a)
      else appendTest a "" first)

end HttpSuite
