import HttpSuite.Evaluation
import HttpSuite.Journal
import HttpSuite.Statement.Script

/-!
# Suites

A suite is read from statements, one after the other. Before the first test there is an implicit
record on line 0, so that every statement belongs to a record. Each record gets a scope of its own
under the scope that the suite is read in.

Every binding goes into the arena at once and into a journal. A suite that cannot be read is undone
from there.

* `applyAll_append`: statements are applied one after the other.
-/

namespace HttpSuite

/-- What can be chosen about the reading of suites. -/
structure Options where
  /-- The limit on the bytes of a line. -/
  lineLimit : Nat := defaultLineLimit
  /-- The name of the record before the first test. -/
  implicitName : String := "UNSET"
  /-- No two records have one name. -/
  uniqueNames : Bool := true
  deriving DecidableEq, Repr

/-- A fault of any stage. -/
inductive Error where
  | lex (error : LexError)
  | parse (error : ParseError)
  | eval (error : EvalError)
  /-- A file that cannot be opened. -/
  | file (path reason : String)
  deriving DecidableEq

/-- The message of the fault. -/
def Error.message : Error → String
  | lex error => error.describe LexCause.message
  | parse error => error.describe ParseCause.message
  | eval error => error.message
  | file path reason => path ++ ": " ++ reason

/-- A fault that ends a script. -/
def ScriptFault.error : ScriptFault → Error
  | lex error => .lex error
  | parse error => .parse error

/-! ## Statement by statement -/

/-- A suite that is being read: the records before the current one are `finished`. -/
structure Suite where
  scope : ScopeId
  options : Options
  arena : Arena
  /-- The bindings written so far, newest first. -/
  journal : List Write := []
  finished : Array TestRecord
  current : TestRecord

namespace Suite

/-- A suite with the implicit record only. -/
def start (a : Arena) (scope : ScopeId) (source : String) (options : Options) : Suite :=
  let (current, arena) := TestRecord.create a options.implicitName ⟨source, 0⟩ (some scope)
  { scope, options, arena, finished := #[], current }

/-- Every record so far, in order. -/
def records (suite : Suite) : List TestRecord :=
  suite.finished.toList ++ [suite.current]

/-- The scope that a level stands for. -/
def scopeOf (suite : Suite) : Level → ScopeId
  | .global => suite.arena.root suite.scope
  | .parent => suite.scope
  | .own => suite.current.scope

/-- Finishes the current record and starts the next one. -/
def startTest (suite : Suite) (span : Span) (name : String) : Suite :=
  let (current, arena) := TestRecord.create suite.arena name span (some suite.scope)
  { suite with arena, current, finished := suite.finished.push suite.current }

/-- Binds a symbol at a level, and notes what stood there before. -/
def bind (suite : Suite) (level : Level) (symbol : String) (value : Token) : Suite :=
  let scope := suite.scopeOf level
  { suite with
    arena := suite.arena.bind scope symbol value
    journal := ⟨scope, symbol, suite.arena.binding? scope symbol⟩ :: suite.journal }

/-- Carries a setter of the current record over to the suite. -/
def setCurrent (suite : Suite) (result : Except RecordError TestRecord) :
    Except ParseError Suite :=
  match result with
  | .ok current => .ok { suite with current }
  | .error error => .error ⟨.invalidField error.cause, error.span⟩

/-- The record that already has a name which no other may have. -/
def namesake? (suite : Suite) (name : String) : Option TestRecord :=
  if suite.options.uniqueNames then suite.records.find? (·.name == name) else none

theorem namesake?_eq_none {suite : Suite} {name : String} :
    suite.namesake? name = none ↔
      (suite.options.uniqueNames = true → ∀ record ∈ suite.records, record.name ≠ name) := by
  unfold namesake?
  by_cases unique : suite.options.uniqueNames = true
  · simp [unique]
  · simp [unique]

/-- The suite after one more statement. -/
def apply (suite : Suite) : Statement → Except ParseError Suite
  | .test span name =>
    match suite.namesake? name with
    | some first => .error ⟨.duplicateTestName name first.span, span⟩
    | none => .ok (suite.startTest span name)
  | .bind level symbol value => .ok (suite.bind level symbol value)
  | .field .body value => suite.setCurrent (suite.current.appendBody value)
  | .field f value => suite.setCurrent (suite.current.setField f value)
  | .header name value => suite.setCurrent (suite.current.setHeader name value)
  | .assertion assertion =>
    .ok { suite with
      current := { suite.current with
        assertions := suite.current.assertions ++ [assertion] } }

/-- The suite after statements, up to the first one that cannot be applied, and the fault of that
one. -/
def applyAll (suite : Suite) : List Statement → Suite × Option ParseError
  | [] => (suite, none)
  | statement :: statements =>
    match suite.apply statement with
    | .ok suite => suite.applyAll statements
    | .error error => (suite, some error)

theorem applyAll_append (suite : Suite) (first second : List Statement) :
    suite.applyAll (first ++ second) =
      match suite.applyAll first with
      | (suite, none) => suite.applyAll second
      | (suite, some error) => (suite, some error) := by
  induction first generalizing suite with
  | nil => rfl
  | cons statement statements ih =>
    simp only [List.cons_append, applyAll]
    split
    · exact ih _
    · rfl

end Suite

/-! ## Whole suites -/

/-- The suite as far as a script makes it, and the first fault: a statement that cannot be applied,
or what stopped the script. -/
def Script.applyTo (script : Script) (start : Suite) : Suite × Option Error :=
  match start.applyAll script.statements with
  | (suite, some error) => (suite, some (.parse error))
  | (suite, none) => (suite, script.fault.map ScriptFault.error)

namespace Arena

/-- Reads the suite of a feed. If there is a fault, the journal is rolled back. -/
def parse (a : Arena) (scope : ScopeId) (source : String) (options : Options) (feed : Feed) :
    Except Error (List TestRecord) × Arena :=
  match (Script.ofFeed feed).applyTo (Suite.start a scope source options) with
  | (suite, none) => (.ok suite.records, suite.arena)
  | (suite, some error) => (.error error, suite.arena.rollback suite.journal a.size)

/-- Reads a suite from tokens. -/
def parseTokens (a : Arena) (scope : ScopeId) (tokens : List Token) (source : String)
    (options : Options) : Except Error (List TestRecord) × Arena :=
  a.parse scope source options (.ofTokens source tokens)

/-- Reads a suite from the reads of a source. -/
def parseReads (a : Arena) (scope : ScopeId) (reads : List Read) (source : String)
    (options : Options) : Except Error (List TestRecord) × Arena :=
  a.parse scope source options (.ofLexer { source, rest := reads, limit := options.lineLimit })

/-- Reads a suite from a text. -/
def parseText (a : Arena) (scope : ScopeId) (text source : String) (options : Options) :
    Except Error (List TestRecord) × Arena :=
  a.parseReads scope (Read.ofText text) source options

/-- Reads a suite from a file that was opened, or could not be opened for a reason. -/
def parseFile (a : Arena) (scope : ScopeId) (path : String) (file : Except String (List Read))
    (options : Options) : Except Error (List TestRecord) × Arena :=
  match file with
  | .error reason => (.error (.file path reason), a)
  | .ok reads => a.parseReads scope reads path options

end Arena

/-- Evaluates records in order up to the first fault. -/
def evaluateAll (a : Arena) : List TestRecord → Except EvalError (List TestRecord)
  | [] => .ok []
  | record :: records =>
    match record.evaluate a with
    | ⟨_, some fault⟩ => .error fault
    | ⟨record, none⟩ => (evaluateAll a records).map (record :: ·)

/-- Reads a suite from a text and evaluates its records. A fault of evaluation does not undo the
reading. -/
def Arena.load (a : Arena) (scope : ScopeId) (text source : String) (options : Options) :
    Except Error (List TestRecord) × Arena :=
  match a.parseText scope text source options with
  | (.error error, a) => (.error error, a)
  | (.ok records, a) => ((evaluateAll a records).mapError .eval, a)

end HttpSuite
