import HttpSuite.Canonical
import HttpSuite.Listing
import HttpSuite.Suite

/-!
# The command line

A run checks files, lists them or prints them in canonical form. All files share the global scope,
in which the symbols that are defined on the command line stand; each file is read in a scope of its
own under it. Arguments that make no sense end a run before it opens a file.

* `visit`: one file, read in a scope of its own.
* `Outcome.ofReports`: exit code and texts of a run, made from the reports of its files.
* `run`: a run with given arguments.
-/

namespace HttpSuite.CommandLine

/-! ## Arguments -/

/-- The arguments, taken apart. -/
structure Arguments where
  command : Option String := none
  files : List String := []
  defines : List (String × String) := []
  options : Options := {}

/-- Why arguments make no sense. -/
inductive UsageFault where
  | help
  | noCommand
  | noFiles
  | missingDefine
  | invalidDefine (text : String)
  | missingLimit
  | invalidLimit (text : String)
  deriving DecidableEq, Repr

/-- The wording of the fault. There is none where only the usage is shown. -/
def UsageFault.message? : UsageFault → Option String
  | help | noCommand => none
  | noFiles => some "no files specified"
  | missingDefine => some "-D needs NAME=VALUE"
  | invalidDefine text => some ("invalid define '" ++ text ++ "', expected NAME=VALUE")
  | missingLimit => some "--max-line-length needs a number"
  | invalidLimit text => some ("invalid line length '" ++ text ++ "'")

/-- The usage. -/
def usage : String := unlines [
  "Usage: rest-test [options] <command> [files...]",
  "",
  "Commands:",
  "  check     Parse and evaluate test file(s)",
  "  dump      Print the parsed records of test file(s)",
  "  fmt       Print test file(s) in canonical form",
  "",
  "Options:",
  "  -D NAME=VALUE          Define a global symbol",
  "  --max-line-length N    Reject lines longer than N bytes",
  "  -v                     Debug logging (RUST_LOG also works)",
  "",
  "Examples:",
  "  rest-test check api.rtest",
  "  rest-test -D BASE=localhost:8081 check api.rtest"]

/-- The largest line limit. -/
def maxLimit : Nat := Nat.pow 2 64 - 1

/-- Reads a line limit. -/
def readLimit? (text : String) : Option Nat :=
  (readNatural? text).filter (· ≤ maxLimit)

/-- Takes arguments apart, one after the other. Files and definitions come out in order. -/
def Arguments.take (seen : Arguments) : List String → Except UsageFault Arguments
  | [] => .ok seen
  | "-h" :: _ => .error .help
  | "--help" :: _ => .error .help
  | "-v" :: rest => seen.take rest
  | ["-D"] => .error .missingDefine
  | "-D" :: define :: rest =>
    match cut '=' define with
    | some binding => { seen with defines := seen.defines ++ [binding] }.take rest
    | none => .error (.invalidDefine define)
  | ["--max-line-length"] => .error .missingLimit
  | "--max-line-length" :: limit :: rest =>
    match readLimit? limit with
    | some lineLimit => { seen with options := { seen.options with lineLimit } }.take rest
    | none => .error (.invalidLimit limit)
  | word :: rest =>
    match seen.command with
    | none => { seen with command := some word }.take rest
    | some _ => { seen with files := seen.files ++ [word] }.take rest

/-- Takes all arguments apart, and asks for a command and a file. -/
def Arguments.ofList (args : List String) : Except UsageFault (String × Arguments) :=
  match Arguments.take {} args with
  | .error fault => .error fault
  | .ok arguments =>
    match arguments.command, arguments.files with
    | none, _ => .error .noCommand
    | some _, [] => .error .noFiles
    | some command, _ => .ok (command, arguments)

/-- What can be done with files. -/
inductive Command where
  | check
  | dump
  | fmt
  deriving DecidableEq, Repr

/-- The command of that name. -/
def Command.ofName? : String → Option Command
  | "check" => some .check
  | "dump" => some .dump
  | "fmt" => some .fmt
  | _ => none

/-! ## Files -/

/-- What a file contributes to the output, and whether all was well. -/
structure Report where
  out : String
  err : String
  fine : Bool
  deriving DecidableEq

/-- The report of a fault. -/
def Report.fault (message : String) : Report := ⟨"", message, false⟩

/-- Evaluates records up to the first fault; `all` is how many there are. -/
def checkRecords (a : Arena) (path : String) (all : Nat) : List TestRecord → Report
  | [] => ⟨path ++ ": ok (" ++ toString (all - 1) ++ " test(s))\n", "", true⟩
  | record :: records =>
    match record.evaluate a with
    | ⟨_, none⟩ => checkRecords a path all records
    | ⟨record, some error⟩ =>
      let about := match record.failedToken? error with
        | some token => "  offending token: " ++ token.describe ++ "\n"
        | none => ""
      .fault (path ++ ": test '" ++ record.name ++ "': " ++ error.message ++ "\n" ++ about)

/-- What a command makes of the records of a file. -/
def Command.report (command : Command) (a : Arena) (path : String)
    (records : List TestRecord) : Report :=
  match command with
  | check => checkRecords a path records.length records
  | dump => ⟨listing a records, "", true⟩
  | fmt => ⟨canonicalText a records, "", true⟩

/-- Reads one file in a new scope under `global`. -/
def visit (command : Command) (options : Options) (openFile : String → Except String (List Read))
    (global : ScopeId) (a : Arena) (path : String) : Report × Arena :=
  match (a.create path (some global)).parseFile a.size path (openFile path) options with
  | (.ok records, a) => (command.report a path records, a)
  | (.error error, a) => (.fault (path ++ ": " ++ error.message ++ "\n"), a)

/-- The reports of files that are read one after the other. -/
def visitAll (command : Command) (options : Options)
    (openFile : String → Except String (List Read)) (global : ScopeId) (a : Arena) :
    List String → List Report
  | [] => []
  | path :: paths =>
    let (report, a) := visit command options openFile global a path
    report :: visitAll command options openFile global a paths

/-! ## Runs -/

/-- What a run prints, and its exit code. `stderr` has only what the run itself writes there. The log goes
to the standard error as well and is left out: by default a warning about a literal with an unclosed
`{{`, with `-v` the lines of the debug level, with `RUST_LOG` the levels that it asks for. Its lines are
stamped with the time, and nothing reads them. -/
structure Outcome where
  exit : Nat
  stdout : String
  stderr : String
  deriving DecidableEq, Repr

/-- The source of the symbols that are defined on the command line. -/
def defineSource : String := "<command line>"

/-- The token of a symbol that is defined on the command line. -/
def defineToken (value : String) : Token :=
  { kind := .string, text := value, span := ⟨defineSource, 0⟩ }

/-- An arena with the global scope and the given symbols in it. -/
def globalArena (defines : List (String × String)) : Arena :=
  defines.foldl (fun a (name, value) => a.bind 0 name (defineToken value))
    (Arena.empty.create "global" none)

/-- The outcome of a run with reports of its files. -/
def Outcome.ofReports (reports : List Report) : Outcome where
  exit := if reports.all (·.fine) then 0 else 1
  stdout := String.join (reports.map (·.out))
  stderr := String.join (reports.map (·.err))

/-- The outcome of arguments that make no sense. -/
def Outcome.ofUsage (fault : UsageFault) : Outcome where
  exit := 2
  stdout := ""
  stderr := (match fault.message? with
    | some message => "Error: " ++ message ++ "\n"
    | none => "") ++ usage

/-- Runs with arguments, given what opening a path comes to. `-v` changes only what is logged, and so
nothing here. -/
def run (args : List String) (openFile : String → Except String (List Read)) : Outcome :=
  match Arguments.ofList args with
  | .error fault => .ofUsage fault
  | .ok (name, arguments) =>
    match Command.ofName? name with
    | none => ⟨2, "", "Unknown command: " ++ name ++ "\n"⟩
    | some command =>
      .ofReports (visitAll command arguments.options openFile 0 (globalArena arguments.defines)
        arguments.files)

/-- The files that a run opens. -/
def filesOf (args : List String) : List String :=
  match Arguments.ofList args with
  | .error _ => []
  | .ok (_, arguments) => arguments.files

end HttpSuite.CommandLine
