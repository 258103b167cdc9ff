import HttpSuite.Proofs.Directives.Acceptance
import HttpSuite.Proofs.Files.Reports
import HttpSuite.Proofs.Rollback

/-!
# The files of a run

All files of a run are read in one arena, and a file leaves its tables there for good. Another file
sees of these only the global scope: what it contributes depends on nothing else (`visit_sameGlobal`).
A file that fails, or binds no global symbol, leaves the global scope as it was (`visit_quiet`), so it
may as well be missing.

* `Spares.apply`, `Applies.spares`: what a suite without global bindings writes.
* `visitAll_pick`: the reports of the other files without some that are quiet.
* `run_files`: contributions and exit code of a run.
-/

namespace HttpSuite

/-! ## Suites that bind no global symbol -/

/-- The statement binds a symbol in the global scope. -/
def Statement.isGlobal : Statement → Bool
  | .bind .global .. => true
  | .bind .parent .. | .bind .own .. | .test .. | .field .. | .header .. | .assertion .. => false

namespace Suite

/-- A scope before that of the suite is as it was in `a`; the records have later ones. -/
structure Spares (suite : Suite) (a : Arena) (d : ScopeId) : Prop where
  outer : d < suite.scope
  inner : d < suite.current.scope
  inside : d < suite.arena.size
  same : suite.arena.table? d = a.table? d

variable {suite next last : Suite} {a : Arena} {d : ScopeId} {statement : Statement}
  {statements : List Statement}

theorem start_spares {scope : ScopeId} (hs : scope < a.size) (hd : d < scope) (source : String)
    (options : Options) : (start a scope source options).Spares a d where
  outer := hd
  inner := Nat.lt_trans hd hs
  inside := by
    rw [start, TestRecord.create, Arena.size_create]
    exact Nat.lt_succ_of_lt (Nat.lt_trans hd hs)
  same := by
    rw [start, TestRecord.create, Arena.table?_create, if_neg (Nat.ne_of_lt (Nat.lt_trans hd hs))]

theorem Spares.startTest (h : suite.Spares a d) (span : Span) (name : String) :
    (suite.startTest span name).Spares a d where
  outer := h.outer
  inner := h.inside
  inside := by
    rw [Suite.startTest, TestRecord.create, Arena.size_create]
    exact Nat.lt_succ_of_lt h.inside
  same := by
    rw [Suite.startTest, TestRecord.create, Arena.table?_create, if_neg (Nat.ne_of_lt h.inside)]
    exact h.same

theorem Spares.bind (h : suite.Spares a d) {level : Level} (quiet : level ≠ .global)
    (symbol : String) (value : Token) : (suite.bind level symbol value).Spares a d where
  outer := h.outer
  inner := h.inner
  inside := by
    rw [Suite.bind, Arena.size_bind]
    exact h.inside
  same := by
    have past : d < suite.scopeOf level := by
      cases level with
      | global => exact absurd rfl quiet
      | parent => exact h.outer
      | own => exact h.inner
    rw [Suite.bind, Arena.table?_bind, if_neg (Nat.ne_of_gt past)]
    exact h.same

theorem Spares.apply (h : suite.Spares a d) (quiet : statement.isGlobal = false)
    (ok : suite.apply statement = .ok next) : next.Spares a d := by
  rcases apply_cases ok with
    ⟨span, name, rfl, rfl⟩ | ⟨level, symbol, value, rfl, rfl⟩ | ⟨request, assertions, rfl⟩
  · exact h.startTest span name
  · refine h.bind ?_ symbol value
    rintro rfl
    cases quiet
  · exact ⟨h.outer, h.inner, h.inside, h.same⟩

theorem Applies.spares (h : suite.Applies statements last) (start : suite.Spares a d)
    (quiet : ∀ statement ∈ statements, statement.isGlobal = false) : last.Spares a d := by
  induction h with
  | nil => exact start
  | cons ok _ ih =>
    obtain ⟨first, others⟩ := List.forall_mem_cons.mp quiet
    exact ih (start.apply first ok) others

end Suite

/-- The token is a directive that binds a global symbol. -/
def Token.isGlobal (token : Token) : Bool := token.word = (Directive.bind .global).word

/-- A statement that binds a global symbol is written with a token for that. -/
theorem Written.isGlobal {tokens : List Token} {statements : List Statement}
    (h : Written tokens statements) (quiet : ∀ token ∈ tokens, token.isGlobal = false) :
    ∀ statement ∈ statements, statement.isGlobal = false := by
  induction h with
  | nil => simp
  | @cons tokens rest statement statements written _ ih =>
    obtain ⟨here, later⟩ := List.forall_mem_append.mp quiet
    refine List.forall_mem_cons.mpr ⟨?_, ih later⟩
    cases written with
    | @bind level directive symbol value word kind isValue =>
      cases level with
      | global => exact absurd word (of_decide_eq_false (here directive List.mem_cons_self))
      | parent | own => rfl
    | test | field | header | assertion => rfl

/-! ## One file -/

/-- The global scope of both arenas is the same. -/
def Arena.SameGlobal (a b : Arena) : Prop :=
  ∃ table, a.table? 0 = some table ∧ b.table? 0 = some table

section Arenas

variable {a b c : Arena}

theorem Arena.SameGlobal.create (h : a.SameGlobal b) (name : String) :
    (a.create name (some 0)).SameGlobal b := by
  obtain ⟨table, left, right⟩ := h
  refine ⟨table, ?_, right⟩
  rw [table?_create, if_neg (Nat.ne_of_lt (lt_size_of_table? left))]
  exact left

theorem Arena.SameGlobal.symm (h : a.SameGlobal b) : b.SameGlobal a := by
  obtain ⟨table, left, right⟩ := h
  exact ⟨table, right, left⟩

/-- Arenas that are alike have one global scope, since it has no parent. -/
theorem Arena.Alike.sameGlobal {n m : Nat} (h : a.Alike n m b) : a.SameGlobal b := by
  rcases h.table?_cases .global with ⟨left, -⟩ | ⟨table, other, left, right, alike⟩
  · obtain ⟨k, size, -⟩ := h.size
    have inside : 0 < a.size := size ▸ Nat.lt_of_lt_of_le h.pos (Nat.le_add_right ..)
    exact absurd left (by simp [table?, Array.getElem?_eq_getElem inside])
  · have root (table : Table) (c : Arena) (found : c.table? 0 = some table) : table.parent = none := by
      cases parent : table.parent with
      | none => rfl
      | some p => exact absurd (c.parent_lt 0 table found p parent) (Nat.not_lt_zero p)
    refine ⟨table, left, right.trans (congrArg some ?_)⟩
    cases table with
    | mk name parent bindings =>
      cases other with
      | mk name' parent' bindings' =>
        obtain rfl := alike.name
        obtain rfl := alike.bindings
        obtain rfl := root _ _ left
        obtain rfl := root _ _ right
        rfl

end Arenas

namespace CommandLine

section Visits

variable {command : Command} {options : Options} {openFile : String → Except String (List Read)}
  {a b : Arena} {path : String} {marks : List Bool} {files : List String}

/-- A file cannot be opened or read, or none of its tokens binds a global symbol. -/
inductive Quiet (options : Options) (openFile : String → Except String (List Read))
    (path : String) : Prop
  | fails {a : Arena} {scope : ScopeId} {error : Error} :
      (a.parseFile scope path (openFile path) options).1 = .error error → Quiet options openFile path
  | silent {reads : List Read} : openFile path = .ok reads →
      (∀ token ∈ ({ source := path, rest := reads, limit := options.lineLimit } : Lexer).tokens.1,
        token.isGlobal = false) → Quiet options openFile path

theorem visit_error {reason : String} (failed : openFile path = .error reason) :
    visit command options openFile 0 a path =
      (.fault (path ++ ": " ++ (Error.file path reason).message ++ "\n"), a.create path (some 0)) := by
  rw [visit, failed]
  rfl

theorem visit_parse_error {reads : List Read} {error : Error} {after : Arena}
    (opened : openFile path = .ok reads)
    (failed : (a.create path (some 0)).parseReads a.size reads path options = (.error error, after)) :
    visit command options openFile 0 a path =
      (.fault (path ++ ": " ++ error.message ++ "\n"), a.create path (some 0)) := by
  obtain rfl := Arena.parse_error failed
  rw [visit, opened, Arena.parseFile, failed]

theorem visit_ok {reads : List Read} {records : List TestRecord} {after : Arena}
    (opened : openFile path = .ok reads)
    (parsed : (a.create path (some 0)).parseReads a.size reads path options = (.ok records, after)) :
    visit command options openFile 0 a path = (command.report after path records, after) := by
  rw [visit, opened, Arena.parseFile, parsed]

/-- A file contributes the same, and leaves the same global scope, whatever else is in the arena. -/
theorem visit_sameGlobal (command : Command) (options : Options)
    (openFile : String → Except String (List Read)) (path : String) (same : a.SameGlobal b) :
    (visit command options openFile 0 a path).1 = (visit command options openFile 0 b path).1 ∧
      (visit command options openFile 0 a path).2.SameGlobal
        (visit command options openFile 0 b path).2 := by
  have created := (same.create path).symm.create path |>.symm
  cases opened : openFile path with
  | error reason =>
    rw [visit_error opened, visit_error opened]
    exact ⟨rfl, created⟩
  | ok reads =>
    obtain ⟨table, left, right⟩ := same
    have alike := Arena.alike_create (Arena.lt_size_of_table? left) (Arena.lt_size_of_table? right)
      (left.trans right.symm) path
    rcases alike.parse (.inner 0) path options
        (.ofLexer { source := path, rest := reads, limit := options.lineLimit }) with
      ⟨error, left, right⟩ | ⟨records, others, after, after', left, right, rows, alike⟩
    · rw [visit_parse_error opened (Prod.ext left rfl), visit_parse_error opened (Prod.ext right rfl)]
      exact ⟨rfl, created⟩
    · rw [visit_ok opened left, visit_ok opened right]
      exact ⟨(report_alike alike rows command path).symm, alike.sameGlobal⟩

/-- A file that fails in one arena fails in every other. -/
theorem parse_error_anywhere {c : Arena} {scope other : ScopeId} {error : Error}
    (failed : (a.parseFile scope path (openFile path) options).1 = .error error) {reads : List Read}
    (opened : openFile path = .ok reads) :
    ∃ error after, c.parseReads other reads path options = (.error error, after) := by
  cases run : c.parseReads other reads path options with
  | mk result after =>
    cases result with
    | error error => exact ⟨error, after, rfl⟩
    | ok records =>
      obtain ⟨records, after, parsed⟩ := parse_ok_of_ok (b := a) run scope
      have read : a.parseFile scope path (openFile path) options = (.ok records, after) := by
        rw [opened]
        exact parsed
      rw [read] at failed
      cases failed

/-- A quiet file leaves the global scope as it was. -/
theorem visit_quiet (quiet : Quiet options openFile path) (same : a.SameGlobal b) :
    (visit command options openFile 0 a path).2.SameGlobal b := by
  have created := same.create path
  cases opened : openFile path with
  | error reason =>
    rw [visit_error opened]
    exact created
  | ok reads =>
    cases run : (a.create path (some 0)).parseReads a.size reads path options with
    | mk result after =>
      cases result with
      | error error =>
        rw [visit_parse_error opened run]
        exact created
      | ok records =>
        rw [visit_ok opened run]
        cases quiet with
        | fails failed =>
          -- What fails in one arena fails in every other, so it was not read here.
          obtain ⟨error, after, failed⟩ := parse_error_anywhere failed opened
          rw [failed] at run
          cases run
        | silent opened' quiet =>
          obtain rfl := Except.ok.inj (opened.symm.trans opened')
          obtain ⟨table, left, right⟩ := created
          obtain ⟨old, found, -⟩ := same
          obtain ⟨statements, last, written, applies, -, rfl⟩ :=
            parseTokens_eq_ok.mp (parseReads_eq_ok run)
          -- Only tokens up to the end token are read, and none of them binds a global symbol.
          have silent := written.isGlobal fun token ht =>
            quiet token ((List.takeWhile_sublist _).subset ht)
          have inside : a.size < (a.create path (some 0)).size := by
            rw [Arena.size_create]
            exact Nat.lt_succ_self _
          have spares := applies.spares
            (Suite.start_spares inside (Arena.lt_size_of_table? found) path options) silent
          exact ⟨table, spares.same.trans left, right⟩

/-- When its turn comes, a file cannot be opened, or cannot be read, or is checked and cannot be
evaluated. -/
inductive Fails (command : Command) (options : Options)
    (openFile : String → Except String (List Read)) (a : Arena) (path : String) : Prop
  | opening {reason : String} : openFile path = .error reason → Fails command options openFile a path
  | reading {reads : List Read} {error : Error} {after : Arena} : openFile path = .ok reads →
      (a.create path (some 0)).parseReads a.size reads path options = (.error error, after) →
      Fails command options openFile a path
  | evaluating {reads : List Read} {records : List TestRecord} {after : Arena} {fault : EvalError} :
      command = .check → openFile path = .ok reads →
      (a.create path (some 0)).parseReads a.size reads path options = (.ok records, after) →
      evaluateAll after records = .error fault → Fails command options openFile a path

theorem fine_visit : (visit command options openFile 0 a path).1.fine = true ↔
    ¬ Fails command options openFile a path := by
  cases opened : openFile path with
  | error reason =>
    rw [visit_error opened]
    exact iff_of_false (by simp [Report.fault]) (not_not_intro (.opening opened))
  | ok reads =>
    cases run : (a.create path (some 0)).parseReads a.size reads path options with
    | mk result after =>
      cases result with
      | error error =>
        rw [visit_parse_error opened run]
        exact iff_of_false (by simp [Report.fault]) (not_not_intro (.reading opened run))
      | ok records =>
        have evaluated : (visit command options openFile 0 a path).1.fine = true ↔
            (command = .check → ∀ fault, evaluateAll after records ≠ .error fault) := by
          rw [visit_ok opened run]
          cases command with
          | check => simp [Command.report, fine_checkRecords]
          | dump | fmt => simp [Command.report]
        rw [evaluated]
        constructor
        · rintro well (⟨failed⟩ | ⟨opened', failed⟩ | ⟨isCheck, opened', parsed, fault⟩)
          · rw [opened] at failed
            cases failed
          · obtain rfl := Except.ok.inj (opened.symm.trans opened')
            rw [run] at failed
            cases failed
          · obtain rfl := Except.ok.inj (opened.symm.trans opened')
            rw [run] at parsed
            cases parsed
            exact well isCheck _ fault
        · intro well isCheck fault failed
          exact well (.evaluating isCheck opened run failed)

/-! ## All files -/

/-- The arena after files. -/
def arenaAfter (command : Command) (options : Options)
    (openFile : String → Except String (List Read)) (a : Arena) (paths : List String) : Arena :=
  paths.foldl (fun a path => (visit command options openFile 0 a path).2) a

theorem visitAll_cons : visitAll command options openFile 0 a (path :: files) =
    (visit command options openFile 0 a path).1 ::
      visitAll command options openFile 0 (visit command options openFile 0 a path).2 files := rfl

theorem length_visitAll :
    (visitAll command options openFile 0 a files).length = files.length := by
  induction files generalizing a with
  | nil => rfl
  | cons path files ih => rw [visitAll_cons, List.length_cons, List.length_cons, ih]

/-- Some report is not fine exactly if one of the files fails when its turn comes. -/
theorem all_fine_visitAll : (visitAll command options openFile 0 a files).all (·.fine) = false ↔
    ∃ before path after, files = before ++ path :: after ∧
      Fails command options openFile (arenaAfter command options openFile a before) path := by
  induction files generalizing a with
  | nil => simp [visitAll]
  | cons first files ih =>
    have split : (visitAll command options openFile 0 a (first :: files)).all (·.fine) = false ↔
        Fails command options openFile a first ∨
          (visitAll command options openFile 0 (visit command options openFile 0 a first).2 files).all
            (·.fine) = false := by
      rw [visitAll_cons, List.all_cons, Bool.and_eq_false_iff, ← Bool.not_eq_true, fine_visit, not_not]
    rw [split, ih]
    constructor
    · rintro (fails | ⟨before, path, after, rfl, fails⟩)
      · exact ⟨[], first, files, rfl, fails⟩
      · exact ⟨first :: before, path, after, rfl, fails⟩
    · rintro ⟨before, path, after, whole, fails⟩
      cases before with
      | nil =>
        cases whole
        exact .inl fails
      | cons _ before =>
        cases whole
        exact .inr ⟨before, path, after, rfl, fails⟩

/-- The elements that are marked. -/
def pick {α : Type} : List Bool → List α → List α
  | true :: marks, x :: xs => x :: pick marks xs
  | false :: marks, _ :: xs => pick marks xs
  | [], _ => []
  | _ :: _, [] => []

/-- Without some files that are quiet, the reports of the other ones are the same. -/
theorem visitAll_pick (same : a.SameGlobal b) (total : marks.length = files.length)
    (quiet : ∀ path ∈ pick (marks.map (!·)) files, Quiet options openFile path) :
    visitAll command options openFile 0 b (pick marks files) =
      pick marks (visitAll command options openFile 0 a files) := by
  induction marks generalizing files a b with
  | nil =>
    obtain rfl := List.length_eq_zero_iff.mp total.symm
    rfl
  | cons mark marks ih =>
    obtain ⟨path, files, rfl⟩ := List.exists_cons_of_length_eq_add_one total.symm
    have rest := Nat.succ.inj total
    rw [visitAll_cons]
    cases mark with
    | true =>
      -- The file stays: it sees the same global scope and reports the same.
      obtain ⟨report, kept⟩ := visit_sameGlobal command options openFile path same
      rw [pick, pick, visitAll_cons, ih kept rest quiet, report]
    | false =>
      -- The file is left out, and the global scope is the same without it.
      obtain ⟨here, others⟩ := List.forall_mem_cons.mp quiet
      rw [pick, pick, ih (visit_quiet here same) rest others]

end Visits

/-! ## Runs -/

theorem sameGlobal_globalArena (defines : List (String × String)) :
    (globalArena defines).SameGlobal (globalArena defines) := by
  have inside : ∀ (defines : List (String × String)) (a : Arena), 0 < a.size →
      0 < (defines.foldl (fun a define => a.bind 0 define.1 (defineToken define.2)) a).size := by
    intro defines
    induction defines with
    | nil => exact fun _ h => h
    | cons define defines ih => exact fun a h => ih _ (by rwa [Arena.size_bind])
  have found := Array.getElem?_eq_getElem
    (inside defines (Arena.empty.create "global" none) Nat.zero_lt_one)
  exact ⟨_, found, found⟩

/-- What the files of a run contribute, each on its own. -/
def contributions (command : Command) (arguments : Arguments)
    (openFile : String → Except String (List Read)) : List Report :=
  visitAll command arguments.options openFile 0 (globalArena arguments.defines) arguments.files

section Runs

variable {name : String} {arguments : Arguments} {command : Command}
  {openFile : String → Except String (List Read)}

theorem run_eq {args : List String} (taken : Arguments.ofList args = .ok (name, arguments))
    (known : Command.ofName? name = some command)
    (openFile : String → Except String (List Read)) :
    run args openFile = .ofReports (contributions command arguments openFile) := by
  rw [run, taken]
  dsimp only
  rw [known]
  rfl

theorem exit_ofReports {reports : List Report} :
    ((Outcome.ofReports reports).exit = 1 ↔ reports.all (·.fine) = false) ∧
      ((Outcome.ofReports reports).exit = 0 ∨ (Outcome.ofReports reports).exit = 1) := by
  rw [Outcome.ofReports]
  cases reports.all (·.fine) <;> simp

/-- A run prints what its files contribute, in their order. Its exit code is 1 exactly if one of them
fails when its turn comes, and 0 otherwise. Without some files that fail or bind no global symbol, the
other files contribute the same. -/
theorem run_files {args : List String} (taken : Arguments.ofList args = .ok (name, arguments))
    (known : Command.ofName? name = some command) :
    let told (reports : List Report) : Outcome :=
      { exit := if reports.all (·.fine) then 0 else 1
        stdout := String.join (reports.map (·.out))
        stderr := String.join (reports.map (·.err)) }
    (contributions command arguments openFile).length = arguments.files.length ∧
      run args openFile = told (contributions command arguments openFile) ∧
      ((run args openFile).exit = 1 ↔
        ∃ before path after, arguments.files = before ++ path :: after ∧
          Fails command arguments.options openFile
            (arenaAfter command arguments.options openFile (globalArena arguments.defines) before)
            path) ∧
      ((run args openFile).exit = 0 ∨ (run args openFile).exit = 1) ∧
      ∀ marks : List Bool, marks.length = arguments.files.length →
        (∀ path ∈ pick (marks.map (!·)) arguments.files, Quiet arguments.options openFile path) →
        contributions command { arguments with files := pick marks arguments.files } openFile =
            pick marks (contributions command arguments openFile) ∧
          ∀ args',
            Arguments.ofList args' = .ok (name, { arguments with files := pick marks arguments.files }) →
            run args' openFile = told (pick marks (contributions command arguments openFile)) := by
  intro told
  have whole : run args openFile = told (contributions command arguments openFile) :=
    run_eq taken known openFile
  refine ⟨length_visitAll, whole, ?_, whole ▸ exit_ofReports.2, fun marks total quiet => ?_⟩
  · rw [whole]
    exact exit_ofReports.1.trans all_fine_visitAll
  · have picked : contributions command { arguments with files := pick marks arguments.files } openFile =
        pick marks (contributions command arguments openFile) :=
      visitAll_pick (sameGlobal_globalArena arguments.defines) total quiet
    exact ⟨picked, fun args' taken' => picked ▸ run_eq taken' known openFile⟩

/-- A file with a global symbol, a file that uses it, and a file without any. -/
def sampleFiles : String → Except String (List Read)
  | "globals" => .ok (Read.ofText ".global HOST 'a'")
  | "user" => .ok (Read.ofText ".test t .uri HOST")
  | "plain" => .ok (Read.ofText ".parent HOST 'b' .test t .uri HOST")
  | _ => .error "not found"

/-- A file that is absent and one without global symbols can be left out; the first one makes the exit
code 1. -/
theorem run_files_sampleFiles :
    Arguments.ofList ["check", "globals", "absent", "plain", "user"] =
        .ok ("check", { command := some "check", files := ["globals", "absent", "plain", "user"] }) ∧
      Command.ofName? "check" = some .check ∧
      (run ["check", "globals", "absent", "plain", "user"] sampleFiles).exit = 1 ∧
      (run ["check", "globals", "absent", "plain", "user"] sampleFiles).stderr =
        "absent: absent: not found\n" ∧
      run ["check", "globals", "user"] sampleFiles =
        { exit := 0
          stdout := "globals: ok (0 test(s))\nuser: ok (1 test(s))\n"
          stderr := "" } := by
  have taken : Arguments.ofList ["check", "globals", "absent", "plain", "user"] =
      .ok ("check", { command := some "check", files := ["globals", "absent", "plain", "user"] }) :=
    rfl
  have known : Command.ofName? "check" = some .check := rfl
  have taken' : Arguments.ofList ["check", "globals", "user"] =
      .ok ("check", { command := some "check", files := ["globals", "user"] }) := rfl
  have absent : Quiet {} sampleFiles "absent" := by
    have failed : (Arena.empty.parseFile 0 "absent" (sampleFiles "absent") {}).1 =
        .error (.file "absent" "not found") := by decide +kernel
    exact .fails failed
  have plain : Quiet {} sampleFiles "plain" := by
    have silent : (({ source := "plain", rest := Read.ofText ".parent HOST 'b' .test t .uri HOST" } :
        Lexer).tokens.1.all (!·.isGlobal)) = true := by decide +kernel
    refine .silent rfl fun token ht => ?_
    simpa using List.all_eq_true.mp silent token ht
  have reports : contributions .check
      { command := some "check", files := ["globals", "absent", "plain", "user"] } sampleFiles =
        [⟨"globals: ok (0 test(s))\n", "", true⟩, .fault "absent: absent: not found\n",
          ⟨"plain: ok (1 test(s))\n", "", true⟩, ⟨"user: ok (1 test(s))\n", "", true⟩] := by decide +kernel
  obtain ⟨-, whole, exit, -, others⟩ := run_files taken known
  rw [reports] at whole others
  refine ⟨taken, known, exit.mpr ⟨["globals"], "absent", ["plain", "user"], rfl, .opening rfl⟩, ?_, ?_⟩
  · rw [whole]
    decide
  · have quiet : ∀ path ∈ ["absent", "plain"], Quiet {} sampleFiles path :=
      List.forall_mem_cons.mpr ⟨absent, List.forall_mem_cons.mpr ⟨plain, by simp⟩⟩
    rw [(others [true, false, false, true] rfl quiet).2 _ taken']
    decide

end Runs

end CommandLine

end HttpSuite
