import HttpSuite.Proofs.Directives.Effect
import HttpSuite.Proofs.Rollback
import HttpSuite.Proofs.Scopes.Walks

/-!
# Sessions

A session is an arena and the records that were handed back, under any operations in any order. Tables
are added at the end only, and those that a suite adds before it fails are gone when it has failed. So
a table that an operation has left behind stays in its place, below its parent, through the whole
session, and each record keeps a table of its own (`Session.Follows`).

* `parse_grows`: the tables of a suite that was read.
* `follows_step`, `follows_run`: one operation, and any number of them.
* `run_forest`: the tables of a session, and what refers to them.
-/

namespace HttpSuite

/-! ## Operations -/

/-- What a suite can be read from. -/
inductive Input where
  | tokens (source : String) (tokens : List Token)
  | reads (source : String) (reads : List Read)
  | text (source text : String)
  /-- A file that was opened, or could not be opened for a reason. -/
  | file (path : String) (file : Except String (List Read))

/-- Reads a suite. -/
def Arena.parseInput (a : Arena) (scope : ScopeId) (options : Options) :
    Input → Except Error (List TestRecord) × Arena
  | .tokens source tokens => a.parseTokens scope tokens source options
  | .reads source reads => a.parseReads scope reads source options
  | .text source text => a.parseText scope text source options
  | .file path file => a.parseFile scope path file options

/-- What can be done in a session. A record is named by its place among those handed back. -/
inductive Operation where
  | create (name : String) (parent : Option ScopeId)
  | bind (scope : ScopeId) (symbol : String) (token : Token)
  | unbind (scope : ScopeId) (symbol : String)
  | rename (scope : ScopeId) (name : String)
  | parse (scope : ScopeId) (options : Options) (input : Input)
  | newRecord (name : String) (span : Span) (parent : Option ScopeId)
  | renameRecord (place : Nat) (name : String)

/-- The scope that the operation is called with. -/
def Operation.scope? : Operation → Option ScopeId
  | create _ parent | newRecord _ _ parent => parent
  | bind scope .. | unbind scope _ | rename scope _ | parse scope .. => some scope
  | renameRecord .. => none

/-- An arena, and the records that were handed back. -/
structure Session where
  arena : Arena := .empty
  records : List TestRecord := []

namespace Session

/-- The session after an operation on a scope of the arena. -/
def perform (session : Session) : Operation → Session
  | .create name parent => { session with arena := session.arena.create name parent }
  | .bind scope symbol token => { session with arena := session.arena.bind scope symbol token }
  | .unbind scope symbol => { session with arena := session.arena.unbind scope symbol }
  | .rename scope name => { session with arena := session.arena.rename scope name }
  | .parse scope options input =>
    match session.arena.parseInput scope options input with
    | (.ok records, arena) => { arena, records := session.records ++ records }
    | (.error _, arena) => { session with arena }
  | .newRecord name span parent =>
    let (record, arena) := TestRecord.create session.arena name span parent
    { arena, records := session.records ++ [record] }
  | .renameRecord place name =>
    match session.records[place]? with
    | none => session
    | some record =>
      let (record, arena) := record.rename session.arena name
      { arena, records := session.records.set place record }

/-- The session after an operation. A scope that is not in the arena is refused. -/
def step (session : Session) (operation : Operation) : Session :=
  if operation.scope?.all (· < session.arena.size) then session.perform operation else session

/-- The session after operations, from an empty arena. -/
def run (operations : List Operation) : Session := operations.foldl step {}

end Session

/-! ## Tables that stay -/

/-- The tables of `a` are in `b` as well, each below the same parent. -/
structure Arena.Grows (a b : Arena) : Prop where
  size_le : a.size ≤ b.size
  parent : ∀ s < a.size, b.parent? s = a.parent? s

namespace Arena

variable {a b c : Arena}

theorem Grows.refl (a : Arena) : a.Grows a := ⟨Nat.le_refl _, fun _ _ => rfl⟩

theorem Grows.trans (first : a.Grows b) (second : b.Grows c) : a.Grows c where
  size_le := Nat.le_trans first.size_le second.size_le
  parent s inside :=
    (second.parent s (Nat.lt_of_lt_of_le inside first.size_le)).trans (first.parent s inside)

theorem create_grows (a : Arena) (name : String) (parent : Option ScopeId) :
    a.Grows (a.create name parent) where
  size_le := by
    rw [size_create]
    exact Nat.le_succ _
  parent s inside := by rw [parent?, table?_create, if_neg (Nat.ne_of_lt inside), parent?]

theorem modify_grows (a : Arena) (s : ScopeId) (f : Table → Table)
    (keeps : ∀ table, (f table).parent = table.parent) : a.Grows (a.modify s f keeps) where
  size_le := Nat.le_of_eq Array.size_modify.symm
  parent d _ := parent?_modify d

theorem rename_grows (a : Arena) (s : ScopeId) (name : String) : a.Grows (a.rename s name) :=
  a.modify_grows ..

/-- Tables with more heads behind those of `a` have grown from `a`. -/
theorem grows_of_heads {more : List (String × Option ScopeId)} (heads : b.heads = a.heads ++ more) :
    a.Grows b where
  size_le := by
    rw [← length_heads, ← length_heads, heads, List.length_append]
    exact Nat.le_add_right _ _
  parent s inside := by
    rw [parent?_eq_heads, parent?_eq_heads, heads,
      List.getElem?_append_left (a.length_heads ▸ inside)]

/-- A suite that was read adds one table for each record, in their order. -/
theorem parse_grows {scope : ScopeId} {source : String} {options : Options} {feed : Feed}
    {records : List TestRecord} (inside : scope < a.size)
    (parsed : a.parse scope source options feed = (.ok records, b)) :
    a.Grows b ∧ b.size = a.size + records.length ∧
      records.map (·.scope) = List.range' a.size records.length := by
  obtain ⟨last, -, applies, rfl, rfl⟩ := parse_eq_ok.mp parsed
  have extended := applies.extended inside
  refine ⟨grows_of_heads extended.heads, ?_, extended.numbers⟩
  rw [← length_heads, extended.heads, List.length_append, List.length_map, length_heads]

/-- Whatever a suite is read from: a fault leaves the arena as it was, and the tables of a suite that
was read have been added to it. -/
theorem parseInput_cases {scope : ScopeId} (inside : scope < a.size) (options : Options) (input : Input) :
    (∃ error, a.parseInput scope options input = (.error error, a)) ∨
      ∃ records b, a.parseInput scope options input = (.ok records, b) ∧
        a.Grows b ∧ b.size = a.size + records.length ∧
        records.map (·.scope) = List.range' a.size records.length := by
  have whole (source : String) (feed : Feed) :
      (∃ error, a.parse scope source options feed = (.error error, a)) ∨
        ∃ records b, a.parse scope source options feed = (.ok records, b) ∧
          a.Grows b ∧ b.size = a.size + records.length ∧
          records.map (·.scope) = List.range' a.size records.length := by
    cases parsed : a.parse scope source options feed with
    | mk result b =>
      cases result with
      | error error => exact .inl ⟨error, by rw [parse_error parsed]⟩
      | ok records => exact .inr ⟨records, b, rfl, parse_grows inside parsed⟩
  cases input with
  | tokens source tokens => exact whole _ _
  | reads source reads => exact whole _ _
  | text source text => exact whole _ _
  | file path file =>
    cases file with
    | error reason => exact .inl ⟨_, rfl⟩
    | ok reads => exact whole _ _

end Arena

namespace Session

/-- What there was in a session is there still, and each record handed back since then has a table of
its own that is new. -/
structure Follows (session next : Session) : Prop where
  grows : session.arena.Grows next.arena
  records : ∃ new, next.records.map (·.scope) = session.records.map (·.scope) ++ new ∧
    new.Pairwise (· < ·) ∧ ∀ s ∈ new, session.arena.size ≤ s ∧ s < next.arena.size

variable {session next last : Session} {a : Arena}

theorem Follows.refl (session : Session) : session.Follows session :=
  ⟨.refl _, [], (List.append_nil _).symm, .nil, by simp⟩

/-- The records of the second part come after all of the first one. -/
theorem Follows.trans (first : session.Follows next) (second : next.Follows last) :
    session.Follows last := by
  obtain ⟨new, eq, ascending, bounds⟩ := first.records
  obtain ⟨new', eq', ascending', bounds'⟩ := second.records
  refine ⟨first.grows.trans second.grows, new ++ new', ?_, ?_, ?_⟩
  · rw [eq', eq, List.append_assoc]
  · refine List.pairwise_append.mpr ⟨ascending, ascending', fun s mem s' mem' => ?_⟩
    exact Nat.lt_of_lt_of_le (bounds s mem).2 (bounds' s' mem').1
  · rintro s mem
    rcases List.mem_append.mp mem with mem | mem
    · exact ⟨(bounds s mem).1, Nat.lt_of_lt_of_le (bounds s mem).2 second.grows.size_le⟩
    · exact ⟨Nat.le_trans first.grows.size_le (bounds' s mem).1, (bounds' s mem).2⟩

/-- A session in which only the arena has grown. -/
theorem follows_of_grows (grows : session.arena.Grows a) : session.Follows { session with arena := a } :=
  ⟨grows, [], (List.append_nil _).symm, .nil, by simp⟩

/-- A session with more records, whose tables were added one after the other. -/
theorem follows_of_numbers {records : List TestRecord} (grows : session.arena.Grows a)
    (size : a.size = session.arena.size + records.length)
    (numbers : records.map (·.scope) = List.range' session.arena.size records.length) :
    session.Follows { arena := a, records := session.records ++ records } := by
  refine ⟨grows, List.range' session.arena.size records.length, ?_, List.pairwise_lt_range' _, ?_⟩
  · rw [List.map_append, numbers]
  · intro s mem
    rwa [List.mem_range'_1, ← size] at mem

theorem follows_perform {operation : Operation}
    (known : ∀ s, operation.scope? = some s → s < session.arena.size) :
    session.Follows (session.perform operation) := by
  cases operation with
  | create name parent => exact follows_of_grows (session.arena.create_grows name parent)
  | bind scope symbol token => exact follows_of_grows (session.arena.modify_grows ..)
  | unbind scope symbol => exact follows_of_grows (session.arena.modify_grows ..)
  | rename scope name => exact follows_of_grows (session.arena.rename_grows scope name)
  | parse scope options input =>
    rcases Arena.parseInput_cases (known scope rfl) options input with
      ⟨error, failed⟩ | ⟨records, b, parsed, grows, size, numbers⟩
    · simp only [perform, failed]
      exact .refl session
    · simp only [perform, parsed]
      exact follows_of_numbers grows size numbers
  | newRecord name span parent =>
    exact follows_of_numbers (session.arena.create_grows name parent) (Arena.size_create ..) rfl
  | renameRecord place name =>
    simp only [perform]
    split
    · exact .refl session
    · next record found =>
      refine ⟨session.arena.rename_grows record.scope name, [], ?_, .nil, by simp⟩
      have scope : (session.records.map (·.scope))[place]? = some record.scope := by
        rw [List.getElem?_map, found, Option.map_some]
      obtain ⟨inside, scope⟩ := List.getElem?_eq_some_iff.mp scope
      rw [List.append_nil, List.map_set]
      exact scope ▸ List.set_getElem_self inside

theorem follows_step (session : Session) (operation : Operation) :
    session.Follows (session.step operation) := by
  unfold step
  split
  · next known => exact follows_perform (by simpa [Option.all_eq_true] using known)
  · exact .refl session

theorem follows_foldl (session : Session) (operations : List Operation) :
    session.Follows (operations.foldl step session) := by
  induction operations generalizing session with
  | nil => exact .refl session
  | cons operation operations ih => exact (session.follows_step operation).trans (ih _)

/-- More operations leave all tables in their places. -/
theorem follows_run (operations more : List Operation) :
    (run operations).Follows (run (operations ++ more)) := by
  rw [run, run, List.foldl_append]
  exact follows_foldl ..

/-- A suite that cannot be read leaves the session as it was. -/
theorem step_failed {scope : ScopeId} {options : Options} {input : Input} {error : Error}
    (failed : (session.arena.parseInput scope options input).1 = .error error) :
    session.step (.parse scope options input) = session := by
  unfold step
  split
  · next known =>
    rcases Arena.parseInput_cases (by simpa [Operation.scope?] using known) options input with
      ⟨_, same⟩ | ⟨records, _, parsed, -⟩
    · simp only [perform, same]
    · rw [parsed] at failed
      cases failed
  · rfl

/-- A table of the session is below this one, or a record has it for its scope. -/
def RefersTo (session : Session) (n : ScopeId) : Prop :=
  (∃ s, session.arena.parent? s = some n) ∨ ∃ record ∈ session.records, record.scope = n

theorem lt_size_of_refersTo {operations : List Operation} {n : ScopeId}
    (refers : (run operations).RefersTo n) : n < (run operations).arena.size := by
  rcases refers with ⟨s, parent⟩ | ⟨record, mem, rfl⟩
  · exact Nat.lt_trans (Arena.parent?_lt parent) (Arena.lt_size_of_parent? parent)
  · obtain ⟨new, eq, -, bounds⟩ := (follows_run [] operations).records
    have all : (run operations).records.map (·.scope) = new := eq
    exact (bounds _ (all ▸ List.mem_map_of_mem mem)).2

/-- The tables of a session are a forest, in which every parent has a smaller number and is there.
The walks to the root and to a value end within as many steps as there are tables. The root has no
parent, is on the chain, and is shared by the chain. Nothing refers to a table that is not there; the
records have tables of their own, and no later operation takes one away or moves it. A suite that
cannot be read leaves nothing behind. -/
theorem run_forest (operations : List Operation) :
    let session := run operations
    let a := session.arena
    (∀ s table p, a.table? s = some table → table.parent = some p →
        p < s ∧ ∃ above, a.table? p = some above) ∧
      (∀ s < a.size, a.climb a.size s = some (a.root s) ∧
        ∀ symbol, a.search symbol a.size s = some (a.lookup? s symbol)) ∧
      (∀ s < a.size, a.root s ∈ a.chain s ∧ a.root s < a.size ∧ a.parent? (a.root s) = none ∧
        ∀ d ∈ a.chain s, a.root d = a.root s) ∧
      (∀ n, session.RefersTo n → n < a.size) ∧
      (session.records.map (·.scope)).Pairwise (· < ·) ∧
      (∀ more, session.Follows (run (operations ++ more))) ∧
      ∀ scope options input error, (a.parseInput scope options input).1 = .error error →
        run (operations ++ [.parse scope options input]) = session := by
  intro session a
  refine ⟨fun s table p found parent => ?parent, fun s inside => ?walks, fun s inside => ?root,
    fun n => lt_size_of_refersTo, ?own, follows_run operations, fun scope options input error failed => ?failed⟩
  case parent =>
    have lt : p < s := a.parent_lt s table found p parent
    exact ⟨lt, Arena.exists_table? (Nat.lt_trans lt (Arena.lt_size_of_table? found))⟩
  case walks =>
    exact ⟨Arena.climb_eq_root inside inside, fun symbol => Arena.search_eq_lookup? symbol inside inside⟩
  case root =>
    exact ⟨a.root_mem_chain s, Nat.lt_of_le_of_lt (a.root_le s) inside, a.parent?_root s,
      fun d => Arena.root_of_mem_chain⟩
  case own =>
    obtain ⟨new, eq, ascending, -⟩ := (follows_run [] operations).records
    have all : session.records.map (·.scope) = new := eq
    exact all ▸ ascending
  case failed =>
    rw [run, List.foldl_append]
    exact step_failed failed

/-- A suite that fails behind its second test, and another one of two records whose tables have the
numbers that the first one took. -/
example :
    let text (second : String) : Operation :=
      .parse 0 {} (.text "in" (".test a .parent X 1 .test " ++ second))
    let session := run [.create "global" none, text "a", text "b", .newRecord "c" ⟨"in", 9⟩ (some 2)]
    session.records.map (·.scope) = [1, 2, 3, 4] ∧ session.arena.size = 5 ∧
      session.arena.parent? 4 = some 2 := by
  decide +kernel

end Session

end HttpSuite
