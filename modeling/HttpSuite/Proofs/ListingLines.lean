import HttpSuite.Listing
import Mathlib.Algebra.GroupWithZero.Nat
import Mathlib.Data.List.Basic

/-!
# The lines of a listing

A listing has a row for every thing that it shows (`TestRecord.rows`). Most texts in a row are quoted and
cannot hold a line feed. Some stand as they are: the name of a scope, its symbols, the names of headers
and the operands of assertions. A line feed in one of these breaks its row in two.

Line feeds are counted. A row adds its own one and those that it holds, also when the rows of a scope are
written out, split into lines again and indented. So the number of lines alone says whether any row is
broken.

* `lineFeeds_unlines`, `length_lines_unlines`, `lines_unlines`: rows, and the lines of their text.
* `lineFeeds_listing`: the line feeds of a listing.
* `TestRecord.oneLine_rows`: the rows of a record are lines if its raw texts are.
* `listing_lines_iff`: the number of lines of a listing.
-/

namespace HttpSuite

/-! ## Texts on one line -/

/-- The text has no line feed. -/
def OneLine (text : String) : Prop := '\n' ∉ text.toList

instance (text : String) : Decidable (OneLine text) := inferInstanceAs (Decidable (¬ _))

/-- The number of line feeds in the text. -/
def lineFeeds (text : String) : Nat := text.toList.count '\n'

theorem lineFeeds_eq_zero {text : String} : lineFeeds text = 0 ↔ OneLine text :=
  List.count_eq_zero

@[simp] theorem lineFeeds_append (first second : String) :
    lineFeeds (first ++ second) = lineFeeds first + lineFeeds second := by
  simp [lineFeeds]

@[simp] theorem oneLine_append {first second : String} :
    OneLine (first ++ second) ↔ OneLine first ∧ OneLine second := by
  simp [OneLine]

theorem oneLine_join {texts : List String} :
    OneLine (String.join texts) ↔ ∀ text ∈ texts, OneLine text := by
  simp [OneLine, String.toList_join]

@[simp] theorem oneLine_padRight {width : Nat} {text : String} :
    OneLine (padRight width text) ↔ OneLine text := by
  simp [padRight, OneLine, List.mem_replicate]

@[simp] theorem oneLine_quoted (text : String) : OneLine (Quoted.text text) := by
  simp [OneLine, Quoted.text, Quoted.newline_not_mem_escaped]

@[simp] theorem oneLine_repr (n : Nat) : OneLine n.repr := by
  intro mem
  have digits : '\n' ∈ Nat.toDigits 10 n := by simpa using mem
  cases Nat.isDigit_of_mem_toDigits (by decide) (by decide) digits

@[simp] theorem oneLine_spanText {span : Span} : OneLine span.text ↔ OneLine span.source := by
  simp +decide [Span.text]

@[simp] theorem oneLine_kindName (kind : TokenKind) : OneLine kind.name := by
  cases kind <;> decide

@[simp] theorem oneLine_fieldName (field : RequestField) : OneLine field.name := by
  cases field <;> decide

@[simp] theorem oneLine_keyword (op : Operator) : OneLine op.keyword := by
  cases op <;> decide

/-- Escaping for a literal keeps line feeds. -/
@[simp] theorem oneLine_quote {delimiter : Delimiter} {text : String} :
    OneLine (quote delimiter text) ↔ OneLine text := by
  have delimited : delimiter.char ≠ '\n' := by cases delimiter <;> decide
  have kept (c : Char) : '\n' ∈ escapeIn delimiter c ↔ '\n' = c := by
    unfold escapeIn
    split <;> simp
  simp [OneLine, quote, kept, delimited.symm]

@[simp] theorem oneLine_canonical {token : Token} : OneLine token.canonical ↔ OneLine token.text := by
  unfold Token.canonical
  split <;> simp

/-! ## Rows and lines -/

theorem unlines_cons (row : String) (rows : List String) :
    unlines (row :: rows) = row ++ "\n" ++ unlines rows := by
  simp [unlines]

theorem unlines_append (first second : List String) :
    unlines (first ++ second) = unlines first ++ unlines second := by
  simp [unlines, String.join_append]

/-- Every row ends in a line feed. -/
theorem lineFeeds_unlines (rows : List String) :
    lineFeeds (unlines rows) = rows.length + (rows.map lineFeeds).sum := by
  induction rows with
  | nil => rfl
  | cons row rows ih =>
    have newline : lineFeeds "\n" = 1 := by decide
    rw [unlines_cons, lineFeeds_append, lineFeeds_append, newline, ih, List.length_cons, List.map_cons,
      List.sum_cons]
    omega

theorem length_linesFrom (line cs : List Char) :
    (linesFrom line (cs ++ ['\n'])).length = cs.count '\n' + 1 := by
  induction cs generalizing line with
  | nil => rfl
  | cons c cs ih =>
    by_cases newline : c = '\n'
    · simp [linesFrom, newline, ih]
    · simp [linesFrom, newline, ih]

/-- Every row is written with its end, so splitting gives as many lines as there are line feeds. -/
theorem length_lines_unlines (rows : List String) :
    (lines (unlines rows)).length = lineFeeds (unlines rows) := by
  rw [lines, List.length_map]
  rcases List.eq_nil_or_concat' rows with rfl | ⟨rows, row, rfl⟩
  · rfl
  · have split : (unlines (rows ++ [row])).toList = (unlines rows ++ row).toList ++ ['\n'] := by
      simp [unlines]
    rw [lineFeeds, split, length_linesFrom, List.count_append]
    rfl

theorem oneLine_of_mem_lines {text line : String} (h : line ∈ lines text) : OneLine line := by
  have clean (cs line : List Char) (oneLine : '\n' ∉ line) :
      ∀ found ∈ linesFrom line cs, '\n' ∉ found := by
    induction cs generalizing line with
    | nil =>
      unfold linesFrom
      split <;> simp [oneLine]
    | cons c cs ih =>
      unfold linesFrom
      split
      · have first : '\n' ∉ closeLine line := by
          unfold closeLine
          split <;> simp_all
        exact List.forall_mem_cons.mpr ⟨first, ih [] List.not_mem_nil⟩
      · next other =>
        have ne : '\n' ≠ c := fun eq => other (beq_iff_eq.mpr eq.symm)
        exact ih (c :: line) (List.not_mem_cons_of_ne_of_not_mem ne oneLine)
  obtain ⟨cs, mem, rfl⟩ := List.mem_map.mp h
  simpa [OneLine] using clean _ [] List.not_mem_nil cs mem

theorem closeLine_reverse {cs : List Char} (closed : cs.getLast? ≠ some '\r') :
    closeLine cs.reverse = cs := by
  unfold closeLine
  split
  · next line eq => simp [List.reverse_eq_cons_iff.mp eq] at closed
  · exact cs.reverse_reverse

/-- Rows on one line are the lines of their text, unless the end of one could be taken for part of the
line end. -/
theorem lines_unlines {rows : List String} (oneLine : ∀ row ∈ rows, OneLine row)
    (closed : ∀ row ∈ rows, row.toList.getLast? ≠ some '\r') : lines (unlines rows) = rows := by
  induction rows with
  | nil => rfl
  | cons row rows ih =>
    obtain ⟨oneLine, laterOneLine⟩ := List.forall_mem_cons.mp oneLine
    obtain ⟨closed, laterClosed⟩ := List.forall_mem_cons.mp closed
    have text : unlines (row :: rows) = String.ofList (row.toList ++ '\n' :: (unlines rows).toList) := by
      simp [← String.toList_inj, unlines_cons]
    rw [text, lines_append_newline oneLine, closeLine_reverse closed, String.ofList_toList,
      String.ofList_toList, ih laterOneLine laterClosed]

/-! ## What a listing shows -/

/-- The text of an operand. -/
def Entry.operandText? : Entry → Option String
  | operand token => some token.text
  | operator .. => none

@[simp] theorem oneLine_entryCanonical {entry : Entry} :
    OneLine entry.canonical ↔ ∀ text ∈ entry.operandText?, OneLine text := by
  cases entry <;> simp [Entry.canonical, Entry.operandText?]

namespace TestRecord

variable (record : TestRecord) (a : Arena)

/-- The rows of a record itself: its title, the fields, the headers, what is set of the response, and the
assertions. -/
def ownRows : List String :=
  ("test " ++ Quoted.text record.name ++ " [" ++ record.span.text ++ "]") ::
    RequestField.all.map record.fieldLine
    ++ (record.request.headers.entries.map fun (key, header) => headerLine key header)
    ++ responseLines record.response
    ++ record.assertions.map assertionLine

/-- The rows of a record and, indented, those of its scope. -/
def rows : List String := record.ownRows ++ (a.listingLines record.scope).map ("  " ++ ·)

/-- The number of rows: one title, four fields, one for each request header, one for each of HTTP
version, status code and reason of the response that is set, one for its body unless it is empty, one for
each response header and assertion, one title of the scope and one for each of its own bindings. -/
def rowCount : Nat :=
  1 + 4 + record.request.headers.size
    + (record.response.httpVersion.toList.length + record.response.statusCode.toList.length
      + record.response.reason.toList.length)
    + (if record.response.body = "" then 0 else 1) + record.response.headers.size
    + record.assertions.length + (1 + (a.bindings record.scope).length)

theorem length_rows : (record.rows a).length = record.rowCount a := by
  have body : (if record.response.body = "" then []
      else ["  response body " ++ Quoted.text record.response.body]).length =
        if record.response.body = "" then 0 else 1 := by
    split <;> rfl
  simp only [rows, ownRows, rowCount, responseLines, Arena.listingLines, RequestField.all, KeyMap.size,
    List.length_append, List.length_cons, List.length_map, List.length_nil, body]
  omega

/-- The names of the sources that a record shows. -/
def shownSources : List String :=
  record.span.source :: (RequestField.all.filterMap record.request.field?).map (·.span.source)
    ++ record.request.headers.entries.map (·.2.span.source)
    ++ record.assertions.map (·.span.source)
    ++ (a.bindings record.scope).map (·.2.span.source)

/-- The other texts that a record shows as they are. -/
def rawTexts : List String :=
  a.name record.scope :: (a.bindings record.scope).map (·.1)
    ++ record.request.headers.entries.map (·.1)
    ++ record.response.headers.entries.map (·.1)
    ++ record.assertions.flatMap (·.entries.filterMap Entry.operandText?)

variable {record : TestRecord} {a : Arena}

theorem oneLine_fieldLine {field : RequestField}
    (named : ∀ token ∈ record.request.field? field, OneLine token.span.source) :
    OneLine (record.fieldLine field) := by
  unfold fieldLine
  split
  · next token found => simp +decide [named token found]
  · simp +decide

theorem oneLine_headerLine {key : String} {header : Header} (named : OneLine header.value.span.source) :
    OneLine (headerLine key header) ↔ OneLine key := by
  simp +decide [headerLine, Header.span, named]

theorem oneLine_responseLines {response : Response} :
    (∀ row ∈ responseLines response, OneLine row) ↔
      ∀ entry ∈ response.headers.entries, OneLine entry.1 := by
  simp only [responseLines, List.forall_mem_append, List.forall_mem_map]
  simp +decide

theorem oneLine_assertionLine {assertion : Assertion} (named : OneLine assertion.span.source) :
    OneLine (assertionLine assertion) ↔
      ∀ text ∈ assertion.entries.filterMap Entry.operandText?, OneLine text := by
  have before : OneLine ("  assert [" ++ assertion.span.text ++ "]:") := by simp +decide [named]
  rw [assertionLine, oneLine_append, oneLine_join, List.forall_mem_map, List.forall_mem_filterMap]
  simp +decide [before]

end TestRecord

theorem Arena.oneLine_listingLines {a : Arena} {scope : ScopeId}
    (named : ∀ binding ∈ a.bindings scope, OneLine binding.2.span.source) :
    (∀ row ∈ a.listingLines scope, OneLine row) ↔
      OneLine (a.name scope) ∧ ∀ binding ∈ a.bindings scope, OneLine binding.1 := by
  have title : OneLine ("symbols [" ++ a.name scope ++ "]:") ↔ OneLine (a.name scope) := by
    simp +decide
  rw [listingLines, List.forall_mem_cons, List.forall_mem_map, title]
  refine and_congr_right fun name => forall₂_congr fun binding mem => ?_
  simp +decide [name, named binding mem]

/-- No row of a scope ends in a carriage return. -/
theorem Arena.closed_listingLines (a : Arena) (scope : ScopeId) :
    ∀ row ∈ a.listingLines scope, row.toList.getLast? ≠ some '\r' := by
  simp only [listingLines, List.forall_mem_cons, List.forall_mem_map, String.toList_append,
    List.getLast?_append]
  simp

namespace TestRecord

variable {record : TestRecord} {a : Arena}

/-- The rows of a record are lines if the texts that stand in them as they are have no line feed. -/
theorem oneLine_rows (named : ∀ source ∈ record.shownSources a, OneLine source) :
    (∀ row ∈ record.rows a, OneLine row) ↔ ∀ text ∈ record.rawTexts a, OneLine text := by
  simp only [shownSources, List.forall_mem_append, List.forall_mem_cons, List.forall_mem_map,
    List.forall_mem_filterMap] at named
  obtain ⟨⟨⟨⟨own, fields⟩, headers⟩, assertions⟩, bindings⟩ := named
  -- Quoted texts have no line feed; the other rows have those of what stands in them as it is.
  have title : OneLine ("test " ++ Quoted.text record.name ++ " [" ++ record.span.text ++ "]") := by
    simp +decide [own]
  have fieldRows : ∀ field ∈ RequestField.all, OneLine (record.fieldLine field) :=
    fun field mem => oneLine_fieldLine (fields field mem)
  have headerRows : (∀ entry ∈ record.request.headers.entries, OneLine (headerLine entry.1 entry.2)) ↔
      ∀ entry ∈ record.request.headers.entries, OneLine entry.1 :=
    forall₂_congr fun entry mem => oneLine_headerLine (headers entry mem)
  have assertionRows : (∀ assertion ∈ record.assertions, OneLine (assertionLine assertion)) ↔
      ∀ assertion ∈ record.assertions,
        ∀ text ∈ assertion.entries.filterMap Entry.operandText?, OneLine text :=
    forall₂_congr fun assertion mem => oneLine_assertionLine (assertions assertion mem)
  have indented (row : String) : OneLine ("  " ++ row) ↔ OneLine row := by simp +decide
  simp only [rows, ownRows, rawTexts, List.forall_mem_append, List.forall_mem_cons, List.forall_mem_map,
    List.forall_mem_flatMap, indented, headerRows, oneLine_responseLines, assertionRows,
    Arena.oneLine_listingLines bindings]
  constructor
  · rintro ⟨⟨⟨⟨-, headers⟩, responses⟩, assertions⟩, scope⟩
    exact ⟨⟨⟨scope, headers⟩, responses⟩, assertions⟩
  · rintro ⟨⟨⟨scope, headers⟩, responses⟩, assertions⟩
    exact ⟨⟨⟨⟨⟨title, fieldRows⟩, headers⟩, responses⟩, assertions⟩, scope⟩

theorem listingLines_eq (record : TestRecord) (a : Arena) :
    record.listingLines a = record.ownRows ++ (lines (a.listing record.scope)).map ("  " ++ ·) := rfl

/-- Every row of a record adds its own line feed and those that it holds. -/
theorem lineFeeds_listingLines (record : TestRecord) (a : Arena) :
    lineFeeds (unlines (record.listingLines a)) =
      (record.rows a).length + ((record.rows a).map lineFeeds).sum := by
  have indented (texts : List String) :
      (texts.map ("  " ++ ·)).map lineFeeds = texts.map lineFeeds := by
    have indent : lineFeeds "  " = 0 := by decide
    simp [indent]
  -- However the rows of the scope are split again, their lines hold no line feed any more.
  have split : ((lines (a.listing record.scope)).map lineFeeds).sum = 0 := by
    rw [List.sum_eq_zero_iff_forall_eq_nat, List.forall_mem_map]
    exact fun line mem => lineFeeds_eq_zero.mpr (oneLine_of_mem_lines mem)
  have nested : (lines (a.listing record.scope)).length =
      (a.listingLines record.scope).length + ((a.listingLines record.scope).map lineFeeds).sum := by
    rw [Arena.listing, length_lines_unlines, lineFeeds_unlines]
  rw [lineFeeds_unlines, listingLines_eq, rows]
  simp only [List.length_append, List.map_append, List.sum_append, List.length_map, indented]
  omega

/-- The lines of a record are its rows, if these are lines. -/
theorem listingLines_eq_rows (oneLine : ∀ row ∈ record.rows a, OneLine row) :
    record.listingLines a = record.rows a := by
  have scope : ∀ row ∈ a.listingLines record.scope, OneLine row := fun row mem =>
    (oneLine_append.mp (oneLine _ (List.mem_append_right _ (List.mem_map_of_mem mem)))).2
  rw [listingLines_eq, rows, Arena.listing, lines_unlines scope (a.closed_listingLines record.scope)]

end TestRecord

theorem listing_eq (a : Arena) (records : List TestRecord) :
    listing a records = unlines (records.flatMap (·.listingLines a)) := by
  induction records with
  | nil => rfl
  | cons record records ih =>
    have first : listing a [record] = unlines (record.listingLines a) := by simp [listing]
    rw [← List.singleton_append, listing_append, first, ih, List.singleton_append, List.flatMap_cons,
      unlines_append]

theorem lineFeeds_listing (a : Arena) (records : List TestRecord) :
    lineFeeds (listing a records) =
      (records.flatMap (·.rows a)).length + ((records.flatMap (·.rows a)).map lineFeeds).sum := by
  rw [listing_eq]
  induction records with
  | nil => rfl
  | cons record records ih =>
    simp only [List.flatMap_cons, unlines_append, lineFeeds_append, ih,
      TestRecord.lineFeeds_listingLines, List.length_append, List.map_append, List.sum_append]
    omega

/-- A listing has a line for every row exactly if no text that stands in it as it is has a line feed; then
its lines are the rows. -/
theorem listing_lines_iff (a : Arena) (records : List TestRecord)
    (named : ∀ record ∈ records, ∀ source ∈ record.shownSources a, OneLine source) :
    (lineFeeds (listing a records) = (records.map (·.rowCount a)).sum ↔
      ∀ record ∈ records, ∀ text ∈ record.rawTexts a, OneLine text) ∧
    ((∀ record ∈ records, ∀ text ∈ record.rawTexts a, OneLine text) →
      listing a records = unlines (records.flatMap (·.rows a)) ∧
      ∀ row ∈ records.flatMap (·.rows a), OneLine row) := by
  have rows : (∀ row ∈ records.flatMap (·.rows a), OneLine row) ↔
      ∀ record ∈ records, ∀ text ∈ record.rawTexts a, OneLine text := by
    rw [List.forall_mem_flatMap]
    exact forall₂_congr fun record mem => TestRecord.oneLine_rows (named record mem)
  have count : (records.flatMap (·.rows a)).length = (records.map (·.rowCount a)).sum := by
    simp [List.length_flatMap, TestRecord.length_rows]
  refine ⟨?_, fun oneLine => ⟨?_, rows.mpr oneLine⟩⟩
  · rw [← rows, ← count, lineFeeds_listing, Nat.add_eq_left, List.sum_eq_zero_iff_forall_eq_nat,
      List.forall_mem_map]
    exact forall₂_congr fun row _ => lineFeeds_eq_zero
  · have rowsOf : ∀ record ∈ records, record.listingLines a = record.rows a := fun record mem =>
      TestRecord.listingLines_eq_rows fun row inside =>
        rows.mpr oneLine row (List.mem_flatMap_of_mem mem inside)
    rw [listing_eq, List.flatMap_congr rowsOf]

/-- A record whose quoted texts have line feeds, and its arena. -/
def quotedLines : TestRecord × Arena :=
  let value : Token := ⟨.string, "a\nb", ⟨"in", 2⟩⟩
  let (record, a) := TestRecord.create .empty "t" ⟨"in", 1⟩ none
  ({ record with
      request := { body := some value, headers := .put .empty ⟨"Accept", value⟩ }
      response := { reason := some "a\nb", body := "\n", headers := .put .empty ⟨"Via", value⟩ }
      assertions := [⟨⟨"in", 3⟩, [.operand ⟨.symbol, "A", ⟨"in", 3⟩⟩]⟩] },
    a.bind record.scope "A" value)

theorem listing_lines_iff_quotedLines :
    (∀ source ∈ quotedLines.1.shownSources quotedLines.2, OneLine source) ∧
      lineFeeds (listing quotedLines.2 [quotedLines.1]) = 12 := by
  have named : ∀ source ∈ quotedLines.1.shownSources quotedLines.2, OneLine source := by decide
  have oneLine : ∀ text ∈ quotedLines.1.rawTexts quotedLines.2, OneLine text := by decide
  refine ⟨named, ?_⟩
  have count := (listing_lines_iff quotedLines.2 [quotedLines.1] (by simpa using named)).1.mpr
    (by simpa using oneLine)
  exact count.trans (by decide)

/-- A record with one assertion of one operand, and its arena. -/
def asserting (name operand : String) : TestRecord × Arena :=
  let (record, a) := TestRecord.create .empty name ⟨"in", 1⟩ none
  ({ record with assertions := [⟨⟨"in", 1⟩, [.operand ⟨.string, operand, ⟨"in", 1⟩⟩]⟩] }, a)

/-- A line feed in an operand makes two lines of an assertion, and one in the name of a scope makes two
lines of its title. -/
theorem not_listing_lines_broken :
    let (byOperand, a) := asserting "t" "a\nb"
    let (byName, b) := asserting "t\nu" "a"
    (∀ source ∈ byOperand.shownSources a ++ byName.shownSources b, OneLine source) ∧
      lineFeeds (listing a [byOperand]) = byOperand.rowCount a + 1 ∧
      lineFeeds (listing b [byName]) = byName.rowCount b + 1 :=
  ⟨by decide, by decide +kernel, by decide +kernel⟩

end HttpSuite
