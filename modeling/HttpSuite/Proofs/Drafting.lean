import HttpSuite.Proofs.Directives.Acceptance
import HttpSuite.Proofs.Reformat.Reread
import HttpSuite.Record.Draft

/-!
# Drafts and the text that says the same

A request can be set up as a draft, edit by edit, or written as a test with one statement for every
edit. The two ways meet in the setters of a record, and a setter looks at the words of its tokens and
never at their places. So a draft and the record of its text agree (`TestRecord.Agrees`) as long as
both take what they are given, and stop at the same setting for the same reason.

* `agrees_putField`, `agrees_setHeader`: one setter, on records that agree.
* `exists_written`: the tokens of the text write one statement for every setting.
* `agree_settings`: a draft and a suite, by induction on the settings.
* `parseText_settings`: a draft and the text that says the same.
-/

namespace HttpSuite

open Word

/-- A part of a request that is set to a text. -/
inductive Setting where
  | field (field : RequestField) (text : String)
  | header (name text : String)

namespace Setting

/-- The setting as an edit of a draft. -/
def edit : Setting → Edit
  | field f text => .text f text
  | header name text => .header name text

/-- The directive of the setting. -/
def directive : Setting → Directive
  | field f _ => .field f
  | header _ _ => .header

/-- What stands behind the directive. -/
def texts : Setting → List String
  | field _ text => [text]
  | header name text => [name, text]

/-- The setting as a line of a source, with every text in single quotes. -/
def line (setting : Setting) : String :=
  setting.directive.keyword ++
    String.join (setting.texts.map fun text => " " ++ quote .single text) ++ "\n"

/-- The words of the setting. -/
def words (setting : Setting) : List Word :=
  setting.directive.word :: setting.texts.map (⟨.string, ·⟩)

end Setting

/-- A test with settings, line by line; `named` is its name as it is written. -/
def settingsText (named : String) (settings : List Setting) : String :=
  Directive.test.keyword ++ " " ++ named ++ "\n" ++ String.join (settings.map Setting.line)

/-! ## Records that agree -/

/-- The headers by key, with their names and what is sent. -/
def Request.sent (request : Request) : List (String × String × String) :=
  request.headers.entries.map fun e => (e.1, e.2.name, e.2.raw)

/-- The header without its place. -/
def Header.word (header : Header) : String × Word := (header.name, header.value.word)

/-- The records have the same name and the same words in their requests. -/
structure TestRecord.Agrees (record other : TestRecord) : Prop where
  name : record.name = other.name
  fields : ∀ f, (record.request.field? f).map Token.word = (other.request.field? f).map Token.word
  headers : record.request.headers.map Header.word = other.request.headers.map Header.word

/-- Two results of a setter: records that agree, or faults of one cause. -/
inductive Concur : Except RecordError TestRecord → Except RecordError TestRecord → Prop
  | ok {record other : TestRecord} : record.Agrees other → Concur (.ok record) (.ok other)
  | error {cause : RecordCause} {here there : Span} :
      Concur (.error ⟨cause, here⟩) (.error ⟨cause, there⟩)

theorem template_congr {token other : Token} (h : token.word = other.word) :
    token.template = other.template := by
  obtain ⟨kind, text⟩ := Word.mk.inj h
  rw [Token.template, Token.template, kind, text]

/-- Bodies of the same words grow to the same words, or for the same reason do not. -/
theorem growBody_congr {body other : Option Token} {part part' : Token}
    (h : body.map Token.word = other.map Token.word) (h' : part.word = part'.word) :
    (∃ cause, growBody body part = .error cause ∧ growBody other part' = .error cause) ∨
      ∃ grown grown', growBody body part = .ok grown ∧ growBody other part' = .ok grown' ∧
        grown.word = grown'.word := by
  cases body with
  | none =>
    obtain rfl : other = none := by simpa using h.symm
    exact .inr ⟨part, part', rfl, rfl, h'⟩
  | some body =>
    obtain ⟨other, rfl, same⟩ := Option.map_eq_some_iff.mp h.symm
    have kind : other.kind = body.kind := congrArg Word.kind same
    have kind' : part.kind = part'.kind := congrArg Word.kind h'
    simp only [growBody, joinBody, template_congr same, template_congr h', kind, kind']
    split
    · exact .inl ⟨_, rfl, rfl⟩
    · exact .inr ⟨_, _, rfl, rfl, rfl⟩

namespace TestRecord

variable {record other : TestRecord} {token token' : Token}

theorem Agrees.sent (h : record.Agrees other) : record.request.sent = other.request.sent := by
  have sent (request : Request) : request.sent = (request.headers.map Header.word).entries.map
      fun e => (e.1, e.2.1, e.2.1 ++ ": " ++ e.2.2.text) := by
    simp only [Request.sent, KeyMap.map, List.map_map]
    rfl
  rw [sent, sent, h.headers]

theorem Agrees.setField (h : record.Agrees other) (word : token.word = token'.word)
    (f : RequestField) :
    Agrees { record with request := record.request.setField f token }
      { other with request := other.request.setField f token' } := by
  refine ⟨h.name, fun g => ?_, ?_⟩
  · simp only [Request.field?_setField]
    split
    · exact congrArg some word
    · exact h.fields g
  · simpa using h.headers

theorem Agrees.put (h : record.Agrees other) (name : String) (word : token.word = token'.word) :
    Agrees { record with
        request := { record.request with headers := record.request.headers.put ⟨name, token⟩ } }
      { other with
        request := { other.request with headers := other.request.headers.put ⟨name, token'⟩ } } := by
  refine ⟨h.name, fun g => ?_, ?_⟩
  · have same := h.fields g
    cases g <;> exact same
  · simp only [HeaderMap.put, KeyMap.map_insert, h.headers, Header.word, word]

theorem agrees_setField (h : record.Agrees other) (word : token.word = token'.word)
    (f : RequestField) : Concur (record.setField f token) (other.setField f token') := by
  have kind : token.kind = token'.kind := congrArg Word.kind word
  simp only [TestRecord.setField, checkValue, kind]
  split
  · exact .ok (h.setField word f)
  · exact .error

theorem appendBody_eq (h : token.kind.isValue = true) :
    record.appendBody token =
      match growBody record.request.body token with
      | .error cause => .error ⟨cause, token.span⟩
      | .ok body => .ok { record with request := record.request.setField .body body } := by
  simp only [appendBody, checkValue, h]
  cases record.request.body <;> rfl

theorem agrees_appendBody (h : record.Agrees other) (word : token.word = token'.word) :
    Concur (record.appendBody token) (other.appendBody token') := by
  have kind : token.kind = token'.kind := congrArg Word.kind word
  by_cases value : token'.kind.isValue = true
  · rw [appendBody_eq (kind ▸ value), appendBody_eq value]
    rcases growBody_congr (h.fields .body) word with
      ⟨cause, eq, eq'⟩ | ⟨grown, grown', eq, eq', same⟩ <;>
      simp only [Request.field?] at eq eq' <;> rw [eq, eq']
    · exact .error
    · exact .ok (h.setField same .body)
  · simp only [appendBody, checkValue, kind, if_neg value]
    exact .error

theorem agrees_putField (h : record.Agrees other) (word : token.word = token'.word)
    (f : RequestField) : Concur (record.putField f token) (other.putField f token') := by
  cases f with
  | body => exact agrees_appendBody h word
  | method => exact agrees_setField h word .method
  | uri => exact agrees_setField h word .uri
  | httpVersion => exact agrees_setField h word .httpVersion

theorem agrees_setHeader (h : record.Agrees other) (name : String) (word : token.word = token'.word) :
    Concur (record.setHeader name token) (other.setHeader name token') := by
  have kind : token.kind = token'.kind := congrArg Word.kind word
  unfold TestRecord.setHeader checkValue
  by_cases named : isHeaderName name = true
  · by_cases value : token'.kind.isValue = true
    · simp only [named, kind, value]
      exact .ok (h.put name word)
    · simp only [named, kind, if_neg value]
      exact .error
  · simp only [named]
    exact .error

end TestRecord

/-! ## Suites and drafts -/

/-- The statement sets what the setting does. -/
inductive Setting.SetBy : Setting → Statement → Prop
  | field {f : RequestField} {text : String} {value : Token} :
      value.word = ⟨.string, text⟩ → SetBy (.field f text) (.field f value)
  | header {name text : String} {value : Token} :
      value.word = ⟨.string, text⟩ → SetBy (.header name text) (.header name value)

theorem apply_field (suite : Suite) (f : RequestField) (value : Token) :
    suite.apply (.field f value) = suite.setCurrent (suite.current.putField f value) := by
  cases f <;> rfl

/-- A statement does to the current record what the edit does to a draft. -/
theorem exists_setCurrent_concur {suite : Suite} {draft : Draft} {setting : Setting}
    {statement : Statement} (set : setting.SetBy statement)
    (agrees : suite.current.Agrees draft.record) :
    ∃ result, suite.apply statement = suite.setCurrent result ∧
      Concur result (draft.record.perform setting.edit) := by
  cases set with
  | @field f text value word =>
    exact ⟨_, apply_field suite f value, TestRecord.agrees_putField agrees word f⟩
  | @header name text value word =>
    exact ⟨_, rfl, TestRecord.agrees_setHeader agrees name word⟩

/-- Statements that set what a draft is given: the current record agrees with the draft, or both stop
for the same reason. -/
theorem agree_settings {suite : Suite} {draft : Draft} {settings : List Setting}
    {statements : List Statement} (set : List.Forall₂ Setting.SetBy settings statements)
    (agrees : suite.current.Agrees draft.record) (clean : draft.fault = none) :
    (∃ last record, suite.applyAll statements = (last, none) ∧
      (draft.performAll (settings.map Setting.edit)).build = .ok record ∧
      last.finished = suite.finished ∧ last.current.Agrees record) ∨
    ∃ last cause here there, suite.applyAll statements = (last, some ⟨.invalidField cause, here⟩) ∧
      (draft.performAll (settings.map Setting.edit)).build = .error ⟨cause, there⟩ := by
  induction set generalizing suite draft with
  | nil =>
    have built : (draft.performAll []).build = .ok draft.record := by
      simp [Draft.performAll, Draft.build, clean]
    exact .inl ⟨suite, draft.record, rfl, built, rfl, agrees⟩
  | @cons setting statement settings statements first _ ih =>
    obtain ⟨result, applied, concur⟩ := exists_setCurrent_concur first agrees
    rw [Suite.applyAll, applied, List.map_cons, Draft.performAll, List.foldl_cons, Draft.perform, clean]
    generalize draft.record.perform setting.edit = performed at concur ⊢
    cases concur with
    | ok agrees => exact ih agrees rfl
    | @error cause here there =>
      let stopped : Draft := { draft with fault := some ⟨cause, there⟩ }
      have stays : stopped.performAll (settings.map Setting.edit) = stopped :=
        Draft.performAll_fault rfl _
      exact .inr ⟨suite, cause, here, there, rfl, congrArg Draft.build stays⟩

/-! ## From the text to the statements -/

section Text

variable {source name named : String} {settings : List Setting}

theorem isValue_of_word {token : Token} {text : String} (h : token.word = ⟨.string, text⟩) :
    token.kind.isValue = true ∧ Expecting.isNameKind token.kind = true ∧ token.text = text := by
  obtain ⟨kind, rfl⟩ := Word.mk.inj h
  exact ⟨by rw [kind]; rfl, by rw [kind]; rfl, rfl⟩

/-- Tokens that say the words of settings write statements that set the same. -/
theorem exists_written {tokens : List Token}
    (said : Says source tokens (settings.flatMap Setting.words)) :
    ∃ statements, Written tokens statements ∧ List.Forall₂ Setting.SetBy settings statements := by
  induction settings generalizing tokens with
  | nil =>
    obtain rfl := said.nil_inv
    exact ⟨[], .nil, .nil⟩
  | cons setting settings ih =>
    obtain ⟨first, rest, rfl, here, others⟩ := said.append_inv
    obtain ⟨statements, written, set⟩ := ih others
    obtain ⟨directive, parameters, rfl, word, -, said⟩ := here.cons_inv
    cases setting with
    | field f text =>
      obtain ⟨value, _, rfl, worded, -, said⟩ := said.cons_inv
      obtain rfl := said.nil_inv
      obtain ⟨isValue, -, -⟩ := isValue_of_word worded
      exact ⟨_, .cons (.field word isValue) written, .cons (.field worded) set⟩
    | header name text =>
      obtain ⟨title, _, rfl, titled, -, said⟩ := said.cons_inv
      obtain ⟨value, _, rfl, worded, -, said⟩ := said.cons_inv
      obtain rfl := said.nil_inv
      obtain ⟨isValue, -, -⟩ := isValue_of_word worded
      obtain ⟨-, isName, rfl⟩ := isValue_of_word titled
      exact ⟨_, .cons (.header word isName isValue) written, .cons (.header worded) set⟩

/-- The name of a test may stand in quotes, or bare if it is a symbol. -/
theorem exists_nameWord (h : named = quote .single name ∨ named = canonicalName name) :
    ∃ w : Word, w.Lexical ∧ w.spelling = named.toList ∧ w.text = name ∧
      Expecting.isNameKind w.kind = true ∧ w.kind ≠ .shellCommand := by
  rcases h with rfl | rfl
  · exact ⟨⟨.string, name⟩, trivial, rfl, rfl, rfl, by simp⟩
  · refine ⟨nameWord name, nameWord_lexical name, (canonicalName_toList name).symm, rfl, ?_, ?_⟩ <;>
      unfold nameWord <;> split <;> simp [Expecting.isNameKind]

theorem spells_line (setting : Setting) : SpellsApart setting.line.toList setting.words := by
  have lexical : ∀ w ∈ setting.texts.map (Word.mk .string), w.Lexical := by simp [Word.Lexical]
  have quoted : (setting.texts.map fun text => " " ++ quote .single text).flatMap String.toList =
      spaced (setting.texts.map (Word.mk .string)) := by
    simp [spaced, List.flatMap_map, Word.spelling]
  have spelled : setting.line.toList = setting.directive.word.spelling ++
      spaced (setting.texts.map (Word.mk .string)) ++ ['\n'] := by
    simp [Setting.line, String.toList_join, quoted]
    rfl
  rw [spelled]
  exact SpellsApart.line (Directive.word_lexical setting.directive) lexical

theorem spells_settingsText {w : Word} (lexical : w.Lexical) (spelled : w.spelling = named.toList) :
    Spells (settingsText named settings).toList
      (Directive.test.word :: w :: settings.flatMap Setting.words) := by
  have test := SpellsApart.line (Directive.word_lexical .test) (List.forall_mem_singleton.mpr lexical)
  have lines := SpellsApart.flatMap fun setting (_ : setting ∈ settings) => spells_line setting
  have text : (settingsText named settings).toList =
      Directive.test.word.spelling ++ spaced [w] ++ ['\n'] ++
        settings.flatMap fun setting => setting.line.toList := by
    simp [settingsText, String.toList_join, List.flatMap_map, spaced, spelled]
    rfl
  rw [text]
  exact (test.append lines).spells

/-- No words are merged without shell commands. -/
theorem merged_settings {w : Word} (other : w.kind ≠ .shellCommand) :
    merged (Directive.test.word :: w :: settings.flatMap Setting.words) =
      Directive.test.word :: w :: settings.flatMap Setting.words := by
  have plain : ∀ v ∈ Directive.test.word :: w :: settings.flatMap Setting.words,
      v.kind ≠ .shellCommand := by
    have line (setting : Setting) : ∀ v ∈ setting.words, v.kind ≠ .shellCommand := by
      simp [Setting.words, Directive.word]
    simpa [Directive.word, other] using fun v setting _ hv => line setting v hv
  generalize Directive.test.word :: w :: settings.flatMap Setting.words = ws at plain
  induction ws with
  | nil => rfl
  | cons v vs ih =>
    obtain ⟨first, others⟩ := List.forall_mem_cons.mp plain
    rw [merged_cons, ih others]
    exact joinFirst_eq_cons fun shell => absurd shell first

/-- The text is read as one test and statements that set what the settings do. -/
theorem exists_script (source : String) {limit : Nat}
    (spelled : named = quote .single name ∨ named = canonicalName name)
    (within : LinesWithin limit (settingsText named settings)) :
    ∃ span statements, List.Forall₂ Setting.SetBy settings statements ∧
      Script.ofFeed (.ofLexer { source, rest := Read.ofText (settingsText named settings), limit }) =
        ⟨.test span name :: statements, none⟩ := by
  obtain ⟨w, lexical, spelling, rfl, isName, other⟩ := exists_nameWord spelled
  obtain ⟨tokens, stop, feed, said⟩ :=
    feed_of_spells source (spells_settingsText lexical spelling) within
  rw [merged_settings other] at said
  obtain ⟨directive, _, rfl, word, -, said⟩ := said.cons_inv
  obtain ⟨title, _, rfl, rfl, -, said⟩ := said.cons_inv
  obtain ⟨statements, written, set⟩ := exists_written said
  have whole := (Written.cons (.test word isName) written).reads
  refine ⟨directive.span, statements, set, ?_⟩
  rw [feed]
  exact readFrom_all whole (.ok stop)

end Text

/-! ## Drafts and texts -/

/-- A draft with the name of a record that was just created. -/
def Draft.named (b : Arena) (name : String) (span : Span) (parent : Option ScopeId) : Draft :=
  { record := (TestRecord.create b name span parent).1 }

section Whole

variable {source name named : String} {settings : List Setting}

/-- A suite that begins with one test and settings: the draft is built and agrees with the second
record, or it fails for the reason that the suite does. -/
theorem applyTo_settings {a b : Arena} {scope : ScopeId} {options : Options} {place span : Span}
    {parent : Option ScopeId} {statements : List Statement}
    (set : List.Forall₂ Setting.SetBy settings statements)
    (fresh : options.uniqueNames = true → name ≠ options.implicitName) :
    (∃ last implicit read record,
      (Script.mk (.test place name :: statements) none).applyTo (.start a scope source options) =
        (last, none) ∧ last.records = [implicit, read] ∧
      ((Draft.named b name span parent).performAll (settings.map Setting.edit)).build =
        .ok record ∧ read.Agrees record) ∨
    ∃ last cause here there,
      (Script.mk (.test place name :: statements) none).applyTo (.start a scope source options) =
        (last, some (.parse ⟨.invalidField cause, here⟩)) ∧
      ((Draft.named b name span parent).performAll (settings.map Setting.edit)).build =
        .error ⟨cause, there⟩ := by
  have alone : (Suite.start a scope source options).namesake? name = none :=
    Suite.namesake?_eq_none_iff.mpr fun unique mem => fresh unique (List.mem_singleton.mp mem)
  have agrees : ((Suite.start a scope source options).startTest place name).current.Agrees
      (Draft.named b name span parent).record := ⟨rfl, fun f => by cases f <;> rfl, rfl⟩
  rw [Script.applyTo, Suite.applyAll, Suite.apply, alone]
  rcases agree_settings set agrees rfl with
    ⟨last, record, applied, ok, finished, same⟩ | ⟨last, cause, here, there, applied, failed⟩
  · have records : last.records = [(Suite.start a scope source options).current, last.current] := by
      rw [Suite.records, finished]
      rfl
    exact .inl ⟨last, _, last.current, record, by simp only [applied, Option.map_none], records, ok,
      same⟩
  · exact .inr ⟨last, cause, here, there, by simp only [applied], failed⟩

end Whole

namespace Arena

/-- A test with settings is read, or refused, as a draft takes them. If the draft can be built, a
second record is read behind the implicit one, with the name of the draft, the same kinds and texts in
all fields and the same headers. If not, the fault in the text is a field that cannot be set, for the
reason that the draft gives. -/
theorem parseText_settings (a b : Arena) (scope : ScopeId) (source : String) (options : Options)
    (span : Span) (parent : Option ScopeId) {name named : String} (settings : List Setting)
    (spelled : named = quote .single name ∨ named = canonicalName name)
    (fresh : options.uniqueNames = true → name ≠ options.implicitName)
    (within : LinesWithin options.lineLimit (settingsText named settings)) :
    let built := ((Draft.named b name span parent).performAll (settings.map Setting.edit)).build
    let parsed := (a.parseText scope (settingsText named settings) source options).1
    ((∃ records, parsed = .ok records) ↔ ∃ record, built = .ok record) ∧
      (∀ record, built = .ok record → ∃ implicit read, parsed = .ok [implicit, read] ∧
        read.name = record.name ∧
        (∀ f, (read.request.field? f).map Token.word = (record.request.field? f).map Token.word) ∧
        read.request.sent = record.request.sent) ∧
      ∀ fault, built = .error fault →
        ∃ place, parsed = .error (.parse ⟨.invalidField fault.cause, place⟩) := by
  intro built parsed
  obtain ⟨place, statements, set, script⟩ := exists_script source spelled within
  have parse : parsed = (a.parse scope source options (.ofLexer
      { source, rest := Read.ofText (settingsText named settings), limit := options.lineLimit })).1 :=
    rfl
  rw [Arena.parse, script] at parse
  rcases applyTo_settings set fresh with
    ⟨last, implicit, read, record, applied, records, ok, same⟩ |
    ⟨last, cause, here, there, applied, failed⟩
  · have built_eq : built = .ok record := ok
    rw [applied] at parse
    dsimp only at parse
    rw [records] at parse
    clear_value parsed built
    subst parse built_eq
    refine ⟨by simp, ?_, by simp⟩
    rintro _ ⟨⟩
    exact ⟨implicit, read, rfl, same.name, same.fields, same.sent⟩
  · have built_eq : built = .error ⟨cause, there⟩ := failed
    rw [applied] at parse
    dsimp only at parse
    clear_value parsed built
    subst parse built_eq
    refine ⟨by simp, by simp, ?_⟩
    rintro _ ⟨⟩
    exact ⟨here, rfl⟩

/-- Quotes and backslashes in all places, a body of two parts, and a header that is set twice; with
`named`, one more header of that name. -/
def sampleSettings (named : Option String) : List Setting :=
  [.field .body "it's ", .header "Accept" "a", .field .body "\\", .header "ACCEPT" "b"] ++
    named.toList.map (.header · "")

/-- A header whose name is none refuses the text of a draft that could be built without it. -/
theorem parseText_settings_sampleSettings :
    let text (named : Option String) := settingsText (quote .single "a'b") (sampleSettings named)
    LinesWithin 60 (text none) ∧
      (∃ implicit read, (empty.parseText 0 (text none) "in" { lineLimit := 60 }).1 =
          .ok [implicit, read] ∧ read.name = "a'b" ∧
        (read.request.field? .body).map Token.word = some ⟨.string, "it's \\"⟩ ∧
        read.request.sent = [("accept", "ACCEPT", "ACCEPT: b")]) ∧
      ∃ place, (empty.parseText 0 (text (some "a b")) "in" { lineLimit := 60 }).1 =
        .error (.parse ⟨.invalidField (.invalidHeaderName "a b"), place⟩) := by
  have within : ∀ named ∈ [none, some "a b"],
      LinesWithin 60 (settingsText (quote .single "a'b") (sampleSettings named)) := by
    decide +kernel
  have draft (named : Option String) := @parseText_settings empty empty 0 "in" { lineLimit := 60 }
    ⟨"draft", 1⟩ none "a'b" _ (sampleSettings named) (.inl rfl) (by decide)
  refine ⟨within none (by simp), ?_, ?_⟩
  · obtain ⟨implicit, read, parsed, name, fields, sent⟩ := (draft none (within _ (by simp))).2.1 _ rfl
    exact ⟨implicit, read, parsed, name, (fields .body).trans (by decide +kernel),
      sent.trans (by decide +kernel)⟩
  · have failed : ((Draft.named empty "a'b" ⟨"draft", 1⟩ none).performAll
        ((sampleSettings (some "a b")).map Setting.edit)).build =
          .error ⟨.invalidHeaderName "a b", ⟨"draft", 1⟩⟩ := by decide +kernel
    exact (draft (some "a b") (within _ (by simp))).2.2 _ failed

end Arena

end HttpSuite
