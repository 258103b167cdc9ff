import HttpSuite.Proofs.Evaluating
import HttpSuite.Proofs.InPlace

/-!
# Stored headers

A stored header repeats its name and value in two more parts. Whatever is done to a record, the parts of
every header agree, and the headers are those of the record: this holds of a new record, and each change
keeps it.

* `TestRecord.storedHeaders_change`, `StoredHeaders.Sound.change`: one change.
* `StoredHeaders.Sound.setResponseHeader_raw`: what is sent for a header reads as the same header.
* `TestRecord.read_setters`: what is read after setters, by the last of them that wrote to it.
* `TestRecord.headers_stored`: all of it for a new record.
-/

namespace HttpSuite

/-! ## Lines of a response -/

theorem trimChars_trimChars (cs : List Char) : trimChars (trimChars cs) = trimChars cs := by
  refine trimChars_of_isSpace_eq_false (fun c first => ?_) fun c last => ?_
  · obtain ⟨behind, split⟩ : trimChars cs <+: cs.dropWhile isSpace := by
      rw [← List.reverse_suffix, trimChars, List.reverse_reverse]
      exact List.dropWhile_suffix _
    have head : (cs.dropWhile isSpace).head? = some c := by
      rw [← split, List.head?_append, first]
      rfl
    simpa [head] using List.head?_dropWhile_not isSpace cs
  · have head : ((cs.dropWhile isSpace).reverse.dropWhile isSpace).head? = some c := by
      rwa [trimChars, List.getLast?_reverse] at last
    simpa [head] using List.head?_dropWhile_not isSpace (cs.dropWhile isSpace).reverse

theorem trim_trim (text : String) : trim (trim text) = trim text := by
  rw [trim, trim, String.toList_ofList, trimChars_trimChars]

theorem trim_space_append (text : String) : trim (" " ++ text) = trim text := by
  rw [trim, trim, String.toList_append]
  rfl

theorem proper_of_isHeaderName {name : String} (h : isHeaderName name = true) :
    name ≠ "" ∧ ∀ c ∈ name.toList, c ≠ ':' ∧ isBlank c = false := by
  simpa [isHeaderName] using h

/-- What is sent for a header is cut behind its name. -/
theorem cut_raw {name : String} (named : isHeaderName name = true) (text : String) :
    cut ':' (name ++ ": " ++ text) = some (name, " " ++ text) := by
  have absent : ':' ∉ name.toList := fun mem => ((proper_of_isHeaderName named).2 ':' mem).1 rfl
  have split : (name ++ ": " ++ text).toList = name.toList ++ ':' :: (" " ++ text).toList := by simp
  rw [cut, split, cutChars_eq_some.mpr ⟨rfl, absent⟩, Option.map_some]
  simp only [String.ofList_toList]

/-! ## One change -/

namespace TestRecord

variable {record next : TestRecord} {setter : Setter}

theorem change_set (ok : setter.call record = .ok next) : record.change (.set setter) = next := by
  rw [change, ok]

theorem change_refused (refused : ∀ next, setter.call record ≠ .ok next) :
    record.change (.set setter) = record := by
  rw [change]
  split
  · next next ok => exact absurd ok (refused next)
  · rfl

/-- A setter for another part leaves the headers. -/
theorem storedHeaders_of_call (ok : setter.call record = .ok next)
    (request : ∀ key, .header key ≠ setter.part)
    (response : ∀ key, .responseHeader key ≠ setter.part) :
    next.storedHeaders = record.storedHeaders := by
  have content := (Setter.changesOnly_of_call ok).1.content
  have requestHeaders : next.request.headers = record.request.headers :=
    KeyMap.ext_get? fun key => Content.header.inj (content _ (request key))
  have responseHeaders : next.response.headers = record.response.headers :=
    KeyMap.ext_get? fun key => Content.header.inj (content _ (response key))
  rw [storedHeaders, requestHeaders, responseHeaders, storedHeaders]

theorem storedHeaders_set (request : ∀ key, .header key ≠ setter.part)
    (response : ∀ key, .responseHeader key ≠ setter.part) :
    (record.change (.set setter)).storedHeaders = record.storedHeaders := by
  cases called : setter.call record with
  | ok next => rw [change_set called, storedHeaders_of_call called request response]
  | error fault => rw [change_refused fun next ok => by cases called.symm.trans ok]

theorem storedHeaders_setHeader (record : TestRecord) (name : String) (value : Token) :
    (record.change (.set (.header name value))).storedHeaders =
      record.storedHeaders.setHeader name value := by
  unfold StoredHeaders.setHeader
  split
  · next taken =>
    have ok : (Setter.header name value).call record = .ok _ :=
      setHeader_eq_ok.mpr ⟨taken.1, taken.2, rfl⟩
    rw [change_set ok]
    simp only [storedHeaders, HeaderMap.put, KeyMap.map_insert]
    rfl
  · next refused =>
    rw [change_refused fun next ok => ?_]
    obtain ⟨named, isValue, -⟩ := setHeader_eq_ok.mp ok
    exact refused ⟨named, isValue⟩

theorem storedHeaders_setResponseHeader (record : TestRecord) (span : Span) (raw : String) :
    (record.change (.set (.responseHeader span raw))).storedHeaders =
      record.storedHeaders.setResponseHeader span raw := by
  unfold StoredHeaders.setResponseHeader
  cases found : cut ':' raw with
  | none =>
    rw [change_refused fun next ok => ?_]
    obtain ⟨before, after, found', -⟩ := setResponseHeader_eq_ok.mp ok
    cases found.symm.trans found'
  | some parts =>
    obtain ⟨before, after⟩ := parts
    dsimp only
    split
    · next named =>
      have ok : (Setter.responseHeader span raw).call record = .ok _ :=
        setResponseHeader_eq_ok.mpr ⟨before, after, found, named, rfl⟩
      rw [change_set ok]
      simp only [storedHeaders, HeaderMap.put, KeyMap.map_insert]
      rfl
    · next refused =>
      rw [change_refused fun next ok => ?_]
      obtain ⟨before', after', found', named, -⟩ := setResponseHeader_eq_ok.mp ok
      cases found.symm.trans found'
      exact refused named

theorem storedHeaders_setHeaderText (record : TestRecord) (key text : String) :
    (record.setHeaderText key text).storedHeaders = record.storedHeaders.setHeaderText key text := by
  rw [setHeaderText, StoredHeaders.setHeaderText, request_storedHeaders]
  cases record.request.headers.get? key with
  | none => rfl
  | some header =>
    simp only [storedHeaders, KeyMap.map_insert, Option.map_some]
    rfl

/-- Each change writes to the stored headers what it makes of the record. -/
theorem storedHeaders_change (record : TestRecord) (change : Change) :
    (record.change change).storedHeaders = record.storedHeaders.change record change := by
  cases change with
  | set setter =>
    cases setter with
    | header name value => exact storedHeaders_setHeader record name value
    | responseHeader span raw => exact storedHeaders_setResponseHeader record span raw
    | field | body | appendBody | responseHttpVersion | statusCode | reason | responseBody
    | appendResponseBody => exact storedHeaders_set nofun nofun
  | headerText key text => exact storedHeaders_setHeaderText record key text
  | evaluate a => exact storedHeaders_evaluate record a

/-- So it is for any number of changes. -/
theorem storedHeaders_changes (record : TestRecord) (changes : List Change) :
    (record.changes changes).storedHeaders = record.storedHeaders.changes record changes := by
  induction changes generalizing record with
  | nil => rfl
  | cons change changes ih =>
    have first : record.changes (change :: changes) = (record.change change).changes changes := rfl
    rw [first, ih, storedHeaders_change, StoredHeaders.changes]

end TestRecord

/-! ## Sound headers -/

/-- The header goes by the lower-case form of a proper name, and its parts agree. -/
structure StoredHeader.Sound (key : String) (header : StoredHeader) : Prop where
  key : key = lowerCase header.name
  named : isHeaderName header.name = true
  raw : header.raw = header.name ++ ": " ++ header.value.text
  span : header.span = header.value.span

/-- The header is as a line of a response gives it, with no space around its name and value. -/
structure StoredHeader.FromLine (header : StoredHeader) : Prop where
  name : trim header.name = header.name
  text : trim header.value.text = header.value.text
  kind : header.value.kind = .string

/-- All headers are sound, and those of the response are as lines give them. -/
structure StoredHeaders.Sound (stored : StoredHeaders) : Prop where
  request : ∀ key header, stored.request.get? key = some header → header.Sound key
  response : ∀ key header, stored.response.get? key = some header → header.Sound key ∧ header.FromLine

namespace StoredHeader

variable {key name text : String} {value : Token} {header : StoredHeader}

theorem sound_make (named : isHeaderName name = true) : (make name value).Sound (lowerCase name) :=
  ⟨rfl, named, rfl, rfl⟩

theorem Sound.setText (h : header.Sound key) : (header.setText text).Sound key :=
  ⟨h.key, h.named, rfl, h.span⟩

/-- A sound header made anew with another value. -/
theorem Sound.renew (h : header.Sound key) : (make header.name value).Sound key :=
  ⟨h.key, h.named, rfl, rfl⟩

end StoredHeader

namespace StoredHeaders

variable {stored : StoredHeaders}

theorem Sound.insertRequest (h : stored.Sound) {key : String} {header : StoredHeader}
    (sound : header.Sound key) : { stored with request := stored.request.insert key header }.Sound where
  request other found := by
    rw [KeyMap.get?_insert]
    split
    · next same => rintro ⟨⟩; exact same ▸ sound
    · exact h.request other found
  response := h.response

theorem Sound.evaluate (h : stored.Sound) (lookup : String → Option Token) (keys : List String) :
    (stored.evaluate lookup keys).Sound := by
  fun_induction StoredHeaders.evaluate lookup stored keys with
  | case1 => exact h
  | case2 stored key keys unset ih => exact ih h
  | case3 stored key keys header found value resolves request ih =>
    exact ih (h.insertRequest (h.request key header found).renew)
  | case4 => exact h

theorem Sound.setHeader (h : stored.Sound) (name : String) (value : Token) :
    (stored.setHeader name value).Sound := by
  unfold StoredHeaders.setHeader
  split
  · next taken => exact h.insertRequest (StoredHeader.sound_make taken.1)
  · exact h

theorem Sound.setHeaderText (h : stored.Sound) (key text : String) :
    (stored.setHeaderText key text).Sound := by
  unfold StoredHeaders.setHeaderText
  split
  · exact h
  · next header found => exact h.insertRequest (h.request key header found).setText

theorem Sound.setResponseHeader (h : stored.Sound) (span : Span) (raw : String) :
    (stored.setResponseHeader span raw).Sound := by
  unfold StoredHeaders.setResponseHeader
  split
  · exact h
  · next before after found =>
    dsimp only
    split
    · next named =>
      refine ⟨h.request, fun key header found => ?_⟩
      rw [KeyMap.get?_insert] at found
      split at found
      · next same =>
        cases found
        exact same ▸ ⟨StoredHeader.sound_make named, trim_trim before, trim_trim after, rfl⟩
      · exact h.response key header found
    · exact h

/-- Every change keeps the headers sound. -/
theorem Sound.change (h : stored.Sound) (record : TestRecord) (change : Change) :
    (stored.change record change).Sound := by
  cases change with
  | set setter =>
    cases setter with
    | header name value => exact h.setHeader name value
    | responseHeader span raw => exact h.setResponseHeader span raw
    | field | body | appendBody | responseHttpVersion | statusCode | reason | responseBody
    | appendResponseBody => exact h
  | headerText key text => exact h.setHeaderText key text
  | evaluate a =>
    simp only [StoredHeaders.change]
    split
    · exact h.evaluate ..
    · exact h

theorem Sound.changes (h : stored.Sound) (record : TestRecord) (changes : List Change) :
    (stored.changes record changes).Sound := by
  induction changes generalizing stored record with
  | nil => exact h
  | cons change changes ih => exact ih (h.change record change) _

theorem sound_empty : ({} : StoredHeaders).Sound := ⟨nofun, nofun⟩

/-- What is sent for a header, read as a line of a response, stores the same header in another place. -/
theorem Sound.setResponseHeader_raw (h : stored.Sound) {key : String} {header : StoredHeader}
    (found : stored.response.get? key = some header) (span : Span) :
    stored.setResponseHeader span header.raw =
      { stored with
        response := stored.response.insert key
          { header with span, value := { header.value with span } } } := by
  obtain ⟨sound, line⟩ := h.response key header found
  have same : StoredHeader.make header.name { kind := .string, text := header.value.text, span } =
      { header with span, value := { header.value with span } } := by
    rw [StoredHeader.make, ← line.kind, ← sound.raw]
  rw [StoredHeaders.setResponseHeader, sound.raw, cut_raw sound.named]
  simp only [trim_space_append, line.name, line.text, sound.named, if_true, ← sound.key, ← sound.raw,
    same]

end StoredHeaders

/-! ## The last write -/

/-- The text that a setter gives to the request header of that name. -/
def Setter.headerText? (name : String) : Setter → Option String
  | .header other value => if lowerCase other = lowerCase name then some value.text else none
  | .field .. | .body _ | .appendBody _ | .responseHttpVersion _ | .statusCode _ | .reason _
  | .responseBody _ | .appendResponseBody _ | .responseHeader .. => none

/-- The text that a setter gives to the response header of that name. -/
def Setter.responseHeaderText? (name : String) : Setter → Option String
  | .responseHeader span raw =>
    let header := headerIn span raw
    if lowerCase header.name = lowerCase name then some header.value.text else none
  | .field .. | .body _ | .appendBody _ | .header .. | .responseHttpVersion _ | .statusCode _ | .reason _
  | .responseBody _ | .appendResponseBody _ => none

namespace TestRecord

/-- The setters that take their values when they are called in order. -/
def accepted (record : TestRecord) : List Setter → List Setter
  | [] => []
  | setter :: setters =>
    match setter.call record with
    | .ok next => setter :: next.accepted setters
    | .error _ => record.accepted setters

/-- If every accepted setter overwrites a reading or leaves it, the reading after setters is what the last
one to overwrite it wrote. The induction starts from any record. -/
theorem read_setters {β : Type} {read : TestRecord → Option β} {write : Setter → Option β}
    (step : ∀ {record next setter}, Setter.call setter record = .ok next →
      read next = (write setter).or (read record)) (record : TestRecord) (setters : List Setter) :
    read (record.changes (setters.map .set)) =
      ((record.accepted setters).filterMap write).getLast?.or (read record) := by
  induction setters generalizing record with
  | nil => rfl
  | cons setter setters ih =>
    have first : record.changes ((setter :: setters).map .set) =
        (record.change (.set setter)).changes (setters.map .set) := rfl
    rw [first, ih, accepted, change]
    cases called : setter.call record with
    | error fault => rfl
    | ok next =>
      dsimp only
      rw [step called, List.filterMap_cons]
      cases write setter with
      | none => rfl
      | some written => rw [List.getLast?_cons]; cases List.getLast? _ <;> rfl

variable {record next : TestRecord} {setter : Setter}

theorem headerText?_of_call (name : String) (ok : setter.call record = .ok next) :
    next.headerText? name = (setter.headerText? name).or (record.headerText? name) := by
  have kept (other : .header (lowerCase name) ≠ setter.part) :
      next.headerText? name = record.headerText? name := by
    have content := (Setter.changesOnly_of_call ok).1.content _ other
    rw [headerText?, HeaderMap.find?, Content.header.inj content, headerText?, HeaderMap.find?]
  cases setter with
  | header other value =>
    obtain ⟨-, -, rfl⟩ := setHeader_eq_ok.mp ok
    rw [headerText?, HeaderMap.find?_put, Setter.headerText?]
    split <;> rfl
  | field | body | appendBody | responseHttpVersion | statusCode | reason | responseBody
  | appendResponseBody | responseHeader => exact kept (by rintro ⟨⟩)

theorem responseHeaderText?_of_call (name : String) (ok : setter.call record = .ok next) :
    next.responseHeaderText? name =
      (setter.responseHeaderText? name).or (record.responseHeaderText? name) := by
  have kept (other : .responseHeader (lowerCase name) ≠ setter.part) :
      next.responseHeaderText? name = record.responseHeaderText? name := by
    have content := (Setter.changesOnly_of_call ok).1.content _ other
    rw [responseHeaderText?, HeaderMap.find?, Content.header.inj content, responseHeaderText?,
      HeaderMap.find?]
  cases setter with
  | responseHeader span raw =>
    obtain ⟨before, after, found, -, rfl⟩ := setResponseHeader_eq_ok.mp ok
    rw [responseHeaderText?, HeaderMap.find?_put, Setter.responseHeaderText?, headerIn, found]
    dsimp only [Option.getD_some]
    split <;> rfl
  | field | body | appendBody | header | responseHttpVersion | statusCode | reason | responseBody
  | appendResponseBody => exact kept (by rintro ⟨⟩)

/-- Whatever is done to a new record, its headers are stored in parts that agree: a header goes by the
lower-case form of its name, which is not empty and has no colon and no blank, what is sent is the name
and the text of the value, and the place is that of the value. By setters alone, the text of a header is
what the last accepted setter of that name gave it. What is sent for a response header, read as a line of
a response, stores the same header in another place. -/
theorem headers_stored (a : Arena) (name : String) (span : Span) (parent : Option ScopeId)
    (changes : List Change) :
    let new := (create a name span parent).1
    let record := new.changes changes
    let stored := ({} : StoredHeaders).changes new changes
    record.storedHeaders = stored ∧
    (∀ key header, stored.request.get? key = some header ∨ stored.response.get? key = some header →
      key = lowerCase header.name ∧ header.name ≠ "" ∧
      (∀ c ∈ header.name.toList, c ≠ ':' ∧ isBlank c = false) ∧
      header.raw = header.name ++ ": " ++ header.value.text ∧ header.span = header.value.span) ∧
    (∀ setters, changes = setters.map .set → ∀ name,
      record.headerText? name =
        ((new.accepted setters).filterMap (Setter.headerText? name)).getLast? ∧
      record.responseHeaderText? name =
        ((new.accepted setters).filterMap (Setter.responseHeaderText? name)).getLast?) ∧
    ∀ key header, stored.response.get? key = some header → ∀ span, ∃ next,
      record.setResponseHeader span header.raw = .ok next ∧
      next.storedHeaders = { stored with
        response := stored.response.insert key
          { header with span, value := { header.value with span } } } := by
  intro new record stored
  have follows : record.storedHeaders = stored := storedHeaders_changes new changes
  have sound : stored.Sound := StoredHeaders.sound_empty.changes new changes
  refine ⟨follows, fun key header found => ?_, ?_, fun key header found span => ?_⟩
  · have parts : header.Sound key :=
      found.elim (sound.request key header) fun found => (sound.response key header found).1
    obtain ⟨notEmpty, chars⟩ := proper_of_isHeaderName parts.named
    exact ⟨parts.key, notEmpty, chars, parts.raw, parts.span⟩
  · -- A new record has no header, so the last write decides alone.
    rintro setters rfl name
    exact ⟨(read_setters (headerText?_of_call name) new setters).trans (Option.or_none ..),
      (read_setters (responseHeaderText?_of_call name) new setters).trans (Option.or_none ..)⟩
  · obtain ⟨parts, line⟩ := sound.response key header found
    have ok : (Setter.responseHeader span header.raw).call record = .ok _ :=
      setResponseHeader_eq_ok.mpr ⟨header.name, " " ++ header.value.text,
        parts.raw ▸ cut_raw parts.named header.value.text, line.name.symm ▸ parts.named, rfl⟩
    refine ⟨_, ok, ?_⟩
    rw [← change_set ok, storedHeaders_setResponseHeader, follows, sound.setResponseHeader_raw found]

-- The second header goes by the name of the first one and replaces it, the third one is refused.
example :
    let text (text : String) : Token := { kind := .string, text, span := ⟨"in", 2⟩ }
    let new := (create .empty "t" ⟨"in", 1⟩ none).1
    let setters : List Setter :=
      [.header "Accept" (text "a"), .header "ACCEPT" (text "b"), .header "ac cept" (text "c")]
    (new.changes (setters.map .set)).headerText? "accept" = some "b" := by
  decide +kernel

end TestRecord

end HttpSuite
