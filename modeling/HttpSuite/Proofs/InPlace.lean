import HttpSuite.Proofs.Setters
import HttpSuite.Record.InPlace

/-!
# Setters in place

A setter that changes a record in place makes all its checks before its first write. So a fault leaves
the record as it was, and the writes come to what the setter makes of the record: one part of it holds
something else then. A draft calls one setter after the other up to the first fault.

* `run_update`: each setter in place.
* `changesOnly_of_call`: what a setter changes.
* `performAll_eq`: a draft after edits, as its setters leave the record when they are called in order.
* `setters_atomic`: all of it together.
-/

namespace HttpSuite

open EStateM (Result)

variable {record next : TestRecord}

theorem Token.template_of_ne {token : Token} (h : token.kind ≠ .symbol) :
    token.template = token.text :=
  if_neg h

/-! ## The steps of each setter -/

namespace Update

/-- How a setter ends in place, and what it leaves behind: a fault leaves the record. -/
def outcome (record : TestRecord) :
    Except RecordError TestRecord → Result RecordError TestRecord Unit
  | .ok next => .ok () next
  | .error fault => .error fault record

@[simp] theorem run_onRequest (f : Request → Request) (record : TestRecord) :
    (onRequest f).run record = .ok () { record with request := f record.request } := rfl

theorem run_checkValue (token : Token) (record : TestRecord) :
    (checkValue token).run record =
      if token.kind.isValue then .ok () record else .error ⟨.notAValue token.kind, token.span⟩ record := by
  unfold checkValue
  cases token.kind.isValue <;> simp

theorem run_setField (f : RequestField) (token : Token) (record : TestRecord) :
    (setField f token).run record = outcome record (record.setField f token) := by
  simp only [setField, TestRecord.setField, TestRecord.checkValue, EStateM.run_bind, run_checkValue]
  cases token.kind.isValue <;> rfl

theorem run_onBody {body : Token} (held : record.request.body = some body) (f : Token → Token) :
    (onBody f).run record = .ok () (record.withBody (f body)) := by
  simp only [onBody, run_onRequest, held, Option.map_some]
  rfl

theorem withBody_self {body : Token} (held : record.request.body = some body) :
    record.withBody body = record := by
  simp only [TestRecord.withBody, Request.setField, ← held]

/-- After two writes, or none, the body is its template and of this kind. -/
theorem run_turnBody {body : Token} {kind : TokenKind} (held : record.request.body = some body)
    (named : kind ≠ .symbol) :
    (turnBody body kind).run record =
      .ok () (record.withBody { kind, text := body.template, span := body.span }) := by
  unfold turnBody
  by_cases same : body.kind = kind
  · have stays : { kind, text := body.template, span := body.span : Token } = body := by
      rw [Token.template_of_ne (same ▸ named), ← same]
    rw [if_neg (not_not_intro same), stays, withBody_self held]
    rfl
  · rw [if_pos same, EStateM.run_bind, run_onBody held]
    exact run_onBody (record.body_withBody _) _

theorem run_addPart {body : Token} {kind : TokenKind} (held : record.request.body = some body)
    (named : kind ≠ .symbol) (part : Token) :
    (addPart kind part).run record =
      .ok () (record.withBody (body.withText (body.text ++ part.template))) := by
  unfold addPart
  split
  · next same => rw [run_onBody held, Token.template_of_ne (same ▸ named), Token.append]
  · exact run_onBody held _

theorem run_appendBody (part : Token) (record : TestRecord) :
    (appendBody part).run record = outcome record (record.appendBody part) := by
  simp only [appendBody, TestRecord.appendBody, TestRecord.checkValue, EStateM.run_bind, run_checkValue]
  cases part.kind.isValue
  · rfl
  · simp only [if_true, EStateM.run_get]
    cases held : record.request.body with
    | none => rfl
    | some body =>
      simp only [joinBody]
      split
      · rfl
      · have named : (if TokenKind.shellCommand ∈ [body.kind, part.kind] then TokenKind.shellCommand
            else TokenKind.string) ≠ .symbol := by split <;> simp
        generalize (if TokenKind.shellCommand ∈ [body.kind, part.kind] then TokenKind.shellCommand
          else TokenKind.string) = kind at named ⊢
        rw [EStateM.run_bind, run_turnBody held named]
        exact run_addPart (record.body_withBody _) named part

theorem run_setBody (body : Token) (record : TestRecord) :
    (setBody body).run record = outcome record (record.setBody body) := by
  simp only [setBody, TestRecord.setBody, EStateM.run_bind, EStateM.run_get]
  cases record.request.body.isSome
  · exact run_appendBody body record
  · rfl

theorem run_setHeader (name : String) (value : Token) (record : TestRecord) :
    (setHeader name value).run record = outcome record (record.setHeader name value) := by
  unfold setHeader TestRecord.setHeader TestRecord.checkValue
  cases isHeaderName name
  · rfl
  · simp only [if_true, EStateM.run_bind, run_checkValue]
    cases value.kind.isValue <;> rfl

theorem run_setStatusCode (code : String) (record : TestRecord) :
    (setStatusCode code).run record = outcome record (record.setStatusCode code) := by
  unfold setStatusCode TestRecord.setStatusCode
  cases (readNatural? (trim code)).filter fun n => 100 ≤ n && n ≤ 999 <;> rfl

theorem run_setResponseBody (text : String) (record : TestRecord) :
    (setResponseBody text).run record = outcome record (record.setResponseBody text) := by
  simp only [setResponseBody, TestRecord.setResponseBody, EStateM.run_bind, EStateM.run_get]
  by_cases unset : record.response.body = ""
  · rw [if_neg (not_not_intro unset), if_pos unset]
    rfl
  · rw [if_pos unset, if_neg unset]
    rfl

theorem run_setResponseHeader (span : Span) (raw : String) (record : TestRecord) :
    (setResponseHeader span raw).run record = outcome record (record.setResponseHeader span raw) := by
  unfold setResponseHeader TestRecord.setResponseHeader
  cases cut ':' raw with
  | none => rfl
  | some parts =>
    obtain ⟨before, after⟩ := parts
    dsimp only
    cases isHeaderName (trim before) <;> rfl

end Update

namespace Setter

/-- Each setter in place: the record that the setter makes, or its fault and the record as it was. -/
theorem run_update (setter : Setter) (record : TestRecord) :
    setter.update.run record = Update.outcome record (setter.call record) := by
  cases setter with
  | field f token => exact Update.run_setField f token record
  | body token => exact Update.run_setBody token record
  | appendBody part => exact Update.run_appendBody part record
  | header name value => exact Update.run_setHeader name value record
  | statusCode code => exact Update.run_setStatusCode code record
  | responseBody text => exact Update.run_setResponseBody text record
  | responseHeader span raw => exact Update.run_setResponseHeader span raw record
  | responseHttpVersion | reason | appendResponseBody => rfl

theorem run_update_eq_ok {setter : Setter} :
    setter.update.run record = .ok () next ↔ setter.call record = .ok next := by
  rw [run_update]
  cases setter.call record <;> simp [Update.outcome]

theorem run_update_eq_error {setter : Setter} {fault : RecordError} :
    setter.update.run record = .error fault next ↔
      setter.call record = .error fault ∧ next = record := by
  rw [run_update]
  cases setter.call record <;> simp [Update.outcome, eq_comm]

end Setter

/-! ## The parts of a record -/

/-- A part of a record that a setter can change. A header goes by its lower-case name. -/
inductive Part where
  | field (field : RequestField)
  | header (key : String)
  | responseHttpVersion
  | statusCode
  | reason
  | responseBody
  | responseHeader (key : String)

/-- What a part holds. -/
inductive Content where
  | token (token : Option Token)
  | header (header : Option Header)
  | text (text : Option String)
  | number (number : Option Nat)

/-- What this part of the record holds. -/
def TestRecord.content (record : TestRecord) : Part → Content
  | .field f => .token (record.request.field? f)
  | .header key => .header (record.request.headers.get? key)
  | .responseHttpVersion => .text record.response.httpVersion
  | .statusCode => .number record.response.statusCode
  | .reason => .text record.response.reason
  | .responseBody => .text (some record.response.body)
  | .responseHeader key => .header (record.response.headers.get? key)

/-- The records are the same but for this part. -/
structure TestRecord.ChangesOnly (record next : TestRecord) (part : Part) : Prop where
  name : next.name = record.name
  span : next.span = record.span
  scope : next.scope = record.scope
  assertions : next.assertions = record.assertions
  content : ∀ other, other ≠ part → next.content other = record.content other

/-- The header in a line of a response, with the name before the first colon. -/
def headerIn (span : Span) (raw : String) : Header :=
  let (before, after) := (cut ':' raw).getD (raw, "")
  ⟨trim before, { kind := .string, text := trim after, span }⟩

namespace Setter

/-- The part that the setter is for. -/
def part : Setter → Part
  | .field f _ => .field f
  | .body _ | .appendBody _ => .field .body
  | .header name _ => .header (lowerCase name)
  | .responseHttpVersion _ => .responseHttpVersion
  | .statusCode _ => .statusCode
  | .reason _ => .reason
  | .responseBody _ | .appendResponseBody _ => .responseBody
  | .responseHeader span raw => .responseHeader (lowerCase (headerIn span raw).name)

/-- What the part holds when the setter has taken its value. -/
def written (setter : Setter) (record : TestRecord) : Content :=
  match setter with
  | .field _ token | .body token => .token (some token)
  | .appendBody part => .token (growBody record.request.body part).toOption
  | .header name value => .header (some ⟨name, value⟩)
  | .responseHttpVersion version => .text (some version)
  | .statusCode code => .number (readNatural? (trim code))
  | .reason phrase => .text (some phrase)
  | .responseBody text => .text (some text)
  | .appendResponseBody text => .text (some (record.response.body ++ text))
  | .responseHeader span raw => .header (some (headerIn span raw))

end Setter

namespace TestRecord

variable {request : Request} {response : Response} {part : Part}

theorem changesOnly_setField (record : TestRecord) (f : RequestField) (token : Token) :
    record.ChangesOnly { record with request := record.request.setField f token } (.field f) := by
  refine ⟨rfl, rfl, rfl, rfl, fun other apart => ?_⟩
  cases other with
  | field g =>
    have ne : f ≠ g := fun same => apart (same ▸ rfl)
    simp only [content, Request.field?_setField, if_neg ne]
  | header key => simp only [content, Request.headers_setField]
  | responseHttpVersion | statusCode | reason | responseBody | responseHeader key => rfl

theorem changesOnly_putHeader (record : TestRecord) (header : Header) :
    record.ChangesOnly { record with
        request := { record.request with headers := record.request.headers.put header } }
      (.header (lowerCase header.name)) := by
  refine ⟨rfl, rfl, rfl, rfl, fun other apart => ?_⟩
  cases other with
  | field g => cases g <;> rfl
  | header key =>
    have ne : lowerCase header.name ≠ key := fun same => apart (same ▸ rfl)
    simp only [content, HeaderMap.put, KeyMap.get?_insert, if_neg ne]
  | responseHttpVersion | statusCode | reason | responseBody | responseHeader key => rfl

/-- A record with another response differs in parts of the response. -/
theorem changesOnly_response (record : TestRecord)
    (content : ∀ other, other ≠ part →
      TestRecord.content { record with response } other = record.content other) :
    record.ChangesOnly { record with response } part :=
  ⟨rfl, rfl, rfl, rfl, content⟩

end TestRecord

namespace Setter

/-- A setter that takes its value writes it to the part that it is for, and to nothing else. -/
theorem changesOnly_of_call {setter : Setter} (ok : setter.call record = .ok next) :
    record.ChangesOnly next setter.part ∧ next.content setter.part = setter.written record := by
  -- For each setter: what it wrote, and that no other part is another one.
  cases setter with
  | field f token =>
    obtain ⟨-, rfl⟩ := TestRecord.setField_eq_ok.mp ok
    refine ⟨record.changesOnly_setField f token, ?_⟩
    simp only [part, written, TestRecord.content, Request.field?_setField, if_true]
  | body token =>
    obtain ⟨-, -, rfl⟩ := TestRecord.setBody_eq_ok.mp ok
    exact ⟨record.changesOnly_setField .body token, rfl⟩
  | appendBody token =>
    obtain ⟨-, body, grows, rfl⟩ := TestRecord.appendBody_eq_ok.mp ok
    refine ⟨record.changesOnly_setField .body body, ?_⟩
    simp only [part, written, TestRecord.content, Request.field?_setField, if_true, grows]
    rfl
  | header name value =>
    obtain ⟨-, -, rfl⟩ := TestRecord.setHeader_eq_ok.mp ok
    refine ⟨record.changesOnly_putHeader ⟨name, value⟩, ?_⟩
    simp only [part, written, TestRecord.content, HeaderMap.put, KeyMap.get?_insert, if_true]
  | statusCode code =>
    have called : record.setStatusCode code = .ok next := ok
    obtain ⟨n, read, -, -, rfl⟩ := TestRecord.setStatusCode_eq_ok.mp called
    refine ⟨record.changesOnly_response fun other apart => ?_, ?_⟩
    · cases other <;> first | rfl | exact absurd rfl apart
    · simp only [part, written, TestRecord.content, read]
  | responseBody text =>
    obtain ⟨-, rfl⟩ := TestRecord.setResponseBody_eq_ok.mp ok
    refine ⟨record.changesOnly_response fun other apart => ?_, rfl⟩
    cases other <;> first | rfl | exact absurd rfl apart
  | responseHeader span raw =>
    obtain ⟨before, after, found, -, rfl⟩ := TestRecord.setResponseHeader_eq_ok.mp ok
    have header : headerIn span raw = ⟨trim before, { kind := .string, text := trim after, span }⟩ := by
      simp only [headerIn, found, Option.getD_some]
    simp only [part, written, header]
    refine ⟨record.changesOnly_response fun other apart => ?_, ?_⟩
    · cases other with
      | responseHeader key =>
        have ne : lowerCase (trim before) ≠ key := fun same => apart (same ▸ rfl)
        simp only [TestRecord.content, HeaderMap.put, KeyMap.get?_insert, if_neg ne]
      | field | header | responseHttpVersion | statusCode | reason | responseBody => rfl
    · simp only [TestRecord.content, HeaderMap.put, KeyMap.get?_insert, if_true]
  | responseHttpVersion | reason | appendResponseBody =>
    cases ok
    refine ⟨record.changesOnly_response fun other apart => ?_, rfl⟩
    cases other <;> first | rfl | exact absurd rfl apart

end Setter

/-! ## Setters in order -/

namespace Update

variable {setters : List Setter} {fault : RecordError} {after : TestRecord}

theorem run_all_cons (setter : Setter) (setters : List Setter) (record : TestRecord) :
    (all (setter :: setters)).run record =
      match setter.call record with
      | .ok next => (all setters).run next
      | .error fault => .error fault record := by
  rw [all, List.forM_cons, EStateM.run_bind, Setter.run_update]
  cases setter.call record <;> rfl

theorem run_all_append (before later : List Setter) (record : TestRecord) :
    (all (before ++ later)).run record =
      match (all before).run record with
      | .ok _ middle => (all later).run middle
      | .error fault after => .error fault after := by
  have inTurn : all (before ++ later) = (do all before; all later) := List.forM_append
  rw [inTurn, EStateM.run_bind]
  cases (all before).run record <;> rfl

theorem run_all_take (ok : (all setters).run record = .ok () next) (n : Nat) :
    ∃ middle, (all (setters.take n)).run record = .ok () middle := by
  rw [← List.take_append_drop n setters, run_all_append] at ok
  cases first : (all (setters.take n)).run record with
  | ok _ middle => exact ⟨middle, rfl⟩
  | error fault after =>
    rw [first] at ok
    cases ok

/-- A run fails at one of the setters: those before it have their values in the record. -/
theorem run_all_eq_error :
    (all setters).run record = .error fault after ↔
      ∃ before setter later, setters = before ++ setter :: later ∧
        (all before).run record = .ok () after ∧ setter.call after = .error fault := by
  constructor
  · intro failed
    induction setters generalizing record with
    | nil => cases failed
    | cons setter setters ih =>
      rw [run_all_cons] at failed
      cases called : setter.call record with
      | error _ =>
        rw [called] at failed
        cases failed
        exact ⟨[], setter, setters, rfl, rfl, called⟩
      | ok next =>
        rw [called] at failed
        obtain ⟨before, culprit, later, rfl, ran, fails⟩ := ih failed
        refine ⟨setter :: before, culprit, later, rfl, ?_, fails⟩
        rw [run_all_cons, called]
        exact ran
  · rintro ⟨before, setter, later, rfl, ran, fails⟩
    rw [run_all_append, ran]
    dsimp only
    rw [run_all_cons, fails]

end Update

/-! ## Drafts -/

/-- An edit is the call of its setter. -/
theorem TestRecord.perform_eq (record : TestRecord) (edit : Edit) :
    record.perform edit = (edit.setter record.span).call record := by
  cases edit with
  | field f token | text f value => cases f <;> rfl
  | header | statusCode | reason | responseBody | responseHeader => rfl

namespace Draft

/-- A draft with no fault as a run leaves it. -/
def ofRun : Result RecordError TestRecord Unit → Draft
  | .ok () next => { record := next }
  | .error fault after => { record := after, fault := some fault }

/-- A draft after edits is what their setters make of the record when they are called in order. -/
theorem performAll_eq (record : TestRecord) (edits : List Edit) :
    ({ record } : Draft).performAll edits =
      ofRun ((Update.all (edits.map (Edit.setter record.span))).run record) := by
  induction edits generalizing record with
  | nil => rfl
  | cons edit edits ih =>
    rw [List.map_cons, Update.run_all_cons, performAll, List.foldl_cons, perform,
      TestRecord.perform_eq]
    cases called : (edit.setter record.span).call record with
    | ok next =>
      -- A setter keeps the place, which the tokens of later edits are made with.
      have here : next.span = record.span := (Setter.changesOnly_of_call called).1.span
      rw [← here]
      exact ih next
    | error fault => exact performAll_fault rfl edits

end Draft

/-- A setter in place that fails leaves the record as it was; one that takes its value changes the part
that it is for, and nothing else. Edits of a draft are the same setters called in order. If none fails,
the draft never has a fault and builds the record that they leave. If one fails, the draft has no fault
until then and this fault ever after, and builds it. -/
theorem setters_atomic (record : TestRecord) :
    (∀ setter : Setter,
      (∀ fault after, setter.update.run record = .error fault after ↔
        setter.call record = .error fault ∧ after = record) ∧
      (∀ next, setter.update.run record = .ok () next ↔ setter.call record = .ok next) ∧
      (∀ next, setter.update.run record = .ok () next →
        record.ChangesOnly next setter.part ∧ next.content setter.part = setter.written record)) ∧
    ∀ edits : List Edit,
      let direct (edits : List Edit) := (Update.all (edits.map (Edit.setter record.span))).run record
      let draft (n : Nat) := ({ record } : Draft).performAll (edits.take n)
      (∀ next, direct edits = .ok () next →
        (∀ n, (draft n).fault = none) ∧ (draft edits.length).build = .ok next) ∧
      (∀ fault after, direct edits = .error fault after →
        ∃ before edit later, edits = before ++ edit :: later ∧
          direct before = .ok () after ∧
          (edit.setter record.span).update.run after = .error fault after ∧
          (∀ n ≤ before.length, (draft n).fault = none) ∧
          (∀ n > before.length, draft n = { record := after, fault := some fault }) ∧
          (draft edits.length).build = .error fault) := by
  refine ⟨fun setter => ⟨fun fault after => Setter.run_update_eq_error,
    fun next => Setter.run_update_eq_ok,
    fun next ok => Setter.changesOnly_of_call (Setter.run_update_eq_ok.mp ok)⟩, fun edits => ?_⟩
  intro direct draft
  have made : ∀ {edits result}, direct edits = result →
      ({ record } : Draft).performAll edits = Draft.ofRun result :=
    fun ran => ran ▸ Draft.performAll_eq record _
  have clean : ∀ {edits next}, direct edits = .ok () next → ∀ n,
      (({ record } : Draft).performAll (edits.take n)).fault = none := by
    intro edits next ok n
    obtain ⟨middle, ran⟩ := Update.run_all_take ok n
    rw [made (List.map_take ▸ ran)]
    rfl
  constructor
  · intro next ok
    refine ⟨clean ok, ?_⟩
    simp only [draft, List.take_length, made ok]
    rfl
  · intro fault after failed
    obtain ⟨front, setter, rear, split, ran, fails⟩ := Update.run_all_eq_error.mp failed
    obtain ⟨before, rest, rfl, rfl, parted⟩ := List.map_eq_append_iff.mp split
    obtain ⟨edit, later, rfl, rfl, rfl⟩ := List.map_eq_cons_iff.mp parted
    -- Behind that edit a longer draft runs into the same fault.
    have stopped : ∀ n > before.length, draft n = { record := after, fault := some fault } := by
      intro n past
      have gone : direct ((before ++ edit :: later).take n) = .error fault after := by
        refine Update.run_all_eq_error.mpr ⟨_, _,
          (later.take (n - before.length - 1)).map (Edit.setter record.span), ?_, ran, fails⟩
        rw [List.take_append, List.take_of_length_le (Nat.le_of_lt past),
          List.take_cons (Nat.sub_pos_of_lt past), List.map_append, List.map_cons]
      exact made gone
    refine ⟨before, edit, later, rfl, ran, Setter.run_update_eq_error.mpr ⟨fails, rfl⟩, ?_, stopped, ?_⟩
    · intro n within
      simp only [draft, List.take_append_of_le_length within]
      exact clean ran n
    · rw [stopped _ (by simp)]
      rfl

end HttpSuite
