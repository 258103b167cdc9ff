import HttpSuite.Record

/-!
# Drafts

A draft is a record under construction. It takes edits one after the other and keeps the first
fault; after that no edit has an effect.

* `performAll_fault`: a draft with a fault stays as it is.
-/

namespace HttpSuite

/-- One step in building a record. -/
inductive Edit where
  | field (field : RequestField) (token : Token)
  /-- A field from plain text, which becomes a string at the place of the record. -/
  | text (field : RequestField) (value : String)
  | header (name value : String)
  | statusCode (code : String)
  | reason (reason : String)
  | responseBody (text : String)
  | responseHeader (raw : String)

namespace TestRecord

/-- A string at the place of the record. -/
def stringHere (record : TestRecord) (text : String) : Token :=
  { kind := .string, text, span := record.span }

/-- Puts a token into a field; a body grows by it. -/
def putField (record : TestRecord) (field : RequestField) (token : Token) :
    Except RecordError TestRecord :=
  match field with
  | .body => record.appendBody token
  | .method | .uri | .httpVersion => record.setField field token

/-- The record after one edit. -/
def perform (record : TestRecord) : Edit → Except RecordError TestRecord
  | .field field token => record.putField field token
  | .text field value => record.putField field (record.stringHere value)
  | .header name value => record.setHeader name (record.stringHere value)
  | .statusCode code => record.setStatusCode code
  | .reason reason => .ok (record.setReason reason)
  | .responseBody text => .ok (record.appendResponseBody text)
  | .responseHeader raw => record.setResponseHeader record.span raw

end TestRecord

/-- A record under construction and the first fault in building it. -/
structure Draft where
  record : TestRecord
  fault : Option RecordError := none

namespace Draft

/-- Takes one edit, unless there was a fault before. -/
def perform (draft : Draft) (edit : Edit) : Draft :=
  match draft.fault with
  | some _ => draft
  | none =>
    match draft.record.perform edit with
    | .ok record => { draft with record }
    | .error fault => { draft with fault := some fault }

/-- Takes edits in order. -/
def performAll (draft : Draft) (edits : List Edit) : Draft :=
  edits.foldl perform draft

/-- The record, or the first fault. -/
def build (draft : Draft) : Except RecordError TestRecord :=
  match draft.fault with
  | some fault => .error fault
  | none => .ok draft.record

theorem performAll_fault {draft : Draft} (h : draft.fault.isSome = true) (edits : List Edit) :
    draft.performAll edits = draft := by
  obtain ⟨fault, hf⟩ := Option.isSome_iff_exists.mp h
  have same : ∀ edit, draft.perform edit = draft := fun edit => by simp [perform, hf]
  induction edits with
  | nil => rfl
  | cons edit edits ih =>
    simp only [performAll, List.foldl_cons, same edit]
    exact ih

end Draft

end HttpSuite
