import HttpSuite.Record
import HttpSuite.Template

/-!
# Evaluation

Evaluating a record replaces the names in its request by what they stand for in its scope: first the
fields in their order, then the headers in order of name. The first name that cannot be replaced
stops the evaluation; what came before it stays replaced, and nothing after it is touched.

* `resolve_span`: a resolved token keeps its place.
* `evaluateTargets_append`: targets are evaluated one after the other.
-/

namespace HttpSuite

/-! ## Tokens -/

/-- The token with its names replaced. A bare name takes kind and text of the token that it stands
for, a bare name again counting as a string; the references in strings and shell commands are
filled in. -/
def resolve (lookup : String → Option Token) (token : Token) : Except EvalCause Token :=
  match token.kind with
  | .symbol => do
    let bound ← lookupSymbol lookup token.text
    let kind := if bound.kind = .symbol then .string else bound.kind
    return { token with kind, text := bound.text }
  | .string | .shellCommand => do
    let text ← interpolate lookup token.text
    return token.withText text
  | .directive | .integer | .assertEnd | .none | .unknown => .ok token

/-! ## Targets -/

/-- What is evaluated: a field, or a request header under its lower-case name. -/
inductive Target where
  | field (field : RequestField)
  | header (key : String)
  deriving DecidableEq, Repr

/-- The target in messages. -/
def Target.text : Target → String
  | field f => f.name
  | header key => "header '" ++ key ++ "'"

/-- A name that cannot be replaced, the target that holds it, and its place. -/
structure EvalError where
  cause : EvalCause
  target : Target
  span : Span
  deriving DecidableEq, Repr

/-- The message of the fault. -/
def EvalError.message (error : EvalError) : String :=
  error.cause.message ++ " in " ++ error.target.text ++ " at " ++ error.span.text

namespace TestRecord

/-- The token that a target holds. -/
def target? (record : TestRecord) : Target → Option Token
  | .field f => record.request.field? f
  | .header key => (record.request.headers.get? key).map (·.value)

/-- Replaces the token of a target. -/
def setTarget (record : TestRecord) (target : Target) (token : Token) : TestRecord :=
  match target with
  | .field f => { record with request := record.request.setField f token }
  | .header key =>
    match record.request.headers.get? key with
    | none => record
    | some header =>
      let headers := record.request.headers.insert key { header with value := token }
      { record with request := { record.request with headers } }

/-- Every target of a record, in order of evaluation. -/
def targets (record : TestRecord) : List Target :=
  RequestField.all.map .field ++ record.request.headers.entries.map fun e => .header e.1

end TestRecord

/-! ## Records -/

/-- A record after its evaluation, and the fault that stopped it. -/
structure Evaluated where
  record : TestRecord
  fault : Option EvalError
  deriving DecidableEq

/-- Evaluates targets in order. -/
def evaluateTargets (lookup : String → Option Token) (record : TestRecord) :
    List Target → Evaluated
  | [] => ⟨record, none⟩
  | target :: targets =>
    match record.target? target with
    | none => evaluateTargets lookup record targets
    | some token =>
      match resolve lookup token with
      | .ok resolved => evaluateTargets lookup (record.setTarget target resolved) targets
      | .error cause => ⟨record, some ⟨cause, target, token.span⟩⟩

/-- Evaluates a record in its own scope. -/
def TestRecord.evaluate (record : TestRecord) (a : Arena) : Evaluated :=
  evaluateTargets (a.lookup? record.scope) record record.targets

/-- The token that a fault of this record is about. -/
def TestRecord.failedToken? (record : TestRecord) (error : EvalError) : Option Token :=
  record.target? error.target

theorem resolve_span {lookup : String → Option Token} {token resolved : Token}
    (h : resolve lookup token = .ok resolved) : resolved.span = token.span := by
  unfold resolve at h
  split at h
  · cases hb : lookupSymbol lookup token.text with
    | error cause => simp [hb, bind, Except.bind] at h
    | ok bound =>
      simp only [hb, bind, Except.bind, pure, Except.pure, Except.ok.injEq] at h
      exact h ▸ rfl
  · cases ht : interpolate lookup token.text with
    | error cause => simp [ht, bind, Except.bind] at h
    | ok text =>
      simp only [ht, bind, Except.bind, pure, Except.pure, Except.ok.injEq] at h
      exact h ▸ rfl
  · cases ht : interpolate lookup token.text with
    | error cause => simp [ht, bind, Except.bind] at h
    | ok text =>
      simp only [ht, bind, Except.bind, pure, Except.pure, Except.ok.injEq] at h
      exact h ▸ rfl
  all_goals exact Except.ok.inj h ▸ rfl

theorem evaluateTargets_append (lookup : String → Option Token) (record : TestRecord)
    (first second : List Target) :
    evaluateTargets lookup record (first ++ second) =
      match evaluateTargets lookup record first with
      | ⟨record, none⟩ => evaluateTargets lookup record second
      | ⟨record, some fault⟩ => ⟨record, some fault⟩ := by
  induction first generalizing record with
  | nil => rfl
  | cons target targets ih =>
    simp only [List.cons_append, evaluateTargets]
    split
    · exact ih record
    · split
      · exact ih _
      · rfl

end HttpSuite
