import HttpSuite.Proofs.TokenMap
import HttpSuite.Record.Stored

/-!
# The first failure wins

Evaluation goes through the targets of a record in one order: the fields from the method to the body,
then the headers by key. It writes one target at a time, so a failure leaves the targets before the
failing one replaced and all others as they were.

* `target?_setTarget`: writing one target changes no other.
* `pairwise_targets`, `mem_targets`: the targets are in order, and every token has its target.
* `evaluateTargets_runs`: what a run over any targets has replaced, and where it stopped.
* `storedHeaders_evaluate`: what evaluation writes to the stored headers.
* `evaluate_first_fault`: all of it for a record.
-/

namespace HttpSuite

/-! ## The order of the targets -/

/-- The first target is evaluated before the second one. -/
def Target.Before : Target → Target → Prop
  | .field f, .field g => RequestField.all.idxOf f < RequestField.all.idxOf g
  | .field _, .header _ => True
  | .header _, .field _ => False
  | .header key, .header other => key < other

namespace Target

theorem Before.asymm {first second : Target} (h : first.Before second) : ¬second.Before first := by
  cases first <;> cases second
  · exact Nat.lt_asymm h
  · exact id
  · exact h.elim
  · exact String.lt_asymm h

theorem Before.ne {first second : Target} (h : first.Before second) : first ≠ second := by
  rintro rfl
  exact h.asymm h

end Target

namespace TestRecord

variable {record after : TestRecord} {lookup : String → Option Token} {target other : Target}
  {token old : Token}

theorem pairwise_targets (record : TestRecord) : record.targets.Pairwise Target.Before := by
  rw [targets, List.pairwise_append, List.pairwise_map, List.pairwise_map]
  have fields : RequestField.all.Pairwise fun f g =>
    RequestField.all.idxOf f < RequestField.all.idxOf g := by decide
  refine ⟨fields, record.request.headers.ascending, ?_⟩
  simp only [List.mem_map]
  rintro _ ⟨field, -, rfl⟩ _ ⟨entry, -, rfl⟩
  trivial

theorem mem_targets (h : record.target? target = some token) : target ∈ record.targets := by
  rw [targets, List.mem_append, List.mem_map, List.mem_map]
  cases target with
  | field field => exact .inl ⟨field, by cases field <;> decide, rfl⟩
  | header key =>
    obtain ⟨header, found, -⟩ := Option.map_eq_some_iff.mp h
    exact .inr ⟨(key, header), KeyMap.mem_entries_iff.mpr found, rfl⟩

theorem ne_of_held (held : record.target? target = some token) (unset : record.target? other = none) :
    target ≠ other := by
  rintro rfl
  simp [held] at unset

/-! ## Writing one target -/

/-- Nothing but the request differs, and it has the same headers with other values. -/
structure Keeps (record after : TestRecord) : Prop where
  name : after.name = record.name
  span : after.span = record.span
  scope : after.scope = record.scope
  response : after.response = record.response
  assertions : after.assertions = record.assertions
  headers : after.request.headers.map Header.name = record.request.headers.map Header.name

theorem Keeps.refl (record : TestRecord) : record.Keeps record := ⟨rfl, rfl, rfl, rfl, rfl, rfl⟩

theorem Keeps.trans {later : TestRecord} (first : record.Keeps after) (second : after.Keeps later) :
    record.Keeps later where
  name := second.name.trans first.name
  span := second.span.trans first.span
  scope := second.scope.trans first.scope
  response := second.response.trans first.response
  assertions := second.assertions.trans first.assertions
  headers := second.headers.trans first.headers

theorem setTarget_header {key : String} {header : Header}
    (found : record.request.headers.get? key = some header) (token : Token) :
    record.setTarget (.header key) token =
      { record with request := { record.request with
          headers := record.request.headers.insert key { header with value := token } } } := by
  simp only [setTarget, found]

theorem keeps_setTarget (held : record.target? target = some old) (token : Token) :
    record.Keeps (record.setTarget target token) := by
  cases target with
  | field field => exact ⟨rfl, rfl, rfl, rfl, rfl, by simp [setTarget]⟩
  | header key =>
    obtain ⟨header, found, -⟩ := Option.map_eq_some_iff.mp held
    have named : (record.request.headers.map Header.name).get? key = some header.name := by
      rw [KeyMap.get?_map, found]
      rfl
    rw [setTarget_header found]
    exact ⟨rfl, rfl, rfl, rfl, rfl, by rw [KeyMap.map_insert, KeyMap.insert_get? named]⟩

/-- Writing a target that holds a token changes no other one. -/
theorem target?_setTarget (held : record.target? target = some old) :
    (record.setTarget target token).target? other =
      if target = other then some token else record.target? other := by
  cases target with
  | field field => cases other <;> simp [target?, setTarget]
  | header key =>
    obtain ⟨header, found, -⟩ := Option.map_eq_some_iff.mp held
    rw [setTarget_header found]
    cases other with
    | field field => cases field <;> rfl
    | header other =>
      simp only [target?, KeyMap.get?_insert, Target.header.injEq]
      split <;> rfl

/-! ## A run over targets -/

/-- The targets that are done hold what their tokens resolve to, in the places of these; all others
hold what they held. -/
structure Resolved (lookup : String → Option Token) (record after : TestRecord)
    (done : Target → Prop) : Prop where
  replaced : ∀ target token, done target → record.target? target = some token →
    ∃ effective, resolve lookup token = .ok effective ∧ effective.span = token.span ∧
      after.target? target = some effective
  unset : ∀ target, record.target? target = none → after.target? target = none
  untouched : ∀ target, ¬done target → after.target? target = record.target? target

namespace Resolved

theorem refl (lookup : String → Option Token) (record : TestRecord) :
    Resolved lookup record record (· ∈ []) where
  replaced _ _ mem := absurd mem List.not_mem_nil
  unset _ none := none
  untouched _ _ := rfl

variable {targets : List Target} {done done' : Target → Prop}

/-- Only for targets that hold a token it matters whether they are done. -/
theorem congr (h : Resolved lookup record after done)
    (same : ∀ target token, record.target? target = some token → (done target ↔ done' target)) :
    Resolved lookup record after done' where
  replaced target token isDone held :=
    h.replaced target token ((same target token held).mpr isDone) held
  unset := h.unset
  untouched target pending := by
    cases held : record.target? target with
    | none => exact h.unset target held
    | some token =>
      rw [← held]
      exact h.untouched target fun isDone => pending ((same target token held).mp isDone)

/-- A target without a token may count as done. -/
theorem skip (unset : record.target? target = none)
    (h : Resolved lookup record after (· ∈ targets)) :
    Resolved lookup record after (· ∈ target :: targets) :=
  h.congr fun other token held => by simp [ne_of_held held unset]

/-- One target is resolved and written before the others. -/
theorem step (held : record.target? target = some token) {effective : Token}
    (resolves : resolve lookup token = .ok effective) (fresh : target ∉ targets)
    (h : Resolved lookup (record.setTarget target effective) after (· ∈ targets)) :
    Resolved lookup record after (· ∈ target :: targets) where
  replaced other otherToken mem otherHeld := by
    have written : (record.setTarget target effective).target? other =
        if target = other then some effective else record.target? other := target?_setTarget held
    rcases List.mem_cons.mp mem with rfl | mem
    · cases held.symm.trans otherHeld
      rw [if_pos rfl] at written
      exact ⟨effective, resolves, resolve_span resolves, (h.untouched other fresh).trans written⟩
    · have ne : target ≠ other := fun eq => fresh (eq ▸ mem)
      rw [if_neg ne] at written
      exact h.replaced other otherToken mem (written.trans otherHeld)
  unset other none := by
    refine h.unset other ?_
    rw [target?_setTarget held, if_neg (ne_of_held held none), none]
  untouched other pending := by
    rw [List.mem_cons, not_or] at pending
    rw [h.untouched other pending.2, target?_setTarget held, if_neg fun eq => pending.1 eq.symm]

end Resolved

theorem keeps_evaluateTargets (lookup : String → Option Token) (record : TestRecord)
    (targets : List Target) : record.Keeps (evaluateTargets lookup record targets).record := by
  fun_induction evaluateTargets lookup record targets with
  | case1 record => exact .refl record
  | case2 record target targets unset ih => exact ih
  | case3 record target targets token held effective resolves ih =>
    exact (keeps_setTarget held effective).trans ih
  | case4 record => exact .refl record

/-- What a run over targets comes to: all of them are resolved, or it stops at one that does not
resolve, and those before it are resolved. -/
inductive Runs (lookup : String → Option Token) (record : TestRecord) :
    List Target → Evaluated → Prop where
  | through {targets : List Target} {after : TestRecord}
    (all : Resolved lookup record after (· ∈ targets)) :
    Runs lookup record targets ⟨after, none⟩
  | stopped {before later : List Target} {target : Target} {token : Token} {cause : EvalCause}
    {after : TestRecord} (held : record.target? target = some token)
    (fails : resolve lookup token = .error cause)
    (earlier : Resolved lookup record after (· ∈ before)) :
    Runs lookup record (before ++ target :: later) ⟨after, some ⟨cause, target, token.span⟩⟩

namespace Runs

variable {targets : List Target} {result : Evaluated}

theorem skip (unset : record.target? target = none) (run : Runs lookup record targets result) :
    Runs lookup record (target :: targets) result := by
  cases run with
  | through all => exact .through (all.skip unset)
  | @stopped before _ _ _ _ _ held fails earlier =>
    exact @stopped lookup record (target :: before) _ _ _ _ _ held fails (earlier.skip unset)

theorem step (held : record.target? target = some token) {effective : Token}
    (resolves : resolve lookup token = .ok effective) (fresh : target ∉ targets)
    (run : Runs lookup (record.setTarget target effective) targets result) :
    Runs lookup record (target :: targets) result := by
  cases run with
  | through all => exact .through (all.step held resolves fresh)
  | @stopped before later failing _ _ _ failingHeld fails earlier =>
    rw [List.mem_append, List.mem_cons, not_or, not_or] at fresh
    rw [target?_setTarget held, if_neg fresh.2.1] at failingHeld
    exact @stopped lookup record (target :: before) later _ _ _ _ failingHeld fails
      (earlier.step held resolves fresh.1)

end Runs

theorem evaluateTargets_runs {targets : List Target} (distinct : targets.Nodup) :
    Runs lookup record targets (evaluateTargets lookup record targets) := by
  fun_induction evaluateTargets lookup record targets with
  | case1 record => exact .through (.refl lookup record)
  | case2 record target targets unset ih => exact (ih distinct.of_cons).skip unset
  | case3 record target targets token held effective resolves ih =>
    exact (ih distinct.of_cons).step held resolves (List.nodup_cons.mp distinct).1
  | case4 record target targets token held cause fails =>
    exact @Runs.stopped lookup record [] targets _ _ _ _ held fails (.refl lookup record)

/-! ## The targets of a record -/

/-- Of the targets of a record that hold a token, those listed before one come before it. -/
theorem mem_before_iff {before later : List Target} (split : record.targets = before ++ target :: later)
    (held : record.target? other = some token) : other ∈ before ↔ other.Before target := by
  have ordered := record.pairwise_targets
  rw [split, List.pairwise_append, List.pairwise_cons] at ordered
  obtain ⟨-, ⟨after, -⟩, across⟩ := ordered
  constructor
  · exact fun mem => across other mem target List.mem_cons_self
  · intro earlier
    have mem := mem_targets held
    rw [split, List.mem_append, List.mem_cons] at mem
    rcases mem with mem | rfl | mem
    · exact mem
    · exact absurd rfl earlier.ne
    · exact absurd earlier (after other mem).asymm

end TestRecord

/-! ## The headers as they are stored -/

/-- The header as it is stored. -/
def Header.stored (header : Header) : StoredHeader :=
  ⟨header.span, header.name, header.value, header.raw⟩

namespace TestRecord

variable {record : TestRecord}

/-- The headers of a record as they are stored. -/
def storedHeaders (record : TestRecord) : StoredHeaders :=
  ⟨record.request.headers.map Header.stored, record.response.headers.map Header.stored⟩

theorem request_storedHeaders (record : TestRecord) (key : String) :
    record.storedHeaders.request.get? key = (record.request.headers.get? key).map Header.stored :=
  KeyMap.get?_map ..

/-- Evaluating fields leaves the headers. -/
theorem storedHeaders_evaluateFields (lookup : String → Option Token) (record : TestRecord)
    (fields : List RequestField) :
    (evaluateTargets lookup record (fields.map .field)).record.storedHeaders =
      record.storedHeaders := by
  induction fields generalizing record with
  | nil => rfl
  | cons field fields ih =>
    rw [List.map_cons, evaluateTargets]
    split
    · exact ih record
    · split
      · next value _ =>
        rw [ih]
        simp [storedHeaders, setTarget]
      · rfl

theorem storedHeaders_evaluateHeaders (lookup : String → Option Token) (record : TestRecord)
    (keys : List String) :
    (evaluateTargets lookup record (keys.map .header)).record.storedHeaders =
      record.storedHeaders.evaluate lookup keys := by
  induction keys generalizing record with
  | nil => rfl
  | cons key keys ih =>
    rw [List.map_cons, evaluateTargets, StoredHeaders.evaluate, request_storedHeaders, target?]
    cases found : record.request.headers.get? key with
    | none => exact ih record
    | some header =>
      have value : header.stored.value = header.value := rfl
      simp only [Option.map_some, value]
      cases resolve lookup header.value with
      | error cause => rfl
      | ok value =>
        have written : (record.setTarget (.header key) value).storedHeaders =
            { record.storedHeaders with
              request := record.storedHeaders.request.insert key (.make header.name value) } := by
          simp only [setTarget_header found, storedHeaders, KeyMap.map_insert]
          rfl
        exact (ih _).trans (congrArg (StoredHeaders.evaluate lookup · keys) written)

theorem storedHeaders_evaluate (record : TestRecord) (a : Arena) :
    (record.evaluate a).record.storedHeaders = record.storedHeaders.change record (.evaluate a) := by
  have keys : record.storedHeaders.request.entries.map (·.1) =
      record.request.headers.entries.map (·.1) := by
    rw [storedHeaders, KeyMap.map, List.map_map]
    rfl
  have fields := storedHeaders_evaluateFields (a.lookup? record.scope) record RequestField.all
  rw [StoredHeaders.change, keys, evaluate, targets, evaluateTargets_append]
  generalize evaluateTargets (a.lookup? record.scope) record (RequestField.all.map .field) = result at *
  obtain ⟨after, _ | fault⟩ := result
  · dsimp only at fields ⊢
    rw [if_pos rfl, ← fields, ← storedHeaders_evaluateHeaders, List.map_map]
    rfl
  · exact fields

/-- Every header is still there under its name. Its place and what is sent for it are stored anew with the
value that it holds now. -/
theorem stored_header (a : Arena) {key : String} {header : Header}
    (found : record.request.headers.get? key = some header) :
    ∃ value, (record.evaluate a).record.target? (.header key) = some value ∧
      (record.storedHeaders.change record (.evaluate a)).request.get? key =
        some ⟨value.span, header.name, value, header.name ++ ": " ++ value.text⟩ := by
  have kept : record.Keeps (record.evaluate a).record := keeps_evaluateTargets ..
  have names := congrArg (·.get? key) kept.headers
  simp only [KeyMap.get?_map, found, Option.map_some, Option.map_eq_some_iff] at names
  obtain ⟨header', found', name⟩ := names
  refine ⟨header'.value, by rw [target?, found', Option.map_some], ?_⟩
  rw [← storedHeaders_evaluate, request_storedHeaders, found', ← name]
  rfl

/-- Evaluation succeeds if the token of every target resolves, and replaces them all then. If not, it
tells of the first one that does not resolve: the targets before that one are replaced, and it and
all others hold what they held. Nothing else of the record changes. Of a stored header the name is kept,
and the other parts are those of the value that it holds in the end. -/
theorem evaluate_first_fault (record : TestRecord) (a : Arena) :
    let after := (record.evaluate a).record
    let stored := record.storedHeaders.change record (.evaluate a)
    record.Keeps after ∧
    after.storedHeaders = stored ∧
    (∀ key header, record.request.headers.get? key = some header →
      ∃ value, after.target? (.header key) = some value ∧
        stored.request.get? key =
          some ⟨value.span, header.name, value, header.name ++ ": " ++ value.text⟩) ∧
    ((record.evaluate a).fault = none ↔
      ∀ target token, record.target? target = some token →
        ∃ effective, resolve (a.lookup? record.scope) token = .ok effective) ∧
    ((record.evaluate a).fault = none →
      Resolved (a.lookup? record.scope) record after fun _ => True) ∧
    ∀ fault, (record.evaluate a).fault = some fault →
      ∃ token, record.target? fault.target = some token ∧
        resolve (a.lookup? record.scope) token = .error fault.cause ∧ fault.span = token.span ∧
        after.failedToken? fault = some token ∧
        Resolved (a.lookup? record.scope) record after (·.Before fault.target) := by
  have kept : record.Keeps (record.evaluate a).record := keeps_evaluateTargets ..
  refine ⟨kept, storedHeaders_evaluate record a, fun key header found => stored_header a found, ?_⟩
  have distinct : record.targets.Nodup := record.pairwise_targets.imp Target.Before.ne
  have run : Runs (a.lookup? record.scope) record record.targets (record.evaluate a) :=
    evaluateTargets_runs distinct
  generalize record.evaluate a = result at run ⊢
  generalize listed : record.targets = targets at run
  cases run with
  | @through _ after all =>
    -- The run came to every target of the list, and these are all that hold a token.
    have whole : Resolved (a.lookup? record.scope) record after fun _ => True :=
      all.congr fun target token held => iff_of_true (listed ▸ mem_targets held) trivial
    refine ⟨⟨fun _ target token held => ?_, fun _ => rfl⟩, fun _ => whole, fun fault told => ?_⟩
    · obtain ⟨effective, resolves, -⟩ := whole.replaced target token trivial held
      exact ⟨effective, resolves⟩
    · cases told
  | @stopped _ _ target token _ after held fails earlier =>
    -- The targets in front of the failing one are those before it in order.
    have earlier : Resolved (a.lookup? record.scope) record after (·.Before target) :=
      earlier.congr fun other token => mem_before_iff listed
    refine ⟨⟨fun fine => ?_, fun resolves => ?_⟩, fun fine => ?_, fun fault told => ?_⟩
    · cases fine
    · obtain ⟨effective, resolves⟩ := resolves target token held
      cases fails.symm.trans resolves
    · cases fine
    · cases told
      have untouched := earlier.untouched target fun before => before.ne rfl
      exact ⟨token, held, fails, rfl, untouched.trans held, earlier⟩

-- The URI is replaced, the body stops the evaluation, and the header behind it is not reached.
example :
    let name (text : String) : Token := { kind := .symbol, text, span := ⟨"in", 2⟩ }
    let headers := HeaderMap.put .empty ⟨"X", name "A"⟩
    let record : TestRecord :=
      { name := "t", span := ⟨"in", 1⟩, scope := 0
        request := { uri := some (name "A"), body := some (name "B"), headers } }
    let a := (Arena.empty.create "t" none).bind 0 "A" ⟨.integer, "1", ⟨"in", 9⟩⟩
    record.evaluate a =
      ⟨record.setTarget (.field .uri) ⟨.integer, "1", ⟨"in", 2⟩⟩,
        some ⟨.undefinedSymbol "B", .field .body, ⟨"in", 2⟩⟩⟩ := by
  decide +kernel

end TestRecord

end HttpSuite
