import HttpSuite.CommandLine
import HttpSuite.Proofs.Files.Twins

/-!
# Reports in two arenas

What a command reports of records depends on what their scopes hold, not on where these stand: records
that are alike in arenas that are alike have the same report.

* `TestRecord.Alike.evaluate`, `listing_alike`, `canonicalText_alike`: for each command.
* `report_alike`: for all commands.
* `fine_checkRecords`: a check is fine exactly if all records can be evaluated.
-/

namespace HttpSuite

/-! ## Evaluation -/

section Evaluation

variable (lookup : String → Option Token) (record : TestRecord) (scope : ScopeId)

theorem TestRecord.setTarget_inScope (target : Target) (token : Token) :
    (record.inScope scope).setTarget target token = (record.setTarget target token).inScope scope := by
  cases target with
  | field f => rfl
  | header key =>
    have request : (record.inScope scope).request = record.request := rfl
    rw [setTarget, setTarget, request]
    cases record.request.headers.get? key <;> rfl

theorem evaluateTargets_inScope (targets : List Target) :
    evaluateTargets lookup (record.inScope scope) targets =
      ⟨(evaluateTargets lookup record targets).record.inScope scope,
        (evaluateTargets lookup record targets).fault⟩ := by
  induction targets generalizing record with
  | nil => rfl
  | cons target targets ih =>
    have token : (record.inScope scope).target? target = record.target? target := by
      cases target <;> rfl
    rw [evaluateTargets, evaluateTargets, token]
    cases record.target? target with
    | none => exact ih record
    | some token =>
      dsimp only
      cases resolve lookup token with
      | error cause => rfl
      | ok resolved =>
        dsimp only
        rw [TestRecord.setTarget_inScope]
        exact ih _

end Evaluation

section Alike

variable {n m : Nat} {a b : Arena} {record other : TestRecord} {records others : List TestRecord}

theorem TestRecord.Alike.evaluate (alike : record.Alike n m other) (h : a.Alike n m b) :
    other.evaluate b = ⟨(record.evaluate a).record.inScope other.scope, (record.evaluate a).fault⟩ := by
  have targets : other.targets = record.targets := by
    rw [alike.same]
    rfl
  rw [TestRecord.evaluate, TestRecord.evaluate, targets, ← h.lookup?_eq alike.scope]
  refine Eq.trans ?_ (evaluateTargets_inScope (a.lookup? record.scope) record other.scope _)
  rw [← alike.same]

theorem checkRecords_alike (h : a.Alike n m b)
    (rows : List.Forall₂ (TestRecord.Alike n m) records others) (path : String) (all : Nat) :
    CommandLine.checkRecords b path all others = CommandLine.checkRecords a path all records := by
  induction rows with
  | nil => rfl
  | @cons record other records others alike _ ih =>
    rw [CommandLine.checkRecords, CommandLine.checkRecords, alike.evaluate h]
    cases record.evaluate a with
    | mk evaluated fault =>
      cases fault with
      | none => exact ih
      | some fault =>
        have token : (evaluated.inScope other.scope).failedToken? fault =
            evaluated.failedToken? fault := by
          rw [TestRecord.failedToken?, TestRecord.failedToken?]
          cases fault.target <;> rfl
        have name : (evaluated.inScope other.scope).name = evaluated.name := rfl
        dsimp only
        rw [token, name]

/-! ## Listings -/

theorem TestRecord.Alike.listingLines (alike : record.Alike n m other) (h : a.Alike n m b) :
    other.listingLines b = record.listingLines a := by
  have symbols : b.listing other.scope = a.listing record.scope := by
    rw [Arena.listing, Arena.listing, Arena.listingLines, Arena.listingLines, h.name_eq alike.scope,
      h.bindings_eq alike.scope]
  rw [TestRecord.listingLines, TestRecord.listingLines, symbols, alike.same]
  rfl

theorem listing_alike (h : a.Alike n m b)
    (rows : List.Forall₂ (TestRecord.Alike n m) records others) :
    listing b others = listing a records := by
  have texts : others.map (fun record => unlines (record.listingLines b)) =
      records.map fun record => unlines (record.listingLines a) := by
    induction rows with
    | nil => rw [List.map_nil, List.map_nil]
    | cons alike _ ih => rw [List.map_cons, List.map_cons, alike.listingLines h, ih]
  rw [listing, listing, texts]

/-! ## Canonical text -/

theorem bindingStatements_alike (h : a.Alike n m b) {s t : ScopeId} (twin : Twin n m s t)
    (level : Level) : bindingStatements b level t = bindingStatements a level s := by
  rw [bindingStatements, bindingStatements, h.bindings_eq twin]

theorem TestRecord.Alike.statements (alike : record.Alike n m other) (h : a.Alike n m b) :
    other.statements b = record.statements a := by
  rw [TestRecord.statements, TestRecord.statements, bindingStatements_alike h alike.scope, alike.same]
  rfl

/-- The outer scopes of twins are twins, and one is the other's root exactly if it is so there. -/
theorem TestRecord.Alike.outerStatements (alike : record.Alike n m other) (h : a.Alike n m b) :
    other.outerStatements b = record.outerStatements a := by
  have source : other.span = record.span := by
    rw [alike.same]
    rfl
  rw [TestRecord.outerStatements, TestRecord.outerStatements, source]
  rcases h.parent?_cases alike.scope with ⟨left, right⟩ | ⟨p, q, left, right, twin⟩
  · rw [left, right]
  · rw [left, right]
    have roots := h.root_twin twin
    have outermost : a.root p = p ↔ b.root q = q := roots.eq_iff h.pos h.pos' twin
    dsimp only
    rw [bindingStatements_alike h roots, bindingStatements_alike h twin]
    simp only [outermost]

theorem canonicalText_alike (h : a.Alike n m b)
    (rows : List.Forall₂ (TestRecord.Alike n m) records others) :
    canonicalText b others = canonicalText a records := by
  have append {record other : TestRecord} (alike : record.Alike n m other) (text : String) :
      appendTest b text other = appendTest a text record := by
    rw [appendTest, appendTest, alike.statements h, alike.same]
    rfl
  have appendAll {records others : List TestRecord}
      (rows : List.Forall₂ (TestRecord.Alike n m) records others) (text : String) :
      others.foldl (appendTest b) text = records.foldl (appendTest a) text := by
    induction rows generalizing text with
    | nil => rw [List.foldl_nil, List.foldl_nil]
    | cons alike _ ih => rw [List.foldl_cons, List.foldl_cons, append alike, ih]
  cases rows with
  | nil => rfl
  | @cons record other records others alike rows =>
    have place : other.span = record.span := by
      rw [alike.same]
      rfl
    rw [canonicalText, canonicalText, appendAll rows, alike.outerStatements h, alike.statements h,
      append alike, place]

/-! ## Commands -/

theorem report_alike (h : a.Alike n m b)
    (rows : List.Forall₂ (TestRecord.Alike n m) records others) (command : CommandLine.Command)
    (path : String) : command.report b path others = command.report a path records := by
  cases command with
  | check =>
    rw [CommandLine.Command.report, CommandLine.Command.report, rows.length_eq]
    exact checkRecords_alike h rows path _
  | dump => rw [CommandLine.Command.report, CommandLine.Command.report, listing_alike h rows]
  | fmt => rw [CommandLine.Command.report, CommandLine.Command.report, canonicalText_alike h rows]

end Alike

theorem fine_checkRecords (a : Arena) (path : String) (all : Nat) (records : List TestRecord) :
    (CommandLine.checkRecords a path all records).fine = true ↔
      ∀ fault, evaluateAll a records ≠ .error fault := by
  induction records with
  | nil => simp [CommandLine.checkRecords, evaluateAll]
  | cons record records ih =>
    rw [CommandLine.checkRecords, evaluateAll]
    cases record.evaluate a with
    | mk evaluated fault =>
      cases fault with
      | some fault => simp [CommandLine.Report.fault]
      | none =>
        dsimp only
        rw [ih]
        cases evaluateAll a records <;> simp [Except.map]

end HttpSuite
