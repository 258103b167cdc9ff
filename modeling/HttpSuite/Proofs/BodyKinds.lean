import HttpSuite.Proofs.Setters

/-!
# Which parts make a body

The kind of a body of several parts is that of the parts: a shell command if one of them is, and a
string otherwise. It is settled by the first two. A string literal and a shell command cannot be joined
in any order, and a shell command cannot be joined to a body that names and numbers have made a string
before it.

* `exists_growBody`, `kind_growBody`: when one more part can be joined, and the kind of the body then.
* `settled_accepts`, `settled_kind`: parts behind a body whose kind is settled, by induction on them.
* `parts_accepted_iff`: all parts of a body, and its kind.
-/

namespace HttpSuite

/-- A string literal and a shell command are among the kinds. -/
def Mixed (kinds : List TokenKind) : Prop :=
  .string ∈ kinds ∧ .shellCommand ∈ kinds

/-- The kind of a body that is joined from parts of these kinds. -/
def joinedKind (kinds : List TokenKind) : TokenKind :=
  if .shellCommand ∈ kinds then .shellCommand else .string

/-- Only these two are kinds of a body of several parts. -/
def Settled (kind : TokenKind) : Prop := kind = .string ∨ kind = .shellCommand

/-- One more part can be joined to a body if the two are not mixed. -/
theorem exists_growBody {body part : Token} :
    (∃ grown, growBody (some body) part = .ok grown) ↔ ¬Mixed [body.kind, part.kind] := by
  rw [growBody, joinBody]
  split
  next mixed =>
    constructor
    · rintro ⟨_, joined⟩
      cases joined
    · exact fun apart => absurd mixed apart
  next apart => exact ⟨fun _ => apart, fun _ => ⟨_, rfl⟩⟩

theorem kind_growBody {body part grown : Token} (h : growBody (some body) part = .ok grown) :
    grown.kind = joinedKind [body.kind, part.kind] := by
  rw [growBody, joinBody] at h
  split at h
  · cases h
  · cases h
    rfl

section Kinds

variable {kind part : TokenKind} {kinds : List TokenKind}

theorem not_mixed_singleton : ¬Mixed [kind] := by
  rintro ⟨string, shell⟩
  cases (List.mem_singleton.mp string).trans (List.mem_singleton.mp shell).symm

/-- A kind that is settled stays what it is. -/
theorem joinedKind_settled (settled : Settled kind) (h : ¬Mixed [kind, part]) :
    joinedKind [kind, part] = kind := by
  rcases settled with rfl | rfl <;> simp_all [Mixed, joinedKind]

/-- Behind a kind that is settled, each part is mixed with it or not on its own. -/
theorem mixed_settled (settled : Settled kind) :
    Mixed (kind :: part :: kinds) ↔ Mixed [kind, part] ∨ Mixed (kind :: kinds) := by
  rcases settled with rfl | rfl <;> simp [Mixed]

/-- The kinds of the first parts settle the kind: if there is no shell command among them, none can
follow. -/
theorem mixed_append {pair : List TokenKind} :
    ¬Mixed pair ∧ ¬Mixed (joinedKind pair :: kinds) ↔
      ¬Mixed (pair ++ kinds) ∧ (.shellCommand ∈ pair ++ kinds → .shellCommand ∈ pair) := by
  by_cases shell : .shellCommand ∈ pair
  · simp [Mixed, joinedKind, shell]
  · simpa [Mixed, joinedKind, shell] using fun none _ => none

theorem joinedKind_append {pair : List TokenKind}
    (h : .shellCommand ∈ pair ++ kinds → .shellCommand ∈ pair) :
    joinedKind (pair ++ kinds) = joinedKind pair := by
  have same : .shellCommand ∈ pair ++ kinds ↔ .shellCommand ∈ pair := ⟨h, List.mem_append_left kinds⟩
  simp only [joinedKind, same]

/-- A body whose kind is settled keeps it when it grows. -/
theorem kept_kind {body part grown : Token} (settled : Settled body.kind)
    (grows : growBody (some body) part = .ok grown) : grown.kind = body.kind :=
  (kind_growBody grows).trans (joinedKind_settled settled (exists_growBody.mp ⟨grown, grows⟩))

end Kinds

namespace TestRecord

variable {record final : TestRecord} {body : Token} {parts : List Token}

/-- A body keeps a kind that is settled. -/
theorem settled_kind (held : record.request.body = some body) (settled : Settled body.kind)
    (accepted : parts.foldlM appendBody record = .ok final) :
    ∃ grown, final.request.body = some grown ∧ grown.kind = body.kind := by
  induction parts generalizing record body with
  | nil =>
    cases accepted
    exact ⟨body, held, rfl⟩
  | cons part parts ih =>
    obtain ⟨-, grown, grows, accepted⟩ := foldlM_appendBody_cons.mp accepted
    rw [held] at grows
    have kept := kept_kind settled grows
    rw [← kept] at settled ⊢
    exact ih (body_withBody record grown) settled accepted

/-- Behind a body whose kind is settled, parts are accepted if none of them is mixed with it. -/
theorem settled_accepts (held : record.request.body = some body) (settled : Settled body.kind)
    (values : ∀ part ∈ parts, part.kind.isValue = true) :
    (∃ final, parts.foldlM appendBody record = .ok final) ↔
      ¬Mixed (body.kind :: parts.map (·.kind)) := by
  induction parts generalizing record body with
  | nil => exact ⟨fun _ => not_mixed_singleton, fun _ => ⟨record, rfl⟩⟩
  | cons part parts ih =>
    obtain ⟨value, others⟩ := List.forall_mem_cons.mp values
    have step {grown : Token} (grows : growBody (some body) part = .ok grown) :
        (∃ final, parts.foldlM appendBody (record.withBody grown) = .ok final) ↔
          ¬Mixed (body.kind :: parts.map (·.kind)) := by
      have kept := kept_kind settled grows
      rw [← kept] at settled ⊢
      exact ih (body_withBody record grown) settled others
    rw [List.map_cons, mixed_settled settled, not_or, ← exists_growBody]
    constructor
    · rintro ⟨final, accepted⟩
      obtain ⟨-, grown, grows, accepted⟩ := foldlM_appendBody_cons.mp accepted
      rw [held] at grows
      exact ⟨⟨grown, grows⟩, (step grows).mp ⟨final, accepted⟩⟩
    · rintro ⟨⟨grown, grows⟩, rest⟩
      obtain ⟨final, accepted⟩ := (step grows).mpr rest
      exact ⟨final, foldlM_appendBody_cons.mpr ⟨value, grown, held ▸ grows, accepted⟩⟩

/-- The first two parts of a body settle its kind, and the others are accepted behind them. -/
theorem pair_accepts {first second : Token} (unset : record.request.body = none)
    (values : ∀ part ∈ first :: second :: parts, part.kind.isValue = true) :
    ((∃ final, (first :: second :: parts).foldlM appendBody record = .ok final) ↔
        ¬Mixed [first.kind, second.kind] ∧
          ¬Mixed (joinedKind [first.kind, second.kind] :: parts.map (·.kind))) ∧
      ∀ final, (first :: second :: parts).foldlM appendBody record = .ok final →
        ∃ body, final.request.body = some body ∧
          body.kind = joinedKind [first.kind, second.kind] := by
  obtain ⟨value, value', others⟩ : first.kind.isValue = true ∧ second.kind.isValue = true ∧
      ∀ part ∈ parts, part.kind.isValue = true := by simpa using values
  have begins {final : TestRecord} :
      (first :: second :: parts).foldlM appendBody record = .ok final ↔
        ∃ grown, growBody (some first) second = .ok grown ∧
          parts.foldlM appendBody ((record.withBody first).withBody grown) = .ok final := by
    constructor
    · intro accepted
      obtain ⟨-, body, sets, accepted⟩ := foldlM_appendBody_cons.mp accepted
      rw [unset] at sets
      cases sets
      obtain ⟨-, grown, grows, accepted⟩ := foldlM_appendBody_cons.mp accepted
      exact ⟨grown, grows, accepted⟩
    · rintro ⟨grown, grows, accepted⟩
      exact foldlM_appendBody_cons.mpr ⟨value, first, unset ▸ rfl,
        foldlM_appendBody_cons.mpr ⟨value', grown, grows, accepted⟩⟩
  -- By then the kind is settled, so the others are judged by it.
  have behind {grown : Token} (grows : growBody (some first) second = .ok grown) :
      (∃ final, parts.foldlM appendBody ((record.withBody first).withBody grown) = .ok final) ↔
        ¬Mixed (grown.kind :: parts.map (·.kind)) :=
    settled_accepts (body_withBody _ grown) (growBody_kind grows) others
  refine ⟨?_, fun final accepted => ?_⟩
  · rw [← exists_growBody]
    constructor
    · rintro ⟨final, accepted⟩
      obtain ⟨grown, grows, accepted⟩ := begins.mp accepted
      rw [← kind_growBody grows]
      exact ⟨⟨grown, grows⟩, (behind grows).mp ⟨final, accepted⟩⟩
    · rintro ⟨⟨grown, grows⟩, rest⟩
      rw [← kind_growBody grows] at rest
      obtain ⟨final, accepted⟩ := (behind grows).mpr rest
      exact ⟨final, begins.mpr ⟨grown, grows, accepted⟩⟩
  · obtain ⟨grown, grows, accepted⟩ := begins.mp accepted
    obtain ⟨body, held, kept⟩ := settled_kind (body_withBody _ grown) (growBody_kind grows) accepted
    exact ⟨body, held, kept.trans (kind_growBody grows)⟩

/-- The parts of a body are all accepted exactly if they do not mix a string literal with a shell
command and a shell command, if there is one, is among the first two. The body of two or more parts is a
shell command if one of them is, and a string otherwise. -/
theorem parts_accepted_iff (unset : record.request.body = none)
    (values : ∀ part ∈ parts, part.kind.isValue = true) :
    ((∃ final, parts.foldlM appendBody record = .ok final) ↔
        ¬Mixed (parts.map (·.kind)) ∧
          (.shellCommand ∈ parts.map (·.kind) → .shellCommand ∈ (parts.map (·.kind)).take 2)) ∧
      ∀ final, parts.foldlM appendBody record = .ok final → 2 ≤ parts.length →
        ∃ body, final.request.body = some body ∧ body.kind = joinedKind (parts.map (·.kind)) := by
  match parts, values with
  | [], _ => exact ⟨⟨fun _ => ⟨by simp [Mixed], id⟩, fun _ => ⟨record, rfl⟩⟩, by simp⟩
  | [part], values =>
    have accepted : [part].foldlM appendBody record = .ok (record.withBody part) :=
      foldlM_appendBody_cons.mpr ⟨values part List.mem_cons_self, part, unset ▸ rfl, rfl⟩
    exact ⟨⟨fun _ => ⟨not_mixed_singleton, id⟩, fun _ => ⟨_, accepted⟩⟩, by simp⟩
  | first :: second :: parts, values =>
    obtain ⟨accepts, kind⟩ := pair_accepts unset values
    have same := @mixed_append (parts.map (·.kind)) [first.kind, second.kind]
    refine ⟨accepts.trans same, fun final accepted _ => ?_⟩
    obtain ⟨body, held, settled⟩ := kind final accepted
    have settles := (same.mp (accepts.mp ⟨final, accepted⟩)).2
    exact ⟨body, held, settled.trans (joinedKind_append settles).symm⟩

/-- A test that says nothing yet. -/
def blankTest : TestRecord := { name := "t", span := ⟨"in", 1⟩, scope := 0 }

/-- A number, a shell command and a name behind it. -/
def commandParts : List Token :=
  [⟨.integer, "1", ⟨"in", 1⟩⟩, ⟨.shellCommand, " echo ", ⟨"in", 1⟩⟩, ⟨.symbol, "X", ⟨"in", 2⟩⟩]

theorem parts_accepted_iff_commandParts :
    blankTest.request.body = none ∧ (∀ part ∈ commandParts, part.kind.isValue = true) ∧
      ∃ final body, commandParts.foldlM appendBody blankTest = .ok final ∧
        final.request.body = some body ∧ body.kind = .shellCommand := by
  have values : ∀ part ∈ commandParts, part.kind.isValue = true := by decide
  obtain ⟨accepts, kind⟩ := @parts_accepted_iff blankTest commandParts rfl values
  obtain ⟨final, accepted⟩ := accepts.mpr ⟨by simp [Mixed, commandParts], by simp [commandParts]⟩
  obtain ⟨body, held, shell⟩ := kind final accepted (by decide)
  exact ⟨rfl, values, final, body, accepted, held, shell⟩

/-- A shell command behind two names, and before them. -/
def lateCommand : List Token × List Token :=
  let names : List Token := [⟨.symbol, "A", ⟨"in", 1⟩⟩, ⟨.symbol, "B", ⟨"in", 1⟩⟩]
  let command : Token := ⟨.shellCommand, "date", ⟨"in", 2⟩⟩
  (names ++ [command], command :: names)

/-- There is no string literal among the parts, and they are accepted in another order only. -/
theorem not_parts_accepted_lateCommand :
    lateCommand.1.Perm lateCommand.2 ∧ .string ∉ lateCommand.1.map (·.kind) ∧
      lateCommand.1.foldlM appendBody blankTest =
        .error ⟨.bodyKindMismatch .string .shellCommand, ⟨"in", 2⟩⟩ ∧
      (lateCommand.2.foldlM appendBody blankTest).isOk = true :=
  ⟨List.perm_append_comm, by decide, rfl, rfl⟩

end TestRecord

end HttpSuite
