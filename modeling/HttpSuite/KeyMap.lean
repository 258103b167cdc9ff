/-!
# Maps from names to values

A map is the list of its entries in strictly ascending order of name, code point by code point, so
a map lists itself in order and two maps with the same look-ups are equal.

* `get?_insert`, `get?_erase`: each operation seen through look-up.
* `ext_get?`: look-up determines the map.
* `insert_get?`, `erase_insert`: putting back what was there, and taking out what was not.
* `foldl_insert_filter`: a map is made up from its entries.
-/

namespace HttpSuite

/-- Entries with strictly ascending names. -/
structure KeyMap (β : Type) where
  entries : List (String × β)
  ascending : entries.Pairwise fun a b => a.1 < b.1
  deriving DecidableEq

namespace KeyMap

variable {β : Type}

/-- The map without entries. -/
def empty : KeyMap β := ⟨[], .nil⟩

instance : Inhabited (KeyMap β) := ⟨empty⟩

/-- The number of entries. -/
def size (m : KeyMap β) : Nat := m.entries.length

/-- The value that goes with `key`. -/
def get? (m : KeyMap β) (key : String) : Option β :=
  (m.entries.find? fun e => e.1 == key).map (·.2)

/-- Puts an entry in its place, in the stead of one with the same name. -/
def insertEntry (key : String) (value : β) : List (String × β) → List (String × β)
  | [] => [(key, value)]
  | e :: es =>
    if key < e.1 then (key, value) :: e :: es
    else if key = e.1 then (key, value) :: es
    else e :: insertEntry key value es

private theorem mem_insertEntry {key : String} {value : β} {es : List (String × β)}
    {e : String × β} (h : e ∈ insertEntry key value es) : e = (key, value) ∨ e ∈ es := by
  induction es with
  | nil => simpa [insertEntry] using h
  | cons d ds ih =>
    simp only [insertEntry] at h
    split at h
    · simpa using h
    · split at h
      · rcases List.mem_cons.mp h with h | h
        · exact .inl h
        · exact .inr (List.mem_cons_of_mem _ h)
      · rcases List.mem_cons.mp h with h | h
        · exact .inr (h ▸ List.mem_cons_self)
        · rcases ih h with h | h
          · exact .inl h
          · exact .inr (List.mem_cons_of_mem _ h)

private theorem lt_of_not_lt_of_ne {a b : String} (h : ¬ a < b) (ne : a ≠ b) : b < a := by
  by_cases hb : b < a
  · exact hb
  · exact absurd (String.le_antisymm (String.not_lt.mp hb) (String.not_lt.mp h)) ne

private theorem pairwise_insertEntry (key : String) (value : β) {es : List (String × β)}
    (h : es.Pairwise fun a b => a.1 < b.1) :
    (insertEntry key value es).Pairwise fun a b => a.1 < b.1 := by
  induction es with
  | nil => simp [insertEntry]
  | cons d ds ih =>
    obtain ⟨first, others⟩ := List.pairwise_cons.mp h
    simp only [insertEntry]
    split
    · next lt =>
      refine List.pairwise_cons.mpr ⟨fun e he => ?_, h⟩
      rcases List.mem_cons.mp he with rfl | he
      · exact lt
      · exact String.lt_trans lt (first e he)
    · next nlt =>
      split
      · next eq => exact List.pairwise_cons.mpr ⟨fun e he => eq ▸ first e he, others⟩
      · next ne =>
        refine List.pairwise_cons.mpr ⟨fun e he => ?_, ih others⟩
        rcases mem_insertEntry he with rfl | he
        · exact lt_of_not_lt_of_ne nlt ne
        · exact first e he

/-- Binds `key` to `value`, whether it was bound or not. -/
def insert (m : KeyMap β) (key : String) (value : β) : KeyMap β :=
  ⟨insertEntry key value m.entries, pairwise_insertEntry key value m.ascending⟩

/-- Removes the entry of `key`, if there is one. -/
def erase (m : KeyMap β) (key : String) : KeyMap β :=
  ⟨m.entries.filter fun e => e.1 != key, m.ascending.filter _⟩

/-! ## Look-up -/

private theorem find?_insertEntry (key other : String) (value : β) (es : List (String × β)) :
    ((insertEntry key value es).find? fun e => e.1 == other).map (·.2) =
      if key = other then some value else (es.find? fun e => e.1 == other).map (·.2) := by
  induction es with
  | nil => by_cases h : key = other <;> simp [insertEntry, h]
  | cons d ds ih =>
    simp only [insertEntry]
    split
    · by_cases h : key = other <;> simp [h]
    · split
      · next eq =>
        by_cases h : key = other
        · simp [h]
        · have hd : ¬ d.1 = other := fun e => h (eq.trans e)
          simp [h, hd]
      · next ne =>
        by_cases hd : d.1 = other
        · have h : ¬ key = other := fun e => ne (e.trans hd.symm)
          simp [hd, h]
        · simpa [hd] using ih

@[simp] theorem get?_insert (m : KeyMap β) (key other : String) (value : β) :
    (m.insert key value).get? other = if key = other then some value else m.get? other :=
  find?_insertEntry key other value m.entries

@[simp] theorem get?_erase (m : KeyMap β) (key other : String) :
    (m.erase key).get? other = if key = other then none else m.get? other := by
  simp only [get?, erase, List.find?_filter]
  by_cases h : key = other
  · simp [h]
  · rw [if_neg h]
    congr 2
    funext e
    by_cases he : e.1 = other
    · have : ¬ other = key := fun e' => h e'.symm
      simp [he, this]
    · simp [he]

private theorem find?_eq_none_of_lt {es : List (String × β)} {key : String}
    (h : ∀ e ∈ es, key < e.1) : es.find? (fun e => e.1 == key) = none := by
  refine List.find?_eq_none.mpr fun e he eq => ?_
  exact String.lt_irrefl key ((beq_iff_eq.mp eq) ▸ h e he)

private theorem eq_of_find?_eq {es ds : List (String × β)}
    (hes : es.Pairwise fun a b => a.1 < b.1) (hds : ds.Pairwise fun a b => a.1 < b.1)
    (h : ∀ key, (es.find? fun e => e.1 == key).map (·.2) =
      (ds.find? fun e => e.1 == key).map (·.2)) : es = ds := by
  induction es generalizing ds with
  | nil =>
    cases ds with
    | nil => rfl
    | cons d ds => simpa using h d.1
  | cons e es ih =>
    cases ds with
    | nil => simpa using h e.1
    | cons d ds =>
      obtain ⟨firstE, restE⟩ := List.pairwise_cons.mp hes
      obtain ⟨firstD, restD⟩ := List.pairwise_cons.mp hds
      -- Where the first names differ, the smaller one is found on one side only.
      have nlt : ∀ {x y : String × β} {xs ys : List (String × β)}, x.1 < y.1 →
          (∀ z ∈ ys, y.1 < z.1) →
          ¬ ((x :: xs).find? fun z => z.1 == x.1).map (·.2) =
            ((y :: ys).find? fun z => z.1 == x.1).map (·.2) := by
        intro x y xs ys lt above
        have none_right : (y :: ys).find? (fun z => z.1 == x.1) = none := by
          refine find?_eq_none_of_lt fun z hz => ?_
          rcases List.mem_cons.mp hz with rfl | hz
          · exact lt
          · exact String.lt_trans lt (above z hz)
        simp [none_right]
      have same : e.1 = d.1 := by
        apply Classical.byContradiction
        intro ne
        by_cases lt : e.1 < d.1
        · exact nlt lt firstD (h e.1)
        · exact nlt (lt_of_not_lt_of_ne lt ne) firstE (h d.1).symm
      have value : e.2 = d.2 := by simpa [same] using h e.1
      have tails : es = ds := by
        refine ih restE restD ?_
        intro key
        by_cases hk : e.1 = key
        · rw [find?_eq_none_of_lt (hk ▸ firstE), find?_eq_none_of_lt (hk ▸ same ▸ firstD)]
        · have hd : ¬ d.1 = key := same ▸ hk
          simpa [hk, hd] using h key
      rw [Prod.ext same value, tails]

theorem ext_get? {m n : KeyMap β} (h : ∀ key, m.get? key = n.get? key) : m = n := by
  have entries := eq_of_find?_eq m.ascending n.ascending h
  cases m
  cases n
  cases entries
  rfl

/-! ## Writing twice -/

@[simp] theorem insert_insert (m : KeyMap β) (key : String) (first second : β) :
    (m.insert key first).insert key second = m.insert key second := by
  apply ext_get?
  intro other
  by_cases h : key = other <;> simp [h]

/-- Inserting what is there changes nothing. -/
theorem insert_get? {m : KeyMap β} {key : String} {value : β} (h : m.get? key = some value) :
    m.insert key value = m := by
  apply ext_get?
  intro other
  rw [get?_insert]
  split
  · next eq => rw [← eq, h]
  · rfl

theorem erase_insert {m : KeyMap β} {key : String} (h : m.get? key = none) (value : β) :
    (m.insert key value).erase key = m := by
  apply ext_get?
  intro other
  rw [get?_erase, get?_insert]
  split
  · next eq => rw [← eq, h]
  · rfl

/-! ## Entries -/

theorem mem_entries_insert {m : KeyMap β} {key : String} {value : β} {e : String × β}
    (h : e ∈ (m.insert key value).entries) : e = (key, value) ∨ e ∈ m.entries :=
  mem_insertEntry h

theorem distinct (m : KeyMap β) : m.entries.Pairwise fun a b => a.1 ≠ b.1 :=
  m.ascending.imp fun {a b} lt (eq : a.1 = b.1) => String.lt_irrefl b.1 (eq ▸ lt)

private theorem find?_of_mem {es : List (String × β)} (h : es.Pairwise fun a b => a.1 ≠ b.1)
    {e : String × β} (he : e ∈ es) : es.find? (fun d => d.1 == e.1) = some e := by
  induction es with
  | nil => cases he
  | cons d ds ih =>
    obtain ⟨first, others⟩ := List.pairwise_cons.mp h
    rcases List.mem_cons.mp he with rfl | he
    · simp
    · have ne : ¬ d.1 = e.1 := first e he
      simpa [ne] using ih others he

theorem mem_entries_iff {m : KeyMap β} {key : String} {value : β} :
    (key, value) ∈ m.entries ↔ m.get? key = some value := by
  constructor
  · intro h
    simp [get?, find?_of_mem m.distinct h]
  · intro h
    obtain ⟨e, found, rfl⟩ := Option.map_eq_some_iff.mp h
    obtain rfl : e.1 = key := by simpa using List.find?_some found
    exact List.mem_of_find?_eq_some found

private theorem get?_foldl_insert {es : List (String × β)}
    (h : es.Pairwise fun a b => a.1 ≠ b.1) (m : KeyMap β) (key : String) :
    (es.foldl (fun m e => m.insert e.1 e.2) m).get? key =
      ((es.find? fun e => e.1 == key).map (·.2)).or (m.get? key) := by
  induction es generalizing m with
  | nil => rfl
  | cons d ds ih =>
    obtain ⟨first, others⟩ := List.pairwise_cons.mp h
    rw [List.foldl_cons, ih others, get?_insert]
    by_cases hd : d.1 = key
    · have absent : ds.find? (fun e => e.1 == key) = none :=
        List.find?_eq_none.mpr fun e he eq => first e he (hd.trans (beq_iff_eq.mp eq).symm)
      simp [hd, absent]
    · simp [hd]

/-- Inserting some entries of a map where the others are already makes up the map. -/
theorem foldl_insert_filter {m n : KeyMap β} {q : String × β → Bool}
    (h : ∀ key, m.get? key = n.get? key ∨ ∃ value, m.get? key = some value ∧ q (key, value) = true) :
    (m.entries.filter q).foldl (fun m e => m.insert e.1 e.2) n = m := by
  apply ext_get?
  intro key
  rw [get?_foldl_insert (m.distinct.filter _)]
  cases found : (m.entries.filter q).find? (fun e => e.1 == key) with
  | some e =>
    obtain rfl : e.1 = key := by simpa using List.find?_some found
    have mem := (List.mem_filter.mp (List.mem_of_find?_eq_some found)).1
    exact (mem_entries_iff.mp mem).symm
  | none =>
    rcases h key with same | ⟨value, bound, chosen⟩
    · exact same.symm
    · have mem := List.mem_filter.mpr ⟨mem_entries_iff.mpr bound, chosen⟩
      have := List.find?_eq_none.mp found _ mem
      simp at this

theorem foldl_insert_entries (m : KeyMap β) :
    m.entries.foldl (fun m e => m.insert e.1 e.2) empty = m := by
  have all := foldl_insert_filter (m := m) (n := empty) (q := fun _ => true) fun key => by
    cases m.get? key with
    | none => exact .inl rfl
    | some value => exact .inr ⟨value, rfl, rfl⟩
  rwa [List.filter_eq_self.mpr fun _ _ => rfl] at all

end KeyMap

end HttpSuite
