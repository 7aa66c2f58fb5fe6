/-
What a sorted map holds, in terms of its entries. Looking a key up is
membership of an entry, because no two entries share a key; and an
insertion or an erasure changes the entry of its own key and no other.
Everything that is proved about tables speaks of entries and rests on these
two facts.
-/
import DiskAtlas.SortedMap

namespace DiskAtlas.SortedMap

variable {κ ν : Type} [Ord κ]

-- ================================================== keys tell entries apart

/-- The keys stand in strictly ascending order. -/
theorem keys_sorted (m : SortedMap κ ν) :
    m.keys.Pairwise fun a b => compare a b = .lt :=
  List.pairwise_map.2 m.sorted

@[simp] theorem get?_empty (key : κ) :
    (empty : SortedMap κ ν).get? key = none := rfl

@[simp] theorem entries_empty : (empty : SortedMap κ ν).entries = [] := rfl

/-- An entry is the first one with its key. -/
private theorem find?_entry [Std.LawfulEqOrd κ] {key : κ} {value : ν}
    {es : List (κ × ν)}
    (hes : es.Pairwise fun a b => compare a.1 b.1 = .lt)
    (h : (key, value) ∈ es) :
    es.find? (fun e => compare e.1 key == .eq) = some (key, value) := by
  induction es with
  | nil => cases h
  | cons a rest ih =>
    obtain ⟨ha, hrest⟩ := List.pairwise_cons.1 hes
    rcases List.mem_cons.1 h with rfl | h
    · simp
    · have hlt : compare a.1 key = .lt := ha _ h
      rw [List.find?_cons_of_neg (by simp [hlt])]
      exact ih hrest h

variable [Std.LawfulEqOrd κ]

/-- A key has a value exactly if the two make an entry. -/
theorem get?_eq_some_iff {m : SortedMap κ ν} {key : κ} {value : ν} :
    m.get? key = some value ↔ (key, value) ∈ m.entries := by
  constructor
  · intro h
    obtain ⟨⟨k, v⟩, hfind, rfl⟩ := Option.map_eq_some_iff.1 h
    have hkey := List.find?_some hfind
    simp only [beq_iff_eq, Std.LawfulEqOrd.compare_eq_iff_eq] at hkey
    subst hkey
    exact List.mem_of_find?_eq_some hfind
  · intro h
    rw [get?, find?_entry m.sorted h]
    rfl

theorem contains_iff_mem_keys {m : SortedMap κ ν} {key : κ} :
    m.contains key = true ↔ key ∈ m.keys := by
  rw [contains, Option.isSome_iff_exists, keys, List.mem_map]
  simp [get?_eq_some_iff]

-- =============================================================== erasure

/-- What is erased is not found. -/
theorem get?_erase_self (m : SortedMap κ ν) (key : κ) :
    (m.erase key).get? key = none := by
  cases hget : (m.erase key).get? key with
  | none => rfl
  | some value =>
    have hkept := (List.mem_filter.1 (get?_eq_some_iff.1 hget)).2
    simp at hkept

/-- Other keys keep their values. -/
theorem get?_erase_of_ne (m : SortedMap κ ν) {key k : κ} (h : key ≠ k) :
    (m.erase key).get? k = m.get? k := by
  apply Option.ext
  intro value
  rw [get?_eq_some_iff, get?_eq_some_iff, erase, List.mem_filter]
  simp [Ne.symm h]

-- ============================================================= insertion

variable [Std.TransOrd κ]

/-- What is put in is found under its key. -/
theorem get?_insert_self (m : SortedMap κ ν) (key : κ) (value : ν) :
    (m.insert key value).get? key = some value := by
  rw [get?_insert, if_pos Std.ReflCmp.compare_self]

/-- Other keys keep their values. -/
theorem get?_insert_of_ne (m : SortedMap κ ν) {key k : κ} (value : ν)
    (h : key ≠ k) : (m.insert key value).get? k = m.get? k := by
  rw [get?_insert, if_neg fun hk => h (Std.LawfulEqOrd.compare_eq_iff_eq.1 hk)]

/-- The entries after an insertion: the new one, and those of other
keys. -/
theorem mem_entries_insert {m : SortedMap κ ν} {key k : κ} {value v : ν} :
    (k, v) ∈ (m.insert key value).entries ↔
      (k = key ∧ v = value) ∨ (k ≠ key ∧ (k, v) ∈ m.entries) := by
  rw [← get?_eq_some_iff, ← get?_eq_some_iff]
  by_cases h : k = key
  · subst h
    simp [get?_insert_self, eq_comm]
  · rw [get?_insert_of_ne m value (Ne.symm h)]
    simp [h]

theorem insertMany_append (m : SortedMap κ ν) (es es' : List (κ × ν)) :
    m.insertMany (es ++ es') = (m.insertMany es).insertMany es' :=
  List.foldl_append

/-- A value comes from the entries that were put in, or was there
before. -/
theorem get?_insertMany_cases {m : SortedMap κ ν} {es : List (κ × ν)}
    {key : κ} {value : ν} (h : (m.insertMany es).get? key = some value) :
    (key, value) ∈ es ∨ m.get? key = some value := by
  induction es generalizing m with
  | nil => exact .inr h
  | cons e rest ih =>
    rcases ih h with hrest | hfirst
    · exact .inl (List.mem_cons_of_mem _ hrest)
    · by_cases hkey : e.1 = key
      · subst hkey
        rw [get?_insert_self] at hfirst
        obtain rfl := Option.some_inj.1 hfirst
        exact .inl List.mem_cons_self
      · rw [get?_insert_of_ne _ _ hkey] at hfirst
        exact .inr hfirst

theorem contains_insert_iff (m : SortedMap κ ν) (key k : κ) (value : ν) :
    (m.insert key value).contains k = true ↔
      key = k ∨ m.contains k = true := by
  by_cases h : key = k
  · subst h
    simp [contains, get?_insert_self]
  · simp [contains, get?_insert_of_ne m value h, h]

theorem contains_insertMany_iff (m : SortedMap κ ν) (es : List (κ × ν))
    (key : κ) : (m.insertMany es).contains key = true ↔
      (∃ e ∈ es, e.1 = key) ∨ m.contains key = true := by
  induction es generalizing m with
  | nil => simp [insertMany]
  | cons e rest ih =>
    have hstep : m.insertMany (e :: rest)
        = (m.insert e.1 e.2).insertMany rest := rfl
    rw [hstep, ih, contains_insert_iff]
    simp only [List.mem_cons, or_and_right, exists_or, exists_eq_left,
      or_assoc, or_left_comm]

/-- Keys of none of the entries keep their values. -/
theorem get?_insertMany_of_not_mem (m : SortedMap κ ν) {es : List (κ × ν)}
    {key : κ} (h : ∀ e ∈ es, e.1 ≠ key) :
    (m.insertMany es).get? key = m.get? key := by
  induction es generalizing m with
  | nil => rfl
  | cons e rest ih =>
    refine (ih (m.insert e.1 e.2) fun e' he' =>
      h e' (List.mem_cons_of_mem _ he')).trans ?_
    exact get?_insert_of_ne m e.2 (h e List.mem_cons_self)

/-- A key that some entries have gets the value of one of them. -/
theorem exists_get?_insertMany (m : SortedMap κ ν) {es : List (κ × ν)}
    {key : κ} (h : ∃ e ∈ es, e.1 = key) :
    ∃ value, (key, value) ∈ es ∧
      (m.insertMany es).get? key = some value := by
  induction es generalizing m with
  | nil => simp at h
  | cons e rest ih =>
    by_cases hlater : ∃ e' ∈ rest, e'.1 = key
    · obtain ⟨value, hmem, hget⟩ := ih (m.insert e.1 e.2) hlater
      exact ⟨value, List.mem_cons_of_mem _ hmem, hget⟩
    · have hothers : ∀ e' ∈ rest, e'.1 ≠ key :=
        fun e' he' hkey => hlater ⟨e', he', hkey⟩
      obtain ⟨e', he', rfl⟩ := h
      rcases List.mem_cons.1 he' with rfl | hrest
      · refine ⟨e'.2, List.mem_cons_self, ?_⟩
        exact (get?_insertMany_of_not_mem _ hothers).trans
          (get?_insert_self _ _ _)
      · exact absurd rfl (hothers e' hrest)

/-- Of several entries with a key the last one counts. -/
theorem get?_insertMany_of_last (m : SortedMap κ ν) {pre post : List (κ × ν)}
    {key : κ} {value : ν} (h : ∀ e ∈ post, e.1 ≠ key) :
    (m.insertMany (pre ++ (key, value) :: post)).get? key = some value := by
  rw [insertMany_append]
  exact (get?_insertMany_of_not_mem _ h).trans (get?_insert_self _ _ _)

/-- A key that only entries with one value have gets this value. -/
theorem get?_insertMany_of_mem (m : SortedMap κ ν) {es : List (κ × ν)}
    {key : κ} {value : ν} (hmem : (key, value) ∈ es)
    (honly : ∀ e ∈ es, e.1 = key → e.2 = value) :
    (m.insertMany es).get? key = some value := by
  obtain ⟨found, hfound, hget⟩ := exists_get?_insertMany m ⟨_, hmem, rfl⟩
  have hvalue : found = value := honly _ hfound rfl
  exact hvalue ▸ hget

/-- A map of entries that give no key two values has just these
entries. -/
theorem get?_ofList_iff {es : List (κ × ν)}
    (honly : ∀ e ∈ es, ∀ e' ∈ es, e'.1 = e.1 → e'.2 = e.2) {key : κ}
    {value : ν} :
    (ofList es).get? key = some value ↔ (key, value) ∈ es := by
  constructor
  · intro h
    obtain hmem | hempty := get?_insertMany_cases h
    · exact hmem
    · cases hempty
  · intro hmem
    exact get?_insertMany_of_mem _ hmem (honly _ hmem)

/-- A map of entries in order has just these entries. -/
theorem entries_ofList {es : List (κ × ν)}
    (h : es.Pairwise fun a b => compare a.1 b.1 = .lt) :
    (ofList es).entries = es := by
  simpa [ofList] using entries_insertMany empty es (by simpa using h)

end DiskAtlas.SortedMap
