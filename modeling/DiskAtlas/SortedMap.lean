/-
Maps whose entries are kept in ascending order of their keys. Two maps
with the same entries are the same value, so whatever is written out and
read back can be compared by equality. A map is known by its entries:
`insert`, `get?` and `ofList` each have a lemma that says what they are
in terms of them.
-/

namespace DiskAtlas

/-- A map from keys to values, in ascending order of the keys. -/
structure SortedMap (κ ν : Type) [Ord κ] where
  entries : List (κ × ν)
  sorted : entries.Pairwise fun a b => compare a.1 b.1 = .lt

namespace SortedMap

variable {κ ν : Type} [Ord κ]

instance [DecidableEq κ] [DecidableEq ν] : DecidableEq (SortedMap κ ν) :=
  fun a b =>
    if h : a.entries = b.entries then
      isTrue (by cases a; cases b; cases h; rfl)
    else isFalse fun hab => h (congrArg entries hab)

/-- Maps with the same entries are equal. -/
theorem ext {a b : SortedMap κ ν} (h : a.entries = b.entries) : a = b := by
  cases a
  cases b
  cases h
  rfl

def empty : SortedMap κ ν := ⟨[], .nil⟩

instance : Inhabited (SortedMap κ ν) := ⟨empty⟩

def size (m : SortedMap κ ν) : Nat := m.entries.length

def keys (m : SortedMap κ ν) : List κ := m.entries.map (·.1)

/-- The values, in the order of their keys. -/
def values (m : SortedMap κ ν) : List ν := m.entries.map (·.2)

def get? (m : SortedMap κ ν) (key : κ) : Option ν :=
  (m.entries.find? fun e => compare e.1 key == .eq).map (·.2)

/-- Is there an entry with a key? -/
def contains (m : SortedMap κ ν) (key : κ) : Bool := (m.get? key).isSome

def erase (m : SortedMap κ ν) (key : κ) : SortedMap κ ν :=
  ⟨m.entries.filter fun e => compare e.1 key != .eq, m.sorted.filter _⟩

-- ============================================================ insertion

/-- Puts an entry in its place, and in place of one with its key. -/
def insertEntry (key : κ) (value : ν) : List (κ × ν) → List (κ × ν)
  | [] => [(key, value)]
  | e :: rest =>
    match compare key e.1 with
    | .lt => (key, value) :: e :: rest
    | .eq => (key, value) :: rest
    | .gt => e :: insertEntry key value rest

/-- Every entry after an insertion is the new one or was there before. -/
theorem mem_of_mem_insertEntry {key : κ} {value : ν} {e : κ × ν}
    {es : List (κ × ν)} (h : e ∈ insertEntry key value es) :
    e = (key, value) ∨ e ∈ es := by
  induction es with
  | nil => simpa [insertEntry] using h
  | cons a rest ih =>
    unfold insertEntry at h
    split at h
    · simpa using h
    · rcases List.mem_cons.1 h with h | h
      · exact Or.inl h
      · exact Or.inr (List.mem_cons_of_mem _ h)
    · rcases List.mem_cons.1 h with h | h
      · exact Or.inr (h ▸ List.mem_cons_self)
      · exact (ih h).imp_right (List.mem_cons_of_mem _)

variable [Std.TransOrd κ] [Std.LawfulEqOrd κ]

theorem sorted_insertEntry (key : κ) (value : ν) {es : List (κ × ν)}
    (h : es.Pairwise fun a b => compare a.1 b.1 = .lt) :
    (insertEntry key value es).Pairwise
      fun a b => compare a.1 b.1 = .lt := by
  induction es with
  | nil => exact List.pairwise_singleton _ _
  | cons a rest ih =>
    obtain ⟨ha, hrest⟩ := List.pairwise_cons.1 h
    unfold insertEntry
    split
    · rename_i hlt
      refine List.pairwise_cons.2 ⟨fun b hb => ?_, h⟩
      rcases List.mem_cons.1 hb with rfl | hb
      · exact hlt
      · exact Std.TransCmp.lt_trans hlt (ha b hb)
    · rename_i heq
      obtain rfl := Std.LawfulEqOrd.compare_eq_iff_eq.1 heq
      exact List.pairwise_cons.2 ⟨ha, hrest⟩
    · rename_i hgt
      refine List.pairwise_cons.2 ⟨fun b hb => ?_, ih hrest⟩
      rcases mem_of_mem_insertEntry hb with rfl | hb
      · exact Std.OrientedCmp.lt_of_gt hgt
      · exact ha b hb

/-- The map with an entry put in, in place of one with the same key. -/
def insert (m : SortedMap κ ν) (key : κ) (value : ν) : SortedMap κ ν :=
  ⟨insertEntry key value m.entries, sorted_insertEntry key value m.sorted⟩

/-- The map with several entries put in, one after the other. -/
def insertMany (m : SortedMap κ ν) (es : List (κ × ν)) : SortedMap κ ν :=
  es.foldl (fun m e => m.insert e.1 e.2) m

/-- The map of a list of entries; of entries with one key the last
counts. -/
def ofList (es : List (κ × ν)) : SortedMap κ ν := empty.insertMany es

-- ================================================================ laws

/-- What is put in is found, and everything else stays. -/
theorem get?_insert (m : SortedMap κ ν) (key : κ) (value : ν) (k : κ) :
    (m.insert key value).get? k =
      if compare key k = .eq then some value else m.get? k := by
  obtain ⟨es, hes⟩ := m
  simp only [insert, get?]
  clear hes
  induction es with
  | nil => by_cases h : compare key k = .eq <;> simp [insertEntry, h]
  | cons a rest ih =>
    unfold insertEntry
    split
    · by_cases h : compare key k = .eq <;> simp [h]
    · rename_i heq
      obtain rfl := Std.LawfulEqOrd.compare_eq_iff_eq.1 heq
      by_cases h : compare a.1 k = .eq <;> simp [h]
    · rename_i hgt
      by_cases hak : compare a.1 k = .eq
      · obtain rfl := Std.LawfulEqOrd.compare_eq_iff_eq.1 hak
        simp [hgt]
      · rw [List.find?_cons_of_neg (by simpa using hak), ih,
          List.find?_cons_of_neg (by simpa using hak)]

omit [Std.LawfulEqOrd κ] in
/-- A last entry, greater than all others, is put at the end. -/
private theorem insertEntry_append {key : κ} {value : ν}
    {es : List (κ × ν)} (h : ∀ e ∈ es, compare e.1 key = .lt) :
    insertEntry key value es = es ++ [(key, value)] := by
  induction es with
  | nil => rfl
  | cons a rest ih =>
    have ha : compare key a.1 = .gt :=
      Std.OrientedCmp.gt_of_lt (h a List.mem_cons_self)
    simp [insertEntry, ha, ih fun e he => h e (List.mem_cons_of_mem _ he)]

/-- Entries in order come back as they are. -/
theorem entries_insertMany (m : SortedMap κ ν) (es : List (κ × ν))
    (h : (m.entries ++ es).Pairwise fun a b => compare a.1 b.1 = .lt) :
    (m.insertMany es).entries = m.entries ++ es := by
  induction es generalizing m with
  | nil => simp [insertMany]
  | cons e rest ih =>
    have hlast : (m.insert e.1 e.2).entries = m.entries ++ [e] :=
      insertEntry_append fun a ha =>
        (List.pairwise_append.1 h).2.2 a ha e List.mem_cons_self
    have hrest := ih (m.insert e.1 e.2) (by rw [hlast]; simpa using h)
    simpa [insertMany, hlast] using hrest

/-- A map is the map of its entries. -/
theorem ofList_entries (m : SortedMap κ ν) : ofList m.entries = m :=
  ext (by simpa [ofList, empty] using
    entries_insertMany empty m.entries (by simpa [empty] using m.sorted))

end SortedMap

end DiskAtlas
