/-
Lists in order. A list whose neighbours differ and which is in order is
known by its members (`eq_of_sorted`), so two ways to the same members in
the same order give the same list. Repetitions in a sorted list stand next
to each other, so erasing them there makes the order strict. A test that
holds up to some place of a list cuts it in two.
-/

namespace DiskAtlas.Sorting

variable {α : Type}

-- ==================================================== lists as members

/-- Strictly ordered lists with the same members are equal. -/
theorem eq_of_sorted {R : α → α → Prop} (hR : ∀ a b, R a b → ¬ R b a)
    {xs ys : List α} (hx : xs.Pairwise R) (hy : ys.Pairwise R)
    (hmem : ∀ a, a ∈ xs ↔ a ∈ ys) : xs = ys := by
  have hnodup : ∀ {zs : List α}, zs.Pairwise R → zs.Nodup := fun h =>
    h.imp fun {a b} hab => by
      rintro rfl
      exact hR a a hab hab
  have hperm := (List.perm_ext_iff_of_nodup (hnodup hx) (hnodup hy)).2 hmem
  refine hperm.eq_of_pairwise (fun a b _ _ hab hba => ?_) hx hy
  exact absurd hba (hR a b hab)

/-- Where keys ascend, the element that comes first has the smaller
key. -/
theorem idxOf_le_idxOf_iff [DecidableEq α] {key : α → Nat}
    {xs : List α} (hsorted : xs.Pairwise fun a b => key a < key b) {a b : α}
    (ha : a ∈ xs) (hb : b ∈ xs) :
    xs.idxOf a ≤ xs.idxOf b ↔ key a ≤ key b := by
  have hlt := List.pairwise_iff_getElem.1 hsorted
  have ha' := List.idxOf_lt_length_of_mem ha
  have hb' := List.idxOf_lt_length_of_mem hb
  have hkeya := List.getElem_idxOf ha'
  have hkeyb := List.getElem_idxOf hb'
  constructor
  · intro hle
    rcases Nat.eq_or_lt_of_le hle with heq | hbefore
    · simp only [heq, hkeyb] at hkeya
      exact hkeya ▸ Nat.le_refl _
    · have hkey := hlt _ _ ha' hb' hbefore
      rw [hkeya, hkeyb] at hkey
      exact Nat.le_of_lt hkey
  · intro hle
    refine Nat.le_of_not_lt fun hbefore => ?_
    have hkey := hlt _ _ hb' ha' hbefore
    rw [hkeya, hkeyb] at hkey
    omega

-- ========================================================== repetitions

section Repetitions

variable [BEq α]

/-- What was kept so far stands in front of what is kept later. -/
private theorem eraseReps_loop (a : α) (as kept : List α) :
    List.eraseRepsBy.loop (· == ·) a as kept
      = kept.reverse ++ List.eraseRepsBy.loop (· == ·) a as [] := by
  induction as generalizing a kept with
  | nil => simp [List.eraseRepsBy.loop]
  | cons b rest ih =>
    unfold List.eraseRepsBy.loop
    split
    · exact ih a kept
    · rw [ih b (a :: kept), ih b [a]]
      simp

/-- Of two equal neighbours the first is kept. -/
theorem eraseReps_cons_cons [LawfulBEq α] (a b : α) (rest : List α) :
    (a :: b :: rest).eraseReps =
      if a == b then (b :: rest).eraseReps
      else a :: (b :: rest).eraseReps := by
  show List.eraseRepsBy.loop (· == ·) a (b :: rest) [] = _
  unfold List.eraseRepsBy.loop
  split
  · next heq =>
    rw [if_pos heq]
    obtain rfl := eq_of_beq heq
    rfl
  · next hne =>
    rw [if_neg (by simp [hne]), eraseReps_loop]
    rfl

variable [LawfulBEq α]

/-- Taking out repetitions next to each other loses no value. -/
theorem mem_eraseReps {a : α} {xs : List α} :
    a ∈ xs.eraseReps ↔ a ∈ xs := by
  induction xs with
  | nil => rfl
  | cons b rest ih =>
    cases rest with
    | nil => rfl
    | cons c rest =>
      rw [eraseReps_cons_cons]
      split
      · next heq =>
        obtain rfl := eq_of_beq heq
        rw [ih]
        simp
      · rw [List.mem_cons, ih, ← List.mem_cons]

/-- A list in order is in strict order without its repetitions. -/
theorem sorted_eraseReps {R : α → α → Prop} {xs : List α}
    (hR : ∀ a ∈ xs, ∀ b ∈ xs, R a b → R b a → a = b)
    (h : xs.Pairwise R) :
    xs.eraseReps.Pairwise fun a b => R a b ∧ a ≠ b := by
  induction xs with
  | nil => exact List.Pairwise.nil
  | cons a rest ih =>
    obtain ⟨ha, hrest⟩ := List.pairwise_cons.1 h
    have htail := ih (fun x hx y hy => hR x (List.mem_cons_of_mem _ hx) y
      (List.mem_cons_of_mem _ hy)) hrest
    cases rest with
    | nil => exact List.pairwise_singleton _ _
    | cons b rest =>
      rw [eraseReps_cons_cons]
      split
      · exact htail
      · next hne =>
        refine List.pairwise_cons.2 ⟨fun c hc => ?_, htail⟩
        rw [mem_eraseReps] at hc
        refine ⟨ha c hc, ?_⟩
        rintro rfl
        -- what comes back after `b` is at or before `b`, so it is `b`
        have hab := ha b List.mem_cons_self
        rcases List.mem_cons.1 hc with rfl | hc
        · exact hne (by simp)
        · have hba := (List.pairwise_cons.1 hrest).1 a hc
          have heq := hR a List.mem_cons_self b
            (List.mem_cons_of_mem _ List.mem_cons_self) hab hba
          exact hne (by simp [heq])

end Repetitions

-- ============================================================== cutting

/-- If a test holds before wherever it holds, the elements that satisfy it
come first. -/
theorem filter_eq_take {p : α → Bool} {xs : List α}
    (h : xs.Pairwise fun a b => p b = true → p a = true) :
    xs.filter p = xs.take (xs.countP p)
      ∧ xs.filter (fun a => !p a) = xs.drop (xs.countP p) := by
  induction xs with
  | nil => exact ⟨rfl, rfl⟩
  | cons a rest ih =>
    obtain ⟨ha, hrest⟩ := List.pairwise_cons.1 h
    obtain ⟨htake, hdrop⟩ := ih hrest
    by_cases hp : p a = true
    · simp [hp, htake, hdrop]
    · have hnone : ∀ b ∈ rest, p b = false := fun b hb =>
        Bool.eq_false_iff.2 fun hpb => hp (ha b hb hpb)
      have hcount : rest.countP p = 0 :=
        List.countP_eq_zero.2 fun b hb => by simp [hnone b hb]
      have hself : rest.filter (fun b => !p b) = rest :=
        List.filter_eq_self.2 fun b hb => by simp [hnone b hb]
      simpa [hp, hcount, hself] using hnone

/-- Of the elements in order, as many as satisfy the test stand at the
places where it holds. -/
theorem lt_countP_iff {p : α → Bool} {xs : List α}
    (h : xs.Pairwise fun a b => p b = true → p a = true) {i : Nat} {x : α}
    (hx : xs[i]? = some x) : i < xs.countP p ↔ p x = true := by
  obtain ⟨htake, hdrop⟩ := filter_eq_take h
  constructor
  · intro hi
    have hmem : x ∈ xs.take (xs.countP p) :=
      List.mem_of_getElem? ((List.getElem?_take_of_lt hi).trans hx)
    rw [← htake] at hmem
    exact (List.mem_filter.1 hmem).2
  · intro hp
    refine Nat.lt_of_not_le fun hi => ?_
    have hmem : x ∈ xs.drop (xs.countP p) := by
      refine List.mem_of_getElem? (i := i - xs.countP p) ?_
      rw [List.getElem?_drop, Nat.add_sub_cancel' hi, hx]
    rw [← hdrop] at hmem
    have hfails := (List.mem_filter.1 hmem).2
    rw [hp] at hfails
    cases hfails

/-- The elements from where one test fails to where a weaker one does. -/
theorem filter_eq_between {p q : α → Bool} {xs : List α}
    (hp : xs.Pairwise fun a b => p b = true → p a = true)
    (hq : xs.Pairwise fun a b => q b = true → q a = true)
    (hpq : ∀ a, p a = true → q a = true) :
    (xs.drop (xs.countP p)).take (xs.countP q - xs.countP p)
      = xs.filter fun a => !p a && q a := by
  have hdrop := (filter_eq_take hp).2
  have hcount : (xs.filter fun a => !p a).countP q
      = xs.countP q - xs.countP p := by
    have hsplit := List.countP_eq_countP_filter_add xs q p
    have hall : (xs.filter p).countP q = xs.countP p := by
      rw [List.countP_filter, List.countP_congr]
      intro a _
      simpa using hpq a
    omega
  rw [← hdrop, ← hcount,
    ← (filter_eq_take (hq.sublist List.filter_sublist)).1,
    List.filter_filter]
  exact List.filter_congr fun a _ => Bool.and_comm _ _

end DiskAtlas.Sorting
