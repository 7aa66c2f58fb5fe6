/-
Splitting a text at a character. The parts are those of the list of its
characters (`splitOn_singleton`), so that what a path is made of can be
read off its characters.
-/
import Mathlib.Data.String.Basic

namespace DiskAtlas.Text

open String

/-- What is read of a separator of one character. -/
private theorem singleton_places (c : Char) :
    Pos.Raw.get (singleton c) 0 = c ∧
      Pos.Raw.next (singleton c) 0 = ⟨c.utf8Size⟩ ∧
      Pos.Raw.atEnd (singleton c) ⟨c.utf8Size⟩ = true := by
  have hsingleton : singleton c = ofList [c] := rfl
  have hsize : utf8Len [c] = c.utf8Size := Nat.zero_add _
  rw [hsingleton]
  refine ⟨get_of_valid [] [c], ?_, ?_⟩
  · exact (next_of_valid [] c []).trans (by rw [utf8Len_nil, Nat.zero_add])
  · rw [← hsize]
    exact (atEnd_of_valid [c] []).2 rfl

/-- A text of which `l` is split, `m` is the part that was begun and `r` is
left is split like the list of its characters. -/
private theorem splitOnAux_singleton {s : String} (c : Char) {r : List Char} :
    ∀ {l m : List Char} {start here : Pos.Raw} (parts : List String),
      s = ofList (l ++ m ++ r) → start = ⟨utf8Len l⟩ →
        here = ⟨utf8Len (l ++ m)⟩ →
          splitOnAux s (singleton c) start here 0 parts
            = parts.reverse
              ++ (List.splitOnPPrepend (· == c) r m.reverse).map ofList := by
  induction r with
  | nil =>
    rintro l m start here parts rfl rfl rfl
    have hpart := extract_of_valid l m []
    rw [← utf8Len_append] at hpart
    rw [splitOnAux, if_pos ((atEnd_of_valid (l ++ m) []).2 rfl), hpart]
    simp
  | cons d r ih =>
    rintro l m start here parts rfl rfl rfl
    have hget := get_of_valid (l ++ m) (d :: r)
    have hnext := next_of_valid (l ++ m) d r
    have hpart := extract_of_valid l m (d :: r)
    rw [← utf8Len_append] at hpart
    have hopen : ¬ Pos.Raw.atEnd (ofList (l ++ m ++ d :: r))
        ⟨utf8Len (l ++ m)⟩ := by
      rw [atEnd_of_valid]
      exact List.cons_ne_nil d r
    obtain ⟨hsep, hsepNext, hsepEnd⟩ := singleton_places c
    rw [splitOnAux, if_neg hopen, hget, hsep, List.headD_cons,
      List.splitOnPPrepend_cons_eq_if]
    dsimp only
    split
    · next heq =>
      -- the separator: the part that was begun is whole
      obtain rfl := beq_iff_eq.1 heq
      have hend : Pos.Raw.unoffsetBy ⟨utf8Len (l ++ m) + d.utf8Size⟩
          ⟨d.utf8Size⟩ = ⟨utf8Len (l ++ m)⟩ :=
        congrArg Pos.Raw.mk (Nat.add_sub_cancel ..)
      have hwhere : utf8Len (l ++ m) + d.utf8Size
          = utf8Len (l ++ m ++ [d]) := by simp [Nat.add_assoc]
      rw [hnext, hsepNext, if_pos hsepEnd, hend, hpart, hwhere]
      rw [ih (l := l ++ m ++ [d]) (m := []) (ofList m :: parts) (by simp) rfl
        (by simp)]
      simp
    · next hne =>
      have hstay : Pos.Raw.unoffsetBy ⟨utf8Len (l ++ m)⟩ 0
          = ⟨utf8Len (l ++ m)⟩ := rfl
      have hwhere : utf8Len (l ++ m) + d.utf8Size
          = utf8Len (l ++ (m ++ [d])) := by simp [Nat.add_assoc]
      rw [hstay, hnext, hwhere]
      rw [ih (l := l) (m := m ++ [d]) parts (by simp) rfl rfl]
      simp

/-- The parts of a text are those of its characters. -/
theorem splitOn_singleton (s : String) (c : Char) :
    s.splitOn (singleton c) = (s.toList.splitOn c).map ofList := by
  have hne : ¬ (singleton c == "") = true := by simp
  have haux : splitOnAux s (singleton c) 0 0 0 []
      = (List.splitOnPPrepend (· == c) s.toList []).map ofList :=
    splitOnAux_singleton c (l := []) (m := []) [] ofList_toList.symm rfl rfl
  rw [splitOn, if_neg hne, haux, List.splitOn_eq_splitOnP]
  rfl

/-- A text without the character is its only part. -/
theorem splitOn_eq_self {s : String} {c : Char} (h : c ∉ s.toList) :
    s.splitOn (singleton c) = [s] := by
  rw [splitOn_singleton, List.splitOn_eq_singleton h]
  simp

/-- The parts of two texts are those of the texts with the character between
them. -/
theorem splitOn_between (s t : String) (c : Char) :
    (s ++ singleton c ++ t).splitOn (singleton c)
      = s.splitOn (singleton c) ++ t.splitOn (singleton c) := by
  simp only [splitOn_singleton, toList_append, toList_singleton,
    List.append_assoc, List.singleton_append]
  rw [List.splitOn_append_cons_self, List.map_append]

/-- The parts of a text make it up. -/
theorem intercalate_splitOn (s : String) (c : Char) :
    (singleton c).intercalate (s.splitOn (singleton c)) = s := by
  apply toList_inj.1
  rw [toList_intercalate, splitOn_singleton, toList_singleton]
  simp [Function.comp_def, List.intercalate_splitOn]

end DiskAtlas.Text
