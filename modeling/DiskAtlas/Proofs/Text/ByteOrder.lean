/-
Texts by their bytes. A character takes more bytes the greater it is, and
with more bytes its first byte is greater; the bytes of two characters that
take as many are the digits of their numbers. So two characters part at
some byte, where the smaller one has the smaller byte
(`parts_utf8EncodeChar`). Texts are therefore ordered by their bytes as
they are by their characters (`utf8Bytes_lt_iff`), and a text begins with
the bytes of another one only if it begins with its characters
(`utf8Bytes_prefix_iff`).
-/
import DiskAtlas.Text.Utf8

namespace DiskAtlas.Text

-- =============================================================== parting

/-- Bytes that part at some place, the first ones there being smaller. -/
inductive Parts : List UInt8 → List UInt8 → Prop
  | here {a b : UInt8} {as bs : List UInt8} (h : a < b) :
    Parts (a :: as) (b :: bs)
  | later {a : UInt8} {as bs : List UInt8} (h : Parts as bs) :
    Parts (a :: as) (a :: bs)

theorem parts_cons_iff {a b : UInt8} {as bs : List UInt8} :
    Parts (a :: as) (b :: bs) ↔ a < b ∨ a = b ∧ Parts as bs := by
  constructor
  · intro h
    cases h with
    | here h => exact Or.inl h
    | later h => exact Or.inr ⟨rfl, h⟩
  · intro h
    rcases h with h | ⟨rfl, h⟩
    · exact .here h
    · exact .later h

theorem not_parts_nil : ¬ Parts [] [] := nofun

namespace Parts

variable {as bs : List UInt8}

/-- What stands behind the place does not count. -/
theorem append (h : Parts as bs) (xs ys : List UInt8) :
    Parts (as ++ xs) (bs ++ ys) := by
  induction h with
  | here h => exact .here h
  | later _ ih => exact .later ih

theorem lt (h : Parts as bs) : as < bs := by
  induction h with
  | here h => exact List.cons_lt_cons_iff.2 (Or.inl h)
  | later _ ih => exact List.cons_lt_cons_iff.2 (Or.inr ⟨rfl, ih⟩)

/-- Neither of two texts that part begins with the other. -/
theorem apart (h : Parts as bs) : ¬ as <+: bs ∧ ¬ bs <+: as := by
  induction h with
  | here h =>
    simp only [List.cons_prefix_cons]
    constructor
    · rintro ⟨rfl, -⟩
      exact UInt8.lt_irrefl _ h
    · rintro ⟨rfl, -⟩
      exact UInt8.lt_irrefl _ h
  | later _ ih =>
    simp only [List.cons_prefix_cons, true_and]
    exact ih

end Parts

-- ============================================================ characters

/-- What is left of a number without its last digit, to the base 64. -/
private theorem digits (n : Nat) :
    n / 4096 = 64 * (n / 262144) + n / 4096 % 64 ∧
      n / 64 = 64 * (n / 4096) + n / 64 % 64 := by
  omega

/-- The smaller of two characters has the smaller byte where they part. -/
theorem parts_utf8EncodeChar {c d : Char} (h : c < d) :
    Parts (String.utf8EncodeChar c) (String.utf8EncodeChar d) := by
  have hlt : c.val.toNat < d.val.toNat := h
  have hlast : d.val.toNat < 0x110000 := by
    rcases d.valid with hd | ⟨-, hd⟩
    · exact Nat.lt_trans hd (by decide)
    · exact hd
  unfold String.utf8EncodeChar
  generalize c.val.toNat = m at hlt
  generalize d.val.toNat = n at hlt hlast
  have hm := digits m
  have hn := digits n
  dsimp only
  -- a case for each number of bytes of the one and of the other
  repeat' split
  all_goals
    simp (disch := omega) only [parts_cons_iff, not_parts_nil, and_false,
      or_false, UInt8.lt_iff_toNat_lt, ← UInt8.toNat_inj,
      UInt8.toNat_ofNat', Nat.mod_eq_of_lt]
    omega

-- ================================================================= texts

/-- The list of some bytes has just these bytes. -/
theorem toList_eq_data (bytes : ByteArray) :
    bytes.toList = bytes.data.toList := by
  have hloop : ∀ (i : Nat) (seen : List UInt8),
      ByteArray.toList.loop bytes i seen
        = seen.reverse ++ bytes.data.toList.drop i := by
    intro i seen
    fun_induction ByteArray.toList.loop bytes i seen with
    | case1 i seen hlt ih =>
      have hi : i < bytes.data.toList.length := hlt
      rw [ih, List.drop_eq_getElem_cons hi, List.reverse_cons,
        List.append_assoc]
      refine congrArg (seen.reverse ++ · :: _) ?_
      exact getElem!_pos bytes.data i hlt
    | case2 i seen hge =>
      have hdone : bytes.data.toList.length ≤ i := Nat.not_lt.1 hge
      rw [List.drop_eq_nil_of_le hdone, List.append_nil]
  exact hloop 0 []

theorem utf8EncodeChar_ne_nil (c : Char) : String.utf8EncodeChar c ≠ [] := by
  unfold String.utf8EncodeChar
  dsimp only
  repeat' split
  all_goals exact List.cons_ne_nil _ _

/-- A text has the bytes of its characters. -/
theorem utf8Bytes_eq (s : String) :
    utf8Bytes s = s.toList.flatMap String.utf8EncodeChar := by
  rw [utf8Bytes, toList_eq_data]
  show s.toByteArray.data.toList = _
  rw [← String.utf8Encode_toList, List.utf8Encode, List.data_toByteArray]

section Characters

variable {cs ds : List Char}

/-- The bytes of letters are ordered as the letters, since a greater letter has
greater bytes where the two part. -/
theorem flatMap_lt (h : cs < ds) :
    cs.flatMap String.utf8EncodeChar < ds.flatMap String.utf8EncodeChar := by
  induction cs generalizing ds with
  | nil =>
    cases ds with
    | nil => exact absurd h (List.lt_irrefl _)
    | cons d ds =>
      rw [List.flatMap_nil, List.flatMap_cons]
      cases hd : String.utf8EncodeChar d with
      | nil => exact absurd hd (utf8EncodeChar_ne_nil d)
      | cons b bs => exact List.nil_lt_cons _ _
  | cons c cs ih =>
    cases ds with
    | nil => exact absurd h (List.not_lt_nil _)
    | cons d ds =>
      rw [List.flatMap_cons, List.flatMap_cons]
      rcases List.cons_lt_cons_iff.1 h with hlt | ⟨rfl, hlt⟩
      · exact ((parts_utf8EncodeChar hlt).append _ _).lt
      · exact List.append_left_lt (ih hlt)

/-- A text whose bytes are a beginning of another's is itself a beginning: no
letter's bytes begin with those of another letter. -/
theorem prefix_of_flatMap_prefix
    (h : cs.flatMap String.utf8EncodeChar <+:
      ds.flatMap String.utf8EncodeChar) : cs <+: ds := by
  induction cs generalizing ds with
  | nil => exact List.nil_prefix
  | cons c cs ih =>
    cases ds with
    | nil =>
      rw [List.flatMap_cons, List.flatMap_nil, List.prefix_nil,
        List.append_eq_nil_iff] at h
      exact absurd h.1 (utf8EncodeChar_ne_nil c)
    | cons d ds =>
      rw [List.flatMap_cons, List.flatMap_cons] at h
      rcases Std.lt_trichotomy c d with hlt | rfl | hlt
      · exact absurd h ((parts_utf8EncodeChar hlt).append _ _).apart.1
      · rw [List.prefix_append_right_inj] at h
        exact List.cons_prefix_cons.2 ⟨rfl, ih h⟩
      · exact absurd h ((parts_utf8EncodeChar hlt).append _ _).apart.2

end Characters

/-- Texts are ordered by their bytes as by their characters. -/
theorem utf8Bytes_lt_iff {s t : String} :
    utf8Bytes s < utf8Bytes t ↔ s.toList < t.toList := by
  rw [utf8Bytes_eq, utf8Bytes_eq]
  constructor
  · intro h
    rcases Std.lt_trichotomy s.toList t.toList with hlt | heq | hlt
    · exact hlt
    · rw [heq] at h
      exact absurd h (List.lt_irrefl _)
    · exact absurd h (List.lt_asymm (flatMap_lt hlt))
  · exact flatMap_lt

/-- A text begins with the bytes of another exactly if it begins with its
characters. -/
theorem utf8Bytes_prefix_iff {s t : String} :
    utf8Bytes s <+: utf8Bytes t ↔ s.toList <+: t.toList := by
  rw [utf8Bytes_eq, utf8Bytes_eq]
  constructor
  · exact prefix_of_flatMap_prefix
  · rintro ⟨rest, hrest⟩
    rw [← hrest, List.flatMap_append]
    exact List.prefix_append _ _

end DiskAtlas.Text
