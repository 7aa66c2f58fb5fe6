/-
How far names tell special owners apart. A name of an owner's own ends with
a letter, and any other name with a digit; of a name that was made up, the
code stands behind the last colon and the tag before it. So names are
different for different owners, with one exception (`name_eq_iff`): a tag
from 0 to 9 is written as the digit that the tag of this character is
written as, and with the same code both have the same name (`Twins`).

The argument is about letters. A name that was made up is split at its last
colon, which no digit is, and both halves are read back; a name from the table
is told from those by its last letter.
-/
import Mathlib.Data.List.Nodup
import DiskAtlas.Scan.HiddenOwner

namespace DiskAtlas

namespace Mapping

-- =============================================================== digits

/-- A numeral is read back, so numbers with the same digits are the same. -/
theorem toDigits_injective {m n : Nat}
    (h : Nat.toDigits 10 m = Nat.toDigits 10 n) : m = n := by
  have hvalue := congrArg (fun cs => Nat.ofDigitChars 10 cs 0) h
  simpa only [Nat.ofDigitChars_ten_toDigits] using hvalue

/-- No digit is a colon, so the colon of a name stands where the tag ends. -/
theorem colon_not_mem_toDigits (n : Nat) : ':' ∉ Nat.toDigits 10 n := by
  intro h
  have hdigit := Nat.isDigit_of_mem_toDigits (by decide) (by decide) h
  exact absurd hdigit (by decide)

/-- A number with one digit. -/
theorem toDigits_eq_singleton {n : Nat} {c : Char}
    (h : Nat.toDigits 10 n = [c]) : n < 10 ∧ c.toNat = 48 + n := by
  have hlt : n < 10 := by
    have hlength := congrArg List.length h
    exact (Nat.length_toDigits_le_iff (by decide) Nat.one_pos).1
      (Nat.le_of_eq hlength)
  rw [Nat.toDigits_of_lt_base hlt, List.singleton_inj] at h
  exact ⟨hlt, h ▸ Nat.toNat_digitChar_of_lt_ten hlt⟩

/-- Two texts are cut in the same way at their last colons. -/
theorem eq_of_last_colon {xs ys cs ds : List Char} (hcs : ':' ∉ cs)
    (hds : ':' ∉ ds) (h : xs ++ ':' :: cs = ys ++ ':' :: ds) :
    xs = ys ∧ cs = ds := by
  rcases List.append_eq_append_iff.1 h with
    ⟨between, hys, hcut⟩ | ⟨between, hxs, hcut⟩
  · cases between with
    | nil => exact ⟨by rw [hys, List.append_nil], (List.cons.inj hcut).2⟩
    | cons c between =>
      refine absurd ?_ hcs
      rw [(List.cons.inj hcut).2]
      exact List.mem_append_right _ List.mem_cons_self
  · cases between with
    | nil => exact ⟨by rw [hxs, List.append_nil], (List.cons.inj hcut).2.symm⟩
    | cons c between =>
      refine absurd ?_ hds
      rw [(List.cons.inj hcut).2]
      exact List.mem_append_right _ List.mem_cons_self

namespace SpecialOwner

-- ================================================================= tags

/-- Is a tag written as its character? -/
def IsVisible (tag : UInt32) : Prop := 0x21 ≤ tag.toNat ∧ tag.toNat ≤ 0x7e

theorem toList_tagText_of_visible {tag : UInt32} (h : IsVisible tag) :
    (tagText tag).toList = [Char.ofNat tag.toNat] ∧
      (Char.ofNat tag.toNat).toNat = tag.toNat := by
  have hrange : 0x21 ≤ tag.toNat ∧ tag.toNat ≤ 0x7e := h
  rw [tagText, if_pos hrange]
  have hvalid : tag.toNat.isValidChar :=
    .inl (Nat.lt_of_le_of_lt h.2 (by decide))
  refine ⟨String.toList_singleton _, ?_⟩
  rw [Char.ofNat, dif_pos hvalid]
  rfl

/-- Any other tag is written in digits. A tag that is a digit and one that is a
number below ten are written alike, and this is where names are lost. -/
theorem toList_tagText_of_not_visible {tag : UInt32} (h : ¬ IsVisible tag) :
    (tagText tag).toList = Nat.toDigits 10 tag.toNat := by
  have hrange : ¬ (0x21 ≤ tag.toNat ∧ tag.toNat ≤ 0x7e) := h
  rw [tagText, if_neg hrange, Nat.toString_eq_repr, Nat.toList_repr]

/-- A tag that is written as a number looks like one that is written as its
character only if it is a digit, and the other the tag of the digit. -/
theorem tag_of_visible {a b : UInt32} (ha : ¬ IsVisible a)
    (hb : IsVisible b) (h : tagText a = tagText b) :
    a.toNat ≤ 9 ∧ b.toNat = a.toNat + 48 := by
  have hlist := congrArg String.toList h
  obtain ⟨htext, hchar⟩ := toList_tagText_of_visible hb
  rw [toList_tagText_of_not_visible ha, htext] at hlist
  obtain ⟨hlt, hvalue⟩ := toDigits_eq_singleton hlist
  omega

/-- Tags of the same text. -/
theorem tag_cases {a b : UInt32} (h : tagText a = tagText b) :
    a = b ∨ (a.toNat ≤ 9 ∧ b.toNat = a.toNat + 48) ∨
      (b.toNat ≤ 9 ∧ a.toNat = b.toNat + 48) := by
  by_cases ha : IsVisible a <;> by_cases hb : IsVisible b
  · have hlist := congrArg String.toList h
    obtain ⟨htext, hchar⟩ := toList_tagText_of_visible ha
    obtain ⟨htext', hchar'⟩ := toList_tagText_of_visible hb
    rw [htext, htext', List.singleton_inj] at hlist
    exact .inl (UInt32.toNat_inj.1 (hchar ▸ hchar' ▸ congrArg _ hlist))
  · exact .inr (.inr (tag_of_visible hb ha h.symm))
  · exact .inr (.inl (tag_of_visible ha hb h))
  · have hlist := congrArg String.toList h
    rw [toList_tagText_of_not_visible ha,
      toList_tagText_of_not_visible hb] at hlist
    exact .inl (UInt32.toNat_inj.1 (toDigits_injective hlist))

-- ================================================================ names

/-- Has an owner a name of its own? -/
def IsNamed (o : SpecialOwner) : Prop :=
  (names.lookup (o.tag.toNat, o.code.toNat)).isSome

theorem toList_name_of_not_named {o : SpecialOwner} (h : ¬ o.IsNamed) :
    o.name.toList =
      (tagText o.tag).toList ++ ':' :: Nat.toDigits 10 o.code.toNat := by
  have hnone : names.lookup (o.tag.toNat, o.code.toNat) = none :=
    Option.not_isSome_iff_eq_none.1 h
  rw [name, hnone]
  simp [Nat.toString_eq_repr, Nat.toList_repr]

theorem mem_names {o : SpecialOwner} (h : o.IsNamed) :
    ((o.tag.toNat, o.code.toNat), o.name) ∈ names := by
  obtain ⟨own, hown⟩ := Option.isSome_iff_exists.1 h
  obtain ⟨before, after, hnames, -⟩ := List.lookup_eq_some_iff.1 hown
  rw [name, hown, hnames]
  exact List.mem_append_right _ List.mem_cons_self

/-- Is the last character of a text a digit? -/
def endsWithDigit (text : String) : Bool :=
  text.toList.getLast?.any Char.isDigit

/-- A name that is made up ends with a digit. -/
theorem endsWithDigit_of_not_named {o : SpecialOwner} (h : ¬ o.IsNamed) :
    endsWithDigit o.name = true := by
  obtain ⟨c, hc⟩ : ∃ c, (Nat.toDigits 10 o.code.toNat).getLast? = some c :=
    ⟨_, List.getLast?_eq_some_getLast Nat.toDigits_ne_nil⟩
  rw [endsWithDigit, toList_name_of_not_named h, List.getLast?_append,
    List.getLast?_cons, hc]
  exact Nat.isDigit_of_mem_toDigits (by decide) (by decide)
    (List.mem_of_getLast? hc)

/-- A name that does not end with a digit is an owner's own. -/
theorem mem_names_of_letter {o : SpecialOwner} {text : String}
    (hletter : endsWithDigit text = false) (h : o.name = text) :
    ((o.tag.toNat, o.code.toNat), text) ∈ names := by
  by_cases hnamed : o.IsNamed
  · exact h ▸ mem_names hnamed
  · have hdigit := endsWithDigit_of_not_named hnamed
    rw [h, hletter] at hdigit
    cases hdigit

/-- A name of an owner's own is no name that is made up. -/
theorem name_ne_of_named {a b : SpecialOwner} (ha : a.IsNamed)
    (hb : ¬ b.IsNamed) : a.name ≠ b.name := by
  intro h
  have hletter : ∀ entry ∈ names, endsWithDigit entry.2 = false := by decide
  have hdigit := endsWithDigit_of_not_named hb
  rw [← h, hletter _ (mem_names ha)] at hdigit
  cases hdigit

/-- Owners of the same code whose tags are a number of one digit and the
character for it. -/
structure Twins (a b : SpecialOwner) : Prop where
  digit : a.tag.toNat ≤ 9
  character : b.tag.toNat = a.tag.toNat + 48
  code_eq : a.code = b.code
  unnamed : ¬ a.IsNamed

/-- The tag of a digit has no names of its own. -/
theorem Twins.not_named {a b : SpecialOwner} (h : Twins a b) :
    ¬ b.IsNamed := by
  intro hnamed
  have htags : ∀ entry ∈ names, entry.1.1 < 48 ∨ 57 < entry.1.1 := by decide
  have hdigit := h.digit
  have htag : b.tag.toNat < 48 ∨ 57 < b.tag.toNat :=
    htags _ (mem_names hnamed)
  have hcharacter := h.character
  omega

/-- Twins have one name: one has a digit for its tag and the other the number
of that digit. -/
theorem Twins.name_eq {a b : SpecialOwner} (h : Twins a b) :
    a.name = b.name := by
  have hdigit := h.digit
  have hcharacter := h.character
  have hnumber : ¬ IsVisible a.tag := fun hvisible => by
    have := hvisible.1
    omega
  have hvisible : IsVisible b.tag := ⟨by omega, by omega⟩
  have htag : (tagText a.tag).toList = (tagText b.tag).toList := by
    obtain ⟨htext, hchar⟩ := toList_tagText_of_visible hvisible
    rw [toList_tagText_of_not_visible hnumber, htext,
      Nat.toDigits_of_lt_base (by omega), List.singleton_inj,
      ← Char.toNat_inj, hchar, Nat.toNat_digitChar_of_lt_ten (by omega)]
    omega
  refine String.toList_inj.1 ?_
  rw [toList_name_of_not_named h.unnamed,
    toList_name_of_not_named h.not_named, htag, h.code_eq]

/-- An owner is known by the numbers of its tag and its code. -/
theorem eq_of_key {o o' : SpecialOwner}
    (h : (o.tag.toNat, o.code.toNat) = (o'.tag.toNat, o'.code.toNat)) :
    o = o' := by
  obtain ⟨htag, hcode⟩ := Prod.mk.inj h
  cases o
  cases o'
  simp_all [UInt32.toNat_inj]

/-- Owners have the same name exactly if they are the same owner or
twins. -/
theorem name_eq_iff {a b : SpecialOwner} :
    a.name = b.name ↔ a = b ∨ Twins a b ∨ Twins b a := by
  constructor
  · intro h
    -- no name in the table ends in a digit, and all others do
    by_cases ha : a.IsNamed <;> by_cases hb : b.IsNamed
    · left
      have hnodup : (names.map (·.2)).Nodup := by decide
      have hentry := List.inj_on_of_nodup_map hnodup (mem_names ha)
        (mem_names hb) h
      exact eq_of_key (Prod.mk.inj hentry).1
    · exact absurd h (name_ne_of_named ha hb)
    · exact absurd h.symm (name_ne_of_named hb ha)
    · have hlist := congrArg String.toList h
      rw [toList_name_of_not_named ha, toList_name_of_not_named hb] at hlist
      obtain ⟨htag, hcode⟩ := eq_of_last_colon (colon_not_mem_toDigits _)
        (colon_not_mem_toDigits _) hlist
      have hcode := UInt32.toNat_inj.1 (toDigits_injective hcode)
      rcases tag_cases (String.toList_inj.1 htag) with
        htag | ⟨hdigit, hchar⟩ | ⟨hdigit, hchar⟩
      · left
        cases a
        cases b
        simp_all
      · exact .inr (.inl ⟨hdigit, hchar, hcode, ha⟩)
      · exact .inr (.inr ⟨hdigit, hchar, hcode.symm, hb⟩)
  · rintro (rfl | h | h)
    · rfl
    · exact h.name_eq
    · exact h.name_eq.symm

/-- No special owner has a name that begins like that of the directory for
files without a name. -/
theorem not_unlinked_prefix (o : SpecialOwner) :
    ¬ "unlinked".toList <+: o.name.toList := by
  rintro ⟨rest, hrest⟩
  by_cases ho : o.IsNamed
  · have hnone : ∀ entry ∈ names,
        ¬ "unlinked".toList <+: entry.2.toList := by decide
    exact hnone _ (mem_names ho) ⟨rest, hrest⟩
  · rw [toList_name_of_not_named ho] at hrest
    by_cases htag : IsVisible o.tag
    · rw [(toList_tagText_of_visible htag).1] at hrest
      exact absurd (List.cons.inj (List.cons.inj hrest).2).1 (by decide)
    · rw [toList_tagText_of_not_visible htag] at hrest
      obtain ⟨c, cs, hcs⟩ :=
        List.exists_cons_of_ne_nil (Nat.toDigits_ne_nil (n := o.tag.toNat)
          (b := 10))
      have hdigit := Nat.isDigit_of_mem_toDigits (by decide) (by decide)
        (hcs ▸ List.mem_cons_self : c ∈ Nat.toDigits 10 o.tag.toNat)
      rw [hcs] at hrest
      rw [← (List.cons.inj hrest).1] at hdigit
      exact absurd hdigit (by decide)

end SpecialOwner

end Mapping

namespace Scan

open Mapping

-- ================================================================ paths

theorem toList_rootedPath (separator : Char) (names : List String) :
    (rootedPath separator names).toList
      = names.flatMap fun name => separator :: name.toList := by
  induction names with
  | nil => rfl
  | cons name rest ih =>
    rw [List.flatMap_cons, ← ih]
    simp [rootedPath]

namespace HiddenOwner

/-- Owners as device records name them: free blocks and metadata have
numbers of their own. -/
def IsProper : HiddenOwner → Prop
  | special o => o ≠ .free ∧ o ≠ .metadata
  | _ => True

theorem isProper_ofSpecial (o : SpecialOwner) : (ofSpecial o).IsProper := by
  unfold ofSpecial
  split
  · exact trivial
  · split
    · exact trivial
    · next hfree hmetadata => exact ⟨hfree, hmetadata⟩

/-- Owners that are no special ones keep their names to themselves. -/
theorem name_special_ne {o : SpecialOwner} (ho : (special o).IsProper) :
    ∀ owner : HiddenOwner, (∀ o', owner ≠ special o') →
      o.name ≠ owner.name := by
  -- whose name ends with a letter is known by it
  have hkey : ∀ (text : String) (o' : SpecialOwner),
      SpecialOwner.endsWithDigit text = false →
      (∀ entry ∈ SpecialOwner.names, entry.2 = text →
        entry.1 = (o'.tag.toNat, o'.code.toNat)) →
      o.name = text → o = o' := by
    intro text o' hletter hown h
    have hname := SpecialOwner.mem_names_of_letter hletter h
    exact SpecialOwner.eq_of_key (hown _ hname rfl)
  intro owner hother h
  cases owner with
  | root =>
    have hnone : ∀ entry ∈ SpecialOwner.names, entry.2 ≠ root.name := by
      decide
    exact hnone _ (SpecialOwner.mem_names_of_letter (by decide) h) rfl
  | metadata => exact ho.2 (hkey _ .metadata (by decide) (by decide) h)
  | freeSpace => exact ho.1 (hkey _ .free (by decide) (by decide) h)
  | unlinked => exact o.not_unlinked_prefix (h ▸ List.prefix_rfl)
  | special o' => exact hother o' rfl

/-- Owners of the same name. -/
theorem eq_or_twins_of_name {a b : HiddenOwner} (ha : a.IsProper)
    (hb : b.IsProper) (h : a.name = b.name) :
    a = b ∨ ∃ o o', a = special o ∧ b = special o' ∧
      (SpecialOwner.Twins o o' ∨ SpecialOwner.Twins o' o) := by
  by_cases hspecial : ∃ o, a = special o
  · obtain ⟨o, rfl⟩ := hspecial
    by_cases hspecial' : ∃ o', b = special o'
    · obtain ⟨o', rfl⟩ := hspecial'
      rcases SpecialOwner.name_eq_iff.1 h with rfl | htwins
      · exact .inl rfl
      · exact .inr ⟨o, o', rfl, rfl, htwins⟩
    · exact absurd h (name_special_ne ha b (not_exists.1 hspecial'))
  · by_cases hspecial' : ∃ o', b = special o'
    · obtain ⟨o', rfl⟩ := hspecial'
      exact absurd h.symm (name_special_ne hb a (not_exists.1 hspecial))
    · left
      cases a <;> cases b <;>
        first
        | rfl
        | exact absurd h (by decide)
        | exact absurd ⟨_, rfl⟩ hspecial
        | exact absurd ⟨_, rfl⟩ hspecial'

end HiddenOwner

end Scan

end DiskAtlas
