/-
Flag masks in text. A mask is written in base sixteen or as names joined by
plus, and a flag word is compared with it bit by bit (`FlagMode.Holds`).
Names give the union of their flags. Of a mask in base sixteen only the
named bits are kept, although flag words keep all of theirs, so such a term
means its mask only if every bit of it has a name (`mask_asked`).

The reader is followed from the text to the word once for each way of writing,
and from there on only the word matters.
-/
import DiskAtlas.Proofs.Filter.Terms

namespace DiskAtlas

open Text FilterValue FilterTerm

-- ============================================================ bit by bit

namespace Flags

/-- Is a bit set? -/
def Has (f : Flags) (i : Nat) : Prop := f.bits.toBitVec.getLsbD i = true

variable {f g : Flags} {i : Nat}

/-- Words of flags that have the same bits are equal; the two statements about
masks below argue bit by bit and end here. -/
theorem ext_has (h : ∀ i, f.Has i ↔ g.Has i) : f = g := by
  obtain ⟨⟨x⟩⟩ := f
  obtain ⟨⟨y⟩⟩ := g
  have hbits : x = y :=
    BitVec.eq_of_getLsbD_eq fun i _ => Bool.eq_iff_iff.2 (h i)
  rw [hbits]

theorem has_and {x y : UInt32} :
    (⟨x &&& y⟩ : Flags).Has i ↔ Flags.Has ⟨x⟩ i ∧ Flags.Has ⟨y⟩ i := by
  simp [Has]

theorem not_has_empty : ¬ empty.Has i := by
  simp [Has, empty]

/-- The test of a `Flags.any` mask, bit by bit: some bit is set on both sides.
-/
theorem intersects_iff : f.intersects g = true ↔ ∃ i, g.Has i ∧ f.Has i := by
  have hempty : f.bits &&& g.bits = 0 ↔ ∀ i, ¬ (f.Has i ∧ g.Has i) := by
    constructor
    · intro hzero i
      rw [← has_and, hzero]
      exact not_has_empty
    · intro hnone
      have hsame : (⟨f.bits &&& g.bits⟩ : Flags) = empty :=
        ext_has fun i =>
          iff_of_false (fun h => hnone i (has_and.1 h)) not_has_empty
      exact congrArg bits hsame
  rw [intersects, bne_iff_ne, ne_eq, hempty, Classical.not_forall]
  simp only [Classical.not_not, and_comm]

/-- The test of a `Flags.all` mask, bit by bit: every bit of the mask is set in
the word. -/
theorem containsAll_iff :
    f.containsAll g = true ↔ ∀ i, g.Has i → f.Has i := by
  rw [containsAll, beq_iff_eq]
  constructor
  · intro hsame i hi
    have hboth : (⟨f.bits &&& g.bits⟩ : Flags).Has i := by rwa [hsame]
    exact (has_and.1 hboth).1
  · intro h
    have hsame : (⟨f.bits &&& g.bits⟩ : Flags) = g :=
      ext_has fun i =>
        has_and.trans ⟨And.right, fun hi => ⟨h i hi, hi⟩⟩
    exact congrArg bits hsame

end Flags

namespace FlagMode

/-- Does a flag word compare with a mask as the mode says? -/
def Holds (mode : FlagMode) (mask f : Flags) : Prop :=
  match mode with
  | .exact => f = mask
  | .any => ∃ i, mask.Has i ∧ f.Has i
  | .all => ∀ i, mask.Has i → f.Has i

/-- The key that asks for the mode. -/
def key : FlagMode → String
  | .exact => "flags"
  | .any => "anyflags"
  | .all => "allflags"

variable {mode : FlagMode} {mask mask' : Flags}

/-- The comparison the filter runs decides the meaning of its mode. -/
theorem accepts_iff {f : Flags} :
    FlagMatch.accepts ⟨mode, mask⟩ f = true ↔ mode.Holds mask f := by
  cases mode with
  | exact => exact beq_iff_eq
  | any => exact Flags.intersects_iff
  | all => exact Flags.containsAll_iff

/-- Masks that compare alike with every word are the same. -/
theorem eq_of_holds_iff (h : ∀ f, mode.Holds mask f ↔ mode.Holds mask' f) :
    mask = mask' := by
  cases mode with
  | exact => exact (h mask).1 rfl
  | any =>
    -- a word of a single bit tells whether the mask has it
    have hbit : ∀ (m : Flags) (i : Nat), FlagMode.any.Holds m
        ⟨⟨BitVec.twoPow 32 i⟩⟩ ↔ m.Has i := by
      intro m i
      simp only [Holds, Flags.Has, BitVec.getLsbD_twoPow]
      constructor
      · rintro ⟨j, hj, htwo⟩
        obtain rfl := (by simpa using htwo : _ ∧ i = j).2
        exact hj
      · intro hi
        exact ⟨i, hi, by simpa using BitVec.lt_of_getLsbD hi⟩
    exact Flags.ext_has fun i => by rw [← hbit, ← hbit, h]
  | all =>
    refine Flags.ext_has fun i => ⟨?_, ?_⟩
    · exact fun hi => (h mask').2 (fun _ => id) i hi
    · exact fun hi => (h mask).1 (fun _ => id) i hi

end FlagMode

-- ================================================================= names

/-- A character of a name, in capitals and with `_` for `-`. -/
def nameChar (c : Char) : Char :=
  if c.toUpper = '-' then '_' else c.toUpper

/-- Does a text spell the name of a flag, in any case and with `-` or `_`? -/
def SpellsFlag (name : List Char) (flag : Flags) : Prop :=
  ∃ entry ∈ Flags.named, entry.2 = flag ∧
    name.map nameChar = entry.1.toList

/-- Capital letters stay, and small ones are few. -/
theorem toUpper_cases (c : Char) :
    c.toUpper = c ∨ ∃ i : Fin 26, c = Char.ofNat (97 + i) := by
  unfold Char.toUpper
  split
  · next h =>
    have hfirst : 97 ≤ c.toNat := h.1
    have hlast : c.toNat ≤ 122 := h.2
    refine .inr ⟨⟨c.toNat - 97, by omega⟩, ?_⟩
    dsimp only
    rw [Nat.add_sub_cancel' hfirst, Char.ofNat_toNat]
  · exact .inl rfl

/-- Names are of letters and dashes. -/
theorem nameChar_plain {c : Char}
    (h : (nameChar c).isUpper = true ∨ nameChar c = '_') :
    IsPlain c ∧ c ≠ '+' ∧ c ≠ ',' ∧ c ≠ '|' ∧ c ≠ '0' := by
  rcases toUpper_cases c with hsame | ⟨i, rfl⟩
  · unfold nameChar at h
    rw [hsame] at h
    split at h
    · next hdash =>
      subst hdash
      exact ⟨.inr (by decide), by decide⟩
    · rcases h with hupper | rfl
      · refine ⟨.inl ?_, ?_⟩
        · exact isAlphanum_iff.2 (.inl hupper)
        · refine ⟨?_, ?_, ?_, ?_⟩ <;>
          · rintro rfl
            exact absurd hupper (by decide)
      · exact ⟨.inr (by decide), by decide⟩
  · refine ⟨.inl ?_, ?_⟩
    · decide +revert
    · decide +revert

namespace SpellsFlag

variable {name : List Char} {flag : Flags}

theorem ne_nil (h : SpellsFlag name flag) : name ≠ [] := by
  rintro rfl
  obtain ⟨entry, hentry, -, hname⟩ := h
  revert entry
  decide

/-- The letters of a flag's name are none of the marks that end a name, an item
or a term, and none begins with the `0` of a hexadecimal mask. -/
theorem plain (h : SpellsFlag name flag) : ∀ c ∈ name,
    IsPlain c ∧ c ≠ '+' ∧ c ≠ ',' ∧ c ≠ '|' ∧ c ≠ '0' := by
  intro c hc
  obtain ⟨entry, hentry, -, hname⟩ := h
  have hletters : ∀ entry ∈ Flags.named,
      entry.1.toList.all (fun c => c.isUpper || c == '_') = true := by
    decide
  have hmem : nameChar c ∈ entry.1.toList :=
    hname ▸ List.mem_map_of_mem hc
  have hcase := List.all_eq_true.1 (hletters entry hentry) _ hmem
  rw [Bool.or_eq_true, beq_iff_eq] at hcase
  exact nameChar_plain hcase

theorem trim_eq (h : SpellsFlag name flag) : trim name = name :=
  trim_of_plain fun c hc => (h.plain c hc).1

/-- The flag is found by the name. -/
theorem lookup_eq (h : SpellsFlag name flag) :
    Flags.lookup (String.ofList name) = some flag := by
  obtain ⟨entry, hentry, rfl, hname⟩ := id h
  have hfound : ∀ entry ∈ Flags.named,
      Flags.named.find? (fun other => other.1 == entry.1) = some entry := by
    decide
  have hwanted : (asciiUpper (trimString (String.ofList name))).map
      (fun c => if c = '-' then '_' else c) = entry.1 := by
    rw [trimString, String.toList_ofList, h.trim_eq, asciiUpper,
      ← String.toList_inj, String.toList_map, String.toList_map,
      String.toList_ofList, List.map_map, ← hname]
    rfl
  rw [Flags.lookup, hwanted, hfound entry hentry]
  rfl

end SpellsFlag

-- ================================================================= masks

namespace FilterValue

/-- In base sixteen the named bits are read. -/
theorem readMask_hex {m : UInt32} {x : Char} {digits : List Char}
    (hx : x ∈ ['x', 'X']) (h : IsNumeral 16 m.toNat digits) :
    readMask ('0' :: x :: digits) = .ok (.ofBitsNamed m) := by
  have hdigits : hexDigits ('0' :: x :: digits) = some digits := by
    rcases List.mem_cons.1 hx with rfl | hx
    · rfl
    · rw [List.mem_singleton.1 hx]
      rfl
  have hread : readHex32 digits = some m := by
    rw [h.readHex32_eq, if_pos m.toNat_lt, UInt32.ofNat_toNat]
  simp only [readMask, hdigits, hread]

/-- A hexadecimal mask is a single item of a list: it has no comma and nothing
the term reader undoes. It may hold no `+` either, but that is not needed,
since `hexDigits` is tried first. -/
theorem hex_plain {n : Nat} {x : Char} {digits : List Char}
    (hx : x ∈ ['x', 'X']) (h : IsNumeral 16 n digits) :
    ∀ c ∈ '0' :: x :: digits, IsPlain c ∧ c ≠ ',' := by
  have hxs : ['x', 'X'].all Char.isAlphanum = true := by decide
  have hletters : ∀ c ∈ '0' :: x :: digits, c.isAlphanum = true := by
    rw [List.forall_mem_cons, List.forall_mem_cons]
    exact ⟨by decide, List.all_eq_true.1 hxs x hx,
      h.isAlphanum (by decide) (by decide)⟩
  intro c hc
  refine ⟨.inl (hletters c hc), ?_⟩
  rintro rfl
  exact absurd (hletters _ hc) (by decide)

theorem hexDigits_of_ne {c : Char} (h : c ≠ '0') (cs : List Char) :
    hexDigits (c :: cs) = none := by
  unfold hexDigits
  split
  · next heq => exact absurd (List.cons.inj heq).1 h
  · next heq => exact absurd (List.cons.inj heq).1 h
  · rfl

/-- The flags of all names. -/
def unionOf (names : List (List Char × Flags)) : Flags :=
  names.foldl (fun mask name => mask.union name.2) .empty

variable {names : List (List Char × Flags)}

/-- Joined names begin with a letter. -/
theorem joined_begins (hne : names ≠ [])
    (h : ∀ name ∈ names, SpellsFlag name.1 name.2) :
    ∃ c cs, ['+'].intercalate (names.map (·.1)) = c :: cs ∧ c ≠ '0' := by
  obtain ⟨name, rest, rfl⟩ := List.exists_cons_of_ne_nil hne
  have hname := h name List.mem_cons_self
  obtain ⟨c, cs, hcs⟩ := List.exists_cons_of_ne_nil hname.ne_nil
  obtain ⟨-, -, -, -, hzero⟩ := hname.plain c (hcs ▸ List.mem_cons_self)
  cases rest with
  | nil =>
    rw [List.map_singleton, List.intercalate_singleton, hcs]
    exact ⟨c, cs, rfl, hzero⟩
  | cons next rest =>
    rw [List.map_cons, List.map_cons, List.intercalate_cons_cons, hcs]
    exact ⟨c, _, rfl, hzero⟩

/-- Names joined by `+` are a single item of a list. -/
theorem joined_plain (h : ∀ name ∈ names, SpellsFlag name.1 name.2) :
    ∀ c ∈ ['+'].intercalate (names.map (·.1)), IsPlain c ∧ c ≠ ',' := by
  intro c hc
  rcases mem_of_mem_intercalate hc with rfl | ⟨part, hpart, hc⟩
  · exact ⟨.inr (by decide), by decide⟩
  · obtain ⟨name, hname, rfl⟩ := List.mem_map.1 hpart
    obtain ⟨hplain, -, hcomma, -⟩ := (h name hname).plain c hc
    exact ⟨hplain, hcomma⟩

/-- Names are read as the union of their flags. -/
theorem readMask_names (hne : names ≠ [])
    (h : ∀ name ∈ names, SpellsFlag name.1 name.2) :
    readMask (['+'].intercalate (names.map (·.1))) = .ok (unionOf names) := by
  have hhex : hexDigits (['+'].intercalate (names.map (·.1))) = none := by
    obtain ⟨c, cs, hbegins, hzero⟩ := joined_begins hne h
    rw [hbegins, hexDigits_of_ne hzero]
  have hpieces : pieces (fun c => c == '+' || c == '|')
      (['+'].intercalate (names.map (·.1))) = names.map (·.1) := by
    refine pieces_plain rfl fun part hpart => ?_
    obtain ⟨name, hname, rfl⟩ := List.mem_map.1 hpart
    refine ⟨(h name hname).ne_nil, fun c hc => ?_⟩
    obtain ⟨hplain, hplus, -, hbar, -⟩ := (h name hname).plain c hc
    simp [hplain, hplus, hbar]
  have hfold : ∀ mask : Flags, (names.map (·.1)).foldlM addFlag mask
      = .ok (names.foldl (fun mask name => mask.union name.2) mask) := by
    clear hhex hpieces hne
    induction names with
    | nil => exact fun _ => rfl
    | cons name names ih =>
      intro mask
      obtain ⟨hname, hnames⟩ := List.forall_mem_cons.1 h
      rw [List.map_cons, List.foldlM_cons, addFlag, hname.lookup_eq]
      exact ih hnames _
  simp only [readMask, hhex, hpieces, hfold]
  rfl

end FilterValue

-- =============================================================== filters

namespace ExtentFilter

/-- A value that is read as a mask asks for nothing else. -/
theorem read_mask (zone : Calendar.Zone) (units : Summary)
    {mode : FlagMode} {value : List Char}
    {mask : Flags} (hne : value ≠ [])
    (hplain : ∀ c ∈ value, IsPlain c ∧ c ≠ ',')
    (hmask : readMask value = .ok mask) :
    ExtentFilter.read zone units (oneTerm mode.key value)
      = .ok { flags := [⟨mode, mask⟩] } := by
  have hfield : FilterField.ofKey? mode.key = some (.flags mode) := by
    cases mode <;> rfl
  have hletters : ∀ c ∈ value, IsPlain c := fun c hc => (hplain c hc).1
  have hitems : items (String.ofList value) = [value] := by
    have hsingle : ∀ part ∈ [value],
        part ≠ [] ∧ ∀ c ∈ part, IsPlain c ∧ c ≠ ',' := by
      intro part hpart
      rw [List.mem_singleton.1 hpart]
      exact ⟨hne, hplain⟩
    have hjoined := items_joined hsingle
    rwa [List.intercalate_singleton] at hjoined
  rw [ExtentFilter.read_plain zone units hfield rfl hletters,
    InodeFilter.read_plain zone units hfield hne hletters, InodeFilter.addValue,
    hitems, List.mapM_cons, hmask]
  rfl

/-- A filter for one mask compares the flags of an extent with it. -/
theorem accepts_mask_iff {mode : FlagMode} {mask : Flags} {e : Extent} :
    ({ flags := [⟨mode, mask⟩] } : ExtentFilter).accepts e = true
      ↔ mode.Holds mask e.flags := by
  rw [accepts_of_flags, ← FlagMode.accepts_iff]
  simp

/-- A mask in base sixteen is asked for without its bits that have no name,
in every mode, so what is written is asked for only if there are none.
Names ask for the union of their flags. -/
theorem mask_asked (zone : Calendar.Zone) (units : Summary)
    (mode : FlagMode) :
    (∀ (m : UInt32) (x : Char) (digits : List Char), x ∈ ['x', 'X'] →
      IsNumeral 16 m.toNat digits →
      ∃ filter, ExtentFilter.read zone units
          (oneTerm mode.key ('0' :: x :: digits)) = .ok filter ∧
        (∀ e, filter.accepts e = true
          ↔ mode.Holds (.ofBitsNamed m) e.flags) ∧
        ((∀ e, filter.accepts e = true ↔ mode.Holds ⟨m⟩ e.flags)
          ↔ Flags.ofBitsNamed m = ⟨m⟩)) ∧
    ∀ names : List (List Char × Flags), names ≠ [] →
      (∀ name ∈ names, SpellsFlag name.1 name.2) →
      ∃ filter, ExtentFilter.read zone units
          (oneTerm mode.key (['+'].intercalate (names.map (·.1))))
            = .ok filter ∧
        ∀ e, filter.accepts e = true
          ↔ mode.Holds (unionOf names) e.flags := by
  constructor
  · intro m x digits hx hdigits
    refine ⟨_, read_mask zone units (List.cons_ne_nil _ _)
      (hex_plain hx hdigits) (readMask_hex hx hdigits),
      fun e => accepts_mask_iff, ?_⟩
    simp only [accepts_mask_iff]
    constructor
    · -- an extent can have any flag word
      exact fun h => FlagMode.eq_of_holds_iff fun f =>
        h { (default : Extent) with flags := f }
    · intro hnamed e
      rw [hnamed]
  · -- no name begins with a zero, so names are not taken for a number
    intro names hne hspelled
    refine ⟨_, read_mask zone units ?_ ?_ (readMask_names hne hspelled),
      fun e => accepts_mask_iff⟩
    · obtain ⟨c, cs, hbegins, -⟩ := joined_begins hne hspelled
      rw [hbegins]
      exact List.cons_ne_nil c cs
    · exact joined_plain hspelled

/-- Two flags are asked for by their bits and by their names. -/
theorem mask_asked_lastShared :
    (∃ filter, ExtentFilter.read .utc (.blank "/") "allflags:0x2001"
        = .ok filter ∧
      ∀ e, filter.accepts e = true
        ↔ FlagMode.all.Holds ⟨0x2001⟩ e.flags) ∧
    ∃ filter, ExtentFilter.read .utc (.blank "/") "allflags:last+Shared"
        = .ok filter ∧
      ∀ e, filter.accepts e = true
        ↔ FlagMode.all.Holds ⟨0x2001⟩ e.flags := by
  obtain ⟨hhex, hnames⟩ := mask_asked .utc (.blank "/") .all
  have hdigits : IsNumeral 16 (0x2001 : UInt32).toNat "2001".toList :=
    ⟨0, by decide⟩
  have hspelled : ∀ name ∈
      [("last".toList, Flags.last), ("Shared".toList, Flags.shared)],
      SpellsFlag name.1 name.2 := by
    unfold SpellsFlag
    decide
  obtain ⟨filter, hread, -, hasked⟩ :=
    hhex 0x2001 'x' _ (by decide) hdigits
  have htext : oneTerm FlagMode.all.key ('0' :: 'x' :: "2001".toList)
      = "allflags:0x2001" := by
    decide +kernel
  rw [htext] at hread
  obtain ⟨filter', hread', haccepts'⟩ :=
    hnames _ (List.cons_ne_nil _ _) hspelled
  have htext' : oneTerm FlagMode.all.key
      (['+'].intercalate ["last".toList, "Shared".toList])
        = "allflags:last+Shared" := by
    decide +kernel
  exact ⟨⟨filter, hread, hasked.2 (by decide)⟩,
    filter', htext' ▸ hread', haccepts'⟩

/-- A bit without a name is lost when a mask is read, while flag words keep
it: the word that equals the mask is refused, and the empty word found. -/
theorem unnamedBit_lost :
    let found : Extent := ⟨5, 0, some 0, 10, ⟨0x10⟩, .file⟩
    IsNumeral 16 (0x10 : UInt32).toNat ['1', '0'] ∧
      oneTerm FlagMode.exact.key ('0' :: 'x' :: ['1', '0']) = "flags:0x10" ∧
      ∃ filter, ExtentFilter.read .utc (.blank "/") "flags:0x10" = .ok filter ∧
        filter.accepts found = false ∧
        filter.accepts { found with flags := .empty } = true ∧
        ¬ ∀ e, filter.accepts e = true
          ↔ FlagMode.exact.Holds ⟨0x10⟩ e.flags := by
  intro found
  have hdigits : IsNumeral 16 (0x10 : UInt32).toNat ['1', '0'] :=
    ⟨0, by decide⟩
  have htext : oneTerm FlagMode.exact.key ('0' :: 'x' :: ['1', '0'])
      = "flags:0x10" := by
    decide +kernel
  have hx : 'x' ∈ ['x', 'X'] := by decide
  have hread : ExtentFilter.read .utc (.blank "/")
      (oneTerm FlagMode.exact.key ('0' :: 'x' :: ['1', '0'])) = _ :=
    read_mask _ _ (List.cons_ne_nil _ _) (hex_plain hx hdigits)
      (readMask_hex hx hdigits)
  rw [htext] at hread
  refine ⟨hdigits, htext, _, hread, by decide, by decide, ?_⟩
  intro h
  exact absurd ((h found).2 rfl) (by decide)

end ExtentFilter

end DiskAtlas
