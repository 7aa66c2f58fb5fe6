/-
Codecs lose nothing. A codec is lawful if what it writes is read back and
nothing is written as no bytes at all (`Codec.Lawful`); then as many values
take at least as many bytes, and a number of values that is written first
is small enough to be written. Numbers and texts have lawful codecs, and
codecs of parts make lawful codecs of the whole. No law is asked for of
values that take 2 ^ 64 bytes and more, whose length does not fit a word.

That a codec writes at least one byte is what bounds the length of a list: the
number in front of it has to fit a word, and the only thing known is that the
whole takes fewer than 2 ^ 64 bytes.
-/
import DiskAtlas.Proofs.Reader
import DiskAtlas.Proofs.Text.ByteOrder
import DiskAtlas.Snapshot.Codec

namespace DiskAtlas.Snapshot

open Text

variable {α β : Type}

-- ================================================================ laws

/-- A codec that reads back what it writes. -/
structure Codec.Lawful (c : Codec α) : Prop where
  takes : ∀ a, (c.write a).length < 2 ^ 64 → Takes c.read (c.write a) a
  pos : ∀ a, 0 < (c.write a).length

-- ============================================================= numbers

/-- A number takes at least one byte, also zero. -/
theorem writeVarint_pos (more value : Nat) :
    0 < (writeVarint more value).length := by
  cases more with
  | zero => exact Nat.one_pos
  | succ more =>
    unfold writeVarint
    split <;> exact Nat.succ_pos _

/-- A number that fits is read as it was written, seven bits after seven
bits. -/
theorem takes_varint {top more value : Nat} (htop : top < 256)
    (h : value < (top + 1) * 128 ^ more) :
    Takes (readVarint top more) (writeVarint more value) value := by
  -- on the bytes that may still follow; all but the last hold seven bits
  induction more generalizing value with
  | zero =>
    have hbyte : (UInt8.ofNat value).toNat = value := by
      rw [UInt8.toNat_ofNat', Nat.mod_eq_of_lt (by omega)]
    refine (takes_readByte (UInt8.ofNat value)).last ?_
    rw [hbyte, if_pos (by omega)]
    exact .pure value
  | succ more ih =>
    unfold writeVarint readVarint
    split
    · next hsmall =>
      have hbyte : (UInt8.ofNat value).toNat = value := by
        rw [UInt8.toNat_ofNat', Nat.mod_eq_of_lt (by omega)]
      refine (takes_readByte (UInt8.ofNat value)).last ?_
      rw [hbyte, if_pos hsmall]
      exact .pure value
    · have hbyte : (UInt8.ofNat (value % 128 + 128)).toNat
          = value % 128 + 128 := by
        rw [UInt8.toNat_ofNat', Nat.mod_eq_of_lt (by omega)]
      have hhigh : value / 128 < (top + 1) * 128 ^ more := by
        refine Nat.div_lt_of_lt_mul ?_
        rwa [Nat.pow_succ', Nat.mul_left_comm] at h
      have hfirst := takes_readByte (UInt8.ofNat (value % 128 + 128))
      refine hfirst.bind ?_
      rw [hbyte, if_neg (by omega)]
      refine (ih hhigh).last ?_
      have hvalue : value % 128 + 128 - 128 + 128 * (value / 128)
          = value := by omega
      rw [hvalue]
      exact .pure value

namespace Codec

/-- A word takes at most ten bytes, of which the last holds one bit. -/
theorem takes_word (v : UInt64) : Takes word.read (word.write v) v := by
  have hfits : v.toNat < (1 + 1) * 128 ^ 9 := v.toNat_lt
  refine (takes_varint (by decide) hfits).last ?_
  rw [UInt64.ofNat_toNat]
  exact .pure v

theorem word_lawful : word.Lawful :=
  ⟨fun v _ => takes_word v, fun _ => writeVarint_pos 9 _⟩

/-- Half words are read in as many bytes as they may take, and longer numbers
are refused. -/
theorem half_lawful : half.Lawful where
  takes v _ := by
    have hfits : v.toNat < (15 + 1) * 128 ^ 4 := v.toNat_lt
    refine (takes_varint (by decide) hfits).last ?_
    rw [UInt32.ofNat_toNat]
    exact .pure v
  pos v := writeVarint_pos 4 _

/-- Every number has a place of its own. -/
theorem unzigzag_zigzag (v : Int) : unzigzag (zigzag v) = v := by
  unfold zigzag unzigzag
  split <;> split <;> omega

/-- The numbers of 64 bits have the first places. -/
theorem zigzag_lt (v : Int64) : zigzag v.toInt < 2 ^ 64 := by
  have hle := v.le_toInt
  have hlt := v.toInt_lt
  unfold zigzag
  split <;> omega

/-- Signed numbers are written with their sign in the lowest bit, so that small
ones stay short. It is undone on words. -/
theorem signed_lawful : signed.Lawful where
  takes v _ := by
    have hfits : zigzag v.toInt < (1 + 1) * 128 ^ 9 := zigzag_lt v
    refine (takes_varint (by decide) hfits).last ?_
    rw [unzigzag_zigzag, Int64.ofInt_toInt]
    exact .pure v
  pos v := writeVarint_pos 9 _

/-- A number of values is written as a word. This is where the bound of `2 ^
64` is used. -/
theorem takes_count {n : Nat} (h : n < 2 ^ 64) :
    Takes count.read (count.write n) n := by
  refine (takes_word (UInt64.ofNat n)).last ?_
  rw [UInt64.toNat_ofNat', Nat.mod_eq_of_lt h]
  exact .pure n

theorem count_pos (n : Nat) : 0 < (count.write n).length :=
  writeVarint_pos 9 _

/-- Floating point numbers are written by their bits, all eight bytes, and
nothing is said of what they stand for. -/
theorem floatBits_lawful : floatBits.Lawful where
  takes v _ := by
    have hbytes := takes_readBytes (littleEndian 8 v.toNat)
    rw [length_littleEndian] at hbytes
    refine hbytes.last ?_
    have hfits : v.toNat < 256 ^ 8 := v.toNat_lt
    rw [ofLittleEndian_littleEndian hfits, UInt64.ofNat_toNat]
    exact .pure v
  pos v := by
    show 0 < (littleEndian 8 v.toNat).length
    rw [length_littleEndian]
    decide

-- ================================================================ text

theorem bool_lawful : bool.Lawful where
  takes v _ := by cases v <;> exact fun _ => rfl
  pos _ := Nat.one_pos

/-- The bytes of a text are a text again. -/
theorem fromUTF8?_utf8Bytes (s : String) :
    String.fromUTF8? ⟨(utf8Bytes s).toArray⟩ = some s := by
  have hbytes : (⟨(utf8Bytes s).toArray⟩ : ByteArray) = s.toUTF8 := by
    rw [utf8Bytes, toList_eq_data]
  rw [hbytes]
  exact dif_pos s.isValidUTF8

theorem length_utf8Bytes (s : String) :
    (utf8Bytes s).length = s.utf8ByteSize := by
  rw [utf8Bytes, toList_eq_data]
  exact String.size_toByteArray

/-- A text is written as the number of its bytes and the bytes. They are UTF-8
since they come from a text, so the reader accepts them. -/
theorem text_lawful : text.Lawful where
  takes s h := by
    have hcount : (utf8Bytes s).length < 2 ^ 64 := by
      refine Nat.lt_of_le_of_lt ?_ h
      rw [text, List.length_append]
      exact Nat.le_add_left ..
    refine (takes_count hcount).bind ?_
    refine (takes_readBytes _).last ?_
    exact .option (fromUTF8?_utf8Bytes s)
  pos s := by
    have := count_pos (utf8Bytes s).length
    rw [text, List.length_append]
    omega

/-- A letter is written as a text of one letter. None takes more than four
bytes, so the reader does not refuse it. -/
theorem char_lawful : char.Lawful where
  takes c _ := by
    have hsmall : (utf8Bytes c.toString).length ≤ 4 := by
      rw [length_utf8Bytes, Char.toString, String.utf8ByteSize_singleton]
      exact c.utf8Size_le_four
    refine (takes_count (by omega)).bind ?_
    rw [if_neg (by omega)]
    refine (takes_readBytes _).last ?_
    refine (Takes.option (fromUTF8?_utf8Bytes c.toString)).bind ?_
    exact .option (by rw [Char.toString, String.toList_singleton]; rfl)
  pos c := text_lawful.pos c.toString

-- =============================================================== parts

section Parts

variable {c : Codec α} {d : Codec β}

/-- One byte tells whether there is a value. -/
theorem option_lawful (hc : c.Lawful) : (option c).Lawful where
  takes v h := by
    cases v with
    | none =>
      refine (bool_lawful.takes false (by decide)).last ?_
      exact .pure none
    | some a =>
      have hsize : (c.write a).length < 2 ^ 64 := by
        refine Nat.lt_of_le_of_lt ?_ h
        rw [option, List.length_append]
        exact Nat.le_add_left ..
      refine (bool_lawful.takes true (by decide)).bind ?_
      exact (hc.takes a hsize).last (.pure _)
  pos v := by
    cases v with
    | none => exact Nat.one_pos
    | some a => exact Nat.succ_pos _

/-- The second part is read behind the first; neither needs to know where it
ends. -/
theorem pair_lawful (hc : c.Lawful) (hd : d.Lawful) :
    (pair c d).Lawful where
  takes v h := by
    rw [pair, List.length_append] at h
    refine (hc.takes v.1 (by omega)).bind ?_
    exact (hd.takes v.2 (by omega)).last (.pure _)
  pos v := by
    have := hc.pos v.1
    rw [pair, List.length_append]
    omega

/-- Values that stand one behind the other are read in turn. -/
theorem takes_readMany (hc : c.Lawful) {as : List α}
    (h : (as.flatMap c.write).length < 2 ^ 64) :
    Takes (readMany c.read as.length) (as.flatMap c.write) as := by
  induction as with
  | nil => exact .pure []
  | cons a rest ih =>
    rw [List.flatMap_cons, List.length_append] at h
    rw [List.flatMap_cons]
    refine (hc.takes a (by omega)).bind ?_
    exact (ih (by omega)).last (.pure _)

/-- There are no more values than bytes. -/
theorem length_le_flatMap (hc : c.Lawful) (as : List α) :
    as.length ≤ (as.flatMap c.write).length := by
  induction as with
  | nil => exact Nat.le_refl _
  | cons a rest ih =>
    have := hc.pos a
    rw [List.flatMap_cons, List.length_append, List.length_cons]
    omega

/-- By induction on the values. As each takes a byte, they are no more than
there are bytes, and their number can be written. -/
theorem list_lawful (hc : c.Lawful) : (list c).Lawful where
  takes as h := by
    have hcount := length_le_flatMap hc as
    rw [list, List.length_append] at h
    refine (takes_count (by omega)).bind ?_
    exact takes_readMany hc (by omega)
  pos as := by
    have := count_pos as.length
    rw [list, List.length_append]
    omega

theorem array_lawful (hc : c.Lawful) : (array c).Lawful where
  takes as h := by
    refine ((list_lawful hc).takes as.toList h).last ?_
    exact .pure as
  pos as := (list_lawful hc).pos as.toList

/-- A vector is written without its length, so one of length zero would be
written as no bytes at all. -/
theorem vector_lawful (hc : c.Lawful) {n : Nat} (hn : 0 < n) :
    (vector n c).Lawful where
  takes as h := by
    have hmany := takes_readMany hc h
    rw [Vector.length_toList] at hmany
    have hsize : as.toList.toArray.size = n := as.size_toArray
    refine hmany.last ?_
    dsimp only
    rw [dif_pos hsize]
    exact .pure as
  pos as := by
    have hcount := length_le_flatMap hc as.toList
    rw [Vector.length_toList] at hcount
    exact Nat.lt_of_lt_of_le hn hcount

/-- The entries of a map are written in order, and a map that is built from
them in order is the same map. -/
theorem map_lawful [Ord α] [Std.TransOrd α] [Std.LawfulEqOrd α]
    (hc : c.Lawful) (hd : d.Lawful) : (map c d).Lawful where
  takes m h := by
    have hentries := list_lawful (pair_lawful hc hd)
    refine (hentries.takes m.entries h).last ?_
    rw [SortedMap.ofList_entries]
    exact .pure m
  pos m := (list_lawful (pair_lawful hc hd)).pos m.entries

/-- A choice is read back if its number leads back to it. -/
theorem choice_lawful {index : α → Nat} {ofIndex? : Nat → Option α}
    (hindex : ∀ a, ofIndex? (index a) = some a)
    (hsmall : ∀ a, index a < 2 ^ 32) : (choice index ofIndex?).Lawful where
  takes a h := by
    refine (half_lawful.takes _ h).last ?_
    rw [UInt32.toNat_ofNat', Nat.mod_eq_of_lt (hsmall a)]
    exact .option (hindex a)
  pos a := half_lawful.pos _

end Parts

end Codec

end DiskAtlas.Snapshot
