/-
Ranges of numbers in text. An item is a number or a range, whose ends a
dash or two points stand between, and a number is written in one of several
ways (`Spelling`). Whatever the numbers are, an item is read as the span
from the one to the other if they are in order and words for them exist, and
is refused otherwise (`readSpan_text`): no number is wrapped or cut down to
fit. So a comma list of items is read as the spans of its items
(`ranges_read`).

The three ways of writing numbers are three spellings, and each item is read
by one lemma for all of them. The words that a range ends at are signed or
unsigned, which is a parameter as well.
-/
import DiskAtlas.Proofs.Filter.Terms

namespace DiskAtlas

open Text FilterTerm

-- ================================================================= words

/-- The numbers from `least` to `greatest`, and the words for them. -/
structure Words (β : Type) [LT β] where
  least : Int
  greatest : Int
  word : Int → β
  least_le : least ≤ greatest
  word_lt : ∀ {x y}, least ≤ x → x ≤ greatest → least ≤ y → y ≤ greatest →
    (word x < word y ↔ x < y)

namespace Words

/-- The word for a number, if there is one. -/
def ofInt? {β : Type} [LT β] (w : Words β) (x : Int) : Option β :=
  if w.least ≤ x ∧ x ≤ w.greatest then some (w.word x) else none

/-- The span between two numbers that are in order. -/
def spanOf? {β : Type} [LT β] (w : Words β) (first last : Int) :
    Option (Span β) :=
  if w.least ≤ first ∧ first ≤ last ∧ last ≤ w.greatest then
    some ⟨w.word first, w.word last⟩
  else none

section Fitting

variable {β : Type} [LT β] (w : Words β) {x : Int} {a : β}

/-- A number has a word exactly within the bounds of its type, and the word is
then the one it stands for. -/
theorem ofInt?_eq_some_iff : w.ofInt? x = some a
    ↔ (w.least ≤ x ∧ x ≤ w.greatest) ∧ w.word x = a := by
  rw [ofInt?, Option.ite_none_right_eq_some, Option.some_inj]

theorem ofInt?_eq_none_iff : w.ofInt? x = none
    ↔ ¬ (w.least ≤ x ∧ x ≤ w.greatest) := by
  simp [ofInt?]

/-- A number by itself is a span. -/
theorem spanOf?_self (x : Int) :
    w.spanOf? x x = (w.ofInt? x).map Span.single := by
  rw [spanOf?, ofInt?]
  simp only [Int.le_refl, true_and]
  split
  · rfl
  · rfl

end Fitting

def signed : Words Int64 where
  least := Int64.minValue.toInt
  greatest := Int64.maxValue.toInt
  word := Int64.ofInt
  least_le := by decide
  word_lt := by
    intro x y hx hx' hy hy'
    have hmin : Int64.minValue.toInt = -9223372036854775808 := rfl
    have hmax : Int64.maxValue.toInt = 9223372036854775807 := rfl
    rw [Int64.lt_iff_toInt_lt, Int64.toInt_ofInt_of_le (by omega) (by omega),
      Int64.toInt_ofInt_of_le (by omega) (by omega)]

def unsigned : Words UInt64 where
  least := 0
  greatest := 0xFFFFFFFFFFFFFFFF
  word := fun x => UInt64.ofNat x.toNat
  least_le := by decide
  word_lt := by
    intro x y hx hx' hy hy'
    have hsize : UInt64.size = 18446744073709551616 := rfl
    rw [UInt64.lt_iff_toNat_lt, UInt64.toNat_ofNat_of_lt' (by omega),
      UInt64.toNat_ofNat_of_lt' (by omega)]
    omega

end Words

-- =============================================================== numbers

/-- A way of writing numbers with digits and letters, and perhaps a sign in
front. -/
structure Spelling (α : Type) where
  value : α → Int
  text : α → List Char
  begins : ∀ a, ∃ c cs, text a = c :: cs ∧
    (c.isAlphanum = true ∨ c = '-') ∧ ∀ d ∈ cs, d.isAlphanum = true

/-- A written number that may be negative. -/
structure SignedNumeral where
  value : Int
  text : List Char
  written : IsSigned value text

/-- A written number. -/
structure Numeral where
  value : Nat
  text : List Char
  written : IsNumeral 10 value text

/-- A number as it is written first of all. -/
def Numeral.ofNat (n : Nat) : Numeral :=
  ⟨n, Nat.toDigits 10 n, .toDigits (by decide) (by decide) n⟩

/-- A number with a minus in front if it is negative. -/
def SignedNumeral.ofInt : Int → SignedNumeral
  | .ofNat n => ⟨n, Nat.toDigits 10 n,
      .inl ⟨n, rfl, .toDigits (by decide) (by decide) n⟩⟩
  | .negSucc n => ⟨-(n + 1 : Nat), '-' :: Nat.toDigits 10 (n + 1),
      .inr ⟨n + 1, _, rfl, rfl, .toDigits (by decide) (by decide) (n + 1)⟩⟩

/-- What offsets are counted in. -/
inductive ByteUnit where
  | byte
  | block
  | sector
  | kilo
  | mega
  | giga
  | tera
  deriving Repr, DecidableEq

namespace ByteUnit

/-- The ways of writing the unit. -/
def spellings : ByteUnit → List (List Char)
  | byte => [[]]
  | block => [['b'], ['B']]
  | sector => [['s'], ['S']]
  | kilo => [['k'], ['K']]
  | mega => [['m'], ['M']]
  | giga => [['g'], ['G']]
  | tera => [['t'], ['T']]

/-- The number of bytes in the unit; a block has at least one. -/
def bytes (units : Summary) : ByteUnit → Nat
  | byte => 1
  | block => max units.blockSize.toNat 1
  | sector => 512
  | kilo => 1024
  | mega => 1024 * 1024
  | giga => 1024 * 1024 * 1024
  | tera => 1024 * 1024 * 1024 * 1024

/-- No unit is worth nothing: the block size of a summary counts as one byte
at least. -/
theorem bytes_pos (units : Summary) (unit : ByteUnit) :
    1 ≤ unit.bytes units := by
  cases unit with
  | block => exact Nat.le_max_right _ _
  | byte | sector | kilo | mega | giga | tera => simp [bytes]

end ByteUnit

/-- A written offset. -/
structure Offset where
  count : Numeral
  unit : ByteUnit
  suffix : List Char
  spelled : suffix ∈ unit.spellings

namespace Spelling

/-- Digits alone are no other characters. -/
theorem begins_of_isAlphanum {cs : List Char} (hne : cs ≠ [])
    (h : ∀ c ∈ cs, c.isAlphanum = true) :
    ∃ c rest, cs = c :: rest ∧ (c.isAlphanum = true ∨ c = '-') ∧
      ∀ d ∈ rest, d.isAlphanum = true := by
  obtain ⟨c, rest, rfl⟩ := List.exists_cons_of_ne_nil hne
  obtain ⟨hc, hrest⟩ := List.forall_mem_cons.1 h
  exact ⟨c, rest, rfl, .inl hc, hrest⟩

def signed : Spelling SignedNumeral where
  value := SignedNumeral.value
  text := SignedNumeral.text
  begins := by
    rintro ⟨value, text, ⟨m, -, h⟩ | ⟨m, ds, -, rfl, h⟩⟩
    · exact begins_of_isAlphanum h.ne_nil
        (h.isAlphanum (by decide) (by decide))
    · exact ⟨'-', ds, rfl, .inr rfl, h.isAlphanum (by decide) (by decide)⟩

def plain : Spelling Numeral where
  value := fun n => n.value
  text := Numeral.text
  begins := fun n => begins_of_isAlphanum n.written.ne_nil
    (n.written.isAlphanum (by decide) (by decide))

def offset (units : Summary) : Spelling Offset where
  value := fun o => (o.count.value * o.unit.bytes units : Nat)
  text := fun o => o.count.text ++ o.suffix
  begins := by
    intro o
    have hletters : ∀ (unit : ByteUnit), ∀ suffix ∈ unit.spellings,
        suffix.all Char.isAlphanum = true := by
      intro unit
      cases unit <;> decide
    refine begins_of_isAlphanum
      (List.append_ne_nil_of_left_ne_nil o.count.written.ne_nil _) ?_
    intro c hc
    rcases List.mem_append.1 hc with hc | hc
    · exact o.count.written.isAlphanum (by decide) (by decide) c hc
    · exact List.all_eq_true.1 (hletters o.unit o.suffix o.spelled) c hc

end Spelling

-- ================================================================= items

/-- An item of numbers: one by itself, or a range whose ends a dash or two
points stand between. An end is left open behind a dash, and on either side
of points. -/
inductive RangeItem (α : Type) where
  | single (a : α)
  | dash (a : α) (b : Option α)
  | dots (a b : Option α)

namespace RangeItem

variable {α β : Type} [LT β]

def text (s : Spelling α) : RangeItem α → List Char
  | single a => s.text a
  | dash a b => s.text a ++ '-' :: b.elim [] s.text
  | dots a b => a.elim [] s.text ++ '.' :: '.' :: b.elim [] s.text

/-- The span that an item stands for, if there is one. -/
def span? (s : Spelling α) (w : Words β) : RangeItem α → Option (Span β)
  | single a => w.spanOf? (s.value a) (s.value a)
  | dash a b => w.spanOf? (s.value a) (b.elim w.greatest s.value)
  | dots a b =>
    w.spanOf? (a.elim w.least s.value) (b.elim w.greatest s.value)

end RangeItem

-- ============================================================ splitting

namespace FilterValue

variable {cs rest : List Char}

theorem splitDots_eq_none (h : ∀ c ∈ cs, c ≠ '.') : splitDots cs = none := by
  induction cs with
  | nil => rfl
  | cons c cs ih =>
    obtain ⟨hc, hcs⟩ := List.forall_mem_cons.1 h
    rw [splitDots, ih hcs]
    · rfl
    · exact fun _ hdot _ => hc hdot

/-- The first two dots split a range, wherever the second end has more. -/
theorem splitDots_append (h : ∀ c ∈ cs, c ≠ '.') :
    splitDots (cs ++ '.' :: '.' :: rest) = some (cs, rest) := by
  induction cs with
  | nil => rfl
  | cons c cs ih =>
    obtain ⟨hc, hcs⟩ := List.forall_mem_cons.1 h
    rw [List.cons_append, splitDots, ih hcs]
    · rfl
    · exact fun _ hdot _ => hc hdot

theorem splitDash_eq_none (h : ∀ c ∈ cs, c ≠ '-') : splitDash cs = none := by
  induction cs with
  | nil => rfl
  | cons c cs ih =>
    obtain ⟨hc, hcs⟩ := List.forall_mem_cons.1 h
    rw [splitDash, if_neg hc, ih hcs]
    rfl

/-- The first dash splits a range; a dash at the very front is the sign of the
first number and is set aside before this. -/
theorem splitDash_append (h : ∀ c ∈ cs, c ≠ '-') :
    splitDash (cs ++ '-' :: rest) = some (cs, rest) := by
  induction cs with
  | nil => rw [List.nil_append, splitDash, if_pos rfl]
  | cons c cs ih =>
    obtain ⟨hc, hcs⟩ := List.forall_mem_cons.1 h
    rw [List.cons_append, splitDash, if_neg hc, ih hcs]
    rfl

end FilterValue

namespace Spelling

variable {α : Type} (s : Spelling α)

theorem ne_nil (a : α) : s.text a ≠ [] := by
  obtain ⟨c, cs, htext, -⟩ := s.begins a
  rw [htext]
  exact List.cons_ne_nil c cs

/-- The digits, letters and dash a spelled number is made of. The marks of a
list, a range and a term are none of these, which the next lemmas say one by
one. -/
theorem char_cases (a : α) :
    ∀ c ∈ s.text a, c.isAlphanum = true ∨ c = '-' := by
  obtain ⟨c, cs, htext, hc, hcs⟩ := s.begins a
  rw [htext, List.forall_mem_cons]
  exact ⟨hc, fun d hd => .inl (hcs d hd)⟩

theorem ne_of_mem (a : α) {mark : Char} (hmark : mark.isAlphanum = false)
    (hdash : mark ≠ '-') : ∀ c ∈ s.text a, c ≠ mark := by
  rintro c hc rfl
  rcases s.char_cases a c hc with hletter | hc
  · rw [hmark] at hletter
    cases hletter
  · exact hdash hc

theorem ne_dot (a : α) : ∀ c ∈ s.text a, c ≠ '.' :=
  s.ne_of_mem a (by decide) (by decide)

theorem isPlain (a : α) : ∀ c ∈ s.text a, IsPlain c := by
  intro c hc
  rcases s.char_cases a c hc with hletter | rfl
  · exact .inl hletter
  · exact .inr (by decide)

/-- An end that is left open is written with nothing. -/
theorem forall_mem_end {P : Char → Prop} (h : ∀ a, ∀ c ∈ s.text a, P c)
    (b : Option α) : ∀ c ∈ b.elim [] s.text, P c := by
  cases b with
  | none => exact nofun
  | some b => exact h b

theorem trim_end (b : Option α) :
    trim (b.elim [] s.text) = b.elim [] s.text :=
  trim_of_plain (s.forall_mem_end s.isPlain b)

end Spelling

namespace FilterValue

variable {α : Type} (s : Spelling α)

/-- No text of a number is split. -/
theorem splitRange_single (a : α) : splitRange true (s.text a) = none := by
  have hdots := splitDots_eq_none (s.ne_dot a)
  obtain ⟨c, cs, htext, -, hcs⟩ := s.begins a
  have hdash : splitDash cs = none := splitDash_eq_none fun d hd => by
    rintro rfl
    exact absurd (hcs _ hd) (by decide)
  rw [htext] at hdots ⊢
  simp only [splitRange, hdots, hdash, Option.map_none, ite_self]

/-- The first dash behind the first character is between the ends. -/
theorem splitRange_dash (a : α) (b : Option α) :
    splitRange true (s.text a ++ '-' :: b.elim [] s.text)
      = some (s.text a, b.elim [] s.text) := by
  have hdot : ∀ c ∈ s.text a ++ '-' :: b.elim [] s.text, c ≠ '.' := by
    intro c hc
    rcases List.mem_append.1 hc with hc | hc
    · exact s.ne_dot a c hc
    · rcases List.mem_cons.1 hc with rfl | hc
      · decide
      · exact s.forall_mem_end s.ne_dot b c hc
  have hdots := splitDots_eq_none hdot
  have ha := trim_of_plain (s.isPlain a)
  have hb := s.trim_end b
  obtain ⟨c, cs, htext, hc, hcs⟩ := s.begins a
  have hdash : splitDash (cs ++ '-' :: b.elim [] s.text) = _ :=
    splitDash_append fun d hd => by
      rintro rfl
      exact absurd (hcs _ hd) (by decide)
  have hascii : c.toNat < 128 := by
    rcases hc with hc | rfl
    · have hbounds := toNat_of_isAlphanum hc
      omega
    · decide
  rw [htext] at hdots ha ⊢
  rw [List.cons_append] at hdots ⊢
  simp only [splitRange, hdots, hdash, hascii, if_true, Option.map_some, ha,
    hb]

/-- A range with two dots splits into its ends, either of which may have been
left open. -/
theorem splitRange_dots (a b : Option α) :
    splitRange true (a.elim [] s.text ++ '.' :: '.' :: b.elim [] s.text)
      = some (a.elim [] s.text, b.elim [] s.text) := by
  have hdots : splitDots (a.elim [] s.text ++ '.' :: '.' :: b.elim [] s.text)
      = _ := splitDots_append (s.forall_mem_end s.ne_dot a)
  simp only [splitRange, hdots, Option.map_some, s.trim_end]

-- =============================================================== reading

/-- A number is read as it stands. -/
theorem toOption_readField {field : String} {γ : Type}
    {read : List Char → Option γ} (a : α) :
    (readField field read (s.text a)).toOption = read (s.text a) := by
  rw [readField, trim_of_plain (s.isPlain a)]
  cases read (s.text a) with
  | none => rfl
  | some value => rfl

variable {β : Type} [LT β] [DecidableLT β] {w : Words β}

/-- Two ends make a span if they are in order. -/
theorem toOption_ordered {first last : Except FilterError β} {x y : Int}
    (hfirst : first.toOption = w.ofInt? x)
    (hlast : last.toOption = w.ofInt? y) (raw : List Char) :
    (first >>= fun a => last >>= fun b => ordered a b raw).toOption
      = w.spanOf? x y := by
  cases first with
  | error e =>
    have hx := w.ofInt?_eq_none_iff.1 hfirst.symm
    rw [Words.spanOf?, if_neg (by omega)]
    rfl
  | ok a =>
    cases last with
    | error e =>
      have hy := w.ofInt?_eq_none_iff.1 hlast.symm
      rw [Words.spanOf?, if_neg (by omega)]
      rfl
    | ok b =>
      obtain ⟨hx, rfl⟩ := w.ofInt?_eq_some_iff.1 hfirst.symm
      obtain ⟨hy, rfl⟩ := w.ofInt?_eq_some_iff.1 hlast.symm
      have hlt := w.word_lt hy.1 hy.2 hx.1 hx.2
      show (ordered _ _ raw).toOption = _
      rw [ordered, Words.spanOf?]
      by_cases hle : x ≤ y
      · rw [if_neg (by rw [hlt]; omega), if_pos ⟨hx.1, hle, hy.2⟩]
        rfl
      · rw [if_pos (by rw [hlt]; omega), if_neg (by omega)]
        rfl

section Reads

variable {read : List Char → Except FilterError β}
  (hread : ∀ a, (read (s.text a)).toOption = w.ofInt? (s.value a))

include hread

omit [DecidableLT β] in
/-- An end left open reads as the default of its side; any other as its number,
if that has a word. -/
theorem toOption_readEnd {default : Int} (hleast : w.least ≤ default)
    (hgreatest : default ≤ w.greatest) (b : Option α) :
    (readEnd read (w.word default) (b.elim [] s.text)).toOption
      = w.ofInt? (b.elim default s.value) := by
  cases b with
  | none => rw [Words.ofInt?, if_pos ⟨hleast, hgreatest⟩]; rfl
  | some b =>
    rw [readEnd, Option.elim_some,
      List.isEmpty_eq_false_iff.2 (s.ne_nil b), if_neg Bool.false_ne_true,
      hread]
    rfl

/-- An item is read as the span that it stands for. -/
theorem readSpan_text (item : RangeItem α) :
    (readSpan true (w.word w.least) (w.word w.greatest) read
      (item.text s)).toOption = item.span? s w := by
  have hfirst := toOption_readEnd s hread (Int.le_refl _) w.least_le
  have hlast := toOption_readEnd s hread w.least_le (Int.le_refl _)
  cases item with
  | single a =>
    rw [RangeItem.text, RangeItem.span?, readSpan, splitRange_single,
      Words.spanOf?_self, ← hread]
    cases read (s.text a) with
    | error e => rfl
    | ok x => rfl
  | dash a b =>
    rw [RangeItem.text, RangeItem.span?, readSpan, splitRange_dash]
    exact toOption_ordered (hfirst (some a)) (hlast b) _
  | dots a b =>
    rw [RangeItem.text, RangeItem.span?, readSpan, splitRange_dots]
    exact toOption_ordered (hfirst a) (hlast b) _

end Reads

-- ========================================================= ways of writing

theorem toOption_readSigned (field : String) (n : SignedNumeral) :
    (readField field readI64 (Spelling.signed.text n)).toOption
      = Words.signed.ofInt? n.value :=
  (toOption_readField Spelling.signed n).trans n.written.readI64_eq

/-- Words without a sign are those of the numbers below the size. -/
theorem ofInt?_unsigned (n : Nat) : Words.unsigned.ofInt? n
    = if n < UInt64.size then some (UInt64.ofNat n) else none := by
  have hsize : UInt64.size = 18446744073709551616 := rfl
  rw [Words.ofInt?, Words.unsigned]
  simp only [Int.toNat_natCast]
  by_cases h : n < UInt64.size
  · rw [if_pos h, if_pos (by omega)]
  · rw [if_neg h, if_neg (by omega)]

theorem toOption_readCount (field : String) (n : Numeral) :
    (readField field readU64 (Spelling.plain.text n)).toOption
      = Words.unsigned.ofInt? n.value := by
  rw [ofInt?_unsigned]
  exact (toOption_readField Spelling.plain n).trans n.written.readU64_eq

/-- A product is the word for it, if there is one. -/
theorem checkedMul_eq (a b : UInt64) : checkedMul a b
    = if a.toNat * b.toNat < UInt64.size then
        some (UInt64.ofNat (a.toNat * b.toNat))
      else none := by
  have hsize : UInt64.size = maxWord.toNat + 1 := rfl
  by_cases h : a.toNat * b.toNat < UInt64.size
  · rw [if_pos h, checkedMul_eq_some_iff, UInt64.toNat_ofNat_of_lt' h]
  · rw [if_neg h, checkedMul, if_neg (by omega)]

/-- A unit is found however it is written. -/
theorem unitSize_spelled (units : Summary) {unit : ByteUnit}
    {suffix : List Char} (h : suffix ∈ unit.spellings) :
    ∃ size, unitSize units suffix = some size ∧
      size.toNat = unit.bytes units := by
  have hblock : (max units.blockSize 1).toNat
      = max units.blockSize.toNat 1 := by
    have hmax : max units.blockSize 1
        = if units.blockSize ≤ 1 then 1 else units.blockSize := rfl
    have hone : (1 : UInt64).toNat = 1 := rfl
    rw [hmax]
    simp only [UInt64.le_iff_toNat_le, hone]
    split
    · omega
    · omega
  have hletters : ∀ lower upper : Char, suffix ∈ [[lower], [upper]] →
      suffix = [lower] ∨ suffix = [upper] := by
    simp
  cases unit with
  | byte =>
    obtain rfl := List.mem_singleton.1 h
    exact ⟨1, rfl, rfl⟩
  | block =>
    rcases hletters _ _ h with rfl | rfl
    · exact ⟨_, rfl, hblock⟩
    · exact ⟨_, rfl, hblock⟩
  | sector | kilo | mega | giga | tera =>
    rcases hletters _ _ h with rfl | rfl
    · exact ⟨_, rfl, rfl⟩
    · exact ⟨_, rfl, rfl⟩

/-- A unit is no part of the number in front of it. -/
theorem spelled_apart {unit : ByteUnit}
    {suffix : List Char} (h : suffix ∈ unit.spellings) :
    suffix.takeWhile isNumberChar = [] ∧
      suffix.dropWhile isNumberChar = suffix ∧ (suffix == ['%']) = false := by
  revert suffix
  cases unit <;> decide

/-- Digits are read as a number, and multiplied by the unit. -/
theorem readOffset_text (units : Summary) (o : Offset) {size : UInt64}
    (hunit : unitSize units o.suffix = some size) :
    (readOffset units ((Spelling.offset units).text o)).toOption
      = (readU64 o.count.text).bind fun n => checkedMul n size := by
  have htrim : trim (o.count.text ++ o.suffix) = o.count.text ++ o.suffix :=
    trim_of_plain ((Spelling.offset units).isPlain o)
  have hdigits := o.count.written.isDigit
  have hnumber : ∀ c ∈ o.count.text, isNumberChar c = true := fun c hc => by
    rw [isNumberChar, hdigits c hc, Bool.true_or]
  obtain ⟨hnone, hall, hpercent⟩ := spelled_apart o.spelled
  have hpoint : o.count.text.contains '.' = false := by
    rw [Bool.eq_false_iff, ne_eq, List.contains_iff_mem]
    exact fun hmem => absurd (hdigits _ hmem) (by decide)
  have hfull : o.count.text.isEmpty = false :=
    List.isEmpty_eq_false_iff.2 o.count.written.ne_nil
  show (readOffset units (o.count.text ++ o.suffix)).toOption = _
  simp only [readOffset, htrim, List.takeWhile_append_of_pos hnumber,
    List.dropWhile_append_of_pos hnumber, hnone, hall, List.append_nil,
    hfull, hpercent, hunit, hpoint, Bool.false_eq_true, if_false]
  cases readU64 o.count.text with
  | none => rfl
  | some n =>
    rw [Option.bind_some]
    dsimp only
    cases checkedMul n size with
    | none => rfl
    | some bytes => rfl

/-- An offset is as many bytes as it has units of, if there is a word for
that. -/
theorem toOption_readOffset (units : Summary) (o : Offset) :
    (readOffset units ((Spelling.offset units).text o)).toOption
      = Words.unsigned.ofInt? ((Spelling.offset units).value o) := by
  obtain ⟨size, hunit, hsize⟩ := unitSize_spelled units o.spelled
  have hvalue : (Spelling.offset units).value o
      = ((o.count.value * size.toNat : Nat) : Int) := by
    rw [hsize]
    rfl
  have hpos : 1 ≤ size.toNat := hsize ▸ o.unit.bytes_pos units
  rw [readOffset_text units o hunit, o.count.written.readU64_eq, hvalue,
    ofInt?_unsigned]
  by_cases hcount : o.count.value < UInt64.size
  · rw [if_pos hcount, Option.bind_some, checkedMul_eq,
      UInt64.toNat_ofNat_of_lt' hcount]
  · -- no word for the count, so none for a multiple of it
    have hle := Nat.le_mul_of_pos_right o.count.value hpos
    rw [if_neg hcount, Option.bind_none, if_neg (by omega)]

end FilterValue

-- ================================================================= lists

namespace RangeItem

variable {α : Type} (s : Spelling α)

/-- No item is written as the empty text, so none is dropped with the empty
items of a list. -/
theorem text_ne_nil (item : RangeItem α) : item.text s ≠ [] := by
  cases item with
  | single a => exact s.ne_nil a
  | dash a b =>
    exact List.append_ne_nil_of_right_ne_nil _ (List.cons_ne_nil _ _)
  | dots a b =>
    exact List.append_ne_nil_of_right_ne_nil _ (List.cons_ne_nil _ _)

/-- No item holds a comma. -/
theorem text_plain (item : RangeItem α) :
    ∀ c ∈ item.text s, IsPlain c ∧ c ≠ ',' := by
  have hnumber : ∀ a, ∀ c ∈ s.text a, IsPlain c ∧ c ≠ ',' := fun a c hc =>
    ⟨s.isPlain a c hc, s.ne_of_mem a (by decide) (by decide) c hc⟩
  have hend := s.forall_mem_end hnumber
  have hdash : IsPlain '-' := .inr (by decide)
  have hdot : IsPlain '.' := .inr (by decide)
  intro c hc
  cases item with
  | single a => exact hnumber a c hc
  | dash a b =>
    rcases List.mem_append.1 hc with hc | hc
    · exact hnumber a c hc
    · rcases List.mem_cons.1 hc with rfl | hc
      · exact ⟨hdash, by decide⟩
      · exact hend b c hc
  | dots a b =>
    rcases List.mem_append.1 hc with hc | hc
    · exact hend a c hc
    · rcases List.mem_cons.1 hc with rfl | hc
      · exact ⟨hdot, by decide⟩
      · rcases List.mem_cons.1 hc with rfl | hc
        · exact ⟨hdot, by decide⟩
        · exact hend b c hc

/-- The text of some items. -/
def listText (items : List (RangeItem α)) : List Char :=
  [','].intercalate (items.map (text s))

end RangeItem

/-- Where every item is read or refused, so is a list of them. -/
theorem toOption_mapM {α β γ ε : Type} {write : α → γ}
    {read : γ → Except ε β} {mean : α → Option β}
    (h : ∀ a, (read (write a)).toOption = mean a) (items : List α) :
    ((items.map write).mapM read).toOption = items.mapM mean := by
  induction items with
  | nil => rfl
  | cons a items ih =>
    rw [List.map_cons, List.mapM_cons, List.mapM_cons, ← h, ← ih]
    cases read (write a) with
    | error e => rfl
    | ok b =>
      cases (items.map write).mapM read with
      | error e => rfl
      | ok bs => rfl

/-- A term is read as a filter for inodes or, without one, refused; and for
extents as the same, unless its dimension is one of inodes only. -/
def TermReads (zone : Calendar.Zone) (units : Summary) (key : String)
    (field : FilterField) (value : List Char) (filter : Option InodeFilter) :
    Prop :=
  (InodeFilter.read zone units (oneTerm key value)).toOption = filter ∧
    (field.isInodesOnly = false →
      (ExtentFilter.read zone units (oneTerm key value)).toOption
        = filter.map (·.extent))

section OneTerm

variable {zone : Calendar.Zone} {units : Summary} {key : String}
  {field : FilterField}
  {α β : Type} [LT β] {s : Spelling α} {w : Words β}
  {read : List Char → Except FilterError (Span β)}
  {ask : List (Span β) → InodeFilter}

/-- A dimension is asked for the spans of the items. -/
theorem termReads_listText (hkey : FilterField.ofKey? key = some field)
    (hread : ∀ item : RangeItem α, (read (item.text s)).toOption
      = item.span? s w)
    (hask : ∀ value, ({} : InodeFilter).addValue zone units value field
      = ((FilterValue.items value).mapM read).map ask)
    {items : List (RangeItem α)} (hne : items ≠ []) :
    TermReads zone units key field (RangeItem.listText s items)
      ((items.mapM (RangeItem.span? s w)).map ask) := by
  -- neither the list nor the term is cut inside an item
  have hparts : ∀ part ∈ items.map (RangeItem.text s),
      part ≠ [] ∧ ∀ c ∈ part, IsPlain c ∧ c ≠ ',' := by
    intro part hpart
    obtain ⟨item, -, rfl⟩ := List.mem_map.1 hpart
    exact ⟨item.text_ne_nil s, item.text_plain s⟩
  have hplain : ∀ c ∈ RangeItem.listText s items, IsPlain c := by
    intro c hc
    rcases FilterValue.mem_of_mem_intercalate hc with rfl | ⟨part, hpart, hc⟩
    · exact .inr (by decide)
    · exact ((hparts part hpart).2 c hc).1
  have hnonempty : RangeItem.listText s items ≠ [] :=
    FilterValue.intercalate_ne_nil (by simpa using hne) fun part hpart =>
      (hparts part hpart).1
  have hinodes : (InodeFilter.read zone units
      (oneTerm key (RangeItem.listText s items))).toOption
        = (items.mapM (RangeItem.span? s w)).map ask := by
    rw [InodeFilter.read_plain zone units hkey hnonempty hplain, hask,
      RangeItem.listText, FilterValue.items_joined hparts,
      ← toOption_mapM hread]
    cases (items.map (RangeItem.text s)).mapM read with
    | error e => rfl
    | ok spans => rfl
  -- an extent query reads the term by the inode reader
  refine ⟨hinodes, fun hshared => ?_⟩
  rw [ExtentFilter.read_plain zone units hkey hshared hplain, ← hinodes]
  cases InodeFilter.read zone units
    (oneTerm key (RangeItem.listText s items)) with
  | error e => rfl
  | ok filter => rfl

end OneTerm

/-- Are the values of a dimension offsets? -/
def FilterField.IsOffset (field : FilterField) : Prop :=
  field ∈ [.physical, .logical, .length, .size]

/-- The filter that asks for offsets in one dimension. -/
def InodeFilter.ofOffsets (spans : List (Span UInt64)) :
    FilterField → InodeFilter
  | .physical => { extent := { physical := spans } }
  | .logical => { extent := { logical := spans } }
  | .length => { extent := { lengths := spans } }
  | .size => { sizes := spans }
  | _ => {}

/-- Numbers and ranges in text are the spans that they say, and are refused
if the ends are not in order or have no word. Inode numbers may be negative,
counts are plain, and offsets have units. -/
theorem ranges_read (zone : Calendar.Zone) (units : Summary) {key : String}
    {field : FilterField}
    (hkey : FilterField.ofKey? key = some field) :
    (field = .inode →
      ∀ items : List (RangeItem SignedNumeral), items ≠ [] →
        TermReads zone units key field (RangeItem.listText .signed items)
          ((items.mapM (RangeItem.span? .signed .signed)).map fun spans =>
            { extent := { inodes := spans } })) ∧
    (field = .extents →
      ∀ items : List (RangeItem Numeral), items ≠ [] →
        TermReads zone units key field (RangeItem.listText .plain items)
          ((items.mapM (RangeItem.span? .plain .unsigned)).map fun spans =>
            { extentCounts := spans })) ∧
    (field.IsOffset →
      ∀ items : List (RangeItem Offset), items ≠ [] →
        TermReads zone units key field
          (RangeItem.listText (.offset units) items)
          ((items.mapM (RangeItem.span? (.offset units) .unsigned)).map
            (InodeFilter.ofOffsets · field))) := by
  refine ⟨?_, ?_, ?_⟩
  · rintro rfl items hne
    exact termReads_listText hkey
      (FilterValue.readSpan_text _ (FilterValue.toOption_readSigned "ino"))
      (fun _ => rfl) hne
  · rintro rfl items hne
    exact termReads_listText hkey
      (FilterValue.readSpan_text _
        (FilterValue.toOption_readCount "extents"))
      (fun _ => rfl) hne
  · intro hfield items hne
    refine termReads_listText hkey
      (FilterValue.readSpan_text _ (FilterValue.toOption_readOffset units))
      (fun value => ?_) hne
    simp only [FilterField.IsOffset, List.mem_cons, List.not_mem_nil,
      or_false] at hfield
    -- the four keys differ in the field they fill and in nothing else
    rcases hfield with rfl | rfl | rfl | rfl
    · rfl
    · rfl
    · rfl
    · rfl

/-- The number behind the first dash may be negative as well. -/
theorem ranges_read_negative :
    FilterField.ofKey? "ino" = some .inode ∧
      (InodeFilter.read .utc (.blank "/") "ino:-5--3,..7").toOption
        = some { extent := { inodes :=
          [⟨-5, -3⟩, ⟨FilterValue.minSigned, 7⟩] } } := by
  have hkey : FilterField.ofKey? "ino" = some .inode := rfl
  let items : List (RangeItem SignedNumeral) :=
    [.dash (.ofInt (-5)) (some (.ofInt (-3))), .dots none (some (.ofInt 7))]
  have htext : oneTerm "ino" (RangeItem.listText .signed items)
      = "ino:-5--3,..7" := by
    decide +kernel
  have hspans : items.mapM (RangeItem.span? .signed .signed)
      = some [⟨-5, -3⟩, ⟨FilterValue.minSigned, 7⟩] := by
    decide +kernel
  obtain ⟨hinodes, -, -⟩ := ranges_read .utc (.blank "/") hkey
  obtain ⟨hread, -⟩ := hinodes rfl items (List.cons_ne_nil _ _)
  rw [htext, hspans] at hread
  exact ⟨hkey, hread⟩

end DiskAtlas
