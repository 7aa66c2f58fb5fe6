/-
Numerals. A number is written with the digits that it has in some base,
perhaps behind zeros and with letters of either case (`IsNumeral`). Reading
the digits gives back the number, however great it is (`readDigits_numeral`),
so a word is read from a numeral exactly if the number fits it, and nothing
wraps.
-/
import DiskAtlas.Text.Number

namespace DiskAtlas.Text

/-- Are the characters a way of writing a number in some base? -/
def IsNumeral (base n : Nat) (cs : List Char) : Prop :=
  ∃ zeros, cs.map Char.toLower
    = List.replicate zeros '0' ++ Nat.toDigits base n

/-- Are the characters a way of writing a number that may be negative? -/
def IsSigned (n : Int) (cs : List Char) : Prop :=
  (∃ m : Nat, n = m ∧ IsNumeral 10 m cs) ∨
    ∃ (m : Nat) (ds : List Char), n = -m ∧ cs = '-' :: ds ∧ IsNumeral 10 m ds

-- ============================================================== letters

/-- Letters are capital or small. -/
theorem isAlphanum_iff {c : Char} : c.isAlphanum = true ↔
    c.isUpper = true ∨ c.isLower = true ∨ c.isDigit = true := by
  have hall : c.isAlphanum = true ↔
      (c.isUpper || c.isLower || c.isDigit) = true := Iff.rfl
  rw [hall, Bool.or_eq_true, Bool.or_eq_true, or_assoc]

/-- Letters and digits are in two stretches of the table. -/
theorem toNat_of_isAlphanum {c : Char} (h : c.isAlphanum = true) :
    (48 ≤ c.toNat ∧ c.toNat ≤ 57) ∨ (65 ≤ c.toNat ∧ c.toNat ≤ 122) := by
  rcases isAlphanum_iff.1 h with h | h | h
  · obtain ⟨hfirst, hlast⟩ := of_decide_eq_true h
    have hfirst : 65 ≤ c.toNat := hfirst
    have hlast : c.toNat ≤ 90 := hlast
    omega
  · obtain ⟨hfirst, hlast⟩ := Bool.and_eq_true_iff.1 h
    have hfirst : 97 ≤ c.toNat := of_decide_eq_true hfirst
    have hlast : c.toNat ≤ 122 := of_decide_eq_true hlast
    omega
  · exact .inl (Char.isDigit_iff_toNat.1 h)

-- =============================================================== digits

/-- Small letters stay, and capital ones are few. -/
theorem toLower_cases (c : Char) :
    c.toLower = c ∨ ∃ i : Fin 26, c = Char.ofNat (65 + i) := by
  unfold Char.toLower
  split
  · next h =>
    have hfirst : 65 ≤ c.toNat := h.1
    have hlast : c.toNat ≤ 90 := h.2
    refine .inr ⟨⟨c.toNat - 65, by omega⟩, ?_⟩
    dsimp only
    rw [Nat.add_sub_cancel' hfirst, Char.ofNat_toNat]
  · exact .inl rfl

/-- Small and capital letters are the same digits. -/
theorem digitValue_toLower (c : Char) :
    digitValue c.toLower = digitValue c := by
  rcases toLower_cases c with h | ⟨i, rfl⟩
  · rw [h]
  · decide +revert

theorem digitValue_digitChar {d : Nat} (h : d < 16) :
    digitValue (Nat.digitChar d) = some d := by
  decide +revert

/-- Digits are letters and decimal digits, and those below ten are
decimal. -/
theorem isAlphanum_of_digitValue {c : Char} {d : Nat}
    (h : digitValue c = some d) :
    c.isAlphanum = true ∧ (d < 10 → c.isDigit = true) := by
  unfold digitValue at h
  split at h
  · next hdigit =>
    exact ⟨isAlphanum_iff.2 (.inr (.inr hdigit)), fun _ => hdigit⟩
  · split at h
    · next hsmall =>
      have hlower : c.isLower = true := by
        have hlast : c ≤ 'z' := Char.le_trans hsmall.2 (by decide)
        exact (Bool.and_eq_true _ _).mpr
          ⟨decide_eq_true hsmall.1, decide_eq_true hlast⟩
      refine ⟨isAlphanum_iff.2 (.inr (.inl hlower)), fun hlt => ?_⟩
      obtain rfl := Option.some.inj h
      omega
    · split at h
      · next hcapital =>
        have hupper : c.isUpper = true :=
          decide_eq_true (And.intro hcapital.1
            (Char.le_trans hcapital.2 (by decide)))
        refine ⟨isAlphanum_iff.2 (.inl hupper), fun hlt => ?_⟩
        obtain rfl := Option.some.inj h
        omega
      · cases h

variable {base n : Nat} {cs ds : List Char}

/-- Reading digits goes on from what the digits before it stand for. -/
theorem digitsFrom_append (acc : Nat) :
    digitsFrom base acc (cs ++ ds)
      = (digitsFrom base acc cs).bind fun read => digitsFrom base read ds := by
  induction cs generalizing acc with
  | nil => rfl
  | cons c cs ih =>
    simp only [List.cons_append, digitsFrom]
    cases digitValue c with
    | none => rfl
    | some d =>
      simp only [Option.bind_eq_bind, Option.bind_some]
      split
      · exact ih _
      · rfl

theorem digitsFrom_map_toLower (acc : Nat) :
    digitsFrom base acc (cs.map Char.toLower) = digitsFrom base acc cs := by
  induction cs generalizing acc with
  | nil => rfl
  | cons c cs ih =>
    simp only [List.map_cons, digitsFrom, digitValue_toLower, ih]

/-- The digits of a number are read as the number. -/
theorem digitsFrom_toDigits (hone : 1 < base) (hbase : base ≤ 16) (n : Nat) :
    digitsFrom base 0 (Nat.toDigits base n) = some n := by
  induction n using Nat.strongRecOn with
  | ind n ih =>
    have hdigit : ∀ acc d, d < base →
        digitsFrom base acc [Nat.digitChar d] = some (acc * base + d) := by
      intro acc d hd
      have hvalue := digitValue_digitChar (Nat.lt_of_lt_of_le hd hbase)
      simp [digitsFrom, hvalue, hd]
    by_cases hn : n < base
    · rw [Nat.toDigits_of_lt_base hn, hdigit 0 n hn, Nat.zero_mul,
        Nat.zero_add]
    · have hle := Nat.not_lt.1 hn
      have hsmaller : n / base < n := Nat.div_lt_self (by omega) hone
      rw [Nat.toDigits_of_base_le hone hle, digitsFrom_append,
        ih _ hsmaller, Option.bind_some,
        hdigit _ _ (Nat.mod_lt _ (by omega)), Nat.div_add_mod']

theorem digitsFrom_zeros (hbase : 0 < base) (zeros : Nat) :
    digitsFrom base 0 (List.replicate zeros '0') = some 0 := by
  induction zeros with
  | zero => rfl
  | succ zeros ih =>
    have hzero : digitValue '0' = some 0 := rfl
    simpa [List.replicate_succ, digitsFrom, hzero, hbase] using ih

/-- A numeral is read as its number. -/
theorem readDigits_numeral (hone : 1 < base) (hbase : base ≤ 16)
    (h : IsNumeral base n cs) : readDigits base cs = some n := by
  obtain ⟨zeros, hcs⟩ := h
  have hne : cs.isEmpty = false := by
    cases cs with
    | nil =>
      have hnil := (List.append_eq_nil_iff.1 hcs.symm).2
      exact absurd hnil Nat.toDigits_ne_nil
    | cons c cs => rfl
  rw [readDigits, hne, if_neg Bool.false_ne_true, ← digitsFrom_map_toLower,
    hcs, digitsFrom_append, digitsFrom_zeros (by omega), Option.bind_some,
    digitsFrom_toDigits hone hbase]

/-- What is read consists of digits. -/
theorem digit_of_digitsFrom {acc : Nat} (h : digitsFrom base acc cs = some n) :
    ∀ c ∈ cs, ∃ d, digitValue c = some d ∧ d < base := by
  induction cs generalizing acc with
  | nil => exact nofun
  | cons c cs ih =>
    simp only [digitsFrom, Option.bind_eq_bind, Option.bind_eq_some_iff] at h
    obtain ⟨d, hvalue, h⟩ := h
    split at h
    · next hd =>
      intro b hb
      rcases List.mem_cons.1 hb with rfl | hb
      · exact ⟨d, hvalue, hd⟩
      · exact ih h b hb
    · cases h

namespace IsNumeral

/-- Every number has a numeral. -/
theorem toDigits (hone : 1 < base) (hbase : base ≤ 16) (n : Nat) :
    IsNumeral base n (Nat.toDigits base n) := by
  have hdigit : ∀ d < base, (Nat.digitChar d).toLower = Nat.digitChar d := by
    have hsmall : ∀ d : Fin 16,
        (Nat.digitChar d).toLower = Nat.digitChar d := by
      decide
    exact fun d hd => hsmall ⟨d, Nat.lt_of_lt_of_le hd hbase⟩
  refine ⟨0, ?_⟩
  rw [List.replicate_zero, List.nil_append]
  induction n using Nat.strongRecOn with
  | ind n ih =>
    by_cases hn : n < base
    · rw [Nat.toDigits_of_lt_base hn, List.map_singleton, hdigit n hn]
    · have hsmaller : n / base < n := Nat.div_lt_self (by omega) hone
      rw [Nat.toDigits_of_base_le hone (Nat.not_lt.1 hn), List.map_append,
        ih _ hsmaller, List.map_singleton,
        hdigit _ (Nat.mod_lt _ (by omega))]

theorem ne_nil (h : IsNumeral base n cs) : cs ≠ [] := by
  rintro rfl
  obtain ⟨zeros, hcs⟩ := h
  exact absurd (List.append_eq_nil_iff.1 hcs.symm).2 Nat.toDigits_ne_nil

theorem digit (hone : 1 < base) (hbase : base ≤ 16)
    (h : IsNumeral base n cs) :
    ∀ c ∈ cs, ∃ d, digitValue c = some d ∧ d < base := by
  have hread := readDigits_numeral hone hbase h
  unfold readDigits at hread
  split at hread
  · cases hread
  · exact digit_of_digitsFrom hread

/-- Numerals are made of letters and digits only, so no mark of the filter
language stands in one. -/
theorem isAlphanum (hone : 1 < base) (hbase : base ≤ 16)
    (h : IsNumeral base n cs) : ∀ c ∈ cs, c.isAlphanum = true := by
  intro c hc
  obtain ⟨d, hd, -⟩ := h.digit hone hbase c hc
  exact (isAlphanum_of_digitValue hd).1

theorem isDigit (h : IsNumeral 10 n cs) : ∀ c ∈ cs, c.isDigit = true := by
  intro c hc
  obtain ⟨d, hd, hlt⟩ := h.digit (by decide) (by decide) c hc
  exact (isAlphanum_of_digitValue hd).2 hlt

/-- A numeral has no sign. -/
theorem readUnsigned_eq (hone : 1 < base) (hbase : base ≤ 16)
    (h : IsNumeral base n cs) : readUnsigned base cs = some n := by
  rw [← readDigits_numeral hone hbase h]
  unfold readUnsigned
  split
  · next ds =>
    have hplus := h.isAlphanum hone hbase '+' List.mem_cons_self
    exact absurd hplus (by decide)
  · rfl

/-- A word is read from a numeral if the number fits it. -/
theorem readU64_eq (h : IsNumeral 10 n cs) :
    readU64 cs
      = if n < UInt64.size then some (UInt64.ofNat n) else none := by
  rw [readU64, h.readUnsigned_eq (by decide) (by decide)]
  rfl

/-- A hexadecimal mask is read as its number, if it is a word of 32 bits. -/
theorem readHex32_eq (h : IsNumeral 16 n cs) :
    readHex32 cs
      = if n < UInt32.size then some (UInt32.ofNat n) else none := by
  rw [readHex32, h.readUnsigned_eq (by decide) (by decide)]
  rfl

end IsNumeral

/-- A signed word is read if the number fits it. -/
theorem IsSigned.readI64_eq {n : Int} (h : IsSigned n cs) :
    readI64 cs
      = if Int64.minValue.toInt ≤ n ∧ n ≤ Int64.maxValue.toInt then
          some (Int64.ofInt n)
        else none := by
  have hread : readSigned cs = some n := by
    rcases h with ⟨m, rfl, h⟩ | ⟨m, ds, rfl, rfl, h⟩
    · unfold readSigned
      split
      · have hminus := h.isDigit '-' List.mem_cons_self
        exact absurd hminus (by decide)
      · rw [h.readUnsigned_eq (by decide) (by decide)]
        rfl
    · rw [readSigned, readDigits_numeral (by decide) (by decide) h]
      rfl
  rw [readI64, hread]
  rfl

end DiskAtlas.Text
