/-
The double nearest to a quotient of natural numbers, in exact integer
arithmetic. A finite positive double is `m * 2 ^ q` with `m < 2 ^ 53` and
`q ≥ -1074`; the quotient is brought to the exponent at which it has 53
bits (or to the least exponent), rounded to the nearest integer with ties
to even, and the bits of the double are read off: a carry out of the 53
bits moves on into the exponent by itself, and what reaches the largest
exponent is infinite.
-/

namespace DiskAtlas.Decimal

/-- The quotient rounded to the nearest integer, a half to the even one. -/
def roundDiv (num den : Nat) : Nat :=
  let q := num / den
  let r := num % den
  if 2 * r < den then q
  else if den < 2 * r then q + 1
  else q + q % 2

/-- A rounded quotient is within half a unit of the exact one. -/
theorem roundDiv_near {num den : Nat} (h : 0 < den) :
    2 * (roundDiv num den * den) ≤ 2 * num + den
      ∧ 2 * num ≤ 2 * (roundDiv num den * den) + den := by
  have hdm := Nat.div_add_mod num den
  have hr := Nat.mod_lt num h
  have hmul : den * (num / den) = num / den * den := Nat.mul_comm _ _
  have hs : (num / den + 1) * den = num / den * den + den := Nat.succ_mul _ _
  unfold roundDiv
  dsimp only
  split
  · omega
  · split
    · omega
    · have hp : num / den % 2 = 0 ∨ num / den % 2 = 1 := by omega
      rcases hp with hp | hp <;> rw [hp]
      · rw [Nat.add_zero]
        omega
      · omega

/-- The exponent at which the quotient has 53 bits, and no less than that
of the smallest double. -/
def binaryExponent (num den : Nat) : Int :=
  let low : Int := (num.log2 : Int) - den.log2 - 53
  let whole :=
    if low < 0 then (num <<< low.natAbs) / den else num / (den <<< low.natAbs)
  max (-1074) (if whole.log2 < 53 then low else low + 1)

/-- The bits of the double nearest to `num / den`. -/
def nearestBits (num den : Nat) : UInt64 :=
  if num = 0 then 0
  else
    let q := binaryExponent num den
    let m :=
      if q < 0 then roundDiv (num <<< q.natAbs) den
      else roundDiv num (den <<< q.natAbs)
    let bits := (q + 1074).toNat <<< 52 + m
    UInt64.ofNat (min bits 0x7ff0000000000000)

/-- The double nearest to `digits * 10 ^ exponent`. Numbers of more than
310 digits before the point are infinite, and those with more than 330
zeros after it are zero, whatever their digits are. -/
def nearest (digits : Nat) (exponent : Int) : Float :=
  let size : Int := (Nat.toDigits 10 digits).length
  Float.ofBits <|
    if digits = 0 ∨ size + exponent < -330 then 0
    else if 310 < size + exponent then 0x7ff0000000000000
    else if exponent < 0 then nearestBits digits (Nat.pow 10 exponent.natAbs)
    else nearestBits (digits * Nat.pow 10 exponent.natAbs) 1

end DiskAtlas.Decimal
