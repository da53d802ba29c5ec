/-!
# Binary fractions of 64 bits

Numbers with a significand of 53 bits and a bounded exponent, and the one that is nearest to a given
decimal number. All arithmetic is exact.
-/
namespace PathGlob.Decimal

def twoTo (n : Nat) : Nat := Nat.pow 2 n

def tenTo (n : Nat) : Nat := Nat.pow 10 n

/-- A number in binary floating point. A finite magnitude is `significand * 2 ^ exponent`. -/
inductive Binary64 where
  | finite (negative : Bool) (significand : Nat) (exponent : Int)
  | infinite (negative : Bool)
  | nan
  deriving DecidableEq, Repr

namespace Binary64

def significandBits : Nat := 53

def leastExponent : Int := -1074

def greatestExponent : Int := 971

/-- A quotient rounded to the nearest whole number; a half goes to the even neighbour. -/
def roundDiv (num den : Nat) : Nat :=
  let q := num / den
  let r := num % den
  if den < 2 * r ∨ (2 * r = den ∧ q % 2 = 1) then q + 1 else q

/-- The quotient of two numbers divided by a power of two, as a fraction. -/
def scale (num den : Nat) (exponent : Int) : Nat × Nat :=
  if exponent < 0 then (num * twoTo (-exponent).toNat, den) else (num, den * twoTo exponent.toNat)

/-- The exponent for which the significand of a positive fraction fills its bits, or the least. -/
def exponentFor (num den : Nat) : Int :=
  let guess : Int := num.log2 - den.log2 - (significandBits - 1)
  let (n, d) := scale num den guess
  max (if n < twoTo (significandBits - 1) * d then guess - 1 else guess) leastExponent

/-- The number nearest to a positive fraction. -/
def ofFraction (negative : Bool) (num den : Nat) : Binary64 :=
  let exponent := exponentFor num den
  let (n, d) := scale num den exponent
  let m := roundDiv n d
  let (m, exponent) :=
    if m = twoTo significandBits then (twoTo (significandBits - 1), exponent + 1) else (m, exponent)
  if exponent > greatestExponent then .infinite negative else .finite negative m exponent

/-- Beyond ten to this power there is nothing but infinity, and zero on the other side. -/
def powerLimit : Int := 400

/-- The number nearest to `digits * 10 ^ exponent`. -/
def ofDecimal (negative : Bool) (digits : Nat) (exponent : Int) : Binary64 :=
  let magnitude := exponent + (Nat.toDigits 10 digits).length
  if digits = 0 ∨ magnitude < -powerLimit then .finite negative 0 leastExponent
  else if magnitude > powerLimit then .infinite negative
  else if exponent < 0 then ofFraction negative digits (tenTo (-exponent).toNat)
  else ofFraction negative (digits * tenTo exponent.toNat) 1

end Binary64

end PathGlob.Decimal
