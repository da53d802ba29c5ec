import PathGlob.Decimal.Binary64

/-!
# The shortest decimal text

A number is written with the fewest digits that read back as the same number, and of those with the
digits that are nearest to it. Numbers of moderate size are written positionally, others with a
power of ten.
-/
namespace PathGlob.Decimal

/-- `digits * 10 ^ exponent`. -/
structure Figure where
  digits : Nat
  exponent : Int
  deriving DecidableEq, Repr

/-- A positive number between its neighbours, as multiples of `1 / den`. -/
structure Place where
  num : Nat
  den : Nat
  /-- The least and the greatest multiple that is read as the number, or the bounds just beyond. -/
  low : Nat
  high : Nat
  /-- Whether the bounds themselves are read as the number. -/
  closed : Bool
  deriving DecidableEq, Repr

/-- The place of `significand * 2 ^ exponent`. Below a power of two the neighbour is nearer. -/
def Place.of (significand : Nat) (exponent : Int) : Place :=
  let fewer : Nat :=
    if significand = twoTo (Binary64.significandBits - 1) ∧ exponent ≠ Binary64.leastExponent then 1
    else 2
  let closed := significand % 2 = 0
  let unit := exponent - 2
  let up := twoTo unit.toNat
  ⟨4 * significand * up, twoTo (-unit).toNat, (4 * significand - fewer) * up,
    (4 * significand + 2) * up, closed⟩

namespace Place

/-- Numerator and denominator of a figure, multiplied by the place's denominator. -/
def scaled (p : Place) (f : Figure) : Nat × Nat :=
  (f.digits * tenTo f.exponent.toNat * p.den, tenTo (-f.exponent).toNat)

/-- Whether a figure is read as the number. -/
def reads (p : Place) (f : Figure) : Bool :=
  let (n, d) := p.scaled f
  if p.closed then p.low * d ≤ n && n ≤ p.high * d else p.low * d < n && n < p.high * d

/-- The number of digits in front of the point; negative if zeros follow the point. -/
def magnitude (p : Place) : Int :=
  let guess : Int := (Nat.toDigits 10 p.num).length - (Nat.toDigits 10 p.den).length
  let (n, d) := p.scaled ⟨1, guess⟩
  if n ≤ p.num * d then guess + 1 else guess

/-- The greatest figure with the given exponent that is not above the number. -/
def floor (p : Place) (exponent : Int) : Figure :=
  ⟨p.num * tenTo (-exponent).toNat / (p.den * tenTo exponent.toNat), exponent⟩

/-- Whether the number is nearer to the figure above than to the one below, or as near and the one
above is even. -/
def nearerAbove (p : Place) (below : Figure) : Bool :=
  let (n, d) := p.scaled ⟨2 * below.digits + 1, below.exponent⟩
  let twice := 2 * p.num * d
  n < twice || (n == twice && below.digits % 2 == 1)

/-- The figure with the given exponent that is read as the number, the nearer one if there are
two. -/
def figure? (p : Place) (exponent : Int) : Option Figure :=
  let below := p.floor exponent
  let above : Figure := ⟨below.digits + 1, exponent⟩
  match p.reads below, p.reads above with
  | true, true => some (if p.nearerAbove below then above else below)
  | true, false => some below
  | false, true => some above
  | false, false => none

def mostDigits : Nat := 17

/-- The shortest figure that is read as the number. -/
def shortest (p : Place) : Figure :=
  let m := p.magnitude
  ((List.range mostDigits).findSome? fun (n : Nat) => p.figure? (m - (n + 1))).getD
    (p.floor (m - mostDigits))

end Place

/-- The digits of a figure without zeros at the end, and where the point stands in them. -/
def Figure.digitsAndPoint (f : Figure) : List Char × Int :=
  let ds := Nat.toDigits 10 f.digits
  ((ds.reverse.dropWhile (· = '0')).reverse, ds.length + f.exponent)

/-- Positional notation is used while the point stands behind one of these many digits at most. -/
def positionalLimit : Int := 16

/-- Positional notation is used while at most this many zeros follow the point. -/
def zerosLimit : Int := 3

/-- The exponent of a power of ten, with its sign and at least two digits. -/
def exponentText (e : Int) : List Char :=
  let ds := Nat.toDigits 10 e.natAbs
  (if e < 0 then '-' else '+') :: (if ds.length < 2 then '0' :: ds else ds)

/-- Digits with a point among them, or with a power of ten. -/
def layOut (ds : List Char) (point : Int) : List Char :=
  if point > positionalLimit ∨ point < -zerosLimit then
    let mantissa := match ds with
      | d :: (d' :: more) => d :: '.' :: d' :: more
      | ds => ds
    mantissa ++ 'e' :: exponentText (point - 1)
  else if point ≤ 0 then '0' :: '.' :: (List.replicate (-point).toNat '0' ++ ds)
  else
    let n := point.toNat
    if n < ds.length then ds.take n ++ '.' :: ds.drop n
    else ds ++ List.replicate (n - ds.length) '0' ++ ['.', '0']

def Binary64.text : Binary64 → String
  | nan => "nan"
  | infinite negative => if negative then "-inf" else "inf"
  | finite negative significand exponent =>
    let magnitude :=
      if significand = 0 then ['0', '.', '0']
      else
        let (ds, point) := (Place.of significand exponent).shortest.digitsAndPoint
        layOut ds point
    String.ofList (if negative then '-' :: magnitude else magnitude)

end PathGlob.Decimal
