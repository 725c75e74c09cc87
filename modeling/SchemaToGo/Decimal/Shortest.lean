import SchemaToGo.Decimal.Binary64
set_option autoImplicit false

/-!
# The shortest decimal text of a magnitude

A magnitude is written with the fewest digits that still round to it, and of those digits with the
nearest.  The numbers that round to a magnitude lie between the midpoints to its neighbours, the
midpoints included exactly if its mantissa is even.  For one digit, two digits and so on, the
candidates are the two decimal numbers around the magnitude.
-/

namespace SchemaToGo.Decimal

/-- Digits `d₁ d₂ …` of the number `d₁.d₂… · 10 ^ exponent`. -/
structure Digits where
  digits : List Nat
  exponent : Int
  deriving DecidableEq, Repr

/-- The comparison `a / b ≤ c / d` of quotients. -/
def quotientLe (a b c d : Nat) : Bool := a * d ≤ c * b

/-- Ten to the power of `p` as a quotient. -/
def pow10Quotient (p : Int) : Nat × Nat :=
  if 0 ≤ p then (Nat.pow 10 p.toNat, 1) else (1, Nat.pow 10 (-p).toNat)

/-- The power of ten of a quotient's first digit. -/
def decimalExponent (num den : Nat) : Int :=
  let guess : Int := (((num.log2 : Int) - (den.log2 : Int)) * 30103).fdiv 100000
  let atLeast (p : Int) : Bool :=
    let (a, b) := pow10Quotient p
    quotientLe a b num den
  if atLeast (guess + 1) then guess + 1
  else if atLeast guess then guess
  else if atLeast (guess - 1) then guess - 1
  else guess - 2

namespace Binary64

/-- The number `n · 10 ^ p` rounds to the magnitude. -/
def roundsTo (x : Binary64) (n : Nat) (p : Int) : Bool :=
  let (a, b) := pow10Quotient p
  let unit : Binary64 := ⟨1, x.exponent - 2⟩
  let (u, v) := unit.toQuotient
  let low := if x.mantissa = Nat.pow 2 52 ∧ minExponent < x.exponent then 4 * x.mantissa - 1
    else 4 * x.mantissa - 2
  let high := 4 * x.mantissa + 2
  if x.mantissa % 2 = 0 then
    quotientLe (low * u) v (n * a) b && quotientLe (n * a) b (high * u) v
  else !quotientLe (n * a) b (low * u) v && !quotientLe (high * u) v (n * a) b

/-- The better of the two numbers `q · 10 ^ p` and `(q + 1) · 10 ^ p` around the magnitude that
rounds to it: the nearer one, and of two equally near ones the even one. -/
def nearest? (x : Binary64) (q : Nat) (p : Int) : Option Nat :=
  match x.roundsTo q p, x.roundsTo (q + 1) p with
  | false, false => none
  | true, false => some q
  | false, true => some (q + 1)
  | true, true =>
    let (a, b) := pow10Quotient p
    let (num, den) := x.toQuotient
    let twice := 2 * num * b
    let middle := (2 * q + 1) * a * den
    if twice < middle then some q
    else if middle < twice then some (q + 1)
    else if q % 2 = 0 then some q else some (q + 1)

/-- The first of the grids of `n`, `n + 1`, … digits that has a number rounding to the magnitude,
as that number and its grid's power of ten. -/
def search (x : Binary64) (exponent : Int) : Nat → Nat → Nat × Int
  | 0, _ => (0, 0)
  | steps + 1, n =>
    let p := exponent - n + 1
    let (a, b) := pow10Quotient p
    let (num, den) := x.toQuotient
    match x.nearest? (num * b / (den * a)) p with
    | some m => (m, p)
    | none => search x exponent steps (n + 1)

end Binary64

/-- The digits of a natural number, without the zeros it ends with. -/
def trimmedDigits (n : Nat) : List Nat :=
  ((Nat.toDigits 10 n).reverse.dropWhile (· == '0')).reverse.map fun c => c.toNat - 48

/-- The fewest digits that round to a magnitude other than zero.  Seventeen digits always do. -/
def shortest (x : Binary64) : Digits :=
  let (num, den) := x.toQuotient
  let (m, p) := x.search (decimalExponent num den) 17 1
  ⟨trimmedDigits m, p + (Nat.toDigits 10 m).length - 1⟩

/-- How numbers are written: the range of exponents that are written positionally. -/
structure NumberFormat where
  minPositional : Int
  maxPositional : Int

namespace NumberFormat

/-- A digit as a character. -/
def digitChar (d : Nat) : Char := Char.ofNat (48 + d)

/-- Digits as text.  Positional numbers have at least one digit after the point; other numbers
have one digit before the point and an exponent with its sign. -/
def text (f : NumberFormat) (d : Digits) : List Char :=
  let cs := d.digits.map digitChar
  if f.minPositional ≤ d.exponent ∧ d.exponent ≤ f.maxPositional then
    if d.exponent < 0 then "0.".toList ++ List.replicate ((-d.exponent).toNat - 1) '0' ++ cs
    else
      let whole := d.exponent.toNat + 1
      if cs.length ≤ whole then cs ++ List.replicate (whole - cs.length) '0' ++ ".0".toList
      else cs.take whole ++ '.' :: cs.drop whole
  else
    let fraction := if cs.length ≤ 1 then [] else '.' :: cs.drop 1
    cs.take 1 ++ fraction ++ 'e' :: (if d.exponent < 0 then '-' else '+') ::
      Nat.toDigits 10 d.exponent.natAbs

/-- A magnitude as text; zero is `0.0`. -/
def magnitudeText (f : NumberFormat) (x : Binary64) : List Char :=
  if x.mantissa = 0 then "0.0".toList else f.text (shortest x)

end NumberFormat

end SchemaToGo.Decimal
