set_option autoImplicit false

/-!
# Binary numbers of 53 digits

Magnitudes `mantissa · 2 ^ exponent` whose mantissa has at most 53 binary digits.  Every operation
takes the exact result, a quotient of natural numbers, to the nearest magnitude; of two that are
equally near it takes the one with the even mantissa.

Magnitudes occur in the reports on mismatched values only (SPEC_FULL.md section 7), which show the
value that was found.
-/

namespace SchemaToGo.Decimal

/-- A quotient of natural numbers, rounded to the nearest natural number, a tie to the even one. -/
def roundHalfEven (num den : Nat) : Nat :=
  let q := num / den
  let r := num % den
  if 2 * r < den then q else if den < 2 * r then q + 1 else if q % 2 = 0 then q else q + 1

/-- A magnitude `mantissa · 2 ^ exponent`. -/
structure Binary64 where
  mantissa : Nat
  exponent : Int
  deriving DecidableEq, Repr

namespace Binary64

/-- The least exponent.  Smaller magnitudes have fewer than 53 digits. -/
def minExponent : Int := -1074

/-- The greatest exponent. -/
def maxExponent : Int := 971

/-- The quotient `num / den` divided by `2 ^ e`, as numerator and denominator. -/
def scale (num den : Nat) (e : Int) : Nat × Nat :=
  if 0 ≤ e then (num, den * Nat.pow 2 e.toNat) else (num * Nat.pow 2 (-e).toNat, den)

/-- The magnitude nearest to a quotient of natural numbers, its exponent not bounded above. -/
def ofQuotient (num den : Nat) : Binary64 :=
  if num = 0 then ⟨0, minExponent⟩
  else
    let guess : Int := (num.log2 : Int) - (den.log2 : Int) - 53
    let (n, d) := scale num den guess
    let e := max minExponent (if Nat.pow 2 53 ≤ n / d then guess + 1 else guess)
    let (n, d) := scale num den e
    let m := roundHalfEven n d
    if m = Nat.pow 2 53 then ⟨Nat.pow 2 52, e + 1⟩ else ⟨m, e⟩

/-- The magnitude nearest to a natural number. -/
def ofNat (n : Nat) : Binary64 := ofQuotient n 1

/-- The magnitude as a quotient of natural numbers. -/
def toQuotient (x : Binary64) : Nat × Nat :=
  if 0 ≤ x.exponent then (x.mantissa * Nat.pow 2 x.exponent.toNat, 1)
  else (x.mantissa, Nat.pow 2 (-x.exponent).toNat)

/-- The product of two magnitudes, rounded. -/
def mul (x y : Binary64) : Binary64 :=
  let (a, b) := x.toQuotient
  let (c, d) := y.toQuotient
  ofQuotient (a * c) (b * d)

/-- The quotient of two magnitudes, rounded. -/
def div (x y : Binary64) : Binary64 :=
  let (a, b) := x.toQuotient
  let (c, d) := y.toQuotient
  ofQuotient (a * d) (b * c)

/-- The magnitude is beyond the greatest finite one. -/
def isInfinite (x : Binary64) : Bool := maxExponent < x.exponent

/-- The magnitude nearest to a power of ten. -/
def pow10 (k : Nat) : Binary64 := ofNat (Nat.pow 10 k)

/-- The magnitude divided by ten to the power of `k`, in steps of at most 308 powers. -/
def divPow10 (x : Binary64) (k : Nat) : Binary64 :=
  if x.mantissa = 0 then x
  else if k ≤ 308 then x.div (pow10 k)
  else divPow10 (x.div (pow10 308)) (k - 308)
termination_by k

/-- The magnitude times ten to the power of `k`, unless it is too large. -/
def mulPow10? (x : Binary64) (k : Nat) : Option Binary64 :=
  if 308 < k then if x.mantissa = 0 then some x else none
  else
    let y := x.mul (pow10 k)
    if y.isInfinite then none else some y

/-- The magnitude `significand · 10 ^ exponent`, unless it is too large.  The significand is
rounded first, then the scaled result. -/
def ofDecimal? (significand : Nat) (exponent : Int) : Option Binary64 :=
  let x := ofNat significand
  if 0 ≤ exponent then x.mulPow10? exponent.toNat else some (x.divPow10 (-exponent).toNat)

end Binary64

end SchemaToGo.Decimal
