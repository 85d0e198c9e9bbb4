/-! Non-negative numbers of double precision, in exact whole-number arithmetic.
Rounding is to the nearest such number, a tie goes to the even mantissa, and a result
beyond the largest is none. A decimal is read with two roundings, that of its digits
and that of one product or quotient with a rounded power of ten, so the number read
need not be the one nearest to the decimal. -/
namespace BraceTemplate

/-- The number `mantissa * 2 ^ exponent`. -/
structure Double where
  mantissa : Nat
  exponent : Int
  deriving DecidableEq, Repr

namespace Double

def zero : Double := ⟨0, 0⟩

/-- The whole number nearest to a quotient. -/
def nearestQuotient (num den : Nat) : Nat :=
  let q := num / den
  let r := num % den
  if den < 2 * r ∨ (den = 2 * r ∧ q % 2 = 1) then q + 1 else q

/-- The quotient `num / den` in units of `2 ^ exponent`, as a quotient again. -/
def inUnits (num den : Nat) (exponent : Int) : Nat × Nat :=
  (num * Nat.pow 2 (-exponent).toNat, den * Nat.pow 2 exponent.toNat)

/-- The exponent at which the quotient has a mantissa of 53 bits, as far as small numbers go. -/
def exponentOf (num den : Nat) : Int :=
  let guess : Int := num.log2 - den.log2 - 53
  let (n, d) := inUnits num den guess
  max (if n < d * Nat.pow 2 53 then guess else guess + 1) (-1074)

/-- The number with this mantissa and exponent, in the one form that each number has; none if it
is beyond the largest. -/
def make? (mantissa : Nat) (exponent : Int) : Option Double :=
  if mantissa = 0 then some zero
  else
    let result : Double :=
      if mantissa = Nat.pow 2 53 then ⟨Nat.pow 2 52, exponent + 1⟩ else ⟨mantissa, exponent⟩
    if result.exponent ≤ 971 then some result else none

/-- The number nearest to `num / den`. -/
def nearest? (num den : Nat) : Option Double :=
  let exponent := exponentOf num den
  let (n, d) := inUnits num den exponent
  make? (nearestQuotient n d) exponent

/-- The number nearest to `num / den * 2 ^ exponent`. -/
def nearestScaled? (num den : Nat) (exponent : Int) : Option Double :=
  nearest? (num * Nat.pow 2 exponent.toNat) (den * Nat.pow 2 (-exponent).toNat)

def mul? (a b : Double) : Option Double :=
  nearestScaled? (a.mantissa * b.mantissa) 1 (a.exponent + b.exponent)

def div? (a b : Double) : Option Double :=
  nearestScaled? a.mantissa b.mantissa (a.exponent - b.exponent)

/-- Powers of ten go up to this one. -/
def tenLimit : Nat := 308

def tenTo (k : Nat) : Double := (nearest? (Nat.pow 10 k) 1).getD zero

/-- The number times a power of ten. A power beyond the limit is taken in parts. -/
def scaleByTen? (a : Double) (power : Int) : Option Double :=
  if power.natAbs ≤ tenLimit then
    if 0 ≤ power then a.mul? (tenTo power.natAbs) else a.div? (tenTo power.natAbs)
  else if a.mantissa = 0 then some a
  else if 0 ≤ power then none
  else (a.div? (tenTo tenLimit)).bind fun smaller => smaller.scaleByTen? (power + tenLimit)
termination_by power.natAbs
decreasing_by
  simp only [tenLimit] at *
  omega

/-- Reads the decimal `digits * 10 ^ power`. -/
def ofDecimal? (digits : Nat) (power : Int) : Option Double :=
  (nearest? digits 1).bind fun a => a.scaleByTen? power

/-- The same number as a whole number times a power of ten. -/
def toDecimal (a : Double) : Nat × Int :=
  (a.mantissa * Nat.pow 2 a.exponent.toNat * Nat.pow 5 (-a.exponent).toNat, min a.exponent 0)

end Double
end BraceTemplate
