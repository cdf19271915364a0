import Descent.Binary64.Basic

/-!
The double nearest to a decimal number. The quotient is kept exact up to the one rounding, a half
goes to the even neighbor, and what lies past the largest double is infinite.
-/
namespace Descent.Binary64

/-- The quotient rounded to the nearest integer, a half to the even one. -/
def roundDiv (num den : Nat) : Nat :=
  let q := num / den
  let twice := 2 * (num % den)
  if den < twice then q + 1 else if twice = den then q + q % 2 else q

/-- The exponent of the last place of `num / den`: the significand has 53 bits unless that would
go below the least exponent. -/
def lastPlace (num den : Nat) : Int :=
  let guess : Int := (Nat.log2 num : Int) - Nat.log2 den
  let reached :=
    if 0 ≤ guess then den * Nat.pow 2 guess.toNat ≤ num
    else den ≤ num * Nat.pow 2 (-guess).toNat
  max leastExponent ((if reached then guess else guess - 1) - 52)

/-- The double nearest to `num / den`, for positive `num` and `den`. A significand that rounds up
to the next power of two carries into the exponent field. -/
def ofRatio (num den : Nat) : Binary64 :=
  let place := lastPlace num den
  let significand :=
    if 0 ≤ place then roundDiv num (den * Nat.pow 2 place.toNat)
    else roundDiv (num * Nat.pow 2 (-place).toNat) den
  let bits :=
    if significand < unit then significand
    else (place - leastExponent).toNat * unit + significand
  if bits < infinity.bits.toNat then ⟨UInt64.ofNat bits⟩ else infinity

/-- The double nearest to `mantissa * 10 ^ exponent`. Exponents that can only give infinity or zero
are answered without computing the power. -/
def ofScientific (mantissa : Nat) (exponent : Int) : Binary64 :=
  if mantissa = 0 then zero
  else if 310 ≤ exponent then infinity
  else if exponent + Nat.log2 mantissa + 325 ≤ 0 then zero
  else if 0 ≤ exponent then ofRatio (mantissa * Nat.pow 10 exponent.toNat) 1
  else ofRatio mantissa (Nat.pow 10 (-exponent).toNat)

end Descent.Binary64
