import Descent.Binary64.Basic

/-!
Doubles as text: the fewest digits that read back as the same double, written without an
exponent.
-/
namespace Descent.Binary64

/-- A number `center / scale` and the bounds `low / scale` and `high / scale` between which every
real rounds to it, the bounds themselves when `closed`. -/
structure Interval where
  low : Nat
  center : Nat
  high : Nat
  scale : Nat
  closed : Bool

/-- The reals that round to `significand * 2 ^ exponent`. Below a power of two the neighbor is
half as far away. -/
def interval (significand : Nat) (exponent : Int) : Interval :=
  let below := if significand = unit then 1 else 2
  let quarter := exponent - 2
  let factor := Nat.pow 2 quarter.toNat
  { low := (4 * significand - below) * factor
    center := 4 * significand * factor
    high := (4 * significand + 2) * factor
    scale := Nat.pow 2 (-quarter).toNat
    closed := significand % 2 == 0 }

namespace Interval

/-- Whether `digits * 10 ^ power` lies in the interval. -/
def holds (i : Interval) (digits : Nat) (power : Int) : Bool :=
  let point := digits * Nat.pow 10 power.toNat * i.scale
  let shift := Nat.pow 10 (-power).toNat
  if i.closed then i.low * shift ≤ point && point ≤ i.high * shift
  else i.low * shift < point && point < i.high * shift

/-- The multiple of `10 ^ power` next to the center that lies in the interval, by its count; of two
the nearer, and the upper one when both are as near. -/
def multiple? (i : Interval) (power : Int) : Option Nat :=
  let num := i.center * Nat.pow 10 (-power).toNat
  let den := i.scale * Nat.pow 10 power.toNat
  let digits := num / den
  match i.holds digits power, i.holds (digits + 1) power with
  | false, false => none
  | true, false => some digits
  | false, true => some (digits + 1)
  | true, true => if (2 * digits + 1) * den ≤ 2 * num then some (digits + 1) else some digits

/-- The coarsest power of ten with a multiple in the interval, and that multiple. No double needs
a power outside the range searched. -/
def shortest (i : Interval) : Nat × Int :=
  ((List.range 634).findSome? fun (k : Nat) =>
    let power : Int := 309 - k
    (i.multiple? power).map (·, power)).getD (0, 0)

end Interval

/-- The digits of `digits * 10 ^ power` with a point where one is needed. -/
def positional (digits : Nat) (power : Int) : String :=
  let ds := Nat.toDigits 10 digits
  let places := (-power).toNat
  let text :=
    if 0 ≤ power then ds ++ List.replicate power.toNat '0'
    else if places < ds.length then
      ds.take (ds.length - places) ++ '.' :: ds.drop (ds.length - places)
    else '0' :: '.' :: (List.replicate (places - ds.length) '0' ++ ds)
  String.ofList text

/-- The text of a double. No part is written that carries nothing: neither a point after the last
digit nor a sign of a NaN. -/
def text (x : Binary64) : String :=
  let signed (negative : Bool) (t : String) := if negative then "-" ++ t else t
  match x.value with
  | .nan => "NaN"
  | .infinite negative => signed negative "inf"
  | .finite negative 0 _ => signed negative "0"
  | .finite negative significand exponent =>
    let (digits, power) := (interval significand exponent).shortest
    signed negative (positional digits power)

end Descent.Binary64
