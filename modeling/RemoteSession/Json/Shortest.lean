import RemoteSession.Json.Number

/-!
# Shortest decimals

The decimal of a double with the fewest digits among those that read back as
it, the nearest of these, an exact tie to the even digit. All of it is exact
arithmetic on naturals: every double is a whole multiple of `10 ^ -1080` once
its halves and quarters are counted in.

`text` writes that decimal: positional from `10 ^ -5` up to `10 ^ 16`, else
with an exponent that carries its sign.
-/

namespace RemoteSession.Json

/-- A finite positive double and the bounds of what rounds to it, in units of
`10 ^ -1080`. -/
structure Interval where
  value : Nat
  low : Nat
  high : Nat
  closed : Bool

/-- Digits and a power of ten: `digits * 10 ^ power`. -/
structure Decimal where
  digits : Nat
  power : Int
deriving DecidableEq

namespace Interval

/-- Whether a number reads back as the value. -/
def contains (i : Interval) (n : Nat) : Bool :=
  if i.closed then i.low ≤ n && n ≤ i.high else i.low < n && n < i.high

/-- The number of decimal digits of a natural. -/
def width (n : Nat) : Nat :=
  (Nat.toDigits 10 n).length

/-- The multiple of `step` next to the value that reads back and is nearest,
counted in steps. -/
def nearest? (i : Interval) (step : Nat) : Option Nat :=
  let below := i.value / step
  let above := below + 1
  let toBelow := i.value - below * step
  let toAbove := above * step - i.value
  match i.contains (below * step), i.contains (above * step) with
  | true, true =>
    if toBelow < toAbove then some below
    else if toAbove < toBelow then some above
    else some (if below % 2 = 0 then below else above)
  | true, false => some below
  | false, true => some above
  | false, false => none

/-- The decimal with the fewest digits, from `count` digits on. -/
def search (i : Interval) (count : Nat) : Nat → Decimal
  | 0 => ⟨i.value, -1080⟩
  | tries + 1 =>
    let power := width i.value - count
    match i.nearest? (Nat.pow 10 power) with
    | some digits => ⟨digits, (power : Int) - 1080⟩
    | none => i.search (count + 1) tries

end Interval

namespace Decimal

/-- The same decimal without zeros at the end of its digits. -/
def strip (d : Decimal) : Nat → Decimal
  | 0 => d
  | fuel + 1 =>
    if d.digits % 10 = 0 && d.digits ≠ 0 then strip ⟨d.digits / 10, d.power + 1⟩ fuel else d

/-- A run of zeros. -/
def zeros (n : Int) : List Char :=
  List.replicate n.toNat '0'

/-- The written form: a whole number keeps `.0`, an exponent its sign. -/
def chars (d : Decimal) : List Char :=
  let digits := Nat.toDigits 10 d.digits
  let point := (digits.length : Int) + d.power
  if 0 ≤ d.power && point ≤ 16 then digits ++ zeros d.power ++ ['.', '0']
  else if 0 < point && point ≤ 16 then
    digits.take point.toNat ++ '.' :: digits.drop point.toNat
  else if -5 < point && point ≤ 0 then '0' :: '.' :: zeros (-point) ++ digits
  else
    let exponent := point - 1
    let mark := if exponent < 0 then ['e', '-'] else ['e', '+']
    let tail := mark ++ Nat.toDigits 10 exponent.natAbs
    match digits with
    | [] => tail
    | [d] => d :: tail
    | d :: rest => d :: '.' :: rest ++ tail

end Decimal

namespace Double

/-- The bits of the fraction, which are the lower 52. -/
def fraction (d : Double) : Nat :=
  d.bits.toNat % (1 <<< 52)

/-- The bits of the exponent, which are the eleven above the fraction. -/
def exponent (d : Double) : Nat :=
  (d.bits.toNat >>> 52) % (1 <<< 11)

/-- The bits of the fraction, with the leading bit of a normal double. -/
def significand (d : Double) : Nat :=
  if d.exponent = 0 then d.fraction else (1 <<< 52) + d.fraction

/-- The power of two that the significand counts, plus 1074. -/
def scale (d : Double) : Nat :=
  d.exponent - 1

/-- Whether the double below is nearer than the one above. -/
def isNarrow (d : Double) : Bool :=
  d.fraction = 0 && 1 < d.exponent

/-- What rounds to the double, its sign aside. A quarter of the significand's
unit is `2 ^ (scale - 1076)`, hence `5 ^ 1080 * 2 ^ (scale + 4)` units. -/
def interval (d : Double) : Interval :=
  let quarter := Nat.pow 5 1080 <<< (d.scale + 4)
  let m := d.significand
  ⟨4 * m * quarter, (4 * m - (if d.isNarrow then 1 else 2)) * quarter, (4 * m + 2) * quarter,
    m % 2 = 0⟩

/-- Whether the sign bit is set. -/
def isNegative (d : Double) : Bool :=
  d.bits.toNat >>> 63 = 1

/-- The written form of a finite double. -/
def chars (d : Double) : List Char :=
  let unsigned :=
    if d.significand = 0 then ['0', '.', '0']
    else ((d.interval.search 1 17).strip 20).chars
  if d.isNegative then '-' :: unsigned else unsigned

end Double

end RemoteSession.Json
