/-!
# Numbers of a document

A numeral is the text of a number split at its marks. It denotes an integer
when it has neither fraction nor exponent, is not `-0` and fits 64 bits, signed
or not; otherwise it denotes a double. A double is reached by the significand
times or divided by one power of ten, so the last bit may differ from the
nearest double; a value past the largest double denotes nothing.
-/

namespace RemoteSession.Json

/-- An integer of 64 bits, signed or unsigned. -/
structure Integer where
  value : Int
  lower : -9223372036854775808 ≤ value
  upper : value < 18446744073709551616
deriving DecidableEq

/-- The integer of this value, if it fits. -/
def Integer.ofInt? (value : Int) : Option Integer :=
  if h : -9223372036854775808 ≤ value ∧ value < 18446744073709551616 then
    some ⟨value, h.1, h.2⟩
  else none

/-- A double, told apart from others by its bits. -/
structure Double where
  bits : UInt64
deriving DecidableEq

namespace Double

/-- The double of a floating point value. -/
def ofFloat (f : Float) : Double :=
  ⟨f.toBits⟩

/-- The floating point value of a double. -/
def toFloat (d : Double) : Float :=
  Float.ofBits d.bits

end Double

/-- A number as a value. -/
inductive Number where
  | integer (i : Integer)
  | double (d : Double)
deriving DecidableEq

/-- An exponent as written: its sign and its digits. -/
structure Exponent where
  negative : Bool
  digits : List Char
deriving DecidableEq

/-- A number as written. An absent fraction has no digits. -/
structure Numeral where
  negative : Bool
  whole : List Char
  fraction : List Char
  exponent : Option Exponent
deriving DecidableEq

namespace Numeral

/-! ## Reading the text -/

/-- Digits of a whole part: at least one, and no zero before another. -/
def isWhole : List Char → Bool
  | [] => false
  | ['0'] => true
  | '0' :: _ => false
  | _ => true

/-- The sign at the start of a text and what follows it. -/
def sign : List Char → Bool × List Char
  | '-' :: rest => (true, rest)
  | cs => (false, cs)

/-- The fraction after the whole part and what follows it. -/
def fractionOf? : List Char → Option (List Char × List Char)
  | '.' :: rest =>
    let digits := rest.takeWhile Char.isDigit
    if digits.isEmpty then none else some (digits, rest.dropWhile Char.isDigit)
  | cs => some ([], cs)

/-- The digits of an exponent after its mark, all of them. -/
def exponentOf? (cs : List Char) : Option Exponent :=
  let (negative, digits) : Bool × List Char := match cs with
    | '-' :: rest => (true, rest)
    | '+' :: rest => (false, rest)
    | rest => (false, rest)
  if !digits.isEmpty && digits.all Char.isDigit then some ⟨negative, digits⟩ else none

/-- The numeral that a text spells. -/
def ofChars? (cs : List Char) : Option Numeral := do
  let (negative, cs) := sign cs
  let whole := cs.takeWhile Char.isDigit
  guard (isWhole whole)
  let (fraction, cs) ← fractionOf? (cs.dropWhile Char.isDigit)
  match cs with
  | [] => some ⟨negative, whole, fraction, none⟩
  | mark :: rest =>
    guard (mark == 'e' || mark == 'E')
    let exponent ← exponentOf? rest
    some ⟨negative, whole, fraction, some exponent⟩

/-! ## The value -/

/-- A number of at most 64 bits times a power of ten. -/
structure Scaled where
  significand : Nat
  power : Int
deriving DecidableEq

/-- Whether the significand has no room for one more digit. -/
def Scaled.isFull (s : Scaled) (digit : Char) : Bool :=
  s.significand * 10 + (digit.toNat - 48) ≥ 18446744073709551616

/-- The whole digits that fit; each one from the first that does not only
raises the power. -/
def scaleWhole (s : Scaled) : List Char → Scaled
  | [] => s
  | c :: rest =>
    if s.isFull c then { s with power := s.power + (rest.length + 1) }
    else scaleWhole { s with significand := s.significand * 10 + (c.toNat - 48) } rest

/-- The digits of the fraction that fit; the others are dropped. -/
def scaleFraction (s : Scaled) : List Char → Scaled
  | [] => s
  | c :: rest =>
    if s.isFull c then s
    else scaleFraction ⟨s.significand * 10 + (c.toNat - 48), s.power - 1⟩ rest

/-- Ten to a power that a double holds. -/
def tenTo (power : Nat) : Float :=
  Float.ofScientific 1 false power

/-- Division by a power of ten, in steps that a double holds. -/
def divideByTenTo (f : Float) (power : Nat) : Float :=
  if power ≤ 308 then f / tenTo power
  else if f == 0 then f
  else divideByTenTo (f / tenTo 308) (power - 308)
termination_by power

/-- The double of a scaled number, if it is not past the largest. -/
def Scaled.toFloat? (s : Scaled) : Option Float :=
  let f := s.significand.toUInt64.toFloat
  if s.power < 0 then some (divideByTenTo f s.power.natAbs)
  else if s.power ≤ 308 then
    let product := f * tenTo s.power.natAbs
    if product.isInf then none else some product
  else if s.significand = 0 then some f
  else none

/-- The significand and power of a numeral without its exponent. -/
def scaled (n : Numeral) : Scaled :=
  scaleFraction (scaleWhole ⟨0, 0⟩ n.whole) n.fraction

/-- An exponent past 31 bits leaves zero of a zero or a negative power. -/
def exponentPower? (significand : Nat) (e : Exponent) : Option (Option Int) :=
  let size := Nat.ofDigitChars 10 e.digits 0
  if size ≤ 2147483647 then some (some (if e.negative then -size else size))
  else if significand = 0 || e.negative then some none
  else none

/-- The number as a double. -/
def double? (n : Numeral) : Option Double := do
  let s := n.scaled
  let f ← match n.exponent with
    | none => s.toFloat?
    | some e =>
      match ← exponentPower? s.significand e with
      | none => some 0.0
      | some power =>
        let sum := s.power + power
        Scaled.toFloat? ⟨s.significand, max (-2147483648) (min 2147483647 sum)⟩
  some (Double.ofFloat (if n.negative then -f else f))

/-- The integer that the digits spell. -/
def wholeValue (n : Numeral) : Int :=
  let size : Int := Nat.ofDigitChars 10 n.whole 0
  if n.negative then -size else size

/-- The value of a numeral, if there is one. -/
def value? (n : Numeral) : Option Number :=
  if n.fraction.isEmpty && n.exponent.isNone && !(n.negative && n.wholeValue == 0) then
    match Integer.ofInt? n.wholeValue with
    | some i => some (.integer i)
    | none => n.double?.map .double
  else n.double?.map .double

end Numeral

end RemoteSession.Json
