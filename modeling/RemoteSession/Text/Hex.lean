/-!
# Hexadecimal digits

Digits are read in either case of their letters and written in one of them.
-/

namespace RemoteSession.Text

/-- The value of a hexadecimal digit, in either case. -/
def hexValue? (c : Char) : Option Nat :=
  if '0' ≤ c ∧ c ≤ '9' then some (c.toNat - 48)
  else if 'a' ≤ c ∧ c ≤ 'f' then some (c.toNat - 87)
  else if 'A' ≤ c ∧ c ≤ 'F' then some (c.toNat - 55)
  else none

/-- A hexadecimal digit, its letters counted from the one for ten. -/
def hexDigit (ten : Char) (n : Nat) : Char :=
  Char.ofNat (if n < 10 then '0'.toNat + n else ten.toNat + (n - 10))

/-- A hexadecimal digit in upper case. -/
def upperHex (n : Nat) : Char := hexDigit 'A' n

/-- A hexadecimal digit in lower case. -/
def lowerHex (n : Nat) : Char := hexDigit 'a' n

end RemoteSession.Text
