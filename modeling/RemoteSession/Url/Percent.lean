import RemoteSession.Text.Hex
import RemoteSession.Text.Utf8

/-!
# Percent encoding

Octets of a text written as `%` and two digits. Which characters are written so
depends on the place in the address; those past ASCII always are. The form
encoding of queries writes a blank as `+`.
-/

namespace RemoteSession.Url

namespace Percent

/-- An octet as `%` and its two digits. -/
def escape (b : UInt8) : List Char :=
  ['%', Text.upperHex (b.toNat / 16), Text.upperHex (b.toNat % 16)]

/-- A character, escaped when it is past ASCII or in the set. -/
def encodeChar (escaped : Char → Bool) (c : Char) : List Char :=
  if c.toNat < 0x80 && !escaped c then [c] else (String.utf8EncodeChar c).flatMap escape

/-- A text with the characters of a set escaped. -/
def encode (escaped : Char → Bool) (cs : List Char) : List Char :=
  cs.flatMap (encodeChar escaped)

/-- The octets of a text in which each `%` with two digits stands for one. -/
def decode : List UInt8 → List UInt8
  | [] => []
  | [a] => [a]
  | [a, b] => [a, b]
  | a :: h :: l :: rest =>
    if a = 0x25 then
      match Text.hexValue? (Char.ofNat h.toNat), Text.hexValue? (Char.ofNat l.toNat) with
      | some high, some low => UInt8.ofNat (high * 16 + low) :: decode rest
      | _, _ => a :: decode (h :: l :: rest)
    else a :: decode (h :: l :: rest)

/-! ## The sets -/

/-- Control characters of ASCII. -/
def isControl (c : Char) : Bool :=
  c.toNat < 0x20 || c.toNat = 0x7F

/-- Escaped in a fragment. -/
def inFragment (c : Char) : Bool :=
  isControl c || [' ', '"', '<', '>', '\x60'].contains c

/-- Escaped in a path. -/
def inPath (c : Char) : Bool :=
  inFragment c || ['#', '?', '\x7b', '\x7d'].contains c

/-- Escaped in a segment that is added to a path whole. -/
def inSegment (c : Char) : Bool :=
  inPath c || ['/', '%', '\\'].contains c

/-- Escaped in a user name or password. -/
def inUserInfo (c : Char) : Bool :=
  inPath c || ['/', ':', ';', '=', '@', '[', '\\', ']', '^', '|'].contains c

/-- Escaped in a query. -/
def inQuery (c : Char) : Bool :=
  isControl c || [' ', '"', '#', '<', '>', '\''].contains c

/-! ## Forms -/

/-- Characters that a form leaves alone. -/
def isFormSafe (c : Char) : Bool :=
  c.isAlphanum || ['*', '-', '.', '_'].contains c

/-- A character of a form value. -/
def formChar (c : Char) : List Char :=
  if c = ' ' then ['+'] else encodeChar (fun c => !isFormSafe c) c

/-- A name or value of a form. -/
def formEncode (s : String) : List Char :=
  s.toList.flatMap formChar

end Percent

end RemoteSession.Url
