import RemoteSession.Url.Label
import RemoteSession.Url.Percent

/-!
# Hosts

A host is a name or an address. A text in brackets is an address of eight
pieces; a name whose last label is a number is an address of four octets, in
any of the spellings that numbers have there; every other name is kept in
lower case, and in ASCII.
-/

namespace RemoteSession

namespace Url

/-- Why a text is no address. -/
inductive Fault where
  | emptyHost
  | invalidName
  | invalidPort
  | invalidIpv4
  | invalidIpv6
  | invalidNameChar
  | missingScheme
deriving DecidableEq, Repr

/-- The wording of a fault. -/
def Fault.message : Fault → String
  | .emptyHost => "empty host"
  | .invalidName => "invalid international domain name"
  | .invalidPort => "invalid port number"
  | .invalidIpv4 => "invalid IPv4 address"
  | .invalidIpv6 => "invalid IPv6 address"
  | .invalidNameChar => "invalid domain character"
  | .missingScheme => "relative URL without a base"

/-- A host: a name, an address of 32 bits, or eight pieces of 16 bits. -/
inductive Host where
  | name (word : String)
  | ipv4 (address : Nat)
  | ipv6 (pieces : List Nat)
deriving DecidableEq, Repr

/-- The parts of a text between the separators, at least one. -/
def splitAt (isSeparator : Char → Bool) : List Char → List (List Char)
  | [] => [[]]
  | c :: rest =>
    if isSeparator c then [] :: splitAt isSeparator rest
    else
      match splitAt isSeparator rest with
      | part :: parts => (c :: part) :: parts
      | [] => [[c]]

namespace Host

/-! ## Addresses of four octets -/

/-- The value of digits in a base, if all of them are digits of it. -/
def digitsValue? (base : Nat) : List Char → Nat → Option Nat
  | [], value => some value
  | c :: rest, value => do
    let digit ← Text.hexValue? c
    if digit < base then digitsValue? base rest (value * base + digit) else none

/-- A number of an address: hexadecimal after `0x`, octal after `0`, else
decimal. A prefix alone is zero. -/
def number? : List Char → Option Nat
  | [] => none
  | '0' :: 'x' :: rest => digitsValue? 16 rest 0
  | '0' :: 'X' :: rest => digitsValue? 16 rest 0
  | '0' :: rest => digitsValue? 8 rest 0
  | cs => digitsValue? 10 cs 0

/-- The labels of a name, an empty one at the end left out. -/
def labels (name : List Char) : List (List Char) :=
  let parts := splitAt (· == '.') name
  if parts.length > 1 && parts.getLast? == some [] then parts.dropLast else parts

/-- Whether the last label is a number, so that the name must be an address. -/
def endsInNumber (name : List Char) : Bool :=
  match (labels name).getLast? with
  | none => false
  | some last => (!last.isEmpty && last.all Char.isDigit) || (number? last).isSome

/-- The address of a name. The last number fills the octets that the others
leave. -/
def ipv4Of? (name : List Char) : Option Nat := do
  let parts := labels name
  if parts.length > 4 then none else
  let numbers ← parts.mapM number?
  let last ← numbers.getLast?
  let first := numbers.dropLast
  if last ≥ 1 <<< (8 * (4 - first.length)) || first.any (· > 255) then none
  else some (first.zipIdx.foldl (fun sum e => sum + e.1 <<< (8 * (3 - e.2))) last)

/-- An address in its usual form. -/
def ipv4Text (address : Nat) : String :=
  ".".intercalate ([3, 2, 1, 0].map fun i => toString ((address >>> (8 * i)) % 256))

/-! ## Addresses of eight pieces -/

/-- A piece: one to four hexadecimal digits. -/
def piece? (field : List Char) : Option Nat :=
  if field.isEmpty || field.length > 4 then none else digitsValue? 16 field 0

/-- An octet in decimal without leading zeros. -/
def octet? (cs : List Char) : Option Nat := do
  if cs.isEmpty || (cs.length > 1 && cs.head? == some '0') then none else
  let value ← digitsValue? 10 cs 0
  if value > 255 then none else some value

/-- The two pieces of an address of four octets. -/
def dottedPieces? (field : List Char) : Option (List Nat) := do
  match ← (splitAt (· == '.') field).mapM octet? with
  | [a, b, c, d] => some [a * 256 + b, c * 256 + d]
  | _ => none

/-- The pieces of the fields of an address; the last field may be an address
of four octets. -/
def pieces? : List (List Char) → Option (List Nat)
  | [] => some []
  | [last] => if last.contains '.' then dottedPieces? last else (piece? last).map ([·])
  | field :: rest => do
    let piece ← piece? field
    let pieces ← pieces? rest
    some (piece :: pieces)

/-- The fields of an address with one empty field for the gap, wherever the
gap stands. An empty field at either end is a fault unless the gap is there. -/
def fields? (text : List Char) : Option (List (List Char)) :=
  let fields := splitAt (· == ':') text
  let opened : Option (List (List Char)) := match fields with
    | [] :: [] :: third :: rest => some ([] :: third :: rest)
    | [] :: _ => none
    | fields => some fields
  match opened.map List.reverse with
  | some ([] :: [] :: rest) => some ([] :: rest).reverse
  | some ([] :: _ :: _) => none
  | other => other.map List.reverse

/-- The eight pieces of a text. A gap stands for one zero piece or more. -/
def ipv6Of? (text : List Char) : Option (List Nat) := do
  let fields ← fields? text
  let before := fields.takeWhile (!·.isEmpty)
  match fields.drop before.length with
  | [] =>
    let pieces ← pieces? before
    if pieces.length = 8 then some pieces else none
  | _ :: after =>
    if before.any (·.contains '.') then none else
    let left ← pieces? before
    let right ← pieces? after
    let count := left.length + right.length
    if count ≤ 7 then some (left ++ List.replicate (8 - count) 0 ++ right) else none

/-- The length of the run of zeros at the start. -/
def zeroRun (pieces : List Nat) : Nat :=
  (pieces.takeWhile (· == 0)).length

/-- Start and length of the first longest run of zeros. -/
def longestRun (pieces : List Nat) : Nat × Nat :=
  (List.range pieces.length).foldl (fun best i =>
    let run := zeroRun (pieces.drop i)
    if run > best.2 then (i, run) else best) (0, 0)

/-- Pieces with colons between them. -/
def piecesText (pieces : List Nat) : String :=
  ":".intercalate (pieces.map fun p => String.ofList (Nat.toDigits 16 p))

/-- An address in its usual form: the first longest run of two zeros or more
is a gap. -/
def ipv6Text (pieces : List Nat) : String :=
  let (start, run) := longestRun pieces
  if run < 2 then piecesText pieces
  else piecesText (pieces.take start) ++ "::" ++ piecesText (pieces.drop (start + run))

/-! ## Names -/

/-- Characters that no name has. -/
def isForbiddenInName (c : Char) : Bool :=
  Percent.isControl c ||
    [' ', '#', '/', ':', '<', '>', '?', '@', '[', '\\', ']', '^', '|', '%'].contains c

/-- The name that octets spell: its characters mapped and its labels in
ASCII. -/
def nameOf? (octets : List UInt8) : Option (List Char) := do
  let text ← Text.Utf8.decode? octets
  let mapped ← text.toList.mapM Label.map?
  let labels ← (splitAt (· == '.') mapped.flatten).mapM Label.toAscii?
  let name := List.intercalate ['.'] labels
  if name.any isForbiddenInName then none else some name

/-- A text in brackets. -/
def bracketed? (text : List Char) : Option (List Char) :=
  match text.reverse with
  | ']' :: inner => some (inner.reverse.drop 1)
  | _ => none

/-- A host in brackets. -/
def ofBracketed (text : List Char) : Except Fault Host :=
  match (bracketed? text).bind ipv6Of? with
  | some pieces => .ok (.ipv6 pieces)
  | none => .error .invalidIpv6

/-- The host of a text, as the schemes of the web read it. -/
def parse (text : List Char) : Except Fault Host :=
  if text.head? = some '[' then ofBracketed text
  else
    match nameOf? (Percent.decode (Text.Utf8.encode (String.ofList text))) with
    | none => .error .invalidName
    | some [] => .error .emptyHost
    | some word =>
      if endsInNumber word then
        match ipv4Of? word with
        | some address => .ok (.ipv4 address)
        | none => .error .invalidIpv4
      else .ok (.name (String.ofList word))

/-- Characters that no opaque host has. -/
def isForbiddenInOpaque (c : Char) : Bool :=
  ['\x00', '\t', '\n', '\r', ' ', '#', '/', ':', '<', '>', '?', '@', '[', '\\', ']', '^',
    '|'].contains c

/-- The host of a text under any other scheme: its characters as they are. -/
def parseOpaque (text : List Char) : Except Fault Host :=
  if text.head? = some '[' then ofBracketed text
  else if text.any isForbiddenInOpaque then .error .invalidNameChar
  else .ok (.name (String.ofList (Percent.encode Percent.isControl text)))

/-- The written form of a host. -/
def text : Host → String
  | .name word => word
  | .ipv4 address => ipv4Text address
  | .ipv6 pieces => "[" ++ ipv6Text pieces ++ "]"

end Host

end Url

end RemoteSession
