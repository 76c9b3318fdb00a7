/-!
# Labels of names

A name has labels with dots between them. Characters are first mapped: letters
to lower case, wide forms to their usual ones, marks without width to nothing.
A label with characters past ASCII is written in letters, digits and hyphens
after the mark `xn--`, so that names stay ASCII.

The mapping knows the alphabets of `isSmall` and takes every other character
past ASCII for one that no name has. None of the characters it knows joins with
the next one to a character of its own, and all of them run from left to right,
so that neither the form of a label nor its direction is left to check.
-/

namespace RemoteSession.Url.Label

/-! ## Mapping -/

/-- Whether a number lies between two others, both included. -/
def within (n least most : Nat) : Bool :=
  least ≤ n && n ≤ most

/-- Marks without width, which names leave out. -/
def isIgnorable (n : Nat) : Bool :=
  [0xAD, 0x34F, 0x200B, 0x2060, 0x2064, 0xFEFF].contains n || within n 0x180B 0x180D ||
    within n 0xFE00 0xFE0F

/-- The characters past ASCII that stand in names as they are: the small letters
of Latin, Greek and Cyrillic, kana, ideographs, syllables of Hangul, and faces. -/
def isSmall (n : Nat) : Bool :=
  (within n 0xDF 0xFF && n != 0xF7) ||
    (within n 0x101 0x137 && n % 2 == 1 && n != 0x133) ||
    (within n 0x13A 0x148 && n % 2 == 0 && n != 0x140) ||
    (within n 0x14B 0x177 && n % 2 == 1) || (within n 0x17A 0x17E && n % 2 == 0) ||
    n == 0x390 || within n 0x3AC 0x3CE || within n 0x430 0x45F ||
    within n 0x3041 0x3096 || within n 0x30A1 0x30FA || within n 0x4E00 0x9FA5 ||
    within n 0xAC00 0xD7A3 || within n 0x1F600 0x1F64F

/-- How far a capital letter lies before its small one. -/
def caseShift (n : Nat) : Nat :=
  if within n 0x41 0x5A then 0x20
  else if within n 0xC0 0xDE && n != 0xD7 then 0x20
  else if (within n 0x100 0x137 || within n 0x14A 0x177) && n % 2 == 0 && n != 0x130 then 1
  else if (within n 0x139 0x148 || within n 0x179 0x17E) && n % 2 == 1 then 1
  else if within n 0x391 0x3AB && n != 0x3A2 then 0x20
  else if n == 0x386 then 38
  else if within n 0x388 0x38A then 37
  else if n == 0x38C then 64
  else if within n 0x38E 0x38F then 63
  else if within n 0x400 0x40F then 0x50
  else if within n 0x410 0x42F then 0x20
  else 0

/-- The characters of a name that a character stands for, if it is a known one. -/
def map? (c : Char) : Option (List Char) :=
  let n := c.toNat
  let small := n + caseShift n
  if small < 0x80 || isSmall small then some [Char.ofNat small]
  else if isIgnorable n then some []
  else if n == 0x3002 || n == 0xFF61 then some ['.']
  else if within n 0xFF01 0xFF5E then some [(Char.ofNat (n - 0xFEE0)).toLower]
  else none

/-! ## Writing in ASCII -/

/-- A digit of the base 36: letters first. -/
def digit (n : Nat) : Char :=
  if n < 26 then Char.ofNat (97 + n) else Char.ofNat (22 + n)

/-- The bias for the next difference. -/
def adapt (delta points : Nat) (first : Bool) : Nat :=
  let halved := if first then delta / 700 else delta / 2
  let rec reduce (fuel delta k : Nat) : Nat :=
    match fuel with
    | 0 => k
    | fuel + 1 =>
      if delta > 455 then reduce fuel (delta / 35) (k + 36) else k + 36 * delta / (delta + 38)
  reduce 32 (halved + halved / points) 0

/-- The least digit at a place that is not the last one. -/
def threshold (k bias : Nat) : Nat :=
  if k ≤ bias then 1 else if k ≥ bias + 26 then 26 else k - bias

/-- A difference as digits of growing worth. -/
def varDigits : Nat → Nat → Nat → Nat → List Char
  | 0, _, _, _ => []
  | fuel + 1, q, k, bias =>
    let least := threshold k bias
    if q < least then [digit q]
    else
      digit (least + (q - least) % (36 - least)) ::
        varDigits fuel ((q - least) / (36 - least)) (k + 36) bias

/-- The state of the writer: the difference so far, the bias, how many
characters are placed, and the digits. -/
structure Writer where
  delta : Nat
  bias : Nat
  placed : Nat
  digits : List Char

/-- The places of one code in a label, in their order. -/
def writeCode (plain code : Nat) : Writer → List Nat → Writer
  | w, [] => w
  | w, n :: rest =>
    if n < code then writeCode plain code { w with delta := w.delta + 1 } rest
    else if n = code then
      writeCode plain code
        { delta := 0
          bias := adapt w.delta (w.placed + 1) (w.placed == plain)
          placed := w.placed + 1
          digits := w.digits ++ varDigits 64 w.delta 36 w.bias } rest
    else writeCode plain code w rest

/-- The codes past ASCII of a label, from the least on. -/
def writeCodes (plain : Nat) (label : List Nat) : Nat → Nat → Writer → List Char
  | 0, _, w => w.digits
  | fuel + 1, code, w =>
    match (label.filter (code ≤ ·)).min? with
    | none => w.digits
    | some next =>
      let w := { w with delta := w.delta + (next - code) * (w.placed + 1) }
      let w := writeCode plain next w label
      writeCodes plain label fuel (next + 1) { w with delta := w.delta + 1 }

/-- The mark of a label that is written in ASCII. -/
def mark : List Char :=
  "xn--".toList

/-- A label with characters past ASCII, written in ASCII. -/
def write (label : List Char) : List Char :=
  let plain := label.filter (·.toNat < 0x80)
  let start := if plain.isEmpty then [] else plain ++ ['-']
  mark ++ start ++
    writeCodes plain.length (label.map Char.toNat) (label.length + 1) 0x80
      ⟨0, 72, plain.length, []⟩

/-! ## Reading from ASCII -/

/-- The worth of a digit of the base 36. -/
def digitValue? (c : Char) : Option Nat :=
  if within c.toNat 97 122 then some (c.toNat - 97)
  else if c.isDigit then some (c.toNat - 22)
  else none

/-- A difference of its digits, and what follows them. -/
def readVar? (bias : Nat) : Nat → Nat → Nat → List Char → Option (Nat × List Char)
  | _, _, _, [] => none
  | k, weight, sum, c :: rest => do
    let value ← digitValue? c
    let least := threshold k bias
    if value < least then some (sum + value * weight, rest)
    else readVar? bias (k + 36) (weight * (36 - least)) (sum + value * weight) rest

/-- The codes of a label of the differences between them. -/
def readCodes? (plain : Nat) :
    Nat → Nat → Nat → Nat → List Nat → List Char → Option (List Nat)
  | _, _, _, _, label, [] => some label
  | 0, _, _, _, _, _ => none
  | fuel + 1, code, place, bias, label, digits => do
    let (delta, rest) ← readVar? bias 36 1 0 digits
    let count := label.length + 1
    let code := code + (place + delta) / count
    let place := (place + delta) % count
    readCodes? plain fuel code (place + 1) (adapt delta count (label.length == plain))
      (label.insertIdx place code) rest

/-- The label that a text after the mark stands for. -/
def read? (text : List Char) : Option (List Char) := do
  let digits := (text.reverse.takeWhile (· != '-')).reverse
  let plain := text.take (text.length - digits.length - 1)
  let codes ← readCodes? plain.length digits.length 0x80 0 72 (plain.map Char.toNat) digits
  some (codes.map Char.ofNat)

/-- Whether the mapping leaves a label as it is, and the label needs the mark. -/
def isWritable (label : List Char) : Bool :=
  label.all (fun c => map? c == some [c]) && label.any (·.toNat ≥ 0x80)

/-- A mapped label in ASCII. One that has the mark already must be the writing
of a label. -/
def toAscii? (label : List Char) : Option (List Char) :=
  if label.take 4 = mark then do
    let meant ← read? (label.drop 4)
    if isWritable meant && write meant == label then some label else none
  else if label.all (·.toNat < 0x80) then some label
  else some (write label)

end RemoteSession.Url.Label
