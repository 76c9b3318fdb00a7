import RemoteSession.Toml.Text
import RemoteSession.Toml.Tree

/-!
# Reading TOML

`parse?` reads a text line by line: comments, headers, and keys with values.
Each reader takes the characters that still come and gives what it read and
what follows. Arrays and inline tables nest to a fixed depth.
-/

namespace RemoteSession.Toml

/-! ## Blanks, comments and line ends -/

/-- The characters after blanks. -/
def skipBlanks (cs : List Char) : List Char :=
  cs.dropWhile isBlank

/-- The characters after a comment, if one stands here. -/
def skipComment (cs : List Char) : List Char :=
  match cs with
  | '#' :: rest => rest.dropWhile isPlain
  | _ => cs

/-- The characters after a line end. -/
def lineEnd? : List Char → Option (List Char)
  | '\n' :: rest => some rest
  | '\r' :: '\n' :: rest => some rest
  | _ => none

/-- The characters after blanks, a comment and the end of the line or of the
text. -/
def restOfLine? (cs : List Char) : Option (List Char) :=
  match skipComment (skipBlanks cs) with
  | [] => some []
  | rest => lineEnd? rest

/-- The characters after blanks, comments and line ends, as they may stand
between the items of an array. -/
def skipLines? : Nat → List Char → Option (List Char)
  | 0, cs => some cs
  | fuel + 1, cs =>
    match skipBlanks cs with
    | '#' :: rest => (lineEnd? (rest.dropWhile isPlain)).bind (skipLines? fuel)
    | '\n' :: rest => skipLines? fuel rest
    | '\r' :: '\n' :: rest => skipLines? fuel rest
    | '\r' :: _ => none
    | rest => some rest

/-! ## Keys -/

/-- A key without dots. -/
def simpleKey? (cs : List Char) : Option (String × List Char) :=
  match readLineString cs with
  | some (text, rest) => some (String.ofList text, rest)
  | none =>
    let bare := cs.takeWhile isBareKeyChar
    if bare.isEmpty then none else some (String.ofList bare, cs.dropWhile isBareKeyChar)

/-- Keys with dots and blanks between them. -/
def key? : Nat → List Char → Option (List String × List Char)
  | 0, _ => none
  | fuel + 1, cs => do
    let (first, rest) ← simpleKey? (skipBlanks cs)
    match skipBlanks rest with
    | '.' :: rest =>
      let (others, rest) ← key? fuel rest
      some (first :: others, rest)
    | rest => some ([first], rest)

/-- How deep values and keys may nest. -/
def depthLimit : Nat := 80

/-- The way of a dotted key and its last part. -/
def splitKey? (keys : List String) : Option (List String × String) :=
  if keys.length < depthLimit then keys.getLast?.map fun last => (keys.dropLast, last) else none

/-! ## Numbers and dates -/

/-- Digits with single underscores between them. -/
def digitRun (isDigit : Char → Bool) : List Char → List Char × List Char
  | [] => ([], [])
  | '_' :: c :: rest =>
    if isDigit c then
      let (digits, after) := digitRun isDigit rest
      (c :: digits, after)
    else ([], '_' :: c :: rest)
  | c :: rest =>
    if isDigit c then
      let (digits, after) := digitRun isDigit rest
      (c :: digits, after)
    else ([], c :: rest)

/-- A run that begins with a digit. -/
def digits? (isDigit : Char → Bool) (cs : List Char) : Option (List Char × List Char) :=
  match cs with
  | c :: _ => if isDigit c then some (digitRun isDigit cs) else none
  | [] => none

/-- A sign and what follows it. -/
def sign (cs : List Char) : Bool × List Char :=
  match cs with
  | '-' :: rest => (true, rest)
  | '+' :: rest => (false, rest)
  | _ => (false, cs)

/-- The digits of a decimal: a zero stands alone. -/
def decimal? (cs : List Char) : Option (List Char × List Char) :=
  match cs with
  | '0' :: rest => some (['0'], rest)
  | _ => digits? Char.isDigit cs

/-- The value of digits in a base. -/
def valueOf (base : Nat) (digits : List Char) : Nat :=
  digits.foldl (fun n c => n * base + (Text.hexValue? c).getD 0) 0

/-- An integer of 64 bits with sign. -/
def integerNode? (value : Int) : Option Node :=
  if -9223372036854775808 ≤ value ∧ value ≤ 9223372036854775807 then some (.integer value)
  else none

/-- An integer in one of the bases that have a mark. -/
def based? (base : Nat) (cs : List Char) : Option (Node × List Char) := do
  let isDigit := fun c => match Text.hexValue? c with
    | some d => d < base
    | none => false
  let (digits, rest) ← digits? isDigit cs
  let node ← integerNode? (valueOf base digits)
  some (node, rest)

/-- An integer. -/
def integer? (cs : List Char) : Option (Node × List Char) :=
  match cs with
  | '0' :: 'x' :: rest => based? 16 rest
  | '0' :: 'o' :: rest => based? 8 rest
  | '0' :: 'b' :: rest => based? 2 rest
  | _ => do
    let (negative, rest) := sign cs
    let (digits, rest) ← decimal? rest
    let size : Int := valueOf 10 digits
    let node ← integerNode? (if negative then -size else size)
    some (node, rest)

/-- An exponent: its mark, a sign and digits. -/
def exponent? (cs : List Char) : Option (Int × List Char) :=
  match cs with
  | mark :: rest =>
    if mark == 'e' || mark == 'E' then do
      let (negative, rest) := sign rest
      let (digits, rest) ← digits? Char.isDigit rest
      let size : Int := valueOf 10 digits
      some (if negative then -size else size, rest)
    else none
  | [] => none

/-- Whether a decimal lies past the greatest double, as no positive number
may. -/
def overflows (digits : Nat) (power : Int) : Bool :=
  if digits = 0 then false
  else if power > 400 then true
  else if power < 0 then (Float.ofScientific digits true power.natAbs).isInf
  else (Float.ofScientific digits false power.natAbs).isInf

/-- A number with a fraction or an exponent. -/
def float? (cs : List Char) : Option (Node × List Char) := do
  let (negative, rest) := sign cs
  let (whole, rest) ← decimal? rest
  let (fraction, rest, marked) : List Char × List Char × Bool ← match rest with
    | '.' :: after => (digits? Char.isDigit after).map fun p => (p.1, p.2, true)
    | _ => some ([], rest, false)
  let (power, rest) : Int × List Char ← match exponent? rest with
    | some found => some found
    | none => if marked then some (0, rest) else none
  if !negative && overflows (valueOf 10 (whole ++ fraction)) (power - fraction.length) then none
  else some (.float, rest)

/-- The numbers without digits. -/
def special? (cs : List Char) : Option (Node × List Char) :=
  match (sign cs).2 with
  | 'i' :: 'n' :: 'f' :: rest => some (.float, rest)
  | 'n' :: 'a' :: 'n' :: rest => some (.float, rest)
  | _ => none

/-- A field of a date: so many digits with a value between two bounds. -/
def field? (width least most : Nat) (cs : List Char) : Option (Nat × List Char) :=
  let digits := cs.take width
  let value := valueOf 10 digits
  if digits.length = width && digits.all Char.isDigit && least ≤ value && value ≤ most then
    some (value, cs.drop width)
  else none

/-- The characters after a mark. -/
def mark? (mark : Char) (cs : List Char) : Option (List Char) :=
  match cs with
  | c :: rest => if c = mark then some rest else none
  | [] => none

/-- The days of a month. -/
def daysOf (year month : Nat) : Nat :=
  if month = 2 then
    if year % 4 = 0 && (year % 100 ≠ 0 || year % 400 = 0) then 29 else 28
  else if [4, 6, 9, 11].contains month then 30
  else 31

/-- A day of the calendar. -/
def day? (cs : List Char) : Option (List Char) := do
  let (year, cs) ← field? 4 0 9999 cs
  let (month, cs) ← field? 2 1 12 (← mark? '-' cs)
  let (_, cs) ← field? 2 1 (daysOf year month) (← mark? '-' cs)
  some cs

/-- A fraction of a second, if one stands here. -/
def skipFraction (cs : List Char) : List Char :=
  match cs with
  | '.' :: c :: rest => if c.isDigit then rest.dropWhile Char.isDigit else cs
  | _ => cs

/-- A time of day. -/
def time? (cs : List Char) : Option (List Char) := do
  let (_, cs) ← field? 2 0 23 cs
  let (_, cs) ← field? 2 0 59 (← mark? ':' cs)
  let (_, cs) ← field? 2 0 60 (← mark? ':' cs)
  some (skipFraction cs)

/-- The distance of a time from the common one. -/
def offset? (cs : List Char) : Option (List Char) :=
  match cs with
  | 'Z' :: rest => some rest
  | 'z' :: rest => some rest
  | c :: rest =>
    if c == '+' || c == '-' then do
      let (_, rest) ← field? 2 0 23 rest
      let (_, rest) ← field? 2 0 59 (← mark? ':' rest)
      some rest
    else none
  | [] => none

/-- The time after a day, if one stands here. -/
def timeAfterDay (cs : List Char) : List Char :=
  match cs with
  | c :: rest =>
    if c == 'T' || c == 't' || c == ' ' then
      match time? rest with
      | some rest => (offset? rest).getD rest
      | none => cs
    else cs
  | [] => cs

/-- A date, a time, or both. -/
def date? (cs : List Char) : Option (Node × List Char) :=
  match day? cs with
  | some rest => some (.date, timeAfterDay rest)
  | none => (time? cs).map fun rest => (.date, rest)

/-- A number or a date. -/
def number? (cs : List Char) : Option (Node × List Char) :=
  date? cs <|> float? cs <|> special? cs <|> integer? cs

/-- A value that holds no others. -/
def scalar? (cs : List Char) : Option (Node × List Char) :=
  match cs with
  | 't' :: 'r' :: 'u' :: 'e' :: rest => some (.boolean true, rest)
  | 'f' :: 'a' :: 'l' :: 's' :: 'e' :: rest => some (.boolean false, rest)
  | c :: _ =>
    if c == '"' || c == '\'' then
      (readString cs).map fun (text, rest) => (.text (String.ofList text), rest)
    else if c.isDigit || c == '+' || c == '-' then number? cs
    else if c == 'i' || c == 'n' then special? cs
    else none
  | [] => none

/-! ## Values -/

mutual

/-- A value. Arrays and inline tables nest no deeper than `depth`. -/
def value? (depth : Nat) : Nat → List Char → Option (Node × List Char)
  | 0, _ => none
  | fuel + 1, cs =>
    match cs with
    | '[' :: rest =>
      if depth = 0 then none
      else (items? (depth - 1) fuel rest).map fun (items, rest) => (.array items, rest)
    | '\x7b' :: rest =>
      if depth = 0 then none
      else
        match skipBlanks rest with
        | '\x7d' :: rest => some (.table .inline [], rest)
        | _ =>
          (pairs? (depth - 1) fuel [] rest).map fun (entries, rest) =>
            (.table .inline entries, rest)
    | _ => scalar? cs

/-- The items of an array up to its end. -/
def items? (depth : Nat) : Nat → List Char → Option (List Node × List Char)
  | 0, _ => none
  | fuel + 1, cs => do
    match ← skipLines? (cs.length + 1) cs with
    | ']' :: rest => some ([], rest)
    | cs =>
      let (item, rest) ← value? depth fuel cs
      match ← skipLines? (rest.length + 1) rest with
      | ']' :: rest => some ([item], rest)
      | ',' :: rest =>
        let (items, rest) ← items? depth fuel rest
        some (item :: items, rest)
      | _ => none

/-- The pairs of an inline table up to its end. -/
def pairs? (depth : Nat) : Nat → Entries → List Char → Option (Entries × List Char)
  | 0, _, _ => none
  | fuel + 1, found, cs => do
    let (keys, rest) ← key? (cs.length + 1) cs
    let rest ← mark? '=' rest
    let (path, key) ← splitKey? keys
    let (node, rest) ← value? depth fuel (skipBlanks rest)
    let found ← Entries.add? found path key node
    match skipBlanks rest with
    | '\x7d' :: rest => some (found, rest)
    | ',' :: rest => pairs? depth fuel found rest
    | _ => none

end

/-! ## Lines -/

/-- The path of a header up to its closing brackets. -/
def header? (repeated : Bool) (cs : List Char) : Option (List String × List Char) := do
  let (keys, rest) ← key? (cs.length + 1) cs
  let _ ← splitKey? keys
  let rest ← mark? ']' rest
  let rest ← if repeated then mark? ']' rest else some rest
  some (keys, rest)

/-- One line that is neither empty nor only a comment. -/
def line? (b : Builder) (cs : List Char) : Option (Builder × List Char) :=
  match cs with
  | '[' :: '[' :: rest => do
    let (path, rest) ← header? true rest
    let rest ← restOfLine? rest
    let b ← b.openTable? true path
    some (b, rest)
  | '[' :: rest => do
    let (path, rest) ← header? false rest
    let rest ← restOfLine? rest
    let b ← b.openTable? false path
    some (b, rest)
  | _ => do
    let (keys, rest) ← key? (cs.length + 1) cs
    let rest ← mark? '=' rest
    let (path, key) ← splitKey? keys
    let (node, rest) ← value? (depthLimit - 1) (2 * rest.length + 2) (skipBlanks rest)
    let rest ← restOfLine? rest
    let b ← b.add? path key node
    some (b, rest)

/-- All lines to the end of the text. -/
def lines? : Nat → Builder → List Char → Option Builder
  | 0, _, _ => none
  | fuel + 1, b, cs =>
    match skipBlanks cs with
    | [] => some b
    | '#' :: rest => do
      let rest ← restOfLine? ('#' :: rest)
      lines? fuel b rest
    | '\n' :: rest => lines? fuel b rest
    | '\r' :: '\n' :: rest => lines? fuel b rest
    | cs => do
      let (b, rest) ← line? b cs
      lines? fuel b rest

/-- The mark that may open a text. -/
def dropMark (cs : List Char) : List Char :=
  match cs with
  | c :: rest => if c.toNat = 0xFEFF then rest else cs
  | [] => cs

/-- The root table of a text. -/
def parse? (text : String) : Option Entries := do
  let cs := dropMark text.toList
  let b ← lines? (cs.length + 1) Builder.start cs
  b.finish?

end RemoteSession.Toml
