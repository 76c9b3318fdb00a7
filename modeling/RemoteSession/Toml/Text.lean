import RemoteSession.Text.Hex

/-!
# Strings of TOML

The four spellings of a string, basic and literal, in one line or several, and
the choice among them: the plainest one that needs no escape, and escapes only
when no other does. Readers give the text and what follows the closing quotes.
-/

namespace RemoteSession.Toml

/-! ## Characters -/

/-- Blanks inside a line. -/
def isBlank (c : Char) : Bool :=
  c == ' ' || c == '\t'

/-- Characters that stand for themselves in comments and strings: the tab, and
all but control characters. -/
def isPlain (c : Char) : Bool :=
  c == '\t' || (0x20 ≤ c.toNat && c.toNat != 0x7F)

/-- Characters of a key without quotes. -/
def isBareKeyChar (c : Char) : Bool :=
  c.isAlphanum || c == '-' || c == '_'

/-- The character of a code given by its digits. -/
def charOfDigits? (digits : List Char) : Option Char := do
  let values ← digits.mapM Text.hexValue?
  let code := values.foldl (fun n d => n * 16 + d) 0
  if h : code.isValidChar then some (Char.ofNatAux code h) else none

/-! ## Reading -/

/-- A text read, and what follows it. -/
abbrev Read := Option (List Char × List Char)

/-- One character before a text read. -/
def Read.cons (c : Char) (r : Read) : Read :=
  r.map fun (text, rest) => (c :: text, rest)

/-- A character named by digits before a text read. -/
def Read.consDigits (digits : List Char) (r : Read) : Read := do
  let c ← charOfDigits? digits
  Read.cons c r

/-- The character that an escape of one letter names. -/
def escapeOf? : Char → Option Char
  | 'b' => some '\x08'
  | 't' => some '\t'
  | 'n' => some '\n'
  | 'f' => some '\x0c'
  | 'r' => some '\r'
  | '"' => some '"'
  | '\\' => some '\\'
  | _ => none

/-- A basic string after its first quote. -/
def readBasic : List Char → Read
  | [] => none
  | '"' :: rest => some ([], rest)
  | '\\' :: 'u' :: a :: b :: c :: d :: rest => Read.consDigits [a, b, c, d] (readBasic rest)
  | '\\' :: 'U' :: a :: b :: c :: d :: e :: f :: g :: h :: rest =>
    Read.consDigits [a, b, c, d, e, f, g, h] (readBasic rest)
  | '\\' :: letter :: rest => do
    let c ← escapeOf? letter
    Read.cons c (readBasic rest)
  | c :: rest => if isPlain c && c != '\\' then Read.cons c (readBasic rest) else none

/-- A literal string after its first quote. -/
def readLiteral : List Char → Read
  | [] => none
  | '\'' :: rest => some ([], rest)
  | c :: rest => if isPlain c then Read.cons c (readLiteral rest) else none

/-- Whether a line ends here, but for blanks. -/
def endsLine (cs : List Char) : Bool :=
  match cs.dropWhile isBlank with
  | '\n' :: _ => true
  | '\r' :: '\n' :: _ => true
  | _ => false

/-- A basic string of several lines after its first quotes. Up to two quotes
may stand before the closing ones. `skipping` leaves out blanks and line ends
after a backslash at the end of a line. -/
def readLongBasic (skipping : Bool) : List Char → Read
  | [] => none
  | '"' :: '"' :: '"' :: '"' :: '"' :: rest => some (['"', '"'], rest)
  | '"' :: '"' :: '"' :: '"' :: rest => some (['"'], rest)
  | '"' :: '"' :: '"' :: rest => some ([], rest)
  | '"' :: rest => Read.cons '"' (readLongBasic false rest)
  | '\r' :: '\n' :: rest =>
    if skipping then readLongBasic true rest else Read.cons '\n' (readLongBasic false rest)
  | '\\' :: 'u' :: a :: b :: c :: d :: rest =>
    Read.consDigits [a, b, c, d] (readLongBasic false rest)
  | '\\' :: 'U' :: a :: b :: c :: d :: e :: f :: g :: h :: rest =>
    Read.consDigits [a, b, c, d, e, f, g, h] (readLongBasic false rest)
  | '\\' :: letter :: rest =>
    if endsLine (letter :: rest) then readLongBasic true rest
    else do
      let c ← escapeOf? letter
      Read.cons c (readLongBasic false rest)
  | c :: rest =>
    if skipping && (isBlank c || c == '\n') then readLongBasic true rest
    else if c == '\n' || (isPlain c && c != '\\') then Read.cons c (readLongBasic false rest)
    else none

/-- A literal string of several lines after its first quotes. -/
def readLongLiteral : List Char → Read
  | [] => none
  | '\'' :: '\'' :: '\'' :: '\'' :: '\'' :: rest => some (['\'', '\''], rest)
  | '\'' :: '\'' :: '\'' :: '\'' :: rest => some (['\''], rest)
  | '\'' :: '\'' :: '\'' :: rest => some ([], rest)
  | '\r' :: '\n' :: rest => Read.cons '\n' (readLongLiteral rest)
  | c :: rest =>
    if c == '\n' || isPlain c then Read.cons c (readLongLiteral rest) else none

/-- A text without a line end at its start. -/
def dropLineEnd : List Char → List Char
  | '\n' :: rest => rest
  | '\r' :: '\n' :: rest => rest
  | cs => cs

/-- A string in one line. -/
def readLineString : List Char → Read
  | '"' :: rest => readBasic rest
  | '\'' :: rest => readLiteral rest
  | _ => none

/-- A string. -/
def readString : List Char → Read
  | '"' :: '"' :: '"' :: rest => readLongBasic false (dropLineEnd rest)
  | '\'' :: '\'' :: '\'' :: rest => readLongLiteral (dropLineEnd rest)
  | cs => readLineString cs

/-! ## Writing -/

/-- What decides how a text is spelled. -/
structure Traits where
  longestSingle : Nat
  longestDouble : Nat
  control : Bool
  backslash : Bool
  lines : Bool
deriving DecidableEq, Repr

/-- The longest run of a character, where `current` of them came before. -/
def longestRun (c : Char) (current best : Nat) : List Char → Nat
  | [] => best
  | d :: rest =>
    if d = c then longestRun c (current + 1) (max best (current + 1)) rest
    else longestRun c 0 best rest

/-- Whether a character needs an escape in every string of several lines. -/
def isControl (c : Char) : Bool :=
  c != '\t' && c != '\n' && (c.toNat < 0x20 || c.toNat == 0x7F)

/-- The traits of a text. -/
def Traits.of (cs : List Char) : Traits :=
  ⟨longestRun '\'' 0 0 cs, longestRun '"' 0 0 cs, cs.any isControl, cs.contains '\\',
    cs.contains '\n'⟩

/-- The spellings of a string. -/
inductive Spelling where
  | basic
  | literal
  | longBasic
  | longLiteral
deriving DecidableEq, Repr

/-- The first spelling without escapes, or else a basic one. -/
def Traits.spelling (t : Traits) : Spelling :=
  if !t.control && !t.backslash && t.longestDouble == 0 && !t.lines then .basic
  else if !t.control && t.longestSingle == 0 && !t.lines then .literal
  else if !t.control && !t.backslash && t.longestDouble ≤ 2 then .longBasic
  else if !t.control && t.longestSingle ≤ 2 then .longLiteral
  else if t.lines then .longBasic
  else .basic

/-- The spelling of a key that cannot go without quotes: always in one line. -/
def Traits.keySpelling (t : Traits) : Spelling :=
  if !t.control && !t.lines && !t.backslash && t.longestDouble == 0 then .basic
  else if !t.control && !t.lines && t.longestSingle == 0 then .literal
  else .basic

/-- A character in a basic string, quotes and line ends aside. -/
def escaped (c : Char) : List Char :=
  if c = '\x08' then ['\\', 'b']
  else if c = '\t' then ['\\', 't']
  else if c = '\x0c' then ['\\', 'f']
  else if c = '\r' then ['\\', 'r']
  else if c = '\\' then ['\\', '\\']
  else if c.toNat < 0x20 || c.toNat = 0x7F then
    ['\\', 'u', '0', '0', Text.upperHex (c.toNat / 16), Text.upperHex (c.toNat % 16)]
  else [c]

/-- The inside of a basic string in one line. -/
def basicChar (c : Char) : List Char :=
  if c = '"' then ['\\', '"'] else if c = '\n' then ['\\', 'n'] else escaped c

/-- The inside of a basic string in several lines. Every third quote of a run
is escaped. -/
def longBasicChars (quotes : Nat) : List Char → List Char
  | [] => []
  | '"' :: rest =>
    if quotes = 2 then '\\' :: '"' :: longBasicChars 0 rest
    else '"' :: longBasicChars (quotes + 1) rest
  | '\n' :: rest => '\n' :: longBasicChars 0 rest
  | c :: rest => escaped c ++ longBasicChars 0 rest

/-- A text in a spelling. One with line ends begins on a line of its own. -/
def spell (spelling : Spelling) (cs : List Char) : List Char :=
  let opening := if cs.contains '\n' then ['\n'] else []
  match spelling with
  | .basic => '"' :: cs.flatMap basicChar ++ ['"']
  | .literal => '\'' :: cs ++ ['\'']
  | .longBasic => ['"', '"', '"'] ++ opening ++ longBasicChars 0 cs ++ ['"', '"', '"']
  | .longLiteral => ['\'', '\'', '\''] ++ opening ++ cs ++ ['\'', '\'', '\'']

/-- A text as a value. -/
def writeString (s : String) : List Char :=
  spell (Traits.of s.toList).spelling s.toList

/-- A text as a key. -/
def writeKey (s : String) : List Char :=
  let cs := s.toList
  if !cs.isEmpty && cs.all isBareKeyChar then cs else spell (Traits.of cs).keySpelling cs

end RemoteSession.Toml
