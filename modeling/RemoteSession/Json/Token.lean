import RemoteSession.Json.Number
import RemoteSession.Text.Hex

/-!
# Tokens of a document

`Token.ofChars?` splits a text into tokens by a machine that takes one
character at a time. A word is a run of letters, digits and the characters of
numbers; it is classified when it ends, and one that is neither a literal nor
a numeral is no token. A string is well-formed before it is readable: an
escape may name half of a surrogate pair, and such a string is a token without
a text.
-/

namespace RemoteSession.Json

/-- A token. A string has a text unless half of a surrogate pair stands alone
in it. -/
inductive Token where
  | openArray
  | closeArray
  | openObject
  | closeObject
  | comma
  | colon
  | null
  | bool (value : Bool)
  | number (numeral : Numeral)
  | string (text : Option String)
deriving DecidableEq

namespace Token

/-- The text of a string read so far, newest character first, and the first
half of a surrogate pair that has just been read. -/
structure Quoted where
  chars : Option (List Char)
  high : Option Nat
deriving DecidableEq

namespace Quoted

/-- A string of which nothing has been read. -/
def empty : Quoted :=
  ⟨some [], none⟩

/-- One character more. A first half that waits for its second is alone. -/
def push (q : Quoted) (c : Char) : Quoted :=
  match q.high with
  | none => ⟨q.chars.map (c :: ·), none⟩
  | some _ => ⟨none, none⟩

/-- One unit of 16 bits more, named by an escape. -/
def pushUnit (q : Quoted) (unit : Nat) : Quoted :=
  let isHigh := 0xD800 ≤ unit && unit < 0xDC00
  let isLow := 0xDC00 ≤ unit && unit < 0xE000
  match q.high with
  | some high =>
    if isLow then
      let c := Char.ofNat (0x10000 + (high - 0xD800) * 0x400 + (unit - 0xDC00))
      ⟨q.chars.map (c :: ·), none⟩
    else ⟨none, none⟩
  | none =>
    if isHigh then ⟨q.chars, some unit⟩
    else if isLow then ⟨none, none⟩
    else q.push (Char.ofNat unit)

/-- The text once the string has ended. -/
def text (q : Quoted) : Option String :=
  match q.high with
  | none => q.chars.map fun cs => String.ofList cs.reverse
  | some _ => none

end Quoted

/-- Where in the text the machine stands. -/
inductive Mode where
  | between
  | word (spelled : List Char)
  | quoted (q : Quoted)
  | escape (q : Quoted)
  | hex (q : Quoted) (missing : Nat) (value : Nat)
deriving DecidableEq

/-- The machine: the tokens completed, newest first, and the mode. -/
structure Scanner where
  tokens : List Token
  mode : Mode
deriving DecidableEq

/-- The blanks of a document. -/
def isSpace (c : Char) : Bool :=
  c == ' ' || c == '\t' || c == '\n' || c == '\r'

/-- The characters of literals and numbers. -/
def isWordChar (c : Char) : Bool :=
  c.isAlphanum || c == '+' || c == '-' || c == '.'

/-- The token that one character is. -/
def ofPunctuation? : Char → Option Token
  | '[' => some openArray
  | ']' => some closeArray
  | '\x7b' => some openObject
  | '\x7d' => some closeObject
  | ',' => some comma
  | ':' => some colon
  | _ => none

/-- The token that a word is. -/
def ofWord? (word : List Char) : Option Token :=
  if word = ['n', 'u', 'l', 'l'] then some null
  else if word = ['t', 'r', 'u', 'e'] then some (bool true)
  else if word = ['f', 'a', 'l', 's', 'e'] then some (bool false)
  else (Numeral.ofChars? word).map number

/-- The character that a one-letter escape names. -/
def ofEscape? : Char → Option Char
  | '"' => some '"'
  | '\\' => some '\\'
  | '/' => some '/'
  | 'b' => some '\x08'
  | 'f' => some '\x0c'
  | 'n' => some '\n'
  | 'r' => some '\r'
  | 't' => some '\t'
  | _ => none

namespace Scanner

/-- Nothing read. -/
def start : Scanner :=
  ⟨[], .between⟩

/-- The machine between two tokens, a word that stood there completed. A
string that has not ended is an error. -/
def settle? (s : Scanner) : Option (List Token) :=
  match s.mode with
  | .between => some s.tokens
  | .word spelled => (ofWord? spelled.reverse).map (· :: s.tokens)
  | _ => none

/-- One character between two tokens. -/
def begin? (tokens : List Token) (c : Char) : Option Scanner :=
  if isSpace c then some ⟨tokens, .between⟩
  else if c = '"' then some ⟨tokens, .quoted .empty⟩
  else if isWordChar c then some ⟨tokens, .word [c]⟩
  else (ofPunctuation? c).map fun token => ⟨token :: tokens, .between⟩

/-- One character more. Inside a string no character below the blank stands
for itself. -/
def step? (s : Scanner) (c : Char) : Option Scanner :=
  match s.mode with
  | .between => begin? s.tokens c
  | .word spelled =>
    if isWordChar c then some { s with mode := .word (c :: spelled) }
    else s.settle?.bind (begin? · c)
  | .quoted q =>
    if c = '"' then some ⟨.string q.text :: s.tokens, .between⟩
    else if c = '\\' then some { s with mode := .escape q }
    else if c.toNat < 0x20 then none
    else some { s with mode := .quoted (q.push c) }
  | .escape q =>
    if c = 'u' then some { s with mode := .hex q 4 0 }
    else (ofEscape? c).map fun d => { s with mode := .quoted (q.push d) }
  | .hex q missing value =>
    (Text.hexValue? c).map fun digit =>
      let read := value * 16 + digit
      if missing ≤ 1 then { s with mode := .quoted (q.pushUnit read) }
      else { s with mode := .hex q (missing - 1) read }

end Scanner

/-- The tokens of a text. -/
def ofChars? (cs : List Char) : Option (List Token) :=
  ((cs.foldlM Scanner.step? Scanner.start).bind Scanner.settle?).map List.reverse

end Token

end RemoteSession.Json
