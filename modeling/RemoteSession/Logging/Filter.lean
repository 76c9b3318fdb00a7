import RemoteSession.Logging.Level
import RemoteSession.Text.Blank

/-!
# Filters of the log

Which lines go to the log. A filter is a list of directives with commas between
them: a bare level is for all targets, `target=level` for those that begin with
the target. What stands in brackets after a target confines a directive to the
inside of a span, and the program's lines are outside of all spans. Of the
directives that fit, the one with the longest target counts; of two for the same
target, the later. A directive that cannot be read is passed over.
-/

namespace RemoteSession.Logging

/-- From which level on lines pass, by its rank; zero lets none pass. -/
abbrev Threshold := Nat

/-- The threshold that lets all pass. -/
def everything : Threshold := 5

/-- The number that digits spell, which may stand after a plus sign. -/
def count? (cs : List Char) : Option Nat :=
  let digits := if cs.head? = some '+' then cs.drop 1 else cs
  if digits.isEmpty || !digits.all Char.isDigit then none else some (Nat.ofDigitChars 10 digits 0)

/-- The threshold that a word names, in letters of either case or in digits. -/
def threshold? (word : String) : Option Threshold :=
  match count? word.toList with
  | some n => if n ≤ everything then some n else none
  | none =>
    let word := Text.lowerAscii word
    if word = "off" then some 0 else (LogLevel.ofWord? word).map LogLevel.rank

/-- A directive: the targets that it is for, whether it is for the inside of
spans alone, and from which level on. -/
structure Directive where
  target : Option String
  confined : Bool
  threshold : Threshold
deriving DecidableEq, Repr

namespace Directive

/-- Characters that a target begins with. -/
def isTargetStart (c : Char) : Bool :=
  c.isAlphanum || c == '_' || c == ':' || c == '-' || c.toNat ≥ 0x80

/-- The threshold after the target and the brackets. Without one everything
passes. -/
def tailThreshold? : List Char → Option Threshold
  | [] => some everything
  | '=' :: [] => some everything
  | '=' :: level => threshold? (String.ofList level)
  | _ => none

/-- What follows a pair of brackets, which holds a name, fields in braces, or
both. -/
def afterBrackets? (cs : List Char) : Option (List Char) :=
  match cs.dropWhile fun c => c != ']' && c != '{' with
  | ']' :: rest => some rest
  | '{' :: fields =>
    match fields.dropWhile (· != '}') with
    | '}' :: ']' :: rest => if fields.head? = some '}' then none else some rest
    | _ => none
  | _ => none

/-- The directive of a text. One that is neither a level nor has a sign of
equality or a bracket is a target, blanks around it included; blanks have no
place elsewhere. -/
def ofText? (text : String) : Option Directive :=
  let trimmed := (Text.trim text).toList
  let cs := text.toList
  let target := cs.takeWhile fun c => c != '=' && c != '['
  let name := if target.isEmpty then none else some (String.ofList target)
  match trimmed, cs.drop target.length with
  | [], _ => none
  | first :: _, [] =>
    if !isTargetStart first then none
    else
      match threshold? text with
      | some threshold => some ⟨none, false, threshold⟩
      | none => some ⟨some text, false, everything⟩
  | first :: _, '[' :: rest =>
    if first != '[' && !isTargetStart first then none
    else ((afterBrackets? rest).bind tailThreshold?).map fun t => ⟨name, true, t⟩
  | first :: _, tail =>
    if !isTargetStart first || cs.head? ≠ some first then none
    else (tailThreshold? tail).map fun t => ⟨name, false, t⟩

/-- Whether the directive is for the lines of a target. -/
def isFor (d : Directive) (target : String) : Bool :=
  !d.confined &&
    match d.target with
    | none => true
    | some start => start.toList.isPrefixOf target.toList

/-- How closely the directive names its targets. -/
def closeness (d : Directive) : Nat :=
  match d.target with
  | none => 0
  | some start => start.utf8ByteSize + 1

end Directive

/-- The directives of a filter. One without any lets errors pass. -/
def directives (filter : String) : List Directive :=
  match ((filter.splitOn ",").filterMap Directive.ofText?) with
  | [] => [⟨none, false, LogLevel.error.rank⟩]
  | found => found

/-- The directive that counts for a target: the closest, and of equals the
last. -/
def closest? (ds : List Directive) (target : String) : Option Directive :=
  (ds.filter (·.isFor target)).foldl (fun best d =>
    match best with
    | none => some d
    | some b => if b.closeness ≤ d.closeness then some d else some b) none

/-- Whether a line of this target and level passes. -/
def passes (ds : List Directive) (target : String) (level : LogLevel) : Bool :=
  match closest? ds target with
  | some d => level.rank ≤ d.threshold
  | none => false

/-! ## The filter of a level -/

/-- The targets of the program itself. -/
def ownTargets : List String := ["rc", "rc_client_core", "rc_proto"]

/-- The targets that say too much at the lowest level. -/
def noisyTargets : List String :=
  ["hyper", "hyper_util", "h2", "reqwest", "rustls", "tokio_tungstenite", "tungstenite", "mio"]

/-- A filter, and whether it keeps others quieter than the program. -/
structure Selection where
  filter : String
  capped : Bool
deriving DecidableEq, Repr

/-- The filter of a level. Only the program itself goes below `info`, unless
all may. -/
def selectionOf (level : LogLevel) (allowAll : Bool) : Selection :=
  if level.rank ≤ LogLevel.info.rank then ⟨level.word, false⟩
  else
    let capped := level = .trace && !allowAll
    let own := ownTargets.map fun t => t ++ "=" ++ level.word
    let others := if capped then noisyTargets.map fun t => t ++ "=" ++ LogLevel.info.word else []
    ⟨",".intercalate (LogLevel.info.word :: own ++ others), capped⟩

/-- Whether a variable of the environment says yes. -/
def saysYes (value : String) : Bool :=
  let value := Text.trim value
  value != "" && value != "0" && !Text.eqIgnoreCase value "false"

/-- The filter of a level, unless the environment has another one. -/
def select (level : LogLevel) (filter allowAll : Option String) : Selection :=
  match filter.bind fun f => if Text.isBlank f then none else some f with
  | some custom => ⟨custom, false⟩
  | none => selectionOf level ((allowAll.map saysYes).getD false)

/-! ## Lines -/

/-- The word of a level in a line. -/
def levelMark (level : LogLevel) : String :=
  String.ofList (level.word.toList.map Char.toUpper)

/-- A line without its time. The target stands in it from level `debug` on. -/
def line (verbosity level : LogLevel) (target text : String) : String :=
  let shown := if verbosity.rank ≥ LogLevel.debug.rank then target ++ ": " else ""
  levelMark level ++ " " ++ shown ++ text

/-- The lines of a message that passes the filter. -/
def lines (s : Selection) (verbosity level : LogLevel) (target text : String) : List String :=
  if passes (directives s.filter) target level then [line verbosity level target text] else []

/-- The lines about the filter itself. -/
def openingLines (s : Selection) (verbosity : LogLevel) : List String :=
  let capped := if s.capped then "true" else "false"
  lines s verbosity .debug "rc::config"
    ("logging initialised filter=" ++ s.filter ++ " capped=" ++ capped)

end RemoteSession.Logging
