/-!
# Trees of TOML

The values of a document and how its lines build them: a key with dots opens
tables on its way, a header opens the table that the lines after it fill. A
table is opened once: by a header, by dotted keys, or as a value. A table that
only leads to others may still get its own header.
-/

namespace RemoteSession.Toml

/-- How a table came to be. -/
inductive Origin where
  /-- by its own header -/
  | header
  /-- on the way to the table of another header -/
  | implied
  /-- on the way of a dotted key -/
  | dotted
  /-- as a value, closed to any addition -/
  | inline
deriving DecidableEq, Repr

/-- A value. Of numbers with fraction and of dates only the kind is kept. -/
inductive Node where
  | text (s : String)
  | integer (value : Int)
  | boolean (value : Bool)
  | float
  | date
  | array (items : List Node)
  | table (origin : Origin) (entries : List (String × Node))
  /-- the tables of one repeated header, the newest last -/
  | tables (elements : List (List (String × Node)))

/-- The entries of a table in the order of the document. -/
abbrev Entries := List (String × Node)

namespace Entries

/-- The value of a key. -/
def get? (entries : Entries) (key : String) : Option Node :=
  (entries.find? fun e => e.1 == key).map Prod.snd

/-- The entries with a new value for a key that is there. -/
def replace (entries : Entries) (key : String) (node : Node) : Entries :=
  entries.map fun e => if e.1 == key then (key, node) else e

/-- The value of a key replaced, or put at the end. -/
def put (entries : Entries) (key : String) (node : Node) : Entries :=
  if (get? entries key).isSome then replace entries key node else entries ++ [(key, node)]

/-- A value under a dotted key: the tables on its way are open to dotted keys,
the last of them made by one. -/
def add? (entries : Entries) : List String → String → Node → Option Entries
  | [], key, node =>
    if (get? entries key).isSome then none else some (entries ++ [(key, node)])
  | first :: path, key, node =>
    match get? entries first with
    | none => do
      let inner ← add? [] path key node
      some (entries ++ [(first, .table .dotted inner)])
    | some (.table origin inner) => do
      if origin == .header || origin == .inline || (path.isEmpty && origin != .dotted) then none
      else
        let inner ← add? inner path key node
        some (replace entries first (.table origin inner))
    | some (.tables elements) => do
      if path.isEmpty then none
      else
        let last ← elements.getLast?
        let inner ← add? last path key node
        some (replace entries first (.tables (elements.dropLast ++ [inner])))
    | some _ => none

/-- The entries that a header finds in place of its table: those of a table
that leads to others, or none. -/
def opened? (entries : Entries) : List String → Option Entries
  | [] => none
  | [key] =>
    match get? entries key with
    | none => some []
    | some (.table .implied inner) => some inner
    | some _ => none
  | first :: path =>
    match get? entries first with
    | none => some []
    | some (.table .inline _) => none
    | some (.table _ inner) => opened? inner path
    | some (.tables elements) => do
      let last ← elements.getLast?
      opened? last path
    | some _ => none

/-- The table of a header put in its place, or among the tables of a repeated
header. -/
def place? (entries : Entries) (repeated : Bool) (new : Entries) : List String → Option Entries
  | [] => none
  | [key] =>
    match get? entries key with
    | none => some (entries ++ [(key, if repeated then .tables [new] else .table .header new)])
    | some (.table .implied _) =>
      if repeated then none else some (replace entries key (.table .header new))
    | some (.tables elements) =>
      if repeated then some (replace entries key (.tables (elements ++ [new]))) else none
    | some _ => none
  | first :: path =>
    match get? entries first with
    | none => do
      let inner ← place? [] repeated new path
      some (entries ++ [(first, .table .implied inner)])
    | some (.table .inline _) => none
    | some (.table origin inner) => do
      let inner ← place? inner repeated new path
      some (replace entries first (.table origin inner))
    | some (.tables elements) => do
      let last ← elements.getLast?
      let inner ← place? last repeated new path
      some (replace entries first (.tables (elements.dropLast ++ [inner])))
    | some _ => none

end Entries

/-- A document being read: the tables finished, and the one that the lines now
fill, with the path and the kind of its header. -/
structure Builder where
  root : Entries
  path : List String
  repeated : Bool
  current : Entries

namespace Builder

/-- Nothing read: the lines fill the root. -/
def start : Builder :=
  ⟨[], [], false, []⟩

/-- The root with the current table in its place. -/
def finish? (b : Builder) : Option Entries :=
  if b.path.isEmpty then some b.current
  else Entries.place? b.root b.repeated b.current b.path

/-- A header: the table before it is finished. -/
def openTable? (b : Builder) (repeated : Bool) (path : List String) : Option Builder := do
  let root ← b.finish?
  if repeated then
    let _ ← Entries.place? root true [] path
    some ⟨root, path, true, []⟩
  else
    let current ← Entries.opened? root path
    some ⟨root, path, false, current⟩

/-- A line with a key and a value. -/
def add? (b : Builder) (path : List String) (key : String) (node : Node) : Option Builder := do
  let current ← Entries.add? b.current path key node
  some { b with current }

end Builder

end RemoteSession.Toml
