import RemoteSession.Text.Utf8

/-!
# File trees

Files and directories by their paths. The operations fail as a file system's
do: something stands in the way, or what should be there is not. Writing keeps
the mode of a file that is already there; renaming puts one file in the place
of another in one step.
-/

namespace RemoteSession

/-- Why an operation on files failed. -/
inductive IoError where
  | notFound
  | isADirectory
  | notADirectory
  | alreadyExists
  | invalidUtf8
  | other (text : String)
deriving DecidableEq, Repr

namespace IoError

/-- The kind of an error. -/
def kind : IoError → String
  | .notFound => "NotFound"
  | .isADirectory => "IsADirectory"
  | .notADirectory => "NotADirectory"
  | .alreadyExists => "AlreadyExists"
  | .invalidUtf8 => "InvalidData"
  | .other _ => "Other"

/-- The message of an error. -/
def message : IoError → String
  | .notFound => "No such file or directory (os error 2)"
  | .isADirectory => "Is a directory (os error 21)"
  | .notADirectory => "Not a directory (os error 20)"
  | .alreadyExists => "File exists (os error 17)"
  | .invalidUtf8 => "stream did not contain valid UTF-8"
  | .other text => text

end IoError

/-- The names on the way from the root of a tree. -/
abbrev FilePath := List String

namespace FilePath

/-- The path of a text with slashes. -/
def ofText (text : String) : FilePath :=
  (text.splitOn "/").filter fun name => name != "" && name != "."

/-- The path of a text that may begin at a directory or, with a slash, at the
root. -/
def ofTextFrom (directory : FilePath) (text : String) : FilePath :=
  if text.startsWith "/" then ofText text else directory ++ ofText text

/-- The text of a path from the root. -/
def text (p : FilePath) : String :=
  "/" ++ "/".intercalate p

/-- The directory that holds the path. -/
def parent (p : FilePath) : FilePath :=
  p.dropLast

/-- A name without what follows its last dot, unless that dot begins it. -/
def stem (name : String) : String :=
  let cs := name.toList
  if name != ".." && (cs.drop 1).contains '.' then
    String.ofList ((cs.reverse.dropWhile (· != '.')).drop 1).reverse
  else name

/-- The path with another extension on its last name. -/
def withExtension (p : FilePath) (extension : String) : FilePath :=
  match p.getLast? with
  | none => p
  | some name => p.dropLast ++ [stem name ++ "." ++ extension]

end FilePath

/-- What stands at a path. -/
inductive FileEntry where
  | file (content : List UInt8) (mode : Nat)
  | directory
deriving DecidableEq, Repr

/-- Files and directories below a root, which is always there. -/
structure FileTree where
  entries : List (FilePath × FileEntry)
deriving DecidableEq, Repr

namespace FileTree

/-- A tree with nothing below its root. -/
def empty : FileTree := ⟨[]⟩

/-- What stands at a path. -/
def get? (t : FileTree) (p : FilePath) : Option FileEntry :=
  if p.isEmpty then some .directory
  else (t.entries.find? fun e => e.1 == p).map Prod.snd

/-- The tree with an entry at a path, in place of what stood there. -/
def set (t : FileTree) (p : FilePath) (e : FileEntry) : FileTree :=
  if (t.get? p).isSome then ⟨t.entries.map fun old => if old.1 == p then (p, e) else old⟩
  else ⟨t.entries ++ [(p, e)]⟩

/-- The tree without a path and what is below it. -/
def remove (t : FileTree) (p : FilePath) : FileTree :=
  ⟨t.entries.filter fun e => !p.isPrefixOf e.1⟩

/-- The fault of a way that leads through something else than a directory. -/
def wayFault? (t : FileTree) (p : FilePath) : Option IoError :=
  let ways := (List.range p.length).map fun n => p.take n
  ways.findSome? fun way =>
    match t.get? way with
    | some .directory => none
    | some (.file _ _) => some .notADirectory
    | none => some .notFound

/-- Whether something stands at a path. -/
def exists? (t : FileTree) (p : FilePath) : Bool :=
  (t.wayFault? p).isNone && (t.get? p).isSome

/-- The octets of a file. -/
def read (t : FileTree) (p : FilePath) : Except IoError (List UInt8) :=
  match t.wayFault? p with
  | some e => .error e
  | none =>
    match t.get? p with
    | some (.file content _) => .ok content
    | some .directory => .error .isADirectory
    | none => .error .notFound

/-- The text of a file. -/
def readText (t : FileTree) (p : FilePath) : Except IoError String := do
  let octets ← t.read p
  match Text.Utf8.decode? octets with
  | some text => .ok text
  | none => .error .invalidUtf8

/-- The tree with a directory at a path and at each path on its way. -/
def createDirectories (t : FileTree) (p : FilePath) : Except IoError FileTree :=
  let ways := (List.range (p.length + 1)).map fun n => p.take n
  ways.foldlM (fun t way =>
    match t.get? way with
    | some .directory => .ok t
    | some (.file _ _) => .error (if way = p then .alreadyExists else .notADirectory)
    | none => .ok (t.set way .directory)) t

/-- The tree with a file of this content. A new file gets the mode, one that is
there keeps its own. -/
def write (t : FileTree) (p : FilePath) (content : List UInt8) (mode : Nat) :
    Except IoError FileTree :=
  match t.wayFault? p with
  | some e => .error e
  | none =>
    match t.get? p with
    | some .directory => .error .isADirectory
    | some (.file _ old) => .ok (t.set p (.file content old))
    | none => .ok (t.set p (.file content mode))

/-- The tree with a file in the place of another. -/
def rename (t : FileTree) (source target : FilePath) : Except IoError FileTree :=
  match t.get? source, t.wayFault? target with
  | none, _ => .error .notFound
  | some _, some e => .error e
  | some e, none =>
    match t.get? target with
    | some .directory => .error .isADirectory
    | _ => .ok ((t.remove source).set target e)

/-- The mode of files that only their owner may read. -/
def privateMode : Nat := 0o600

/-- The tree with a file that only its owner may read, and with the
directories on its way. -/
def writePrivate (t : FileTree) (p : FilePath) (content : List UInt8) :
    Except IoError FileTree := do
  let t ← t.createDirectories p.parent
  t.write p content privateMode

end FileTree

end RemoteSession
