import RemoteSession.Config.Basic
import RemoteSession.Keyed

/-!
# Cursor stores

How far each session has been read, kept in memory or in a file. The file
holds all sessions and is replaced in one step by way of a temporary file, so
a write that fails leaves it as it was. Numbers of a file end where integers of
64 bits with sign do.
-/

namespace RemoteSession

/-- Why an operation on a store failed. -/
inductive CursorError where
  | io (error : IoError)
  | toml (detail : String)
  | config (error : ConfigError)
deriving DecidableEq, Repr

/-- The message of an error. -/
def CursorError.message : CursorError → String
  | .io e => "io error: " ++ e.message
  | .toml detail => "serialization error: " ++ detail
  | .config e => "config error: " ++ e.message

/-- The last event read of each session. -/
abbrev Cursors := Keyed UInt64

namespace Cursors

/-- The cursor of a session, zero when none is known. -/
def load (c : Cursors) (id : String) : UInt64 :=
  (Keyed.get? c id).getD 0

/-- A line of one session. -/
def line (id : String) (seq : UInt64) : List Char :=
  Toml.writeKey id ++ [' ', '=', ' '] ++ Nat.toDigits 10 seq.toNat ++ ['\n']

/-- The greatest number that a file can hold. -/
def greatest : UInt64 := 9223372036854775807

/-- The text of all cursors, if the file can hold each of them. -/
def render? (c : Cursors) : Option String :=
  if c.all fun e => e.2 ≤ greatest then
    some (String.ofList ("[sessions]\n".toList ++ c.flatMap fun e => line e.1 e.2))
  else none

/-- The cursor that a value is. -/
def ofNode? : Toml.Node → Option UInt64
  | .integer value => if 0 ≤ value then some (UInt64.ofNat value.toNat) else none
  | _ => none

/-- The cursors of the entries of a table. -/
def ofEntries? (entries : Toml.Entries) : Option Cursors :=
  entries.foldlM (fun c e => (ofNode? e.2).map fun seq => Keyed.insert c e.1 seq) []

/-- The cursors of a text. -/
def parse? (text : String) : Option Cursors := do
  let root ← Toml.parse? text
  match Toml.Entries.get? root "sessions" with
  | none => some []
  | some (.table _ entries) => ofEntries? entries
  | some _ => none

end Cursors

/-- A store in memory. -/
structure MemoryCursorStore where
  cursors : Cursors
deriving DecidableEq

namespace MemoryCursorStore

/-- A store without cursors. -/
def empty : MemoryCursorStore := ⟨[]⟩

/-- The cursor of a session. -/
def load (s : MemoryCursorStore) (id : String) : UInt64 :=
  s.cursors.load id

/-- A new cursor for a session. -/
def store (s : MemoryCursorStore) (id : String) (seq : UInt64) : MemoryCursorStore :=
  ⟨Keyed.insert s.cursors id seq⟩

/-- A session forgotten. -/
def reset (s : MemoryCursorStore) (id : String) : MemoryCursorStore :=
  ⟨Keyed.erase s.cursors id⟩

end MemoryCursorStore

/-- The steps of a disk, any of which may fail also where nothing stands in the
way; the tree that is left shows how far it came. -/
structure Disk where
  writePrivate : FileTree → FilePath → List UInt8 → Except IoError Unit × FileTree
  rename : FileTree → FilePath → FilePath → Except IoError Unit × FileTree

/-- A step that leaves the tree alone when it fails. -/
def Disk.whole (t : FileTree) : Except IoError FileTree → Except IoError Unit × FileTree
  | .ok t => (.ok (), t)
  | .error e => (.error e, t)

/-- A disk that fails only where something stands in the way. -/
def Disk.sound : Disk where
  writePrivate t p content :=
    match t.createDirectories p.parent with
    | .error e => (.error e, t)
    | .ok t => Disk.whole t (t.write p content FileTree.privateMode)
  rename t source target := Disk.whole t (t.rename source target)

/-- A store in a file: what the file should hold, and where it is. -/
structure FileCursorStore where
  path : FilePath
  cursors : Cursors
deriving DecidableEq

namespace FileCursorStore

/-- Where the store of a user stands below the home directory. -/
def defaultPath : FilePath := [Config.stateDirectory, "cursors.toml"]

/-- The store of a file; an absent file holds no cursors. -/
def openAt (t : FileTree) (p : FilePath) : Except CursorError FileCursorStore :=
  if t.exists? p then
    match t.readText p with
    | .error e => .error (.io e)
    | .ok text =>
      match Cursors.parse? text with
      | some cursors => .ok ⟨p, cursors⟩
      | none => .error (.toml "")
  else .ok ⟨p, []⟩

/-- The cursor of a session. -/
def load (s : FileCursorStore) (id : String) : UInt64 :=
  s.cursors.load id

/-- The file that is written before it takes the place of the store's. -/
def temporaryPath (s : FileCursorStore) : FilePath :=
  s.path.withExtension "toml.tmp"

/-- All cursors written to the file. -/
def persist (disk : Disk) (s : FileCursorStore) (t : FileTree) :
    Except CursorError Unit × FileTree :=
  match s.cursors.render? with
  | none => (.error (.toml ""), t)
  | some text =>
    match disk.writePrivate t s.temporaryPath (Text.Utf8.encode text) with
    | (.error e, t) => (.error (.io e), t)
    | (.ok (), t) =>
      match disk.rename t s.temporaryPath s.path with
      | (.error e, t) => (.error (.io e), t)
      | (.ok (), t) => (.ok (), t)

/-- What an operation gives: its result, the store and the tree after it. -/
structure Outcome where
  result : Except CursorError Unit
  store : FileCursorStore
  tree : FileTree

/-- A new cursor for a session. One that the store holds already is not
written again. -/
def store (disk : Disk) (s : FileCursorStore) (t : FileTree) (id : String) (seq : UInt64) :
    Outcome :=
  if Keyed.get? s.cursors id = some seq then ⟨.ok (), s, t⟩
  else
    let s := { s with cursors := Keyed.insert s.cursors id seq }
    let (result, t) := persist disk s t
    ⟨result, s, t⟩

/-- A session forgotten. One that the store does not hold is not written. -/
def reset (disk : Disk) (s : FileCursorStore) (t : FileTree) (id : String) : Outcome :=
  if (Keyed.get? s.cursors id).isSome then
    let s := { s with cursors := Keyed.erase s.cursors id }
    let (result, t) := persist disk s t
    ⟨result, s, t⟩
  else ⟨.ok (), s, t⟩

end FileCursorStore

end RemoteSession
