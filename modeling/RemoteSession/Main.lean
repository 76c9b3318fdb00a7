import RemoteSession.Command.Program
import RemoteSession.Terminal.Lines

/-!
# The command line program

Reads the surroundings of the program, runs it, and makes of its outcome what
it says: the files that it left, what it printed, its complaint and its exit
code. No network is at hand, so that every request finds the servers out of
reach.
-/

namespace RemoteSession

open Command Terminal

/-! ## Files -/

/-- What stands at a path, found by reading it. -/
def lookAt (p : FilePath) : IO (Option FileEntry) := do
  match ← (IO.FS.readBinFile p.text).toBaseIO with
  | .ok content => return some (.file content.toList Logging.fileMode)
  | .error (.noFileOrDirectory ..) => return none
  | .error _ => return some .directory

/-- The tree with what stands on the way to a path and at it. -/
def lookAlong (t : FileTree) (p : FilePath) : IO FileTree := do
  let mut t := t
  for way in (List.range (p.length + 1)).map fun n => p.take n do
    if (t.wayFault? way).isNone && (t.get? way).isNone then
      match ← lookAt way with
      | some e => t := t.set way e
      | none => return t
  return t

/-- What changed between two trees made true of the disk. -/
def carryOut (before after : FileTree) : IO Unit := do
  for (p, e) in after.entries do
    if before.get? p != some e then
      match e with
      | .directory => IO.FS.createDirAll p.text
      | .file content mode =>
        IO.FS.writeBinFile p.text ⟨content.toArray⟩
        if mode = FileTree.privateMode then
          IO.setAccessRights p.text
            ⟨⟨true, true, false⟩, ⟨false, false, false⟩, ⟨false, false, false⟩⟩

/-! ## Sessions -/

/-- The greatest length of a chunk of the input. -/
def chunkSize : USize := 1024

/-- What a chunk of the input makes happen. The terminal does not show when a
line was typed. -/
def happenings (raw : Bool) (reader : LineReader) (chunk : List UInt8) :
    LineReader × List Attachment.Happening :=
  if chunk.isEmpty then
    (.start, (if raw then [] else reader.finish.map fun text => .line text 0) ++ [.endOfInput])
  else if raw then (reader, [.keys chunk])
  else
    let (reader, lines) := reader.feed chunk
    (reader, lines.map fun text => .line text 0)

/-- An attachment until the user leaves. -/
partial def converse (a : Attachment) (reader : LineReader) : IO Unit := do
  let chunk ← (← IO.getStdin).read chunkSize
  let (reader, found) := happenings a.view.rawMode reader chunk.toList
  let mut current := a
  for happening in found do
    let turn := current.step happening
    IO.print turn.written
    current := turn.attachment
    if let some exit := turn.exit then
      let (_, written) := current.leave exit
      IO.print written
      return
  converse current reader

/-! ## The program -/

/-- The variables of the environment that the program reads. -/
def variableNames : List String :=
  sharedSettings.filterMap Setting.variableName

/-- The environment of the program. -/
def readEnvironment : IO Environment := do
  let found ← variableNames.mapM fun name => return (name, ← IO.getEnv name)
  return fun name => (found.lookup name).join

/-- Where the program runs, as far as it may look at it. -/
def readHost (logFile : Option String) : IO Host := do
  let home := (← IO.getEnv "HOME").map FilePath.ofText
  let directory := FilePath.ofText (← IO.currentDir).toString
  let paths := (home.map fun h => [h ++ Config.path, h ++ FileCursorStore.defaultPath]).getD [] ++
    (logFile.map (FilePath.ofTextFrom directory)).toList
  let files ← paths.foldlM lookAlong .empty
  return ⟨home, directory, files, .unreachable, 0, none⟩

end RemoteSession

open RemoteSession in
/-- The program for the words of its command line. -/
def main (words : List String) : IO UInt32 := do
  let env ← readEnvironment
  let logFile := match Command.Invocation.parse env words with
    | .ok i => i.logFile
    | .error _ => none
  let host ← readHost logFile
  let outcome := Command.run host env words
  carryOut host.files outcome.files
  IO.print outcome.output
  if let some complaint := outcome.verdict.complaint then IO.eprintln complaint
  if let .attached a := outcome.verdict then converse a .start
  return UInt32.ofNat outcome.verdict.exitCode
