import RemoteSession.Storage.FileTree

/-!
# The file of the log

A log that goes to a file is appended to it. The directories on the way to the
file are made when they are missing, and so is the file. The directories stay
also when the file cannot be opened.
-/

namespace RemoteSession.Logging

/-- What opening left, and why it failed if it did. -/
structure Opening where
  files : FileTree
  fault : Option IoError
deriving DecidableEq, Repr

/-- The mode of a file of the log. -/
def fileMode : Nat := 0o644

/-- The file at a path opened to be appended to. -/
def openAt (t : FileTree) (p : FilePath) : Opening :=
  match t.get? p with
  | some (.file _ _) => ⟨t, none⟩
  | some .directory => ⟨t, some .isADirectory⟩
  | none =>
    match t.write p [] fileMode with
    | .ok t => ⟨t, none⟩
    | .error e => ⟨t, some e⟩

/-- The file that a text names, seen from a directory, opened to be appended
to. A text that ends with a slash names a directory. -/
def openFile (t : FileTree) (directory : FilePath) (text : String) : Opening :=
  let p := FilePath.ofTextFrom directory text
  if text = "" then ⟨t, some .notFound⟩
  else
    match t.createDirectories p.parent with
    | .error e => ⟨t, some e⟩
    | .ok t => if text.endsWith "/" then ⟨t, some .isADirectory⟩ else openAt t p

end RemoteSession.Logging
