import RemoteSession.Proofs.Storage.Durability

/-!
# The file of a store before and after a write

A store may be in use for long, and what stands on the disk around its file may be changed
meanwhile by others (`FileCursorStore.Held`). Whatever it finds there, a call that is refused
leaves the file as it was, and so what a store opened anew answers. A call that wrote the file
leaves all of its cursors in it, and nothing beside it
(`FileCursorStore.keeps_or_replaces`).

The steps of the write are those of any lawful disk, on which a file that takes the place of
another is gone from its own (`Disk.Moves`) : the one on which only what stands in the way
makes a step fail, and the ones that run out of room (`Disk.moves_sound`, `Disk.moves_full`).
-/

namespace RemoteSession

/-- A lawful disk on which a file that has taken the place of another is gone from its
own. -/
structure Disk.Moves (disk : Disk) : Prop extends disk.Lawful where
  rename_gone : ∀ {t p q t'}, t.Closed → FilePath.Beside p q →
    disk.rename t p q = (.ok (), t') → t'.get? p = none

theorem Disk.moves_sound : Disk.sound.Moves where
  toLawful := lawful_sound
  rename_gone _ hb h := by
    rcases whole_eq h with ⟨hrename, -⟩ | ⟨e, -, hresult, -⟩
    · exact FileTree.get?_of_rename hb hrename
    · cases hresult

theorem Disk.moves_full (room : Nat) : (Disk.full room).Moves where
  toLawful := lawful_full room
  rename_gone := moves_sound.rename_gone

namespace FileCursorStore

/-- A store as it may come to be held : it was opened once and was then called, whatever
stood on the disk each time and however its steps went. -/
inductive Held : FileCursorStore → Prop where
  | opened {t : FileTree} {p : FilePath} {s : FileCursorStore} : openAt t p = .ok s → Held s
  | called {s : FileCursorStore} (disk : Disk) (t : FileTree) (call : Call) : Held s →
    Held (call.run disk s t).store

variable {disk : Disk} {t t' : FileTree} {s : FileCursorStore}

/-- The cursors of a store are in order, and its file is not the root. -/
theorem Held.sorted (h : s.Held) : s.path ≠ [] ∧ s.cursors.Sorted := by
  induction h with
  | opened hopen =>
    have hpath := ne_nil_of_openAt hopen
    obtain ⟨rfl, hsorted⟩ := sorted_of_openAt hopen
    exact ⟨hpath, hsorted⟩
  | @called s disk t call _ ih =>
    by_cases hchanges : call.Changes s.cursors
    · rw [Call.run_of_changes hchanges]
      exact ⟨ih.1, Call.sorted_apply ih.2 call⟩
    · rw [Call.run_of_not_changes hchanges]
      exact ih

/-- After a write that succeeds there is no temporary file. -/
theorem Persists.temporary_of_ok (hdisk : disk.Moves) (ht : t.Closed) (hpath : s.path ≠ [])
    (h : Persists disk s t (.ok ()) t') : t'.get? s.temporaryPath = none := by
  obtain _ | _ | _ | ⟨-, hwrite, hrename⟩ := h
  exact hdisk.rename_gone (hdisk.write_closed ht hwrite) (FilePath.beside_withExtension hpath)
    hrename

/-- Whatever stands around the file of a store, a call that is refused leaves what stands at
its path, and a store opened there is the one that was opened before. After a call that had
something to write and is acknowledged, the text of all cursors stands there, it is opened
as these cursors, and there is no temporary file. After one that had nothing to write,
everything is as it was. -/
theorem keeps_or_replaces (hs : s.Held) (ht : t.Closed) (hdisk : disk.Moves) (call : Call) :
    let outcome := call.run disk s t
    (∀ e, outcome.result = .error e →
      outcome.tree.get? s.path = t.get? s.path ∧
        openAt outcome.tree s.path = openAt t s.path) ∧
    (outcome.result = .ok () → call.Changes s.cursors →
      (∃ text mode, (call.apply s.cursors).render? = some text ∧
        outcome.tree.get? s.path = some (.file (Text.Utf8.encode text) mode)) ∧
      openAt outcome.tree s.path = .ok ⟨s.path, call.apply s.cursors⟩ ∧
      outcome.tree.get? s.temporaryPath = none) ∧
    (¬call.Changes s.cursors → outcome.result = .ok () ∧ outcome.tree = t) := by
  intro outcome
  obtain ⟨hpath, hsorted⟩ := hs.sorted
  by_cases hchanges : call.Changes s.cursors
  · -- what is written are the cursors after the call, whether the call is then refused or not
    obtain ⟨r, t', hpersist⟩ :
        ∃ r t', persist disk ⟨s.path, call.apply s.cursors⟩ t = (r, t') := ⟨_, _, rfl⟩
    have hrun : outcome = ⟨r, ⟨s.path, call.apply s.cursors⟩, t'⟩ := by
      rw [show outcome = call.run disk s t from rfl, Call.run_of_changes hchanges]
      simp only [hpersist]
    have hpersists := persists_of_persist hpersist
    have hpath' : (⟨s.path, call.apply s.cursors⟩ : FileCursorStore).path ≠ [] := hpath
    rw [hrun]
    refine ⟨?_, ?_, fun h => absurd hchanges h⟩
    · rintro e rfl
      obtain ⟨hclosed, hkept⟩ := hpersists.get?_of_error hdisk.toLawful ht hpath'
      exact ⟨hkept, openAt_congr ht hclosed hkept⟩
    · rintro rfl -
      have hgone := hpersists.temporary_of_ok hdisk ht hpath'
      obtain ⟨hclosed, text, mode, htext, hfile⟩ := hpersists.get?_of_ok hdisk.toLawful ht hpath'
      exact ⟨⟨text, mode, htext, hfile⟩,
        openAt_of_render? (s := ⟨s.path, call.apply s.cursors⟩) hclosed
          (Call.sorted_apply hsorted call) htext hfile,
        hgone⟩
  · have hrun : outcome = ⟨.ok (), s, t⟩ := Call.run_of_not_changes hchanges
    rw [hrun]
    exact ⟨nofun, fun _ h => absurd h hchanges, fun _ => ⟨rfl, rfl⟩⟩

/-- A directory with the name of the temporary file is in the way of a write, a file that was
left there is not. -/
theorem keeps_or_replaces_blocked :
    let s : FileCursorStore := ⟨["cursors.toml"], [("s1", 4)]⟩
    let written : FileTree :=
      ⟨[(["cursors.toml"], .file (Text.Utf8.encode "[sessions]\ns1 = 4\n") FileTree.privateMode)]⟩
    let blocked := written.set ["cursors.toml.tmp"] .directory
    let left := written.set ["cursors.toml.tmp"] (.file [0xFF] 0o644)
    let call : Call := .store "s1" 5
    s.Held ∧ blocked.Closed ∧ left.Closed ∧
      (call.run .sound s blocked).result = .error (.io .isADirectory) ∧
      (call.run .sound s blocked).tree.get? s.path = blocked.get? s.path ∧
      openAt (call.run .sound s blocked).tree s.path = openAt blocked s.path ∧
      (call.run .sound s left).result = .ok () ∧
      openAt (call.run .sound s left).tree s.path = .ok ⟨s.path, [("s1", 5)]⟩ ∧
      (call.run .sound s left).tree.get? s.temporaryPath = none := by
  intro s written blocked left call
  have hopened : Held ⟨["cursors.toml"], []⟩ := .opened (t := .empty) (p := ["cursors.toml"]) rfl
  have hheld : s.Held := hopened.called .sound .empty (.store "s1" 4)
  have hwritten : written.Closed :=
    FileTree.closed_empty.set (p := ["cursors.toml"]) rfl fun h => by cases h
  have hblocked : blocked.Closed := hwritten.set rfl fun _ => rfl
  have hleft : left.Closed := hwritten.set rfl fun h => by cases h
  have hrefused : (call.run .sound s blocked).result = .error (.io .isADirectory) := rfl
  have htaken : (call.run .sound s left).result = .ok () := rfl
  obtain ⟨hget, hopen⟩ := (keeps_or_replaces hheld hblocked Disk.moves_sound call).1 _ hrefused
  obtain ⟨-, hnew, hgone⟩ :=
    (keeps_or_replaces hheld hleft Disk.moves_sound call).2.1 htaken (by decide)
  exact ⟨hheld, hblocked, hleft, hrefused, hget, hopen, htaken, hnew, hgone⟩

end FileCursorStore

end RemoteSession
