import RemoteSession.Proofs.Storage.Cursors
import RemoteSession.Proofs.Storage.Trees

/-!
# Acknowledged cursors that are durable

A store that is used while writes fail (`Usage`) keeps in its file what the last call that
wrote the file left there, or the opening (`Usage.kept_of_reached`). The store itself has
the cursors of the calls that failed since, too, and it takes a cursor that it has for one
that was written : so a call that repeats a failed one is acknowledged, and nothing is
written. What is acknowledged is durable if it was written by the call itself or was already
in the file, and only then (`Usage.durable_iff_of_acknowledged`).
-/

namespace RemoteSession

namespace FileCursorStore

variable {disk : Disk} {t t' : FileTree} {p : FilePath} {s : FileCursorStore}

/-! ## Opening -/

/-- A file that holds the text of cursors in order is opened with these cursors. -/
theorem openAt_of_render? (ht : t.Closed) (hs : s.cursors.Sorted) {text : String} {mode : Nat}
    (htext : s.cursors.render? = some text)
    (hfile : t.get? s.path = some (.file (Text.Utf8.encode text) mode)) :
    openAt t s.path = .ok s := by
  have hread := FileTree.readText_of_file ht hfile
  rw [openAt, FileTree.exists?_eq ht, hfile]
  simp only [Option.isSome_some, if_true, hread, Cursors.parse?_render? hs htext]

/-- What is opened depends on what stands at the path alone. -/
theorem openAt_congr (ht : t.Closed) (ht' : t'.Closed) (heq : t'.get? p = t.get? p) :
    openAt t' p = openAt t p := by
  rw [openAt, openAt, FileTree.exists?_eq ht, FileTree.exists?_eq ht', heq]
  split
  · next hsome => rw [FileTree.readText_congr ht ht' heq hsome]
  · rfl

/-- What was opened stands at the path, with cursors in order. -/
theorem sorted_of_openAt (h : openAt t p = .ok s) : s.path = p ∧ s.cursors.Sorted := by
  unfold openAt at h
  split at h
  · split at h
    · cases h
    split at h
    · next hparse =>
      cases h
      exact ⟨rfl, Cursors.sorted_of_parse? hparse⟩
    · cases h
  · cases h
    exact ⟨rfl, .nil⟩

/-- The root is no file of a store. -/
theorem ne_nil_of_openAt (h : openAt t p = .ok s) : p ≠ [] := by
  rintro rfl
  cases h

/-! ## Writing -/

/-- How a write of all cursors goes : there is nothing to write if a file cannot hold them,
and otherwise each of the two steps may fail. -/
inductive Persists (disk : Disk) (s : FileCursorStore) (t : FileTree) :
    Except CursorError Unit → FileTree → Prop where
  | unfit (e : CursorError) : s.cursors.render? = none → Persists disk s t (.error e) t
  | unwritten {text : String} {e : IoError} {t' : FileTree} : s.cursors.render? = some text →
    disk.writePrivate t s.temporaryPath (Text.Utf8.encode text) = (.error e, t') →
    Persists disk s t (.error (.io e)) t'
  | unmoved {text : String} {e : IoError} {written t' : FileTree} :
    s.cursors.render? = some text →
    disk.writePrivate t s.temporaryPath (Text.Utf8.encode text) = (.ok (), written) →
    disk.rename written s.temporaryPath s.path = (.error e, t') →
    Persists disk s t (.error (.io e)) t'
  | done {text : String} {written t' : FileTree} : s.cursors.render? = some text →
    disk.writePrivate t s.temporaryPath (Text.Utf8.encode text) = (.ok (), written) →
    disk.rename written s.temporaryPath s.path = (.ok (), t') →
    Persists disk s t (.ok ()) t'

theorem persists_of_persist {r : Except CursorError Unit} (h : persist disk s t = (r, t')) :
    Persists disk s t r t' := by
  unfold persist at h
  split at h
  · next hnone =>
    cases h
    exact .unfit _ hnone
  next text htext =>
  split at h
  · next hwrite =>
    cases h
    exact .unwritten htext hwrite
  next hwrite =>
  split at h
  · next hrename =>
    cases h
    exact .unmoved htext hwrite hrename
  · next hrename =>
    cases h
    exact .done htext hwrite hrename

/-- A write that fails leaves what stands at the path. -/
theorem Persists.get?_of_error (hdisk : disk.Lawful) (ht : t.Closed) (hpath : s.path ≠ [])
    {e : CursorError} (h : Persists disk s t (.error e) t') :
    t'.Closed ∧ t'.get? s.path = t.get? s.path := by
  have hbeside : FilePath.Beside s.temporaryPath s.path := FilePath.beside_withExtension hpath
  cases h with
  | unfit _ _ => exact ⟨ht, rfl⟩
  | unwritten _ hwrite => exact ⟨hdisk.write_closed ht hwrite, hdisk.write_beside ht hbeside hwrite⟩
  | unmoved _ hwrite hrename =>
    have hclosed := hdisk.write_closed ht hwrite
    exact ⟨hdisk.rename_closed hclosed hbeside hrename,
      (hdisk.rename_failed hclosed hbeside hrename).trans (hdisk.write_beside ht hbeside hwrite)⟩

/-- A write that succeeds leaves the text of all cursors at the path. -/
theorem Persists.get?_of_ok (hdisk : disk.Lawful) (ht : t.Closed) (hpath : s.path ≠ [])
    (h : Persists disk s t (.ok ()) t') :
    t'.Closed ∧ ∃ text mode, s.cursors.render? = some text ∧
      t'.get? s.path = some (.file (Text.Utf8.encode text) mode) := by
  have hbeside : FilePath.Beside s.temporaryPath s.path := FilePath.beside_withExtension hpath
  obtain _ | _ | _ | ⟨htext, hwrite, hrename⟩ := h
  have hclosed := hdisk.write_closed ht hwrite
  obtain ⟨mode, hfile⟩ := hdisk.write_done ht hwrite
  exact ⟨hdisk.rename_closed hclosed hbeside hrename, _, mode, htext,
    (hdisk.rename_done hclosed hbeside hrename).trans hfile⟩

/-- What was written is opened again, and a write that fails leaves what is opened. -/
theorem persist_cases (hdisk : disk.Lawful) (ht : t.Closed) (hpath : s.path ≠ [])
    (hs : s.cursors.Sorted) {r : Except CursorError Unit} (h : persist disk s t = (r, t')) :
    t'.Closed ∧ (r = .ok () ∧ openAt t' s.path = .ok s ∨
      (∃ e, r = .error e) ∧ openAt t' s.path = openAt t s.path) := by
  have hpersists := persists_of_persist h
  cases r with
  | error e =>
    obtain ⟨hclosed, hkept⟩ := hpersists.get?_of_error hdisk ht hpath
    exact ⟨hclosed, .inr ⟨⟨e, rfl⟩, openAt_congr ht hclosed hkept⟩⟩
  | ok _ =>
    obtain ⟨hclosed, text, mode, htext, hfile⟩ := hpersists.get?_of_ok hdisk ht hpath
    exact ⟨hclosed, .inl ⟨rfl, openAt_of_render? hclosed hs htext hfile⟩⟩

end FileCursorStore

/-! ## Calls -/

/-- What is asked of a store. -/
inductive Call where
  | store (id : String) (seq : UInt64)
  | reset (id : String)
deriving DecidableEq

namespace Call

/-- The session of a call. -/
def id : Call → String
  | .store id _ => id
  | .reset id => id

/-- The cursor that a call is to leave. -/
def seq : Call → UInt64
  | .store _ seq => seq
  | .reset _ => 0

/-- The cursors after a call. -/
def apply (c : Cursors) : Call → Cursors
  | .store id seq => Keyed.insert c id seq
  | .reset id => Keyed.erase c id

/-- Whether a call has something to write. -/
def Changes (c : Cursors) : Call → Prop
  | .store id seq => Keyed.get? c id ≠ some seq
  | .reset id => (Keyed.get? c id).isSome

instance (c : Cursors) (call : Call) : Decidable (call.Changes c) := by
  cases call <;> unfold Changes <;> infer_instance

/-- The operation of a call. -/
def run (disk : Disk) (s : FileCursorStore) (t : FileTree) : Call → FileCursorStore.Outcome
  | .store id seq => s.store disk t id seq
  | .reset id => s.reset disk t id

variable {disk : Disk} {t : FileTree} {s : FileCursorStore} {c : Cursors} {call : Call}

theorem run_of_changes (h : call.Changes s.cursors) :
    call.run disk s t =
      let s' : FileCursorStore := { s with cursors := call.apply s.cursors }
      ⟨(s'.persist disk t).1, s', (s'.persist disk t).2⟩ := by
  cases call with
  | store id seq =>
    have hne : ¬Keyed.get? s.cursors id = some seq := h
    rw [run, FileCursorStore.store, if_neg hne]
    rfl
  | reset id =>
    have hsome : (Keyed.get? s.cursors id).isSome := h
    rw [run, FileCursorStore.reset, if_pos hsome]
    rfl

theorem run_of_not_changes (h : ¬call.Changes s.cursors) :
    call.run disk s t = ⟨.ok (), s, t⟩ := by
  cases call with
  | store id seq =>
    have heq : Keyed.get? s.cursors id = some seq := Decidable.not_not.1 h
    rw [run, FileCursorStore.store, if_pos heq]
  | reset id =>
    have hnone : ¬(Keyed.get? s.cursors id).isSome := h
    rw [run, FileCursorStore.reset, if_neg hnone]

theorem sorted_apply (h : c.Sorted) (call : Call) : (call.apply c).Sorted := by
  cases call with
  | store id seq => exact h.insert id seq
  | reset id => exact h.erase id

theorem load_apply (c : Cursors) (call : Call) : (call.apply c).load call.id = call.seq := by
  cases call with
  | store id seq => rw [Cursors.load, apply, Call.id, Keyed.get?_insert, if_pos rfl]; rfl
  | reset id => rw [Cursors.load, apply, Call.id, Keyed.get?_erase, if_pos rfl]; rfl

theorem get?_apply_of_ne (c : Cursors) {other : String} (h : call.id ≠ other) :
    (call.apply c).get? other = c.get? other := by
  cases call with
  | store id seq =>
    have hne : id ≠ other := h
    rw [apply, Keyed.get?_insert, if_neg hne]
  | reset id =>
    have hne : id ≠ other := h
    rw [apply, Keyed.get?_erase, if_neg hne]

/-- A call without anything to write asks for the cursor that is there. -/
theorem load_of_not_changes (h : ¬call.Changes c) : c.load call.id = call.seq := by
  cases call with
  | store id seq =>
    have heq : Keyed.get? c id = some seq := Decidable.not_not.1 h
    rw [Cursors.load, Call.id, heq]
    rfl
  | reset id =>
    have hnone : ¬(Keyed.get? c id).isSome := h
    rw [Bool.not_eq_true, Option.isSome_eq_false_iff, Option.isNone_iff_eq_none] at hnone
    rw [Cursors.load, Call.id, hnone]
    rfl

end Call

/-! ## Stores in use -/

/-- A store in use : the store and the tree, what the last call that wrote the file left in
it, or the opening, and the calls that failed since. -/
structure Usage where
  store : FileCursorStore
  tree : FileTree
  recorded : Cursors
  failed : List Call

namespace Usage

/-- A store that was opened. -/
def opened (s : FileCursorStore) (t : FileTree) : Usage :=
  ⟨s, t, s.cursors, []⟩

/-- A call, with what the disk does at it. -/
def step (u : Usage) (disk : Disk) (call : Call) : Usage :=
  let outcome := call.run disk u.store u.tree
  if call.Changes u.store.cursors then
    match outcome.result with
    | .ok () => ⟨outcome.store, outcome.tree, outcome.store.cursors, []⟩
    | .error _ => ⟨outcome.store, outcome.tree, u.recorded, u.failed ++ [call]⟩
  else ⟨outcome.store, outcome.tree, u.recorded, u.failed⟩

/-- A store that was opened and then used, where any step of the disk may fail at any
call. -/
inductive Reached : Usage → Prop where
  | opened {t : FileTree} {p : FilePath} {s : FileCursorStore} : t.Closed →
    FileCursorStore.openAt t p = .ok s → Reached (opened s t)
  | step {u : Usage} {disk : Disk} : Reached u → disk.Lawful →
    ∀ call, Reached (u.step disk call)

/-- A call is durable if a store opened anew loads the cursor that the call is to leave. -/
def Durable (u : Usage) (call : Call) : Prop :=
  ∃ s, FileCursorStore.openAt u.tree u.store.path = .ok s ∧ s.load call.id = call.seq

/-- What holds of a store in use. -/
structure Kept (u : Usage) : Prop where
  closed : u.tree.Closed
  sorted : u.store.cursors.Sorted
  /-- A store opened anew has what was written last. -/
  reopened : FileCursorStore.openAt u.tree u.store.path = .ok ⟨u.store.path, u.recorded⟩
  /-- The store has the cursors of the calls that failed since, too. -/
  pending : u.store.cursors = u.failed.foldl Call.apply u.recorded

variable {u : Usage} {disk : Disk} {call : Call}

/-- The store with the cursors after a call. -/
def after (u : Usage) (call : Call) : FileCursorStore :=
  { u.store with cursors := call.apply u.store.cursors }

theorem step_of_not_changes (h : ¬call.Changes u.store.cursors) : u.step disk call = u := by
  rw [step, if_neg h, Call.run_of_not_changes h]

theorem step_of_written {t' : FileTree} (h : call.Changes u.store.cursors)
    (hwrite : (u.after call).persist disk u.tree = (.ok (), t')) :
    u.step disk call = ⟨u.after call, t', call.apply u.store.cursors, []⟩ := by
  have hresult : ((u.after call).persist disk u.tree).1 = .ok () := by rw [hwrite]
  rw [step, if_pos h, Call.run_of_changes h]
  simp only [← after.eq_1, hresult]
  rw [hwrite]

theorem step_of_failed {e : CursorError} {t' : FileTree} (h : call.Changes u.store.cursors)
    (hwrite : (u.after call).persist disk u.tree = (.error e, t')) :
    u.step disk call = ⟨u.after call, t', u.recorded, u.failed ++ [call]⟩ := by
  have hresult : ((u.after call).persist disk u.tree).1 = .error e := by rw [hwrite]
  rw [step, if_pos h, Call.run_of_changes h]
  simp only [← after.eq_1, hresult]
  rw [hwrite]

theorem kept_opened {t : FileTree} {p : FilePath} {s : FileCursorStore} (ht : t.Closed)
    (h : FileCursorStore.openAt t p = .ok s) : (opened s t).Kept := by
  obtain ⟨rfl, hsorted⟩ := FileCursorStore.sorted_of_openAt h
  exact ⟨ht, hsorted, h, rfl⟩

theorem kept_step (hk : u.Kept) (hdisk : disk.Lawful) (call : Call) :
    (u.step disk call).Kept := by
  by_cases hchanges : call.Changes u.store.cursors
  · have hsorted : (u.after call).cursors.Sorted := Call.sorted_apply hk.sorted call
    have hpath : (u.after call).path ≠ [] := FileCursorStore.ne_nil_of_openAt hk.reopened
    obtain ⟨r, t', hwrite⟩ : ∃ r t', (u.after call).persist disk u.tree = (r, t') := ⟨_, _, rfl⟩
    obtain ⟨hclosed, hresult⟩ := FileCursorStore.persist_cases hdisk hk.closed hpath hsorted hwrite
    rcases hresult with ⟨rfl, hopen⟩ | ⟨⟨e, rfl⟩, hopen⟩
    · rw [step_of_written hchanges hwrite]
      exact ⟨hclosed, hsorted, hopen, rfl⟩
    · rw [step_of_failed hchanges hwrite]
      refine ⟨hclosed, hsorted, hopen.trans hk.reopened, ?_⟩
      rw [List.foldl_append, ← hk.pending]
      rfl
  · rw [step_of_not_changes hchanges]
    exact hk

/-- Whatever fails, the file holds what was written last. -/
theorem kept_of_reached (hu : u.Reached) : u.Kept := by
  induction hu with
  | opened ht hopen => exact kept_opened ht hopen
  | step _ hdisk call ih => exact kept_step ih hdisk call

theorem Kept.durable_iff (hk : u.Kept) : u.Durable call ↔ u.recorded.load call.id = call.seq := by
  unfold Durable
  rw [hk.reopened]
  refine ⟨?_, fun h => ⟨_, rfl, h⟩⟩
  rintro ⟨s, hs, hload⟩
  cases hs
  exact hload

/-- What no failed call is about is as it was written. -/
theorem Kept.get?_eq (hk : u.Kept) {id : String} (h : ∀ call ∈ u.failed, call.id ≠ id) :
    u.store.cursors.get? id = u.recorded.get? id := by
  have hfold : ∀ (failed : List Call) (c : Cursors), (∀ call ∈ failed, call.id ≠ id) →
      (failed.foldl Call.apply c).get? id = c.get? id := by
    intro failed
    induction failed with
    | nil => exact fun _ _ => rfl
    | cons call failed ih =>
      intro c hne
      rw [List.foldl_cons, ih _ fun call hcall => hne call (List.mem_cons_of_mem _ hcall)]
      exact Call.get?_apply_of_ne c (hne call List.mem_cons_self)
  rw [hk.pending]
  exact hfold _ _ h

/-- A call that has something to write and is acknowledged was written. -/
theorem durable_of_written (hk : u.Kept) (hdisk : disk.Lawful)
    (hok : (call.run disk u.store u.tree).result = .ok ())
    (hchanges : call.Changes u.store.cursors) : (u.step disk call).Durable call := by
  have hkept := kept_step hk hdisk call
  obtain ⟨r, t', hwrite⟩ : ∃ r t', (u.after call).persist disk u.tree = (r, t') := ⟨_, _, rfl⟩
  rw [Call.run_of_changes hchanges] at hok
  have hr : r = .ok () := by
    rw [← hok]
    exact (congrArg Prod.fst hwrite).symm
  rw [hr] at hwrite
  rw [hkept.durable_iff, step_of_written hchanges hwrite]
  exact Call.load_apply u.store.cursors call

/-- A call that is acknowledged is durable if and only if it was written or the cursor was
in the file already, and so it is whenever no call for the session failed since the file was
written last. -/
theorem durable_iff_of_acknowledged (hu : u.Reached) (hdisk : disk.Lawful)
    (hok : (call.run disk u.store u.tree).result = .ok ()) :
    ((u.step disk call).Durable call ↔
      call.Changes u.store.cursors ∨ u.recorded.load call.id = call.seq) ∧
    ((∀ other ∈ u.failed, other.id ≠ call.id) → (u.step disk call).Durable call) := by
  have hk := kept_of_reached hu
  by_cases hchanges : call.Changes u.store.cursors
  · have hdurable := durable_of_written hk hdisk hok hchanges
    exact ⟨⟨fun _ => .inl hchanges, fun _ => hdurable⟩, fun _ => hdurable⟩
  · rw [step_of_not_changes hchanges, hk.durable_iff]
    refine ⟨⟨.inr, fun h => h.resolve_left hchanges⟩, fun hother => ?_⟩
    rw [Cursors.load, ← hk.get?_eq hother]
    exact Call.load_of_not_changes hchanges

/-- After a write without room, a cursor of another session is durable. -/
theorem durable_iff_of_acknowledged_full :
    let u := (opened ⟨["cursors.toml"], []⟩ .empty).step (.full 0) (.store "s1" 5)
    (u.step .sound (.store "s2" 7)).Durable (.store "s2" 7) := by
  have hopened : Reached (opened ⟨["cursors.toml"], []⟩ .empty) :=
    .opened FileTree.closed_empty (p := ["cursors.toml"]) rfl
  have hreached := hopened.step (Disk.lawful_full 0) (.store "s1" 5)
  exact (durable_iff_of_acknowledged hreached Disk.lawful_sound rfl).2 (by decide)

/-- Where a directory has the name of the temporary file, a cursor is refused, and the same
cursor is then acknowledged while a store opened anew knows none. -/
theorem not_durable_when_repeated :
    let t : FileTree := ⟨[(["cursors.toml.tmp"], .directory)]⟩
    let call : Call := .store "s1" 5
    let u := (opened ⟨["cursors.toml"], []⟩ t).step .sound call
    u.Reached ∧ (call.run .sound u.store u.tree).result = .ok () ∧
      ¬(u.step .sound call).Durable call := by
  have hclosed : FileTree.Closed ⟨[(["cursors.toml.tmp"], .directory)]⟩ :=
    FileTree.closed_empty.set (p := ["cursors.toml.tmp"]) rfl fun _ => rfl
  have hopened : Reached (opened ⟨["cursors.toml"], []⟩ ⟨[(["cursors.toml.tmp"], .directory)]⟩) :=
    .opened hclosed (p := ["cursors.toml"]) rfl
  refine ⟨hopened.step Disk.lawful_sound _, rfl, ?_⟩
  rintro ⟨s, hs, hload⟩
  cases hs
  exact absurd hload (by decide)

end Usage

end RemoteSession
