import RemoteSession.Proofs.Storage.Restarts

/-!
# Stores in a directory that stays writable

Where nothing stands in the way of the two files of a store (`FileCursorStore.Writable`) a
write succeeds, and nothing stands in the way after it; the only calls that are refused are
those after which the store has a cursor that a file cannot hold
(`FileCursorStore.Writable.persist`). Such a cursor stays in the store after its call was
refused. So a cursor that a file can hold is stored, and durable, if and only if no other
session was left with one that it cannot hold, or there is nothing to write
(`Usage.stored_iff`) : a session can block all others (`Usage.refused_after_other`).
-/

namespace RemoteSession

namespace FileTree

variable {t t' : FileTree} {p q : FilePath} {content : List UInt8}

/-- Nothing stands in the way of a file : on its way are directories or nothing, and at its
place is none. -/
structure Clear (t : FileTree) (p : FilePath) : Prop where
  way : ∀ n < p.length, t.get? (p.take n) = none ∨ t.get? (p.take n) = some .directory
  place : t.get? p ≠ some .directory

theorem Clear.ne_nil (h : t.Clear p) : p ≠ [] := by
  rintro rfl
  exact h.place (get?_nil t)

theorem clear_empty (hp : p ≠ []) : empty.Clear p := by
  refine ⟨fun n _ => ?_, ?_⟩
  · by_cases hnil : p.take n = []
    · rw [hnil]
      exact .inr (get?_nil empty)
    · rw [get?_of_ne_nil hnil]
      exact .inl rfl
  · rw [get?_of_ne_nil hp]
    exact nofun

/-! ## Making directories -/

theorem enter_of_not_file {way : FilePath}
    (hway : t.get? way = none ∨ t.get? way = some .directory) :
    ∃ t', t.enter p way = .ok t' ∧
      ∀ q, t'.get? q = t.get? q ∨ t'.get? q = some .directory := by
  unfold enter
  rcases hway with hnone | hdirectory
  · have hnil : way ≠ [] := by
      rintro rfl
      cases hnone
    simp only [hnone]
    refine ⟨_, rfl, fun q => ?_⟩
    by_cases hq : q = way
    · rw [hq, get?_set_self t _ hnil]
      exact .inr rfl
    · exact .inl (get?_set_of_ne t _ hq)
  · simp only [hdirectory]
    exact ⟨t, rfl, fun _ => .inl rfl⟩

theorem foldlM_enter_of_clear {k : Nat}
    (hway : ∀ n < k, t.get? (p.take n) = none ∨ t.get? (p.take n) = some .directory) :
    ∃ t', ((List.range k).map fun n => p.take n).foldlM (fun t => t.enter p) t = .ok t' ∧
      ∀ q, t'.get? q = t.get? q ∨ t'.get? q = some .directory := by
  induction k with
  | zero => exact ⟨t, rfl, fun _ => .inl rfl⟩
  | succ k ih =>
    obtain ⟨before, hbefore, hkept⟩ := ih fun n hn => hway n (Nat.lt_succ_of_lt hn)
    have hnext : before.get? (p.take k) = none ∨ before.get? (p.take k) = some .directory := by
      rcases hkept (p.take k) with heq | hdirectory
      · rw [heq]
        exact hway k (Nat.lt_succ_self k)
      · exact .inr hdirectory
    obtain ⟨after, hafter, hadded⟩ := enter_of_not_file (p := p) hnext
    refine ⟨after, ?_, fun q => ?_⟩
    · rw [List.range_succ, List.map_append, List.foldlM_append, hbefore]
      change (before.enter p (p.take k) >>= pure) = _
      rw [bind_pure, hafter]
    · rcases hadded q with heq | hdirectory
      · rw [heq]
        exact hkept q
      · exact .inr hdirectory

/-- The directories on the way of a file can be made. -/
theorem createDirectories_of_clear (ht : t.Closed) (h : t.Clear p) :
    ∃ t', t.createDirectories p.parent = .ok t' ∧ t'.wayFault? p = none := by
  obtain hnil | ⟨directory, name, rfl⟩ := List.eq_nil_or_concat p
  · exact absurd hnil h.ne_nil
  rw [List.concat_eq_append] at h ⊢
  have hparent : FilePath.parent (directory ++ [name]) = directory := List.dropLast_concat
  have hlength : (directory ++ [name]).length = directory.length + 1 := List.length_append
  have htake : ∀ n < directory.length + 1, (directory ++ [name]).take n = directory.take n :=
    fun n hn => List.take_append_of_le_length (Nat.le_of_lt_succ hn)
  obtain ⟨made, hmade, -⟩ :=
    foldlM_enter_of_clear (t := t) (p := directory) (k := directory.length + 1) fun n hn => by
      rw [← htake n hn]
      exact h.way n (hlength ▸ hn)
  obtain ⟨-, hways, -⟩ := foldlM_enter_ok ht (Nat.le_refl _) hmade
  refine ⟨made, by rw [hparent, createDirectories_eq, hmade], wayFault?_eq_none.2 fun n hn => ?_⟩
  rw [hlength] at hn
  rw [htake n hn]
  exact hways n hn

theorem write_of_clear (hway : t.wayFault? p = none) (hplace : t.get? p ≠ some .directory)
    (content : List UInt8) (mode : Nat) : ∃ t', t.write p content mode = .ok t' := by
  rw [write, hway]
  simp only
  split
  · next hdirectory => exact absurd hdirectory hplace
  · exact ⟨_, rfl⟩
  · exact ⟨_, rfl⟩

/-- A file is written where nothing stands in its way. -/
theorem writePrivate_of_clear (ht : t.Closed) (h : t.Clear p) (content : List UInt8) :
    ∃ t', Disk.sound.writePrivate t p content = (.ok (), t') := by
  obtain ⟨made, hmade, hway⟩ := createDirectories_of_clear ht h
  obtain ⟨-, hother⟩ := createDirectories_ok ht hmade
  have hplace : made.get? p ≠ some .directory := by
    have hnot : ¬p <+: p.parent := by
      intro hprefix
      have hlength := hprefix.length_le
      rw [FilePath.parent, List.length_dropLast] at hlength
      have hpos := List.length_pos_iff.2 h.ne_nil
      omega
    rw [hother p hnot]
    exact h.place
  obtain ⟨written, hwritten⟩ := write_of_clear hway hplace content privateMode
  refine ⟨written, ?_⟩
  simp only [Disk.sound, hmade, hwritten]
  rfl

/-- A disk that fails only where something stands in the way writes a file as a whole. -/
theorem writePrivate_of_sound (h : Disk.sound.writePrivate t p content = (.ok (), t')) :
    t.writePrivate p content = .ok t' := by
  unfold Disk.sound at h
  cases hmade : t.createDirectories p.parent with
  | error e =>
    simp only [hmade] at h
    cases h
  | ok made =>
    simp only [hmade] at h
    rcases Disk.whole_eq h with ⟨hwrite, -⟩ | ⟨e, -, he, -⟩
    · simp only [writePrivate, hmade]
      exact hwrite
    · cases he

/-! ## Putting one file in the place of another -/

theorem take_of_beside (hb : FilePath.Beside p q) {n : Nat} (hn : n < q.length) :
    q.take n = p.take n := by
  obtain ⟨directory, a, b, rfl, rfl, -⟩ := hb
  rw [List.length_append, List.length_singleton] at hn
  rw [List.take_append_of_le_length (Nat.le_of_lt_succ hn),
    List.take_append_of_le_length (Nat.le_of_lt_succ hn)]

theorem wayFault?_of_beside (hb : FilePath.Beside p q) (h : t.wayFault? p = none) :
    t.wayFault? q = none := by
  rw [wayFault?_eq_none] at h ⊢
  intro n hn
  rw [take_of_beside hb hn]
  exact h n (hb.length_eq ▸ hn)

theorem Clear.of_wayFault? (hway : t.wayFault? p = none) (hplace : t.get? p ≠ some .directory) :
    t.Clear p :=
  ⟨fun n hn => .inr (wayFault?_eq_none.1 hway n hn), hplace⟩

/-- A file that is there takes the place of another, and is gone from its own. -/
theorem rename_of_clear (ht : t.Closed) (hb : FilePath.Beside p q) {mode : Nat}
    (hfile : t.get? p = some (.file content mode)) (hplace : t.get? q ≠ some .directory) :
    ∃ t', Disk.sound.rename t p q = (.ok (), t') ∧ t'.get? p = none := by
  have hway : t.wayFault? q = none := wayFault?_of_beside hb (ht p (by rw [hfile]; rfl))
  have hrename : t.rename p q = .ok ((t.remove p).set q (.file content mode)) := by
    simp only [rename, hfile, hway]
  refine ⟨_, ?_, get?_of_rename hb hrename⟩
  simp only [Disk.sound, hrename]
  rfl

end FileTree

namespace FileCursorStore

variable {s s' : FileCursorStore} {t : FileTree}

/-- Nothing stands in the way of the file of a store and of the one that is written before
it takes its place. -/
structure Writable (s : FileCursorStore) (t : FileTree) : Prop where
  closed : t.Closed
  temporary : t.Clear s.temporaryPath
  file : t.Clear s.path

theorem Writable.of_path_eq (h : s.Writable t) (hpath : s'.path = s.path) : s'.Writable t := by
  have htemporary : s'.temporaryPath = s.temporaryPath := by
    rw [temporaryPath, hpath, temporaryPath]
  exact ⟨h.closed, htemporary ▸ h.temporary, hpath ▸ h.file⟩

theorem writable_empty (hpath : s.path ≠ []) : s.Writable .empty :=
  have hbeside : FilePath.Beside s.temporaryPath s.path := FilePath.beside_withExtension hpath
  ⟨FileTree.closed_empty, FileTree.clear_empty hbeside.ne_nil, FileTree.clear_empty hpath⟩

/-- Where nothing stands in the way a write is refused only for what a file cannot hold, and
nothing stands in the way after it. -/
theorem Writable.persist (h : s.Writable t) :
    (s.cursors.render? = none ∧ s.persist .sound t = (.error (.toml ""), t)) ∨
      s.cursors.render? ≠ none ∧
        ∃ t', s.persist .sound t = (.ok (), t') ∧ s.Writable t' := by
  have hbeside : FilePath.Beside s.temporaryPath s.path :=
    FilePath.beside_withExtension h.file.ne_nil
  cases htext : s.cursors.render? with
  | none => exact .inl ⟨rfl, by simp only [FileCursorStore.persist, htext]⟩
  | some text =>
    obtain ⟨written, hwrite⟩ :=
      FileTree.writePrivate_of_clear h.closed h.temporary (Text.Utf8.encode text)
    have hclosed := Disk.lawful_sound.write_closed h.closed hwrite
    have hstays := Disk.lawful_sound.write_beside h.closed hbeside hwrite
    obtain ⟨mode, hfile⟩ := Disk.lawful_sound.write_done h.closed hwrite
    obtain ⟨renamed, hrename, hgone⟩ :=
      FileTree.rename_of_clear hclosed hbeside hfile (hstays ▸ h.file.place)
    have hclosed' := Disk.lawful_sound.rename_closed hclosed hbeside hrename
    have hdone := Disk.lawful_sound.rename_done hclosed hbeside hrename
    have hway : renamed.wayFault? s.path = none := hclosed' _ (by rw [hdone, hfile]; rfl)
    have hplace : renamed.get? s.path ≠ some .directory := by
      rw [hdone, hfile]
      intro h
      cases h
    refine .inr ⟨Option.some_ne_none text, renamed, ?_, hclosed', ?_, .of_wayFault? hway hplace⟩
    · simp only [FileCursorStore.persist, htext, hwrite, hrename]
    · refine .of_wayFault? (FileTree.wayFault?_of_beside hbeside.symm hway) ?_
      rw [hgone]
      exact (Option.some_ne_none _).symm

end FileCursorStore

/-! ## Cursors that a file can hold -/

namespace Cursors

variable {c : Cursors}

theorem mem_of_get? {id : String} {seq : UInt64} (h : Keyed.get? c id = some seq) :
    (id, seq) ∈ c := by
  induction c with
  | nil => cases h
  | cons e rest ih =>
    obtain ⟨key, value⟩ := e
    rw [Keyed.get?] at h
    split at h
    · next hkey =>
      cases h
      rw [hkey]
      exact List.mem_cons_self
    · exact List.mem_cons_of_mem _ (ih h)

theorem get?_of_mem (hs : c.Sorted) {e : String × UInt64} (h : e ∈ c) :
    Keyed.get? c e.1 = some e.2 := by
  induction c with
  | nil => cases h
  | cons first rest ih =>
    obtain ⟨hfirst, hrest⟩ := List.pairwise_cons.1 hs
    rw [Keyed.get?]
    rcases List.mem_cons.1 h with rfl | h
    · rw [if_pos rfl]
    · have hne : first.1 ≠ e.1 := fun heq => String.lt_irrefl e.1 (heq ▸ hfirst e h)
      rw [if_neg hne]
      exact ih hrest h

/-- A file can hold cursors if it can hold what is loaded for each session. -/
theorem render?_ne_none_iff (hs : c.Sorted) :
    c.render? ≠ none ↔ ∀ id, c.load id ≤ greatest := by
  have hall : c.render? ≠ none ↔ ∀ e ∈ c, e.2 ≤ greatest := by
    rw [render?]
    split
    · next h => simpa using h
    · next h => simpa using h
  rw [hall]
  constructor
  · intro h id
    rw [load]
    cases hget : Keyed.get? c id with
    | none => exact UInt64.zero_le
    | some seq => exact h _ (mem_of_get? hget)
  · intro h e he
    have hload := h e.1
    rw [load, get?_of_mem hs he] at hload
    exact hload

end Cursors

/-! ## Stores in use -/

namespace Usage

variable {u : Usage} {call : Call}

/-- A store in use after some calls at which the disk fails only where something stands in
the way. -/
def calls (u : Usage) (calls : List Call) : Usage :=
  calls.foldl (fun u call => u.step .sound call) u

/-- What holds of a store in use where nothing stands in the way : if a file can hold all
that the store has, then the file holds it. -/
structure Unhindered (u : Usage) : Prop where
  reached : u.Reached
  writable : u.store.Writable u.tree
  current : u.store.cursors.render? ≠ none → u.recorded = u.store.cursors

theorem Unhindered.opened {t : FileTree} {p : FilePath} {s : FileCursorStore} (ht : t.Closed)
    (hopen : FileCursorStore.openAt t p = .ok s) (hw : s.Writable t) :
    (opened s t).Unhindered :=
  ⟨.opened ht hopen, hw, fun _ => rfl⟩

theorem Unhindered.after (h : u.Unhindered) (call : Call) : (u.after call).Writable u.tree :=
  h.writable.of_path_eq rfl

theorem Unhindered.step (h : u.Unhindered) (call : Call) : (u.step .sound call).Unhindered := by
  refine ⟨h.reached.step Disk.lawful_sound call, ?_, ?_⟩ <;>
    by_cases hchanges : call.Changes u.store.cursors
  · rcases (h.after call).persist with ⟨-, hwrite⟩ | ⟨-, t', hwrite, hwritable⟩
    · rw [step_of_failed hchanges hwrite]
      exact h.after call
    · rw [step_of_written hchanges hwrite]
      exact hwritable
  · rw [step_of_not_changes hchanges]
    exact h.writable
  · rcases (h.after call).persist with ⟨hnone, hwrite⟩ | ⟨-, t', hwrite, -⟩
    · rw [step_of_failed hchanges hwrite]
      exact fun hsome => absurd hnone hsome
    · rw [step_of_written hchanges hwrite]
      exact fun _ => rfl
  · rw [step_of_not_changes hchanges]
    exact h.current

theorem Unhindered.calls (h : u.Unhindered) (calls : List Call) : (u.calls calls).Unhindered := by
  induction calls generalizing u with
  | nil => exact h
  | cons call rest ih => exact ih (h.step call)

/-- A call that has something to write is acknowledged if and only if a file can hold what
the store has then. -/
theorem Unhindered.acknowledged_iff (h : u.Unhindered) (hchanges : call.Changes u.store.cursors) :
    (call.run .sound u.store u.tree).result = .ok () ↔
      (call.apply u.store.cursors).render? ≠ none := by
  rw [Call.run_of_changes hchanges]
  rcases (h.after call).persist with ⟨hnone, hwrite⟩ | ⟨hsome, t', hwrite, -⟩
  · have hrefused : ((u.after call).persist .sound u.tree).1 = .error (.toml "") := by rw [hwrite]
    refine ⟨fun hok => ?_, fun hsome => absurd hnone hsome⟩
    exact absurd (hrefused.symm.trans hok) nofun
  · have htaken : ((u.after call).persist .sound u.tree).1 = .ok () := by rw [hwrite]
    exact ⟨fun _ => hsome, fun _ => htaken⟩

/-- A file can hold what the store has after a cursor that a file can hold was stored, if it
can hold the cursors of the other sessions. -/
theorem render?_store_ne_none_iff {c : Cursors} (hs : c.Sorted) (id : String) {seq : UInt64}
    (hseq : seq ≤ Cursors.greatest) :
    ((Call.store id seq).apply c).render? ≠ none ↔
      ∀ other ≠ id, c.load other ≤ Cursors.greatest := by
  rw [Cursors.render?_ne_none_iff (Call.sorted_apply hs _)]
  have hother : ∀ other ≠ id, ((Call.store id seq).apply c).load other = c.load other := by
    intro other hne
    rw [Cursors.load, Call.get?_apply_of_ne c (Ne.symm hne)]
    rfl
  have hself : ((Call.store id seq).apply c).load id = seq := Call.load_apply c (.store id seq)
  constructor
  · intro h other hne
    rw [← hother other hne]
    exact h other
  · intro h other
    by_cases heq : other = id
    · rw [heq, hself]
      exact hseq
    · rw [hother other heq]
      exact h other heq

/-- Where nothing stands in the way of the files, whatever was stored and forgotten before,
a cursor that a file can hold is stored, and durable, if and only if the store has no cursor
of another session that a file cannot hold, or has this one, in the file too. -/
theorem stored_iff {t : FileTree} {p : FilePath} {s : FileCursorStore} (ht : t.Closed)
    (hopen : FileCursorStore.openAt t p = .ok s) (hw : s.Writable t) (before : List Call)
    (id : String) {seq : UInt64} (hseq : seq ≤ Cursors.greatest) :
    let u := (opened s t).calls before
    let call : Call := .store id seq
    ((call.run .sound u.store u.tree).result = .ok () ∧ (u.step .sound call).Durable call) ↔
      (∀ other ≠ id, u.store.load other ≤ Cursors.greatest) ∨
        Keyed.get? u.store.cursors id = some seq ∧ u.recorded.load id = seq := by
  intro u call
  have h : u.Unhindered := (Unhindered.opened ht hopen hw).calls before
  have hk := kept_of_reached h.reached
  have hholds := render?_store_ne_none_iff hk.sorted id hseq
  by_cases hchanges : call.Changes u.store.cursors
  · have hnew : Keyed.get? u.store.cursors id ≠ some seq := hchanges
    rw [or_iff_left fun hhas => hnew hhas.1]
    refine Iff.trans ⟨fun hdone => ?_, fun hsome => ?_⟩ hholds
    · exact (h.acknowledged_iff hchanges).1 hdone.1
    · have hok := (h.acknowledged_iff hchanges).2 hsome
      exact ⟨hok, durable_of_written hk Disk.lawful_sound hok hchanges⟩
  · have hhas : Keyed.get? u.store.cursors id = some seq := Decidable.not_not.1 hchanges
    have hok : (call.run .sound u.store u.tree).result = .ok () := by
      rw [Call.run_of_not_changes hchanges]
    rw [step_of_not_changes hchanges, hk.durable_iff]
    refine ⟨fun hdone => .inr ⟨hhas, hdone.2⟩, fun hcause => ⟨hok, ?_⟩⟩
    rcases hcause with hothers | ⟨-, hrecorded⟩
    · have hfits : ∀ other, u.store.cursors.load other ≤ Cursors.greatest := by
        intro other
        by_cases heq : other = id
        · rw [heq, Cursors.load, hhas]
          exact hseq
        · exact hothers other heq
      rw [h.current ((Cursors.render?_ne_none_iff hk.sorted).2 hfits), Cursors.load]
      exact congrArg (·.getD 0) hhas
    · exact hrecorded

/-- A cursor that no file can hold is refused, its session is then forgotten, and the cursor
of another session is stored. -/
theorem stored_iff_forgotten :
    let u := (opened ⟨["cursors.toml"], []⟩ .empty).calls
      [.store "s1" 9223372036854775808, .reset "s1"]
    let call : Call := .store "s2" 5
    (5 : UInt64) ≤ Cursors.greatest ∧
      (call.run .sound u.store u.tree).result = .ok () ∧ (u.step .sound call).Durable call := by
  intro u call
  have hwritable : FileCursorStore.Writable ⟨["cursors.toml"], []⟩ .empty :=
    FileCursorStore.writable_empty (List.cons_ne_nil _ _)
  have hcursors : u.store.cursors = [] := rfl
  have hothers : ∀ other ≠ "s2", u.store.load other ≤ Cursors.greatest := by
    intro other _
    rw [FileCursorStore.load, hcursors]
    exact UInt64.zero_le
  have hle : (5 : UInt64) ≤ Cursors.greatest := by decide
  have hdone := (stored_iff (p := ["cursors.toml"]) FileTree.closed_empty rfl hwritable
    [.store "s1" 9223372036854775808, .reset "s1"] "s2" hle).2 (.inl hothers)
  exact ⟨hle, hdone⟩

/-- After a cursor that no file can hold was refused for one session, one that a file can
hold is refused for another. -/
theorem refused_after_other :
    let u := (opened ⟨["cursors.toml"], []⟩ .empty).calls [.store "s1" 9223372036854775808]
    let call : Call := .store "s2" 5
    u.Reached ∧ u.store.Writable u.tree ∧ (5 : UInt64) ≤ Cursors.greatest ∧
      (call.run .sound u.store u.tree).result = .error (.toml "") := by
  intro u call
  have hwritable : FileCursorStore.Writable ⟨["cursors.toml"], []⟩ .empty :=
    FileCursorStore.writable_empty (List.cons_ne_nil _ _)
  have h : u.Unhindered :=
    (Unhindered.opened (p := ["cursors.toml"]) FileTree.closed_empty rfl hwritable).calls _
  exact ⟨h.reached, h.writable, by decide, rfl⟩

end Usage

end RemoteSession
