import RemoteSession.Proofs.Storage.Durability

/-!
# Stores that are opened again

A store in a file that is used, closed and opened again, as often as one likes and with any
sessions, answers as a store in memory that is used the same way and never closed. As long
as every write succeeds the file holds what the store has (`FileCursorStore.Saved`), so
that opening it anew changes nothing; and the calls that write nothing are those that
change nothing (`Call.get?_apply_of_not_changes`). That a cursor can be written, and that
a file can be read again, is no assumption (`FileCursorStore.answers_eq_memory`).
-/

namespace RemoteSession

/-- What is asked of cursors : to tell one of them, or to change. -/
inductive Request where
  | load (id : String)
  | call (call : Call)
deriving DecidableEq

/-- What is done with a store in a file : something is asked of it, or it is opened
anew. -/
inductive Use where
  | request (request : Request)
  | reopen
deriving DecidableEq

/-- What a use asks of a store, unless it opens it anew. -/
def Use.request? : Use → Option Request
  | .request r => some r
  | .reopen => none

/-- What is asked of a store, apart from being opened anew. -/
def Use.requests (uses : List Use) : List Request :=
  uses.filterMap Use.request?

namespace MemoryCursorStore

/-- The store after a call. -/
def perform (s : MemoryCursorStore) : Call → MemoryCursorStore
  | .store id seq => s.store id seq
  | .reset id => s.reset id

/-- What the store tells. -/
def answers (s : MemoryCursorStore) : List Request → List UInt64
  | [] => []
  | .load id :: rest => s.load id :: s.answers rest
  | .call call :: rest => (s.perform call).answers rest

theorem cursors_perform (s : MemoryCursorStore) (call : Call) :
    (s.perform call).cursors = call.apply s.cursors := by
  cases call <;> rfl

end MemoryCursorStore

namespace Call

variable {c c' : Cursors} {call : Call}

/-- A call without anything to write changes no cursor. -/
theorem get?_apply_of_not_changes (h : ¬call.Changes c) (id : String) :
    (call.apply c).get? id = c.get? id := by
  cases call with
  | store key seq =>
    have heq : Keyed.get? c key = some seq := Decidable.not_not.1 h
    rw [apply, Keyed.get?_insert]
    split
    · next hid => rw [← hid, heq]
    · rfl
  | reset key =>
    have hnone : ¬(Keyed.get? c key).isSome := h
    rw [Bool.not_eq_true, Option.isSome_eq_false_iff, Option.isNone_iff_eq_none] at hnone
    rw [apply, Keyed.get?_erase]
    split
    · next hid => rw [← hid, hnone]
    · rfl

/-- A call does the same to the same cursors. -/
theorem get?_apply_congr (h : ∀ id, c.get? id = c'.get? id) (call : Call) (id : String) :
    (call.apply c).get? id = (call.apply c').get? id := by
  cases call with
  | store key seq => rw [apply, apply, Keyed.get?_insert, Keyed.get?_insert, h id]
  | reset key => rw [apply, apply, Keyed.get?_erase, Keyed.get?_erase, h id]

theorem le_greatest_apply (h : ∀ e ∈ c, e.2 ≤ Cursors.greatest)
    (hseq : ∀ id seq, call = .store id seq → seq ≤ Cursors.greatest) :
    ∀ e ∈ call.apply c, e.2 ≤ Cursors.greatest := by
  intro e he
  cases call with
  | store id seq =>
    rcases Keyed.mem_insert he with rfl | he
    · exact hseq id seq rfl
    · exact h e he
  | reset id => exact h e (List.mem_filter.1 he).1

end Call

namespace FileCursorStore

variable {disk : Disk} {s : FileCursorStore} {t t' : FileTree} {m : MemoryCursorStore}

/-! ## One use -/

/-- What a use of a store in a file comes to : its reply, the store and the tree. A store
that cannot be opened anew stays as it was. -/
def serve (disk : Disk) (s : FileCursorStore) (t : FileTree) :
    Use → Except CursorError (Option UInt64) × FileCursorStore × FileTree
  | .request (.load id) => (.ok (some (s.load id)), s, t)
  | .request (.call call) =>
    let outcome := call.run disk s t
    (outcome.result.map fun _ => none, outcome.store, outcome.tree)
  | .reopen =>
    match openAt t s.path with
    | .ok s' => (.ok none, s', t)
    | .error e => (.error e, s, t)

/-- The file holds what the store has, which is what a file can hold. -/
structure Saved (s : FileCursorStore) (t : FileTree) : Prop where
  closed : t.Closed
  sorted : s.cursors.Sorted
  fits : ∀ e ∈ s.cursors, e.2 ≤ Cursors.greatest
  reopened : openAt t s.path = .ok s

/-- A write of cursors that a file can hold fails only where the disk does. -/
theorem io_of_persist_error (hfits : ∀ e ∈ s.cursors, e.2 ≤ Cursors.greatest) {e : CursorError}
    (h : s.persist disk t = (.error e, t')) : ∃ io, e = .io io := by
  have hall : (s.cursors.all fun e => decide (e.2 ≤ Cursors.greatest)) = true :=
    List.all_eq_true.2 fun e he => decide_eq_true (hfits e he)
  obtain ⟨_, hnone⟩ | _ | _ := persists_of_persist h
  · rw [Cursors.render?, if_pos hall] at hnone
    cases hnone
  · exact ⟨_, rfl⟩
  · exact ⟨_, rfl⟩

/-- A call at which no write fails is acknowledged, and the file holds what the store has
then : the cursors after the call. -/
theorem Saved.run {call : Call} (h : s.Saved t) (hdisk : disk.Lawful)
    (hseq : ∀ id seq, call = .store id seq → seq ≤ Cursors.greatest)
    (hwrite : ∀ e, (call.run disk s t).result ≠ .error (.io e)) :
    (call.run disk s t).result = .ok () ∧
      (call.run disk s t).store.Saved (call.run disk s t).tree ∧
        ∀ id, (call.run disk s t).store.cursors.get? id = (call.apply s.cursors).get? id := by
  by_cases hchanges : call.Changes s.cursors
  · have hfits := Call.le_greatest_apply h.fits hseq
    have hsorted := Call.sorted_apply h.sorted call
    have hpath := ne_nil_of_openAt h.reopened
    obtain ⟨r, t', hpersist⟩ :
        ∃ r t', persist disk { s with cursors := call.apply s.cursors } t = (r, t') := ⟨_, _, rfl⟩
    have hrun : call.run disk s t = ⟨r, { s with cursors := call.apply s.cursors }, t'⟩ := by
      rw [Call.run_of_changes hchanges]
      simp only [hpersist]
    rw [hrun] at hwrite ⊢
    obtain ⟨hclosed, ⟨rfl, hopen⟩ | ⟨⟨e, rfl⟩, -⟩⟩ :=
      persist_cases (s := { s with cursors := call.apply s.cursors }) hdisk h.closed hpath hsorted
        hpersist
    · exact ⟨rfl, ⟨hclosed, hsorted, hfits, hopen⟩, fun _ => rfl⟩
    · obtain ⟨io, rfl⟩ := io_of_persist_error hfits hpersist
      exact absurd rfl (hwrite io)
  · rw [Call.run_of_not_changes hchanges]
    exact ⟨rfl, h, fun id => (Call.get?_apply_of_not_changes hchanges id).symm⟩

/-- A use at which no write fails has a reply, and a store in memory with the same cursors
answers it alike. -/
theorem Saved.serve {use : Use} (h : s.Saved t)
    (hsame : ∀ id, s.cursors.get? id = m.cursors.get? id) (hdisk : disk.Lawful)
    (hseq : ∀ id seq, use = .request (.call (.store id seq)) → seq ≤ Cursors.greatest)
    (hwrite : ∀ call e, use = .request (.call call) →
      (s.serve disk t use).1 ≠ .error (.io e)) :
    ∃ answer s' t', ∃ m' : MemoryCursorStore,
      s.serve disk t use = (.ok answer, s', t') ∧ s'.Saved t' ∧
      (∀ id, s'.cursors.get? id = m'.cursors.get? id) ∧
        ∀ rest, m.answers (Use.requests (use :: rest)) =
          answer.toList ++ m'.answers (Use.requests rest) := by
  cases use with
  | reopen =>
    refine ⟨none, s, t, m, ?_, h, hsame, fun _ => rfl⟩
    simp only [FileCursorStore.serve, h.reopened]
  | request r =>
  cases r with
  | load id =>
    refine ⟨some (s.load id), s, t, m, rfl, h, hsame, fun rest => ?_⟩
    have hload : s.load id = m.load id := by
      rw [load, Cursors.load, hsame id]
      rfl
    rw [hload]
    rfl
  | call call =>
    have hcall : ∀ id seq, call = .store id seq → seq ≤ Cursors.greatest := by
      rintro id seq rfl
      exact hseq id seq rfl
    have hdone : ∀ e, (call.run disk s t).result ≠ .error (.io e) := by
      intro e he
      refine hwrite call e rfl ?_
      rw [FileCursorStore.serve, he]
      rfl
    obtain ⟨hresult, hsaved, hcursors⟩ := h.run hdisk hcall hdone
    refine ⟨none, _, _, m.perform call, ?_, hsaved, fun id => ?_, fun _ => rfl⟩
    · rw [FileCursorStore.serve, hresult]
      rfl
    · rw [hcursors id, MemoryCursorStore.cursors_perform]
      exact Call.get?_apply_congr hsame call id

/-! ## All uses -/

/-- The uses of a store in a file with their replies. What the disk does at each use is
given. -/
def log (s : FileCursorStore) (t : FileTree) :
    List (Disk × Use) → List (Use × Except CursorError (Option UInt64))
  | [] => []
  | (disk, use) :: rest =>
    let (reply, s, t) := s.serve disk t use
    (use, reply) :: log s t rest

/-- The cursors that are told. -/
def told (log : List (Use × Except CursorError (Option UInt64))) : List UInt64 :=
  log.flatMap fun entry =>
    match entry.2 with
    | .ok answer => answer.toList
    | .error _ => []

/-- A store whose file holds what it has answers as a store in memory with the same
cursors. -/
theorem Saved.answers (h : s.Saved t) (hsame : ∀ id, s.cursors.get? id = m.cursors.get? id)
    {uses : List (Disk × Use)} (hdisk : ∀ u ∈ uses, u.1.Lawful)
    (hseq : ∀ u ∈ uses, ∀ id seq, u.2 = .request (.call (.store id seq)) →
      seq ≤ Cursors.greatest)
    (hwrite : ∀ call e, (.request (.call call), .error (.io e)) ∉ s.log t uses) :
    (∀ entry ∈ s.log t uses, ∃ answer, entry.2 = .ok answer) ∧
      told (s.log t uses) = m.answers (Use.requests (uses.map Prod.snd)) := by
  induction uses generalizing s t m with
  | nil => exact ⟨List.forall_mem_nil _, rfl⟩
  | cons u rest ih =>
    obtain ⟨disk, use⟩ := u
    have hfirst : ∀ call e, use = .request (.call call) →
        (s.serve disk t use).1 ≠ .error (.io e) := by
      rintro call e rfl he
      refine hwrite call e ?_
      rw [← he]
      exact List.mem_cons_self
    obtain ⟨answer, s', t', m', hserve, hsaved, hsame', hanswers⟩ :=
      h.serve hsame (hdisk _ List.mem_cons_self) (hseq _ List.mem_cons_self) hfirst
    have hlog : s.log t ((disk, use) :: rest) = (use, .ok answer) :: s'.log t' rest := by
      rw [log, hserve]
    rw [hlog] at hwrite ⊢
    obtain ⟨hok, htold⟩ := ih hsaved hsame' (fun u hu => hdisk u (List.mem_cons_of_mem _ hu))
      (fun u hu => hseq u (List.mem_cons_of_mem _ hu))
      fun call e he => hwrite call e (List.mem_cons_of_mem _ he)
    refine ⟨List.forall_mem_cons.2 ⟨⟨answer, rfl⟩, hok⟩, ?_⟩
    rw [List.map_cons, hanswers, ← htold]
    rfl

/-- A store that was opened without cursors and is then used, and opened again, with any
sessions and any cursors that a file can hold : if no write fails, then nothing fails, and
what is told is what a store in memory tells. -/
theorem answers_eq_memory {p : FilePath} (ht : t.Closed) (hopen : openAt t p = .ok ⟨p, []⟩)
    (uses : List (Disk × Use)) (hdisk : ∀ u ∈ uses, u.1.Lawful)
    (hseq : ∀ u ∈ uses, ∀ id seq, u.2 = .request (.call (.store id seq)) →
      seq ≤ Cursors.greatest)
    (hwrite : ∀ call e, (.request (.call call), .error (.io e)) ∉ log ⟨p, []⟩ t uses) :
    (∀ entry ∈ log ⟨p, []⟩ t uses, ∃ answer, entry.2 = .ok answer) ∧
      told (log ⟨p, []⟩ t uses) =
        MemoryCursorStore.empty.answers (Use.requests (uses.map Prod.snd)) :=
  have hsaved : Saved ⟨p, []⟩ t := ⟨ht, List.Pairwise.nil, List.forall_mem_nil _, hopen⟩
  hsaved.answers (fun _ => rfl) hdisk hseq hwrite

/-- A session with a line end and a quote in its name, whose cursor is stored, is told by
the store that is opened anew. -/
theorem answers_eq_memory_reopened :
    told (log ⟨["cursors.toml"], []⟩ .empty
      [(.sound, .request (.call (.store "a\n\"" 5))), (.sound, .reopen),
        (.sound, .request (.load "a\n\""))]) = [5] := by
  have hseq : (5 : UInt64) ≤ Cursors.greatest := by decide
  have hdone : ((Call.store "a\n\"" 5).run .sound ⟨["cursors.toml"], []⟩ .empty).result = .ok () :=
    rfl
  refine (answers_eq_memory (p := ["cursors.toml"]) FileTree.closed_empty rfl _ ?_ ?_ ?_).2
  · simp [Disk.lawful_sound]
  · intro u hu id seq h
    rcases List.mem_cons.1 hu with rfl | hu
    · cases h
      exact hseq
    rcases List.mem_cons.1 hu with rfl | hu
    · cases h
    rcases List.mem_cons.1 hu with rfl | hu
    · cases h
    · cases hu
  · -- only the first use can be a call that is refused, and it is acknowledged
    intro call e hmem
    rcases List.mem_cons.1 hmem with h | hmem
    · have hreply : Except.error (.io e) =
          ((Call.store "a\n\"" 5).run .sound ⟨["cursors.toml"], []⟩ .empty).result.map
            fun _ => none :=
        congrArg Prod.snd h
      rw [hdone] at hreply
      cases hreply
    rcases List.mem_cons.1 hmem with h | hmem
    · cases congrArg Prod.fst h
    rcases List.mem_cons.1 hmem with h | hmem
    · cases congrArg Prod.fst h
    · cases hmem

end FileCursorStore

end RemoteSession
