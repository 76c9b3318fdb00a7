import RemoteSession.Proofs.Keyed
import RemoteSession.Proofs.Toml.Lines
import RemoteSession.Storage.CursorStore

/-!
# Cursors as they are written and read

The text of cursors is read as these cursors (`Cursors.parse?_render?`) : its header opens
the table of sessions, each line adds the entry of a session, and the entries come in the
order of their keys, in which they are kept (`Keyed.Sorted`).
-/

namespace RemoteSession

namespace Cursors

variable {c : Cursors}

/-- A cursor as a value. -/
def node (seq : UInt64) : Toml.Node :=
  .integer seq.toNat

theorem ofNode?_node (seq : UInt64) : ofNode? (node seq) = some seq := by
  simp [ofNode?, node]

theorem line_eq (id : String) (seq : UInt64) (rest : List Char) :
    line id seq ++ rest = Toml.writeKey id ++
      ' ' :: '=' :: ' ' :: Toml.digitLine (Nat.toDigits 10 seq.toNat) rest := by
  simp [line, Toml.digitLine]

/-- A line adds the entry of its session. -/
theorem line?_line {b b' : Toml.Builder} {id : String} {seq : UInt64} (hseq : seq ≤ greatest)
    (hadd : b.add? [] id (node seq) = some b') (rest : List Char) :
    Toml.line? b (line id seq ++ rest) = some (b', rest) := by
  rw [line_eq]
  exact Toml.line?_writeKey (Toml.reads_toDigits (UInt64.le_iff_toNat_le.1 hseq)) hadd rest

/-! ## Texts -/

/-- The entries of cursors in the document. -/
def nodes (c : Cursors) : Toml.Entries :=
  c.map fun e => (e.1, node e.2)

theorem get?_nodes {id : String} (h : ∀ e ∈ c, e.1 < id) : (nodes c).get? id = none := by
  rw [Toml.Entries.get?, Option.map_eq_none_iff, List.find?_eq_none]
  intro e he
  obtain ⟨old, hold, rfl⟩ := List.mem_map.1 he
  have hlt := h old hold
  simp only [beq_iff_eq]
  rintro rfl
  exact String.lt_irrefl _ hlt

theorem add?_nodes {id : String} (h : ∀ e ∈ c, e.1 < id) (seq : UInt64) (root : Toml.Entries)
    (path : List String) (repeated : Bool) :
    Toml.Builder.add? ⟨root, path, repeated, nodes c⟩ [] id (node seq) =
      some ⟨root, path, repeated, nodes (c ++ [(id, seq)])⟩ := by
  have hadd : Toml.Entries.add? (nodes c) [] id (node seq) = some (nodes (c ++ [(id, seq)])) := by
    rw [Toml.Entries.add?, get?_nodes h]
    simp [nodes]
  rw [Toml.Builder.add?, hadd]
  rfl

/-- The lines of all cursors. -/
def lines (c : Cursors) : List Char :=
  c.flatMap fun e => line e.1 e.2

theorem length_le_lines (c : Cursors) : c.length ≤ c.lines.length := by
  induction c with
  | nil => exact Nat.le_refl _
  | cons e c ih =>
    have hpos : 0 < (line e.1 e.2).length := by
      rw [line, List.length_append]
      exact Nat.succ_pos _
    have hlength : (lines (e :: c)).length = (line e.1 e.2).length + (lines c).length := by
      rw [lines, List.flatMap_cons, List.length_append, ← lines.eq_1]
    rw [hlength, List.length_cons]
    omega

/-- Lines add the entries of their cursors after those that are there. -/
theorem lines?_lines (root : Toml.Entries) (path : List String) (repeated : Bool)
    {todo : Cursors} (hseqs : ∀ e ∈ todo, e.2 ≤ greatest) (hsorted : (c ++ todo).Sorted)
    {fuel : Nat} (hfuel : todo.length < fuel) :
    Toml.lines? fuel ⟨root, path, repeated, nodes c⟩ todo.lines =
      some ⟨root, path, repeated, nodes (c ++ todo)⟩ := by
  -- The entries before are general : each line finds those of the lines before it.
  induction todo generalizing c fuel with
  | nil =>
    obtain ⟨fuel, rfl⟩ := Nat.exists_eq_succ_of_ne_zero (Nat.ne_of_gt hfuel)
    rw [List.append_nil]
    rfl
  | cons e todo ih =>
    obtain ⟨id, seq⟩ := e
    obtain ⟨fuel, rfl⟩ := Nat.exists_eq_succ_of_ne_zero (Nat.ne_of_gt (Nat.zero_lt_of_lt hfuel))
    have hbefore : ∀ e ∈ c, e.1 < id := fun e he =>
      (List.pairwise_append.1 hsorted).2.2 e he (id, seq) List.mem_cons_self
    have hadd := add?_nodes hbefore seq root path repeated
    have hline := line?_line (hseqs _ List.mem_cons_self) hadd (lines todo)
    have hassoc : c ++ (id, seq) :: todo = (c ++ [(id, seq)]) ++ todo := by simp
    rw [hassoc] at hsorted ⊢
    have hrest := ih (fun e he => hseqs e (List.mem_cons_of_mem _ he)) hsorted
      (Nat.lt_of_succ_lt_succ hfuel)
    rw [line_eq] at hline
    rw [lines, List.flatMap_cons, ← lines.eq_1, line_eq, Toml.lines?_writeKey, hline,
      Option.bind_some, hrest]

/-- The header of a file opens the table of sessions. -/
theorem lines?_header (fuel : Nat) (rest : List Char) :
    Toml.lines? (fuel + 1) Toml.Builder.start ("[sessions]\n".toList ++ rest) =
      Toml.lines? fuel ⟨[], ["sessions"], false, []⟩ rest := by
  rfl

theorem ofEntries?_nodes {todo : Cursors} (hsorted : (c ++ todo).Sorted) :
    (nodes todo).foldlM (fun c e => (ofNode? e.2).map fun seq => Keyed.insert c e.1 seq) c =
      some (c ++ todo) := by
  induction todo generalizing c with
  | nil => simp [nodes]
  | cons e todo ih =>
    obtain ⟨id, seq⟩ := e
    have hbefore : ∀ e ∈ c, e.1 < id := fun e he =>
      (List.pairwise_append.1 hsorted).2.2 e he (id, seq) List.mem_cons_self
    have hassoc : c ++ (id, seq) :: todo = (c ++ [(id, seq)]) ++ todo := by simp
    rw [hassoc] at hsorted ⊢
    rw [← ih hsorted]
    simp only [nodes, List.map_cons, List.foldlM_cons, ofNode?_node, Option.map_some,
      Option.bind_eq_bind, Option.bind_some, Keyed.insert_of_lt hbefore]

/-- The document of a text has one table, with the entries of the cursors. -/
theorem document_of_lines (hsorted : c.Sorted) (hseqs : ∀ e ∈ c, e.2 ≤ greatest) :
    Toml.parse? (String.ofList ("[sessions]\n".toList ++ c.lines)) =
      some [("sessions", .table .header (nodes c))] := by
  have hmark : Toml.dropMark ("[sessions]\n".toList ++ c.lines) =
      "[sessions]\n".toList ++ c.lines := rfl
  have hlength : c.length < ("[sessions]\n".toList ++ c.lines).length := by
    rw [List.length_append]
    exact Nat.lt_of_le_of_lt (length_le_lines c) (Nat.lt_add_of_pos_left (by decide))
  have hlines := lines?_lines (c := []) [] ["sessions"] false hseqs hsorted hlength
  simp only [Toml.parse?, String.toList_ofList, hmark, lines?_header, Option.bind_eq_bind]
  change Option.bind (Toml.lines? _ ⟨[], ["sessions"], false, nodes []⟩ _) _ = _
  rw [hlines]
  rfl

/-- The text of cursors is read as these cursors. -/
theorem parse?_render? (hsorted : c.Sorted) {text : String} (h : c.render? = some text) :
    parse? text = some c := by
  unfold render? at h
  split at h
  case isFalse => cases h
  next hall =>
  cases h
  have hseqs : ∀ e ∈ c, e.2 ≤ greatest := fun e he =>
    of_decide_eq_true (List.all_eq_true.1 hall e he)
  unfold parse?
  rw [← lines.eq_1, document_of_lines hsorted hseqs]
  exact ofEntries?_nodes (c := []) hsorted

theorem foldlM_sorted {entries : Toml.Entries} (h : c.Sorted) {c' : Cursors}
    (hfold : entries.foldlM (fun c e => (ofNode? e.2).map fun seq => Keyed.insert c e.1 seq) c =
      some c') : c'.Sorted := by
  induction entries generalizing c with
  | nil => cases hfold; exact h
  | cons e entries ih =>
    rw [List.foldlM_cons] at hfold
    obtain ⟨next, hnext, hrest⟩ := Option.bind_eq_some_iff.1 hfold
    obtain ⟨seq, -, rfl⟩ := Option.map_eq_some_iff.1 hnext
    exact ih (h.insert ..) hrest

/-- Cursors that were read are in order. -/
theorem sorted_of_parse? {text : String} (h : parse? text = some c) : c.Sorted := by
  obtain ⟨root, -, h⟩ := Option.bind_eq_some_iff.1 h
  split at h
  · cases h
    exact .nil
  · exact foldlM_sorted .nil h
  · cases h

end Cursors

end RemoteSession
