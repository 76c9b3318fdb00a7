import RemoteSession.Proofs.Text.Utf8
import RemoteSession.Storage.CursorStore

/-!
# Trees with nothing in the way

In a tree of a file system every entry stands in directories (`FileTree.Closed`), and the
operations keep it so. Then what is read at a path is what stands there. A store writes one
file and puts it in the place of another of the same directory (`FilePath.Beside`); what a
disk may do then, where it fails as well, is `Disk.Lawful`.
-/

namespace RemoteSession

namespace FilePath

/-- Two paths of one directory. -/
def Beside (p q : FilePath) : Prop :=
  ∃ (directory : FilePath) (a b : String), p = directory ++ [a] ∧ q = directory ++ [b] ∧ a ≠ b

variable {p q : FilePath}

theorem Beside.ne (h : Beside p q) : p ≠ q := by
  obtain ⟨directory, a, b, rfl, rfl, hne⟩ := h
  intro heq
  exact hne (List.cons.inj (List.append_cancel_left heq)).1

theorem Beside.symm (h : Beside p q) : Beside q p := by
  obtain ⟨directory, a, b, hp, hq, hne⟩ := h
  exact ⟨directory, b, a, hq, hp, hne.symm⟩

theorem Beside.length_eq (h : Beside p q) : p.length = q.length := by
  obtain ⟨directory, a, b, rfl, rfl, -⟩ := h
  rw [List.length_append, List.length_append]
  rfl

theorem Beside.ne_nil (h : Beside p q) : p ≠ [] := by
  obtain ⟨directory, a, b, rfl, rfl, -⟩ := h
  exact List.append_ne_nil_of_right_ne_nil _ (List.cons_ne_nil _ _)

theorem Beside.not_prefix_parent (h : Beside p q) : ¬q <+: p.parent := by
  obtain ⟨directory, a, b, rfl, rfl, -⟩ := h
  intro hprefix
  have hlength := hprefix.length_le
  rw [parent, List.dropLast_concat, List.length_append] at hlength
  exact Nat.not_succ_le_self _ hlength

/-- Another extension on a name that has one takes the place of what follows its last
dot. -/
theorem stem_toList {name : String} {u v : List Char} (h : name.toList = u ++ '.' :: v)
    (hv : '.' ∉ v) (hdot : (name.toList.drop 1).contains '.' = true) (hname : name ≠ "..") :
    (stem name).toList = u := by
  have hdrop : (v.reverse ++ '.' :: u.reverse).dropWhile (· != '.') = '.' :: u.reverse := by
    rw [List.dropWhile_append_of_pos]
    · rfl
    · intro c hc
      rw [bne_iff_ne]
      rintro rfl
      exact hv (List.mem_reverse.1 hc)
  have hreverse : name.toList.reverse = v.reverse ++ '.' :: u.reverse := by
    rw [h, List.reverse_append, List.reverse_cons, List.append_assoc]
    rfl
  rw [stem, if_pos (by simpa [hname] using hdot), String.toList_ofList, hreverse, hdrop,
    List.drop_one, List.tail_cons, List.reverse_reverse]

/-- No name is its own with the extension of the temporary file. -/
theorem stem_append_ne (name : String) : stem name ++ "." ++ "toml.tmp" ≠ name := by
  intro heq
  have happend : name.toList = (stem name).toList ++ ".toml.tmp".toList := by
    conv => lhs; rw [← heq]
    rw [String.toList_append, String.toList_append, List.append_assoc]
    rfl
  have hsplit : name.toList = ((stem name).toList ++ ".toml".toList) ++ '.' :: "tmp".toList := by
    rw [happend, List.append_assoc]
    rfl
  have hdot : (name.toList.drop 1).contains '.' = true := by
    rw [happend]
    cases (stem name).toList with
    | nil => decide
    | cons c cs =>
      rw [List.cons_append, List.drop_one, List.tail_cons, List.contains_iff_mem]
      exact List.mem_append_right _ (by decide)
  have hname : name ≠ ".." := by
    rintro rfl
    have hlength := congrArg List.length happend
    rw [List.length_append] at hlength
    exact absurd hlength (Nat.ne_of_lt (Nat.lt_of_lt_of_le (by decide) (Nat.le_add_left ..)))
  have hstem := congrArg List.length (stem_toList hsplit (by decide) hdot hname)
  rw [List.length_append] at hstem
  exact absurd hstem (Nat.ne_of_lt (Nat.lt_add_of_pos_right (by decide)))

/-- The temporary file stands beside the file. -/
theorem beside_withExtension (hp : p ≠ []) : Beside (p.withExtension "toml.tmp") p := by
  obtain ⟨directory, name, hconcat⟩ := (List.eq_nil_or_concat p).resolve_left hp
  rw [List.concat_eq_append] at hconcat
  subst hconcat
  refine ⟨directory, stem name ++ "." ++ "toml.tmp", name, ?_, rfl, stem_append_ne name⟩
  rw [withExtension, List.getLast?_concat, List.dropLast_concat]

end FilePath

namespace FileTree

variable {t t' : FileTree} {p q : FilePath} {e : FileEntry}

/-! ## What stands at a path -/

theorem get?_nil (t : FileTree) : t.get? [] = some .directory := rfl

theorem get?_of_ne_nil (hp : p ≠ []) :
    t.get? p = (t.entries.find? fun e => e.1 == p).map Prod.snd := by
  rw [get?, if_neg (by simpa using hp)]

theorem get?_set_of_ne (t : FileTree) (e : FileEntry) (h : q ≠ p) :
    (t.set p e).get? q = t.get? q := by
  by_cases hq : q = []
  · rw [hq, get?_nil, get?_nil]
  rw [get?_of_ne_nil hq, get?_of_ne_nil hq]
  unfold set
  split
  · rw [List.find?_map]
    have hsame : ((fun e : FilePath × FileEntry => e.1 == q) ∘
        fun old => if old.1 == p then (p, e) else old) = fun e => e.1 == q := by
      funext old
      simp only [Function.comp_apply, beq_iff_eq]
      split
      · next heq => rw [heq]
      · rfl
    rw [hsame]
    cases hfound : t.entries.find? fun e => e.1 == q with
    | none => rfl
    | some old =>
      have hold : old.1 = q := by simpa using List.find?_some hfound
      have hne : ¬(old.1 == p) = true := by simpa [hold] using h
      simp only [Option.map_some, if_neg hne]
  · have hne : (p == q) = false := beq_false_of_ne h.symm
    rw [List.find?_append, List.find?_singleton, hne, if_neg Bool.false_ne_true, Option.or_none]

theorem get?_set_self (t : FileTree) (e : FileEntry) (hp : p ≠ []) :
    (t.set p e).get? p = some e := by
  rw [get?_of_ne_nil hp]
  unfold set
  split
  · next hsome =>
    rw [get?_of_ne_nil hp, Option.isSome_map] at hsome
    obtain ⟨old, hfound⟩ := Option.isSome_iff_exists.1 hsome
    have hold : old.1 == p := List.find?_some (p := fun e : FilePath × FileEntry => e.1 == p) hfound
    have hsame : ((fun e : FilePath × FileEntry => e.1 == p) ∘
        fun old => if old.1 == p then (p, e) else old) = fun e => e.1 == p := by
      funext old
      simp only [Function.comp_apply]
      split
      · next heq => rw [heq, beq_self_eq_true]
      · rfl
    rw [List.find?_map, hsame, hfound, Option.map_some, Option.map_some, if_pos hold]
  · next hnone =>
    rw [get?_of_ne_nil hp, Option.isSome_map, Bool.not_eq_true, Option.isSome_eq_false_iff,
      Option.isNone_iff_eq_none] at hnone
    rw [List.find?_append, hnone, Option.none_or, List.find?_singleton, beq_self_eq_true,
      if_pos rfl, Option.map_some]

theorem get?_remove_of_not_below (t : FileTree) (h : ¬p <+: q) :
    (t.remove p).get? q = t.get? q := by
  by_cases hq : q = []
  · rw [hq, get?_nil, get?_nil]
  have hsame : (fun e : FilePath × FileEntry =>
      decide ((!p.isPrefixOf e.1) = true ∧ (e.1 == q) = true)) = fun e => e.1 == q := by
    funext e
    by_cases heq : e.1 = q
    · have hkept : p.isPrefixOf q = false :=
        Bool.eq_false_iff.2 fun hle => h (List.isPrefixOf_iff_prefix.1 hle)
      simp [heq, hkept]
    · simp [heq]
  rw [get?_of_ne_nil hq, get?_of_ne_nil hq, remove, List.find?_filter, hsame]

theorem get?_remove_of_below (t : FileTree) (h : p <+: q) (hq : q ≠ []) :
    (t.remove p).get? q = none := by
  rw [get?_of_ne_nil hq, remove, List.find?_filter, Option.map_eq_none_iff, List.find?_eq_none]
  rintro e -
  by_cases heq : e.1 = q
  · simp [heq, h]
  · simp [heq]

theorem wayFault?_eq_none :
    t.wayFault? p = none ↔ ∀ n < p.length, t.get? (p.take n) = some .directory := by
  simp only [wayFault?, List.findSome?_eq_none_iff, List.mem_map, List.mem_range,
    forall_exists_index, and_imp, forall_apply_eq_imp_iff₂]
  refine forall₂_congr fun n _ => ?_
  cases t.get? (p.take n) with
  | none => simp
  | some e => cases e <;> simp

/-! ## Every entry stands in directories -/

/-- A tree as a file system has it : every entry stands in directories. -/
def Closed (t : FileTree) : Prop :=
  ∀ p, (t.get? p).isSome → t.wayFault? p = none

theorem closed_empty : empty.Closed := by
  intro p hp
  by_cases hnil : p = []
  · rw [hnil]
    rfl
  · rw [get?_of_ne_nil hnil] at hp
    cases hp

/-- An entry where the way is clear keeps a tree closed, unless it takes a directory away. -/
theorem Closed.set (h : t.Closed) (hway : t.wayFault? p = none)
    (hkeep : t.get? p = some .directory → e = .directory) : (t.set p e).Closed := by
  intro q hq
  have hold : t.wayFault? q = none := by
    by_cases hqp : q = p
    · rw [hqp]
      exact hway
    · rw [get?_set_of_ne t e hqp] at hq
      exact h q hq
  rw [wayFault?_eq_none] at hold ⊢
  intro n hn
  have hdirectory := hold n hn
  by_cases hnp : q.take n = p
  · by_cases hnil : p = []
    · rw [hnp, hnil]
      rfl
    · rw [hnp] at hdirectory ⊢
      rw [get?_set_self t e hnil, hkeep hdirectory]
  · rw [get?_set_of_ne t e hnp]
    exact hdirectory

theorem Closed.remove (h : t.Closed) (p : FilePath) : (t.remove p).Closed := by
  intro q hq
  by_cases hnil : q = []
  · rw [hnil]
    rfl
  by_cases hprefix : p <+: q
  · rw [get?_remove_of_below t hprefix hnil] at hq
    cases hq
  rw [get?_remove_of_not_below t hprefix] at hq
  rw [wayFault?_eq_none]
  intro n hn
  have hstays : ¬p <+: q.take n := fun hle => hprefix (hle.trans (List.take_prefix n q))
  rw [get?_remove_of_not_below t hstays]
  exact wayFault?_eq_none.1 (h q hq) n hn

/-! ## Operations -/

theorem exists?_eq (h : t.Closed) (p : FilePath) : t.exists? p = (t.get? p).isSome := by
  cases hsome : (t.get? p).isSome with
  | false => rw [exists?, hsome, Bool.and_false]
  | true => rw [exists?, hsome, h p hsome, Option.isNone_none, Bool.and_true]

/-- In a closed tree a file that is there is read. -/
theorem read_of_file (h : t.Closed) {content : List UInt8} {mode : Nat}
    (hp : t.get? p = some (.file content mode)) : t.read p = .ok content := by
  have hway := h p (by rw [hp]; rfl)
  rw [read, hway]
  simp only [hp]

theorem readText_of_file (h : t.Closed) {text : String} {mode : Nat}
    (hp : t.get? p = some (.file (Text.Utf8.encode text) mode)) : t.readText p = .ok text := by
  rw [readText, read_of_file h hp]
  simp only [bind, Except.bind, Text.Utf8.decode?_encode]

/-- What is read in a closed tree depends on what stands at the path alone. -/
theorem readText_congr (h : t.Closed) (h' : t'.Closed) (heq : t'.get? p = t.get? p)
    (hsome : (t.get? p).isSome) : t'.readText p = t.readText p := by
  have hread : t'.read p = t.read p := by
    rw [read, read, h p hsome, h' p (heq ▸ hsome), heq]
  rw [readText, readText, hread]

/-- A directory on a way : one that is there, or a new one. -/
def enter (t : FileTree) (p way : FilePath) : Except IoError FileTree :=
  match t.get? way with
  | some .directory => .ok t
  | some (.file _ _) => .error (if way = p then .alreadyExists else .notADirectory)
  | none => .ok (t.set way .directory)

theorem createDirectories_eq (t : FileTree) (p : FilePath) :
    t.createDirectories p =
      ((List.range (p.length + 1)).map fun n => p.take n).foldlM (fun t => t.enter p) t := rfl

theorem enter_ok {way : FilePath} (h : t.Closed) (hway : t.wayFault? way = none)
    (hok : t.enter p way = .ok t') :
    t'.Closed ∧ t'.get? way = some .directory ∧ ∀ q ≠ way, t'.get? q = t.get? q := by
  unfold enter at hok
  split at hok
  · next hdirectory =>
    cases hok
    exact ⟨h, hdirectory, fun _ _ => rfl⟩
  · cases hok
  · next hnone =>
    cases hok
    have hnil : way ≠ [] := by
      rintro rfl
      cases hnone
    exact ⟨h.set hway fun _ => rfl, get?_set_self t _ hnil, fun q hq => get?_set_of_ne t _ hq⟩

theorem foldlM_enter_ok (h : t.Closed) {k : Nat} (hk : k ≤ p.length + 1)
    (hok : ((List.range k).map fun n => p.take n).foldlM (fun t => t.enter p) t = .ok t') :
    t'.Closed ∧ (∀ n < k, t'.get? (p.take n) = some .directory) ∧
      ∀ q, ¬q <+: p → t'.get? q = t.get? q := by
  induction k generalizing t' with
  | zero =>
    cases hok
    exact ⟨h, fun n hn => absurd hn (Nat.not_lt_zero n), fun _ _ => rfl⟩
  | succ k ih =>
    rw [List.range_succ, List.map_append, List.foldlM_append] at hok
    cases hbefore : ((List.range k).map fun n => p.take n).foldlM (fun t => t.enter p) t with
    | error e =>
      rw [hbefore] at hok
      cases hok
    | ok before =>
      rw [hbefore] at hok
      change (before.enter p (p.take k) >>= pure) = Except.ok t' at hok
      rw [bind_pure] at hok
      obtain ⟨hclosed, hways, hother⟩ := ih (Nat.le_of_succ_le hk) hbefore
      have hlength : (p.take k).length = k := List.length_take_of_le (Nat.le_of_lt_succ hk)
      have hway : before.wayFault? (p.take k) = none := by
        rw [wayFault?_eq_none, hlength]
        intro n hn
        rw [List.take_take, Nat.min_eq_left (Nat.le_of_lt hn)]
        exact hways n hn
      obtain ⟨hclosed', hdirectory, hother'⟩ := enter_ok hclosed hway hok
      refine ⟨hclosed', fun n hn => ?_, fun q hq => ?_⟩
      · by_cases hnk : n = k
        · rw [hnk]
          exact hdirectory
        · have hlt : n < k := Nat.lt_of_le_of_ne (Nat.le_of_lt_succ hn) hnk
          have hne : p.take n ≠ p.take k := by
            intro heq
            have hlengths := congrArg List.length heq
            rw [hlength, List.length_take_of_le (by omega)] at hlengths
            exact hnk hlengths
          rw [hother' _ hne]
          exact hways n hlt
      · have hne : q ≠ p.take k := fun heq => hq (heq ▸ List.take_prefix k p)
        rw [hother' q hne, hother q hq]

/-- Directories are made on the way alone. -/
theorem createDirectories_ok (h : t.Closed) (hok : t.createDirectories p = .ok t') :
    t'.Closed ∧ ∀ q, ¬q <+: p → t'.get? q = t.get? q := by
  rw [createDirectories_eq] at hok
  obtain ⟨hclosed, -, hother⟩ := foldlM_enter_ok h (Nat.le_refl _) hok
  exact ⟨hclosed, hother⟩

theorem write_ok (h : t.Closed) {content : List UInt8} {mode : Nat}
    (hok : t.write p content mode = .ok t') :
    t'.Closed ∧ (∃ mode, t'.get? p = some (.file content mode)) ∧
      ∀ q ≠ p, t'.get? q = t.get? q := by
  unfold write at hok
  split at hok
  · cases hok
  next hway =>
  have hset : ∀ mode, t.get? p ≠ some .directory →
      (t.set p (.file content mode)).Closed ∧
        (∃ mode', (t.set p (.file content mode)).get? p = some (.file content mode')) ∧
        ∀ q ≠ p, (t.set p (.file content mode)).get? q = t.get? q := by
    intro mode hnot
    have hnil : p ≠ [] := by
      rintro rfl
      exact hnot rfl
    exact ⟨h.set hway fun hdirectory => absurd hdirectory hnot, ⟨mode, get?_set_self t _ hnil⟩,
      fun q hq => get?_set_of_ne t _ hq⟩
  split at hok
  · cases hok
  · next hfile =>
    cases hok
    refine hset _ ?_
    rw [hfile]
    exact fun heq => by cases heq
  · next hnone =>
    cases hok
    refine hset _ ?_
    rw [hnone]
    exact fun heq => by cases heq

/-- A file takes the place of another of its directory. -/
theorem rename_ok (h : t.Closed) (hb : FilePath.Beside p q) (hok : t.rename p q = .ok t') :
    t'.Closed ∧ t'.get? q = t.get? p := by
  unfold rename at hok
  split at hok
  · cases hok
  · cases hok
  next e hsource hway =>
  split at hok
  · cases hok
  next hnot =>
  cases hok
  have hstays : ∀ n ≤ q.length, ¬p <+: q.take n := by
    intro n hn hprefix
    have hwhole : p <+: q := hprefix.trans (List.take_prefix n q)
    exact hb.ne (hwhole.eq_of_length hb.length_eq)
  have hway' : (t.remove p).wayFault? q = none := by
    rw [wayFault?_eq_none] at hway ⊢
    intro n hn
    rw [get?_remove_of_not_below t (hstays n (Nat.le_of_lt hn))]
    exact hway n hn
  have htarget : (t.remove p).get? q = t.get? q := by
    have hself := hstays q.length (Nat.le_refl _)
    rw [List.take_length] at hself
    exact get?_remove_of_not_below t hself
  refine ⟨(h.remove p).set hway' fun hdirectory => absurd (htarget ▸ hdirectory) hnot, ?_⟩
  rw [get?_set_self _ _ hb.symm.ne_nil, hsource]

/-- What has taken the place of another is gone from its own. -/
theorem get?_of_rename (hb : FilePath.Beside p q) (hok : t.rename p q = .ok t') :
    t'.get? p = none := by
  unfold rename at hok
  split at hok
  · cases hok
  · cases hok
  split at hok
  · cases hok
  cases hok
  rw [get?_set_of_ne _ _ hb.ne, get?_remove_of_below t (List.prefix_refl p) hb.ne_nil]

end FileTree

/-! ## Disks -/

/-- What a disk is trusted with, where its steps fail as well : it leaves a tree of a file
system, touches nothing else in the directory where it writes, and when it says that it is
done the file has the content, or has taken the place of the other. -/
structure Disk.Lawful (disk : Disk) : Prop where
  write_closed : ∀ {t p content r t'}, t.Closed →
    disk.writePrivate t p content = (r, t') → t'.Closed
  write_beside : ∀ {t p content r t' q}, t.Closed → FilePath.Beside p q →
    disk.writePrivate t p content = (r, t') → t'.get? q = t.get? q
  write_done : ∀ {t p content t'}, t.Closed →
    disk.writePrivate t p content = (.ok (), t') → ∃ mode, t'.get? p = some (.file content mode)
  rename_closed : ∀ {t p q r t'}, t.Closed → FilePath.Beside p q →
    disk.rename t p q = (r, t') → t'.Closed
  rename_done : ∀ {t p q t'}, t.Closed → FilePath.Beside p q →
    disk.rename t p q = (.ok (), t') → t'.get? q = t.get? p
  rename_failed : ∀ {t p q e t'}, t.Closed → FilePath.Beside p q →
    disk.rename t p q = (.error e, t') → t'.get? q = t.get? q

namespace Disk

/-- A disk on which files of more octets than there is room for are cut off. -/
def full (room : Nat) : Disk where
  writePrivate t p content :=
    match sound.writePrivate t p (content.take room) with
    | (.error e, t) => (.error e, t)
    | (.ok (), t) =>
      if content.length ≤ room then (.ok (), t)
      else (.error (.other "No space left on device (os error 28)"), t)
  rename := sound.rename

theorem whole_eq {t t' : FileTree} {step : Except IoError FileTree} {r : Except IoError Unit}
    (h : whole t step = (r, t')) :
    step = .ok t' ∧ r = .ok () ∨ ∃ e, step = .error e ∧ r = .error e ∧ t' = t := by
  cases step with
  | ok done =>
    cases h
    exact .inl ⟨rfl, rfl⟩
  | error e =>
    cases h
    exact .inr ⟨e, rfl, rfl, rfl⟩

theorem sound_write {t t' : FileTree} {p : FilePath} {content : List UInt8}
    {r : Except IoError Unit} (ht : t.Closed) (h : sound.writePrivate t p content = (r, t')) :
    t'.Closed ∧ (∀ q, FilePath.Beside p q → t'.get? q = t.get? q) ∧
      (r = .ok () → ∃ mode, t'.get? p = some (.file content mode)) := by
  unfold sound at h
  cases hmade : t.createDirectories p.parent with
  | error e =>
    simp only [hmade] at h
    cases h
    exact ⟨ht, fun _ _ => rfl, fun hr => by cases hr⟩
  | ok made =>
    simp only [hmade] at h
    obtain ⟨hclosed, hother⟩ := FileTree.createDirectories_ok ht hmade
    rcases whole_eq h with ⟨hwrite, rfl⟩ | ⟨e, -, rfl, rfl⟩
    · obtain ⟨hclosed', hfile, hother'⟩ := FileTree.write_ok hclosed hwrite
      refine ⟨hclosed', fun q hq => ?_, fun _ => hfile⟩
      rw [hother' q hq.symm.ne, hother q hq.not_prefix_parent]
    · exact ⟨hclosed, fun q hq => hother q hq.not_prefix_parent, fun hr => by cases hr⟩

theorem sound_rename {t t' : FileTree} {p q : FilePath} {r : Except IoError Unit} (ht : t.Closed)
    (hb : FilePath.Beside p q) (h : sound.rename t p q = (r, t')) :
    t'.Closed ∧ (r = .ok () ∧ t'.get? q = t.get? p ∨ ∃ e, r = .error e ∧ t' = t) := by
  rcases whole_eq h with ⟨hrename, rfl⟩ | ⟨e, -, rfl, rfl⟩
  · obtain ⟨hclosed, htarget⟩ := FileTree.rename_ok ht hb hrename
    exact ⟨hclosed, .inl ⟨rfl, htarget⟩⟩
  · exact ⟨ht, .inr ⟨e, rfl, rfl⟩⟩

theorem lawful_sound : sound.Lawful where
  write_closed ht h := (sound_write ht h).1
  write_beside ht hb h := (sound_write ht h).2.1 _ hb
  write_done ht h := (sound_write ht h).2.2 rfl
  rename_closed ht hb h := (sound_rename ht hb h).1
  rename_done ht hb h := by
    rcases (sound_rename ht hb h).2 with ⟨-, htarget⟩ | ⟨e, he, -⟩
    · exact htarget
    · cases he
  rename_failed ht hb h := by
    rcases (sound_rename ht hb h).2 with ⟨he, -⟩ | ⟨e, -, rfl⟩
    · cases he
    · rfl

theorem full_write {room : Nat} {t t' : FileTree} {p : FilePath} {content : List UInt8}
    {r : Except IoError Unit} (h : (full room).writePrivate t p content = (r, t')) :
    ∃ r', sound.writePrivate t p (content.take room) = (r', t') ∧
      (r = .ok () → r' = .ok () ∧ content.length ≤ room) := by
  simp only [full] at h
  split at h
  · next e _ hwrite =>
    cases h
    exact ⟨.error e, hwrite, fun hr => by cases hr⟩
  · next hwrite =>
    split at h
    · next hroom =>
      cases h
      exact ⟨.ok (), hwrite, fun _ => ⟨rfl, hroom⟩⟩
    · cases h
      exact ⟨.ok (), hwrite, fun hr => by cases hr⟩

/-- A disk that runs out of room is lawful : what it cuts off is the temporary file. -/
theorem lawful_full (room : Nat) : (full room).Lawful where
  write_closed ht h := by
    obtain ⟨r', hwrite, -⟩ := full_write h
    exact lawful_sound.write_closed ht hwrite
  write_beside ht hb h := by
    obtain ⟨r', hwrite, -⟩ := full_write h
    exact lawful_sound.write_beside ht hb hwrite
  write_done ht h := by
    obtain ⟨r', hwrite, hdone⟩ := full_write h
    obtain ⟨rfl, hroom⟩ := hdone rfl
    rw [List.take_of_length_le hroom] at hwrite
    exact lawful_sound.write_done ht hwrite
  rename_closed := lawful_sound.rename_closed
  rename_done := lawful_sound.rename_done
  rename_failed := lawful_sound.rename_failed

end Disk

end RemoteSession
