import RemoteSession.Keyed

/-!
# Entries in order

Entries are kept in the order of their keys, each key once (`Keyed.Sorted`), and `insert`
and `erase` keep them so. Entries with different keys that are inserted one after another
end up in this order, in whatever order they come (`Keyed.Sorted.insertAll_eq`).
-/

namespace RemoteSession

namespace Keyed

variable {α : Type} {entries : Keyed α} {key : String} {value : α}

/-- Entries in the order of their keys, each key once. -/
def Sorted (entries : Keyed α) : Prop :=
  entries.Pairwise fun a b => a.1 < b.1

theorem lt_of_not_lt {a b : String} (h : ¬a < b) (hne : a ≠ b) : b < a := by
  by_cases hlt : b < a
  · exact hlt
  · exact absurd (String.le_antisymm (String.not_lt.1 hlt) (String.not_lt.1 h)) hne

theorem mem_insert {e : String × α} (h : e ∈ entries.insert key value) :
    e = (key, value) ∨ e ∈ entries := by
  induction entries with
  | nil => exact .inl (List.mem_singleton.1 h)
  | cons x rest ih =>
    obtain ⟨k, v⟩ := x
    unfold insert at h
    split at h
    · rcases List.mem_cons.1 h with h | h
      · exact .inl h
      · exact .inr h
    split at h
    · rcases List.mem_cons.1 h with h | h
      · exact .inl h
      · exact .inr (List.mem_cons_of_mem _ h)
    · rcases List.mem_cons.1 h with h | h
      · exact .inr (h ▸ List.mem_cons_self)
      · exact (ih h).imp_right (List.mem_cons_of_mem _)

theorem Sorted.insert (h : entries.Sorted) (key : String) (value : α) :
    (entries.insert key value).Sorted := by
  induction entries with
  | nil => exact List.pairwise_singleton ..
  | cons x rest ih =>
    obtain ⟨k, v⟩ := x
    obtain ⟨hfirst, hrest⟩ := List.pairwise_cons.1 h
    unfold Keyed.insert
    split
    · next hlt =>
      refine List.pairwise_cons.2 ⟨fun e he => ?_, h⟩
      rcases List.mem_cons.1 he with rfl | he
      · exact hlt
      · exact String.lt_trans hlt (hfirst e he)
    split
    · next heq =>
      refine List.pairwise_cons.2 ⟨fun e he => ?_, hrest⟩
      rw [heq]
      exact hfirst e he
    · next hlt hne =>
      refine List.pairwise_cons.2 ⟨fun e he => ?_, ih hrest⟩
      rcases mem_insert he with rfl | he
      · exact lt_of_not_lt hlt hne
      · exact hfirst e he

theorem Sorted.erase (h : entries.Sorted) (key : String) : (entries.erase key).Sorted :=
  List.Pairwise.filter _ h

/-- A key after all others goes to the end. -/
theorem insert_of_lt (h : ∀ e ∈ entries, e.1 < key) (value : α) :
    entries.insert key value = entries ++ [(key, value)] := by
  induction entries with
  | nil => rfl
  | cons x rest ih =>
    obtain ⟨k, v⟩ := x
    have hlt : k < key := h (k, v) List.mem_cons_self
    have hne : key ≠ k := by
      rintro rfl
      exact String.lt_irrefl _ hlt
    rw [Keyed.insert, if_neg (String.lt_asymm hlt), if_neg hne,
      ih fun e he => h e (List.mem_cons_of_mem _ he)]
    rfl

/-! ## Entries inserted in any order -/

/-- A new key is one entry more. -/
theorem insert_perm (h : ∀ e ∈ entries, key ≠ e.1) (value : α) :
    (entries.insert key value).Perm ((key, value) :: entries) := by
  induction entries with
  | nil => exact .refl _
  | cons x rest ih =>
    obtain ⟨k, v⟩ := x
    have hne : key ≠ k := h (k, v) List.mem_cons_self
    have hrest := ih fun e he => h e (List.mem_cons_of_mem _ he)
    rw [Keyed.insert, if_neg hne]
    split
    · exact .refl _
    · exact (hrest.cons (k, v)).trans (.swap ..)

/-- Entries put one after another into those that are there. -/
def insertAll (entries : Keyed α) (more : List (String × α)) : Keyed α :=
  more.foldl (fun entries e => entries.insert e.1 e.2) entries

theorem Sorted.insertAll (h : entries.Sorted) (more : List (String × α)) :
    (entries.insertAll more).Sorted := by
  induction more generalizing entries with
  | nil => exact h
  | cons e more ih => exact ih (h.insert e.1 e.2)

theorem insertAll_perm {more : List (String × α)}
    (h : (entries ++ more).Pairwise fun a b => a.1 ≠ b.1) :
    (entries.insertAll more).Perm (entries ++ more) := by
  induction more generalizing entries with
  | nil => exact .of_eq (List.append_nil entries).symm
  | cons e more ih =>
    have hnew : ∀ x ∈ entries, e.1 ≠ x.1 := fun x hx =>
      ((List.pairwise_append.1 h).2.2 x hx e List.mem_cons_self).symm
    have hone : (entries.insert e.1 e.2 ++ more).Perm (entries ++ e :: more) :=
      ((insert_perm hnew e.2).append_right more).trans List.perm_middle.symm
    exact (ih (h.perm hone.symm Ne.symm)).trans hone

theorem Sorted.pairwise_ne (h : entries.Sorted) : entries.Pairwise fun a b => a.1 ≠ b.1 := by
  refine h.imp fun {a b} hlt heq => ?_
  rw [heq] at hlt
  exact String.lt_irrefl b.1 hlt

/-- The same entries in order are the same list. -/
theorem Sorted.eq_of_perm {other : Keyed α} (h : entries.Sorted) (hother : other.Sorted)
    (hperm : entries.Perm other) : entries = other :=
  hperm.eq_of_pairwise (fun _ _ _ _ hlt hgt => absurd hgt (String.lt_asymm hlt)) h hother

/-- Entries come to stand in their order, in whatever order they are inserted. -/
theorem Sorted.insertAll_eq {more : List (String × α)} (h : entries.Sorted)
    (hperm : more.Perm entries) : Keyed.insertAll [] more = entries := by
  have hne : (([] : Keyed α) ++ more).Pairwise fun a b => a.1 ≠ b.1 :=
    h.pairwise_ne.perm hperm.symm Ne.symm
  have hnil : Sorted ([] : Keyed α) := .nil
  exact (hnil.insertAll more).eq_of_perm h ((insertAll_perm hne).trans hperm)

end Keyed

end RemoteSession
