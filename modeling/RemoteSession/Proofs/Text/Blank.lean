import Mathlib.Data.List.DropRight
import RemoteSession.Text.Blank

/-!
# Blanks at the ends of texts

A trimmed text has no blank at either end, so that trimming it again changes nothing
(`trim_trim`), and is empty if and only if all was blank (`trim_eq_empty_iff`). Blanks put to
the end of a text go with those that it has there (`dropBlankEnd_append`).
-/

namespace RemoteSession.Text

variable {cs ds : List Char} {s : String}

theorem dropBlankEnd_isPrefix (cs : List Char) : dropBlankEnd cs <+: cs :=
  List.rdropWhile_prefix _ _

theorem dropBlankEnd_dropBlankEnd (cs : List Char) :
    dropBlankEnd (dropBlankEnd cs) = dropBlankEnd cs :=
  List.rdropWhile_idempotent _ _

theorem dropBlankEnd_eq_nil_iff : dropBlankEnd cs = [] ↔ ∀ c ∈ cs, isBlankChar c = true :=
  List.rdropWhile_eq_nil_iff

/-- A text ends with a line feed if that is its last character. -/
theorem endsWith_newline_iff : s.endsWith "\n" = true ↔ s.toList.getLast? = some '\n' := by
  rw [String.endsWith, String.Slice.endsWith_string_iff, String.copy_toSlice]
  exact List.singleton_suffix_iff_getLast?_eq_some

/-- Blanks at the end of a text go with those before them. -/
theorem dropBlankEnd_append (h : ∀ c ∈ ds, isBlankChar c = true) (cs : List Char) :
    dropBlankEnd (cs ++ ds) = dropBlankEnd cs := by
  have hgone : ∀ c ∈ ds.reverse, isBlankChar c = true := fun c hc => h c (List.mem_reverse.1 hc)
  rw [dropBlankEnd, dropBlank, List.reverse_append, List.dropWhile_append_of_pos hgone]
  rfl

/-- What begins a text without blanks at its start has none there either. -/
theorem dropBlank_of_prefix (h : ds <+: dropBlank cs) : dropBlank ds = ds := by
  cases ds with
  | nil => rfl
  | cons d ds =>
    obtain ⟨rest, hrest⟩ := h
    have hnot : ¬isBlankChar d = true := by
      have hhead := List.head?_dropWhile_not isBlankChar cs
      rw [show cs.dropWhile isBlankChar = d :: (ds ++ rest) from hrest.symm] at hhead
      simpa using hhead
    exact List.dropWhile_cons_of_neg hnot

/-- What ends a text without blanks at its end has none there either. -/
theorem dropBlankEnd_of_suffix (hle : ds <:+ cs) (h : dropBlankEnd cs = cs) :
    dropBlankEnd ds = ds := by
  have hreverse : dropBlank cs.reverse = cs.reverse := List.reverse_eq_iff.1 h
  have hprefix : ds.reverse <+: dropBlank cs.reverse := by
    rw [hreverse]
    exact List.reverse_prefix.2 hle
  rw [dropBlankEnd, dropBlank_of_prefix hprefix, List.reverse_reverse]

/-- Trimming a trimmed text changes nothing. -/
theorem trim_trim (s : String) : trim (trim s) = trim s := by
  rw [trim, trim, String.toList_ofList, dropBlank_of_prefix (dropBlankEnd_isPrefix _),
    dropBlankEnd_dropBlankEnd]

/-- A text is trimmed to nothing if and only if all of it is blank. -/
theorem trim_eq_empty_iff : trim s = "" ↔ isBlank s = true := by
  rw [trim, String.ofList_eq_empty_iff, dropBlankEnd_eq_nil_iff, isBlank, List.all_eq_true]
  constructor
  · intro h c hc
    by_contra hnot
    rw [← List.takeWhile_append_dropWhile (p := isBlankChar) (l := s.toList)] at hc
    rcases List.mem_append.1 hc with htaken | hleft
    · exact hnot (List.mem_takeWhile_imp htaken)
    · exact hnot (h c hleft)
  · exact fun h c hc => h c ((List.dropWhile_suffix _).subset hc)

end RemoteSession.Text
