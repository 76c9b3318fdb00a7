import Mathlib.Data.List.Chain
import RemoteSession.Proofs.Terminal.Drafts

/-!
# Line ends in raw mode

In raw mode a terminal translates the line ends of each text that it writes. Line ends of a
text in two pieces are those of the whole unless the cut is between a carriage return and
its line feed (`rawNewlines_append`) : then the line feed gets a carriage return of its own
and there is one too many (`length_rawNewlines_append`). So what a raw terminal writes is
what a plain one writes, its line ends translated, if and only if no text that ends in a
carriage return is followed by one that begins with a line feed (`Screen.raw_written_iff`).
-/

namespace RemoteSession.Terminal

/-- Two texts with a carriage return at the end of one and a line feed at the start of the
other. -/
def IsSeam (cs ds : List Char) : Prop :=
  cs.getLast? = some '\r' ∧ ds.head? = some '\n'

variable {cs ds : List Char} {pieces : List (List Char)}

/-! ## One cut -/

/-- A text ends as it did. -/
theorem getLast?_rawNewlines (cs : List Char) : (rawNewlines cs).getLast? = cs.getLast? := by
  fun_induction rawNewlines cs with
  | case1 rest ih => cases rest <;> simp_all [List.getLast?_cons, rawNewlines]
  | case2 rest ih => cases rest <;> simp_all [List.getLast?_cons]
  | case3 c rest hpair hfeed ih => cases rest <;> simp_all [List.getLast?_cons]
  | case4 => rfl

theorem IsSeam.cons (h : IsSeam cs ds) (c : Char) : IsSeam (c :: cs) ds :=
  ⟨by rw [List.getLast?_cons, h.1]; rfl, h.2⟩

theorem rawNewlines_append (h : ¬IsSeam cs ds) :
    rawNewlines (cs ++ ds) = rawNewlines cs ++ rawNewlines ds := by
  fun_induction rawNewlines cs with
  | case1 rest ih =>
    rw [List.cons_append, List.cons_append, rawNewlines, ih fun hseam => h ((hseam.cons _).cons _)]
    rfl
  | case2 rest ih =>
    rw [List.cons_append, rawNewlines, ih fun hseam => h (hseam.cons _)]
    rfl
  | case3 c rest hpair hfeed ih =>
    rw [List.cons_append, rawNewlines, ih fun hseam => h (hseam.cons _), List.cons_append]
    · -- A carriage return is not before a line feed of its own piece, nor of the next one.
      rintro more rfl heq
      cases rest with
      | nil => exact h ⟨rfl, by rw [show ds = '\n' :: more from heq]; rfl⟩
      | cons d rest =>
        cases heq
        exact hpair rest rfl rfl
    · exact hfeed
  | case4 => rfl

/-- A cut line end is translated once too often. -/
theorem length_rawNewlines_append (h : IsSeam cs ds) :
    (rawNewlines (cs ++ ds)).length + 1 = (rawNewlines cs ++ rawNewlines ds).length := by
  obtain ⟨hlast, hfirst⟩ := h
  obtain ⟨before, rfl⟩ := List.getLast?_eq_some_iff.1 hlast
  obtain ⟨rest, rfl⟩ := List.head?_eq_some_iff.1 hfirst
  have hwhole : ¬IsSeam before ('\r' :: '\n' :: rest) := fun hseam => by cases hseam.2
  have hpart : ¬IsSeam before ['\r'] := fun hseam => by cases hseam.2
  rw [List.append_assoc, List.singleton_append, rawNewlines_append hwhole, rawNewlines_append hpart]
  simp [rawNewlines]
  omega

/-! ## Many pieces -/

theorem length_rawNewlines_append_le (cs ds : List Char) :
    (rawNewlines (cs ++ ds)).length ≤ (rawNewlines cs ++ rawNewlines ds).length := by
  by_cases h : IsSeam cs ds
  · exact Nat.le_of_succ_le (length_rawNewlines_append h).le
  · rw [rawNewlines_append h]

theorem length_rawNewlines_flatten_le (pieces : List (List Char)) :
    (rawNewlines pieces.flatten).length ≤ (pieces.flatMap rawNewlines).length := by
  induction pieces with
  | nil => exact Nat.le_refl 0
  | cons p rest ih =>
    have hcut := length_rawNewlines_append_le p rest.flatten
    rw [List.length_append] at hcut
    rw [List.flatten_cons, List.flatMap_cons, List.length_append]
    omega

/-- Pieces with no line end cut between two of them, and only such pieces, can be translated
one by one. -/
theorem flatMap_rawNewlines_iff (hne : ∀ p ∈ pieces, p ≠ []) :
    pieces.flatMap rawNewlines = rawNewlines pieces.flatten ↔
      pieces.IsChain fun p q => ¬IsSeam p q := by
  induction pieces with
  | nil => simp [rawNewlines]
  | cons p rest ih =>
    have hrest := ih fun q hq => hne q (List.mem_cons_of_mem p hq)
    cases rest with
    | nil => simp
    | cons q rest =>
      have hq : q ≠ [] := hne q (by simp)
      have hseam : IsSeam p (q :: rest).flatten ↔ IsSeam p q := by
        rw [IsSeam, IsSeam, List.flatten_cons, List.head?_append_of_ne_nil _ hq]
      rw [List.isChain_cons_cons, ← hrest, List.flatMap_cons, List.flatten_cons, ← hseam]
      constructor
      · intro h
        have hno : ¬IsSeam p (q :: rest).flatten := fun hcut => by
          have hlength := length_rawNewlines_append hcut
          have hle := length_rawNewlines_flatten_le (q :: rest)
          rw [← h, List.length_append, List.length_append] at hlength
          omega
        rw [rawNewlines_append hno] at h
        exact ⟨hno, List.append_cancel_left h⟩
      · rintro ⟨hno, h⟩
        rw [rawNewlines_append hno, h]

/-! ## Two terminals -/

/-- Something told whose text the writer takes. -/
def Telling.written (t : Telling) : Occasion :=
  ⟨t, true⟩

namespace Screen

variable {s other : Screen}

theorem alike_follow (h : s.sink.Alike other.sink) (o : Occasion) :
    s.draft? o = other.draft? o ∧ (s.follow o).sink.Alike (other.follow o).sink := by
  have hdraft : s.draft? o = other.draft? o := by
    rw [draft?, draft?, h.draft_eq]
  obtain ⟨-, hactivity, hoffset⟩ := s.manner_follow o
  obtain ⟨-, hactivity', hoffset'⟩ := other.manner_follow o
  refine ⟨hdraft, ?_, ?_, ?_⟩
  · rw [hactivity, hactivity', h.activity]
  · rw [hoffset, hoffset', h.offset]
  · rw [atLineStart_follow, atLineStart_follow, hdraft, standing, standing, h.atLineStart]

/-- The form that a terminal has does not change what it makes of a course. -/
theorem drafts_congr (h : s.sink.Alike other.sink) (course : List Occasion) :
    s.drafts course = other.drafts course := by
  induction course generalizing s other with
  | nil => rfl
  | cons o rest ih =>
    obtain ⟨hdraft, halike⟩ := alike_follow h o
    rw [drafts, drafts, hdraft, ih halike]

theorem taken_of_mem_drafts {told : List Telling} {d : Draft}
    (h : d ∈ s.drafts (told.map Telling.written)) : d.taken = true := by
  induction told generalizing s with
  | nil => cases h
  | cons t rest ih =>
    rcases List.mem_append.1 h with h | h
    · rw [Option.mem_toList, draft?, Option.ite_none_left_eq_some] at h
      obtain ⟨-, heq⟩ := h
      cases heq
      rfl
    · exact ih h

/-- While nothing is refused, what is written is all drafts in the form of the terminal. -/
theorem toList_written (s : Screen) (hs : s.written = "") (told : List Telling) :
    (s.followAll (told.map Telling.written)).written.toList =
      (s.drafts (told.map Telling.written)).flatMap fun d => (s.sink.shown d.text).toList := by
  have hall : (s.drafts (told.map Telling.written)).filter Draft.taken =
      s.drafts (told.map Telling.written) :=
    List.filter_eq_self.2 fun d hd => taken_of_mem_drafts hd
  rw [written_followAll, hs, String.empty_append, textOf, hall, String.toList_join,
    List.flatMap_map]

/-- Where no text is refused, a raw terminal writes what a plain one writes with its line
ends translated, if and only if no text of the plain one that ends in a carriage return is
followed by one that begins with a line feed. -/
theorem raw_written_iff (activity : Bool) (offset : Int) (told : List Telling) :
    let course := told.map Telling.written
    let plain := new false activity offset
    let raw := new true activity offset
    (raw.followAll course).written =
        String.ofList (rawNewlines (plain.followAll course).written.toList) ↔
      (plain.drafts course).IsChain fun d e => ¬IsSeam d.text.toList e.text.toList := by
  intro course plain raw
  have halike : raw.sink.Alike plain.sink := ⟨rfl, rfl, rfl⟩
  have hdrafts : raw.drafts course = plain.drafts course := drafts_congr halike course
  have hplain : (plain.followAll course).written.toList =
      ((plain.drafts course).map fun d => d.text.toList).flatten :=
    (plain.toList_written rfl told).trans (List.flatMap_def ..)
  have hraw : (raw.followAll course).written.toList =
      (plain.drafts course).flatMap fun d => rawNewlines d.text.toList := by
    have hshown : ∀ text, (raw.sink.shown text).toList = rawNewlines text.toList :=
      fun _ => String.toList_ofList
    rw [← hdrafts, raw.toList_written rfl told]
    simp only [hshown]
    rfl
  have hne : ∀ p ∈ (plain.drafts course).map fun d => d.text.toList, p ≠ [] := by
    intro p hp
    obtain ⟨d, hd, rfl⟩ := List.mem_map.1 hp
    exact fun h => text_ne_of_mem_drafts hd (String.toList_eq_nil_iff.1 h)
  have hpieces := flatMap_rawNewlines_iff hne
  rw [List.isChain_map, List.flatMap_map] at hpieces
  rw [← String.toList_inj, String.toList_ofList, hplain, hraw, ← hpieces]

/-- A line end of an assistant is cut between its carriage return and its line feed. -/
theorem raw_written_of_cut :
    let told := [.change (.appended ⟨.assistant, 0, 1, "a\r"⟩), .change (.extended 2 "\nb")]
    let plain := (new false false 0).followAll (told.map Telling.written)
    let raw := (new true false 0).followAll (told.map Telling.written)
    plain.written = "a\r\nb" ∧ raw.written = "a\r\r\nb" ∧
      raw.written ≠ String.ofList (rawNewlines plain.written.toList) := by
  decide +kernel

end Screen

end RemoteSession.Terminal
