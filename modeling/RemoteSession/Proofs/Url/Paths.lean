import RemoteSession.Proofs.Url.Segments
import RemoteSession.Proofs.Url.Reading

/-!
# Paths written and read again

What was read out of a text has no segment that would be read otherwise a second time : all
that is to be escaped is escaped, and neither slashes nor dot segments are left
(`IsSegment`). This holds of the path of every address (`isSegment_of_parse`). So the text
of such a path is read as the path it is, whatever follows it after one slash more
(`pathOf_append`).
-/

namespace RemoteSession.Url

/-! ## Parts between separators -/

/-- Parts are what is left of the text when all else is taken away, and have no
separators. -/
theorem of_mem_splitAt {separator : Char → Bool} {cs part : List Char}
    (h : part ∈ splitAt separator cs) :
    part.Sublist cs ∧ ∀ c ∈ part, separator c = false := by
  induction cs generalizing part with
  | nil =>
    obtain rfl : part = [] := List.mem_singleton.1 h
    exact ⟨.slnil, nofun⟩
  | cons x rest ih =>
    obtain ⟨first, parts, hparts⟩ := List.exists_cons_of_ne_nil (splitAt_ne_nil separator rest)
    rw [hparts] at ih
    rw [splitAt, hparts] at h
    split at h
    · rcases List.mem_cons.1 h with rfl | h
      · exact ⟨List.nil_sublist _, nofun⟩
      · exact ⟨(ih h).1.cons x, (ih h).2⟩
    · next hx =>
      rcases List.mem_cons.1 h with rfl | h
      · have hfirst := ih List.mem_cons_self
        exact ⟨hfirst.1.cons_cons x, List.forall_mem_cons.2 ⟨Bool.eq_false_iff.2 hx, hfirst.2⟩⟩
      · have hpart := ih (List.mem_cons_of_mem first h)
        exact ⟨hpart.1.cons x, hpart.2⟩

/-! ## Segments of a path -/

/-- A segment as it stands in a path. -/
structure IsSegment (s : String) : Prop where
  written : ∀ c ∈ s.toList, c.toNat < 0x80 ∧ Percent.inPath c = false ∧ isSlash c = false
  not_dot : isDot s = false

theorem IsSegment.empty : IsSegment "" :=
  ⟨nofun, by decide⟩

/-- A part of a text as a segment. -/
def segmentOf (part : List Char) : String :=
  String.ofList (Percent.encode Percent.inPath part)

theorem IsSegment.segmentOf_eq {s : String} (h : IsSegment s) : segmentOf s.toList = s := by
  rw [segmentOf, Percent.encode_eq_self fun c hc => ⟨(h.written c hc).1, (h.written c hc).2.1⟩,
    String.ofList_toList]

/-- What is written for a part without slashes needs no more escapes. -/
theorem isSegment_segmentOf {part : List Char} (hpart : ∀ c ∈ part, isSlash c = false)
    (hdot : isDot (segmentOf part) = false) : IsSegment (segmentOf part) := by
  refine ⟨?_, hdot⟩
  rw [segmentOf, String.toList_ofList]
  exact Percent.forall_mem_encode (fun c hc hlt hkept => ⟨hlt, hkept, hpart c hc⟩) (by decide)
    (by decide)

/-- A path has the segments it had, new ones that are no dot segments, and an empty one in
the place of a dot segment at its end. -/
theorem mem_pushSegments {path segments : List String} {s : String}
    (h : s ∈ pushSegments path segments) :
    s ∈ path ∨ s = "" ∨ s ∈ segments ∧ isDot s = false := by
  have hnot : ∀ {t : String}, ¬isDoubleDot t = true → ¬isSingleDot t = true →
      isDot t = false := fun hdouble hsingle => by simp [isDot, hdouble, hsingle]
  fun_induction pushSegments path segments with
  | case1 path => exact .inl h
  | case2 path last hdouble =>
    rcases List.mem_append.1 h with h | h
    · exact .inl (List.dropLast_subset path h)
    · exact .inr (.inl (List.mem_singleton.1 h))
  | case3 path last hdouble hsingle =>
    rcases List.mem_append.1 h with h | h
    · exact .inl h
    · exact .inr (.inl (List.mem_singleton.1 h))
  | case4 path last hdouble hsingle =>
    rcases List.mem_append.1 h with h | h
    · exact .inl h
    · obtain rfl := List.mem_singleton.1 h
      exact .inr (.inr ⟨List.mem_cons_self, hnot hdouble hsingle⟩)
  | case5 path segment rest _ hdouble ih =>
    rcases ih h with h | h | h
    · exact .inl (List.dropLast_subset path h)
    · exact .inr (.inl h)
    · exact .inr (.inr ⟨List.mem_cons_of_mem segment h.1, h.2⟩)
  | case6 path segment rest _ hdouble hsingle ih =>
    rcases ih h with h | h | h
    · exact .inl h
    · exact .inr (.inl h)
    · exact .inr (.inr ⟨List.mem_cons_of_mem segment h.1, h.2⟩)
  | case7 path segment rest _ hdouble hsingle ih =>
    rcases ih h with h | h | h
    · rcases List.mem_append.1 h with h | h
      · exact .inl h
      · obtain rfl := List.mem_singleton.1 h
        exact .inr (.inr ⟨List.mem_cons_self, hnot hdouble hsingle⟩)
    · exact .inr (.inl h)
    · exact .inr (.inr ⟨List.mem_cons_of_mem segment h.1, h.2⟩)

theorem pathOf_eq (text : List Char) :
    ∃ rest, pathOf text = pushSegments [] ((splitAt isSlash rest).map segmentOf) := by
  cases text with
  | nil => exact ⟨[], rfl⟩
  | cons c rest => exact ⟨if isSlash c then rest else c :: rest, rfl⟩

theorem pathOf_slash (rest : List Char) :
    pathOf ('/' :: rest) = pushSegments [] ((splitAt isSlash rest).map segmentOf) :=
  rfl

theorem isSegment_of_mem_pathOf {text : List Char} {s : String} (h : s ∈ pathOf text) :
    IsSegment s := by
  obtain ⟨rest, heq⟩ := pathOf_eq text
  rw [heq] at h
  rcases mem_pushSegments h with h | rfl | ⟨h, hdot⟩
  · cases h
  · exact .empty
  · obtain ⟨part, hpart, rfl⟩ := List.mem_map.1 h
    exact isSegment_segmentOf (of_mem_splitAt hpart).2 hdot

/-! ## Texts of paths -/

theorem toList_pathText (path : List String) :
    (pathText path).toList = path.flatMap fun s => '/' :: s.toList := by
  rw [pathText, String.toList_join, List.flatMap_map]
  simp

/-- Nothing in the text of a path is ignored. -/
theorem not_isIgnored_of_mem {path : List String} (h : ∀ s ∈ path, IsSegment s) :
    ∀ c ∈ path.flatMap fun s => '/' :: s.toList, isIgnored c = false := by
  intro c hc
  obtain ⟨s, hs, hc⟩ := List.mem_flatMap.1 hc
  rcases List.mem_cons.1 hc with rfl | hc
  · decide
  · refine Bool.eq_false_iff.2 fun hignored => ?_
    have hpath : Percent.inPath c = true := by
      simp only [isIgnored, Bool.or_eq_true, beq_iff_eq] at hignored
      rcases hignored with (rfl | rfl) | rfl <;> decide
    exact Bool.noConfusion (hpath.symm.trans ((h s hs).written c hc).2.1)

theorem flatMap_slash (path : List String) (rest : List Char) :
    (path.flatMap fun s => '/' :: s.toList) ++ '/' :: rest =
      '/' :: ((path.flatMap fun s => s.toList ++ ['/']) ++ rest) := by
  induction path with
  | nil => rfl
  | cons s path ih =>
    rw [List.flatMap_cons, List.flatMap_cons, List.append_assoc, ih]
    simp

/-- The text of a path is read as the path it is, and what follows it is read by
itself. -/
theorem pathOf_append {path : List String} (h : ∀ s ∈ path, IsSegment s) (rest : List Char) :
    pathOf ((path.flatMap fun s => '/' :: s.toList) ++ '/' :: rest) =
      pushSegments path ((splitAt isSlash rest).map segmentOf) := by
  have hsplit : ∀ {names : List String}, (∀ s ∈ names, IsSegment s) →
      (splitAt isSlash ((names.flatMap fun s => s.toList ++ ['/']) ++ rest)).map segmentOf =
        names ++ (splitAt isSlash rest).map segmentOf := by
    intro names hnames
    induction names with
    | nil => rfl
    | cons s names ih =>
      have hs := hnames s List.mem_cons_self
      rw [List.flatMap_cons, List.append_assoc, List.append_assoc, List.singleton_append,
        splitAt_append _ (fun c hc => (hs.written c hc).2.2) (by decide), List.map_cons,
        hs.segmentOf_eq, ih fun t ht => hnames t (List.mem_cons_of_mem s ht), List.cons_append]
  rw [flatMap_slash, pathOf_slash, hsplit h, pushSegments_append fun s hs => (h s hs).not_dot,
    List.nil_append]

/-! ## Addresses -/

/-- Every address has a path that is read again as it is. -/
theorem isSegment_of_parse {text : String} {url : Url} (h : parse text = .ok (.web url)) :
    ∀ s ∈ url.path, IsSegment s := by
  obtain ⟨_, _, _, _, path, _, hread⟩ := web_of_parse h
  intro s hs
  exact isSegment_of_mem_pathOf (hread.path ▸ hs)

end RemoteSession.Url
