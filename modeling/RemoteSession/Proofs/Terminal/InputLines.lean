import Mathlib.Data.List.Basic
import RemoteSession.Main
import RemoteSession.Proofs.Text.Utf8

/-!
# Lines of the input

A text splits into lines : each ends at a line feed, and what follows the last one is a line too
if there is anything (`Splits`). Of each only the end is removed, the line feed and one carriage
return before it, or one at the end of the text (`InputLine.Stripped`). A text splits in one way
only (`Splits.unique`).

The octets of a text are handed on as the lines into which it splits (`Splits.read_eq`), however
they are cut into reads (`LineReader.feedAll_eq`), and nothing else happens before the end of the
input (`LineReader.lines_recover`).
-/

namespace RemoteSession.Terminal

/-- A line of the input : what is handed on of it, and what of its end there was. -/
structure InputLine where
  text : String
  /-- A carriage return stood at its end. -/
  returned : Bool
  /-- A line feed ended it. -/
  fed : Bool
deriving DecidableEq

namespace InputLine

/-- A line without its line feed. -/
def body (l : InputLine) : List Char :=
  l.text.toList ++ if l.returned then ['\r'] else []

/-- A line as it was. -/
def whole (l : InputLine) : List Char :=
  l.body ++ if l.fed then ['\n'] else []

/-- The text of a line is all of it but its end. -/
structure Stripped (l : InputLine) : Prop where
  no_feed : '\n' ∉ l.text.toList
  no_return : l.returned = false → l.text.toList.getLast? ≠ some '\r'

end InputLine

/-- The lines of a text. -/
inductive Splits : List Char → List InputLine → Prop where
  | nil : Splits [] []
  | rest {l : InputLine} : l.Stripped → l.fed = false → l.body ≠ [] → Splits l.whole [l]
  | line {l : InputLine} {cs : List Char} {ls : List InputLine} :
    l.Stripped → l.fed = true → Splits cs ls → Splits (l.whole ++ cs) (l :: ls)

variable {l m : InputLine} {cs ds : List Char} {ls : List InputLine}

/-! ## One line -/

namespace InputLine

theorem Stripped.not_mem_body (h : l.Stripped) : '\n' ∉ l.body := by
  intro hmem
  rcases List.mem_append.1 hmem with htext | hreturn
  · exact h.no_feed htext
  · split at hreturn
    · cases List.mem_singleton.1 hreturn
    · cases hreturn

theorem whole_of_fed (h : l.fed = true) : l.whole = l.body ++ ['\n'] := by
  rw [whole, if_pos h]

theorem whole_of_not_fed (h : l.fed = false) : l.whole = l.body := by
  rw [whole, if_neg (Bool.eq_false_iff.1 h), List.append_nil]

/-- What is no line feed can be stripped. -/
theorem exists_stripped (h : '\n' ∉ cs) (fed : Bool) :
    ∃ l : InputLine, l.Stripped ∧ l.fed = fed ∧ l.body = cs := by
  by_cases hreturn : cs.getLast? = some '\r'
  · obtain ⟨init, rfl⟩ := List.getLast?_eq_some_iff.1 hreturn
    have hinit : '\n' ∉ init := fun hmem => h (List.mem_append_left _ hmem)
    exact ⟨⟨String.ofList init, true, fed⟩, ⟨by rwa [String.toList_ofList], nofun⟩, rfl, by
      rw [body, String.toList_ofList, if_pos rfl]⟩
  · exact ⟨⟨String.ofList cs, false, fed⟩, ⟨by rwa [String.toList_ofList], fun _ => by
      rwa [String.toList_ofList]⟩, rfl, by
      rw [body, String.toList_ofList, if_neg Bool.false_ne_true, List.append_nil]⟩

/-- A carriage return at the end is removed, so that none belongs to the text alone. -/
theorem Stripped.returned_iff (h : l.Stripped) :
    l.returned = true ↔ l.body.getLast? = some '\r' := by
  rw [body]
  cases hreturned : l.returned with
  | true => simp
  | false => simpa using h.no_return hreturned

theorem Stripped.eq_of_body_eq (hl : l.Stripped) (hm : m.Stripped) (hbody : l.body = m.body)
    (hfed : l.fed = m.fed) : l = m := by
  have hreturned : l.returned = m.returned := by
    rw [Bool.eq_iff_iff, hl.returned_iff, hm.returned_iff, hbody]
  have htext : l.text = m.text := by
    rw [body, body, hreturned] at hbody
    exact String.toList_inj.1 (List.append_cancel_right hbody)
  cases l
  cases m
  rw [InputLine.mk.injEq]
  exact ⟨htext, hreturned, hfed⟩

end InputLine

/-! ## All lines -/

/-- Every text splits into lines. -/
theorem exists_splits (cs : List Char) : ∃ ls, Splits cs ls := by
  induction hlength : cs.length using Nat.strongRecOn generalizing cs with
  | ind length ih =>
    by_cases hfeed : '\n' ∈ cs
    · obtain ⟨before, rest, rfl, hbefore⟩ := List.eq_append_cons_of_mem hfeed
      rw [List.length_append, List.length_cons] at hlength
      obtain ⟨ls, hls⟩ := ih rest.length (by omega) rest rfl
      obtain ⟨l, hl, hfed, rfl⟩ := InputLine.exists_stripped hbefore true
      have hline := Splits.line hl hfed hls
      rw [InputLine.whole_of_fed hfed, List.append_assoc, List.singleton_append] at hline
      exact ⟨l :: ls, hline⟩
    · by_cases hnil : cs = []
      · exact ⟨[], hnil ▸ .nil⟩
      · obtain ⟨l, hl, hfed, rfl⟩ := InputLine.exists_stripped hfeed false
        have hrest := Splits.rest hl hfed hnil
        rw [InputLine.whole_of_not_fed hfed] at hrest
        exact ⟨[l], hrest⟩

/-- What stands before the first line feed, and what behind it. -/
theorem append_feed_inj {xs ys : List Char} (hxs : '\n' ∉ xs) (hys : '\n' ∉ ys)
    (h : xs ++ '\n' :: cs = ys ++ '\n' :: ds) : xs = ys ∧ cs = ds := by
  have hbefore : ∀ zs rest : List Char, '\n' ∉ zs →
      (zs ++ '\n' :: rest).takeWhile (· != '\n') = zs := fun zs rest hzs => by
    have hall : ∀ c ∈ zs, (c != '\n') = true := fun c hc =>
      bne_iff_ne.2 fun heq => hzs (heq ▸ hc)
    rw [List.takeWhile_append_of_pos hall]
    simp
  have heq : xs = ys := by rw [← hbefore xs cs hxs, h, hbefore ys ds hys]
  subst heq
  exact ⟨rfl, (List.cons.inj (List.append_cancel_left h)).2⟩

/-- A line that ends is the first of a text in one way only. -/
theorem InputLine.Stripped.whole_append_inj (hl : l.Stripped) (hm : m.Stripped)
    (hfed : l.fed = true) (hfed' : m.fed = true) (h : l.whole ++ cs = m.whole ++ ds) :
    l = m ∧ cs = ds := by
  rw [whole_of_fed hfed, whole_of_fed hfed', List.append_assoc, List.append_assoc,
    List.singleton_append, List.singleton_append] at h
  obtain ⟨hbody, hrest⟩ := append_feed_inj hl.not_mem_body hm.not_mem_body h
  exact ⟨hl.eq_of_body_eq hm hbody (hfed.trans hfed'.symm), hrest⟩

namespace Splits

/-- A text splits in one way only. -/
theorem unique {others : List InputLine} (h : Splits cs ls) (h' : Splits cs others) :
    others = ls := by
  induction h generalizing others with
  | nil =>
    generalize hnil : ([] : List Char) = cs at h'
    cases h' with
    | nil => rfl
    | rest _ hfed hne => exact absurd (InputLine.whole_of_not_fed hfed ▸ hnil.symm) hne
    | line _ hfed _ => simp [InputLine.whole_of_fed hfed] at hnil
  | @rest l hl hfed hne =>
    generalize heq : l.whole = cs at h'
    rw [InputLine.whole_of_not_fed hfed] at heq
    cases h' with
    | nil => exact absurd heq hne
    | rest hm hfed' _ =>
      rw [InputLine.whole_of_not_fed hfed'] at heq
      rw [hl.eq_of_body_eq hm heq (hfed.trans hfed'.symm)]
    | line _ hfed' _ =>
      rw [InputLine.whole_of_fed hfed'] at heq
      exact absurd (by simp [heq]) hl.not_mem_body
  | @line l cs ls hl hfed _ ih =>
    generalize heq : l.whole ++ cs = ds at h'
    cases h' with
    | nil => simp [InputLine.whole_of_fed hfed] at heq
    | rest hm hfed' _ =>
      rw [InputLine.whole_of_not_fed hfed', InputLine.whole_of_fed hfed] at heq
      exact absurd (by simp [← heq]) hm.not_mem_body
    | line hm hfed' hrest =>
      obtain ⟨rfl, rfl⟩ := hl.whole_append_inj hm hfed hfed' heq
      rw [ih hrest]

theorem flatMap_whole (h : Splits cs ls) : ls.flatMap InputLine.whole = cs := by
  induction h with
  | nil => rfl
  | rest _ _ _ => exact List.flatMap_singleton ..
  | line _ _ _ ih => rw [List.flatMap_cons, ih]

theorem stripped (h : Splits cs ls) : ∀ l ∈ ls, l.Stripped := by
  induction h with
  | nil => simp
  | rest hl _ _ => simpa using hl
  | line hl _ _ ih => exact List.forall_mem_cons.2 ⟨hl, ih⟩

/-- There is a line for each line feed, and one for what follows the last of them, if there is
anything. -/
theorem length_eq (h : Splits cs ls) :
    ls.length = cs.count '\n' + if cs = [] ∨ cs.getLast? = some '\n' then 0 else 1 := by
  induction h with
  | nil => rfl
  | rest hl hfed hne =>
    have hlast := fun hlast => hl.not_mem_body (List.mem_of_getLast? hlast)
    rw [InputLine.whole_of_not_fed hfed, List.count_eq_zero.2 hl.not_mem_body,
      if_neg (not_or.2 ⟨hne, hlast⟩)]
    rfl
  | @line l cs ls hl hfed _ ih =>
    have hlast : (l.whole ++ cs = [] ∨ (l.whole ++ cs).getLast? = some '\n') ↔
        (cs = [] ∨ cs.getLast? = some '\n') := by
      rw [InputLine.whole_of_fed hfed]
      cases cs <;> simp
    rw [List.length_cons, ih, List.count_append, InputLine.whole_of_fed hfed, List.count_append,
      List.count_eq_zero.2 hl.not_mem_body, ← InputLine.whole_of_fed hfed, if_congr hlast rfl rfl]
    simp
    omega

end Splits

/-! ## Octets of lines -/

theorem lineFeed_not_mem (h : '\n' ∉ cs) : lineFeed ∉ cs.flatMap String.utf8EncodeChar := by
  intro hmem
  obtain ⟨c, hc, hoctet⟩ := List.mem_flatMap.1 hmem
  have hfeed : c = '\n' :=
    Char.toNat_inj.1 (Text.Utf8.toNat_of_mem_utf8EncodeChar hoctet (by decide))
  exact h (hfeed ▸ hc)

/-- Of the octets of a line those of its end are removed. -/
theorem withoutEnd_whole (h : l.Stripped) :
    withoutEnd (l.whole.flatMap String.utf8EncodeChar) = Text.Utf8.encode l.text := by
  have hfeed : (Text.Utf8.encode l.text).getLast? ≠ some lineFeed := fun hlast =>
    lineFeed_not_mem h.no_feed (List.mem_of_getLast? hlast)
  have hreturn : l.returned = false → (Text.Utf8.encode l.text).getLast? ≠ some carriageReturn :=
    fun hreturned hlast => h.no_return hreturned
      (Text.Utf8.getLast?_of_getLast?_flatMap (c := '\r') (by decide) hlast)
  have hoctets : l.whole.flatMap String.utf8EncodeChar = Text.Utf8.encode l.text ++
      (if l.returned then [carriageReturn] else []) ++ (if l.fed then [lineFeed] else []) := by
    rw [InputLine.whole, InputLine.body, List.flatMap_append, List.flatMap_append]
    cases l.returned <;> cases l.fed <;> rfl
  have hdiffer : carriageReturn ≠ lineFeed := by decide
  rw [hoctets, withoutEnd]
  generalize Text.Utf8.encode l.text = octets at hfeed hreturn
  cases hreturned : l.returned <;> cases l.fed <;> simp_all

namespace LineReader

theorem complete_whole (h : l.Stripped) :
    complete (l.whole.flatMap String.utf8EncodeChar) = (start, [l.text]) := by
  have hwhole := Text.Utf8.decode?_encode (String.ofList l.whole)
  rw [Text.Utf8.encode, String.toList_ofList] at hwhole
  rw [complete, hwhole, withoutEnd_whole h, Text.Utf8.decode?_encode]
  rfl

theorem feed_cons (r : LineReader) (octet : UInt8) (rest : List UInt8) :
    r.feed (octet :: rest) = (((r.take octet).1.feed rest).1,
      (r.take octet).2 ++ ((r.take octet).1.feed rest).2) :=
  rfl

/-- Octets without a line feed are kept for the line that has not ended. -/
theorem feed_of_not_mem {octets : List UInt8} (h : lineFeed ∉ octets) (rest : List UInt8) :
    (⟨rest, false⟩ : LineReader).feed octets = (⟨rest ++ octets, false⟩, []) := by
  induction octets generalizing rest with
  | nil => rw [feed, List.append_nil]
  | cons octet more ih =>
    rw [List.mem_cons, not_or] at h
    obtain ⟨hoctet, hmore⟩ := h
    have htake : (⟨rest, false⟩ : LineReader).take octet = (⟨rest ++ [octet], false⟩, []) := by
      simp [take, Ne.symm hoctet]
    rw [feed_cons, htake, ih hmore, List.append_assoc]
    rfl

theorem feed_line (h : l.Stripped) (hfed : l.fed = true) :
    start.feed (l.whole.flatMap String.utf8EncodeChar) = (start, [l.text]) := by
  have hcomplete := complete_whole h
  have hoctets : l.whole.flatMap String.utf8EncodeChar =
      l.body.flatMap String.utf8EncodeChar ++ [lineFeed] := by
    rw [InputLine.whole_of_fed hfed, List.flatMap_append]
    rfl
  rw [hoctets] at hcomplete ⊢
  rw [feed_append, start, feed_of_not_mem (lineFeed_not_mem h.not_mem_body), feed_cons, take,
    if_neg Bool.false_ne_true, if_pos rfl, List.nil_append, hcomplete]
  rfl

theorem finish_rest (h : l.Stripped) (hfed : l.fed = false) (hne : l.body ≠ []) :
    (start.feed (l.whole.flatMap String.utf8EncodeChar)).2 = [] ∧
      (start.feed (l.whole.flatMap String.utf8EncodeChar)).1.finish = [l.text] := by
  have hcomplete := complete_whole h
  obtain ⟨c, more, hbody⟩ := List.exists_cons_of_ne_nil hne
  have hoctets : (l.body.flatMap String.utf8EncodeChar).isEmpty = false := by
    simp [hbody]
  rw [InputLine.whole_of_not_fed hfed] at hcomplete ⊢
  rw [start, feed_of_not_mem (lineFeed_not_mem h.not_mem_body), List.nil_append, finish, hoctets,
    hcomplete]
  exact ⟨rfl, rfl⟩

/-- A text is read as the lines into which it splits. -/
theorem read_of_splits (h : Splits cs ls) :
    (start.feed (cs.flatMap String.utf8EncodeChar)).2 ++
      (start.feed (cs.flatMap String.utf8EncodeChar)).1.finish = ls.map InputLine.text := by
  induction h with
  | nil => rfl
  | rest hl hfed hne =>
    obtain ⟨hnow, hlast⟩ := finish_rest hl hfed hne
    rw [hnow, hlast]
    rfl
  | line hl hfed _ ih =>
    rw [List.flatMap_append, feed_append, feed_line hl hfed, List.map_cons, ← ih]
    rfl

/-! ## Reads -/

theorem feedAll_cons (r : LineReader) (chunk : List UInt8) (rest : List (List UInt8)) :
    r.feedAll (chunk :: rest) = (((r.feed chunk).1.feedAll rest).1,
      (r.feed chunk).2 ++ ((r.feed chunk).1.feedAll rest).2) :=
  rfl

/-- Where the input is cut does not matter. -/
theorem feedAll_eq (r : LineReader) (chunks : List (List UInt8)) :
    r.feedAll chunks = r.feed chunks.flatten := by
  induction chunks generalizing r with
  | nil => rfl
  | cons chunk rest ih => rw [feedAll_cons, ih, List.flatten_cons, feed_append]

theorem lines_eq (chunks : List (List UInt8)) :
    lines chunks = (start.feed chunks.flatten).2 ++ (start.feed chunks.flatten).1.finish := by
  rw [lines, feedAll_eq]

/-- What the reads of the input make happen where it is read in lines. -/
def happeningsOf (r : LineReader) : List (List UInt8) → List Attachment.Happening
  | [] => []
  | chunk :: rest => (happenings false r chunk).2 ++ happeningsOf (happenings false r chunk).1 rest

/-- At the end of the input each line has happened, and then the end. -/
theorem happeningsOf_append_end {chunks : List (List UInt8)} (h : ∀ chunk ∈ chunks, chunk ≠ [])
    (r : LineReader) : r.happeningsOf (chunks ++ [[]]) =
      ((r.feedAll chunks).2 ++ (r.feedAll chunks).1.finish).map (.line · 0) ++ [.endOfInput] := by
  induction chunks generalizing r with
  | nil => simp [happeningsOf, happenings, feedAll]
  | cons chunk rest ih =>
    obtain ⟨hchunk, hrest⟩ := List.forall_mem_cons.1 h
    have hread : happenings false r chunk =
        ((r.feed chunk).1, (r.feed chunk).2.map (.line · 0)) := by
      simp [happenings, hchunk]
    rw [List.cons_append, happeningsOf, hread, ih hrest, feedAll_cons]
    simp only [List.map_append, List.append_assoc]

/-- However the octets of a text come in reads, what happens is its lines, in order, and then
the end of the input. There is a line for each line feed of the text, and one for what follows
the last of them, if there is anything. No line holds a line feed. The text splits in exactly one
way into these lines and what is removed of each : a line feed and one carriage return before it,
if there is one, or a carriage return at the end of the text. -/
theorem lines_recover {text : String} {chunks : List (List UInt8)}
    (hreads : ∀ chunk ∈ chunks, chunk ≠ [])
    (htext : chunks.flatten = Text.Utf8.encode text) :
    start.happeningsOf (chunks ++ [[]]) = (lines chunks).map (.line · 0) ++ [.endOfInput] ∧
    (lines chunks).length =
      text.toList.count '\n' + (if text = "" ∨ text.toList.getLast? = some '\n' then 0 else 1) ∧
    (∀ line ∈ lines chunks, '\n' ∉ line.toList) ∧
    ∃ split, (∀ others, Splits text.toList others ↔ others = split) ∧
      lines chunks = split.map InputLine.text ∧ text.toList = split.flatMap InputLine.whole := by
  obtain ⟨split, hsplit⟩ := exists_splits text.toList
  have hlines : lines chunks = split.map InputLine.text := by
    rw [lines_eq, htext]
    exact read_of_splits hsplit
  refine ⟨?_, ?_, fun line hline => ?_, split, fun others => ⟨hsplit.unique, fun h => h ▸ hsplit⟩,
    hlines, hsplit.flatMap_whole.symm⟩
  · rw [happeningsOf_append_end hreads, lines]
  · rw [hlines, List.length_map, hsplit.length_eq]
    exact congrArg _ (if_congr (or_congr_left String.toList_eq_nil_iff) rfl rfl)
  · rw [hlines] at hline
    obtain ⟨l, hl, rfl⟩ := List.mem_map.1 hline
    exact (hsplit.stripped l hl).no_feed

/-- Four reads, of which one ends within a character and one within the end of a line. -/
theorem lines_recover_cut :
    let chunks := [[0x61, 0x0D, 0x0D], [0x0A, 0xC3], [0xA9, 0x0A, 0x0A, 0x62], [0x0D]]
    (∀ chunk ∈ chunks, chunk ≠ []) ∧ chunks.flatten = Text.Utf8.encode "a\r\r\né\n\nb\r" ∧
    start.happeningsOf (chunks ++ [[]]) =
      [.line "a\r" 0, .line "é" 0, .line "" 0, .line "b" 0, .endOfInput] ∧
    Splits "a\r\r\né\n\nb\r".toList
      [⟨"a\r", true, true⟩, ⟨"é", false, true⟩, ⟨"", false, true⟩, ⟨"b", true, false⟩] := by
  have hreads : ∀ chunk ∈ [[0x61, 0x0D, 0x0D], [0x0A, 0xC3], [0xA9, 0x0A, 0x0A, 0x62], [0x0D]],
      chunk ≠ ([] : List UInt8) := by decide
  have htext : [[0x61, 0x0D, 0x0D], [0x0A, 0xC3], [0xA9, 0x0A, 0x0A, 0x62], [0x0D]].flatten =
      Text.Utf8.encode "a\r\r\né\n\nb\r" := by decide
  have hsplits : Splits "a\r\r\né\n\nb\r".toList
      [⟨"a\r", true, true⟩, ⟨"é", false, true⟩, ⟨"", false, true⟩, ⟨"b", true, false⟩] :=
    .line (l := ⟨"a\r", true, true⟩) ⟨by decide, by decide⟩ rfl <|
      .line (l := ⟨"é", false, true⟩) ⟨by decide, by decide⟩ rfl <|
        .line (l := ⟨"", false, true⟩) ⟨by decide, by decide⟩ rfl <|
          .rest (l := ⟨"b", true, false⟩) ⟨by decide, by decide⟩ rfl (by decide)
  obtain ⟨hhappens, -, -, split, hsplit, hlines, -⟩ := lines_recover hreads htext
  rw [hlines, ← (hsplit _).1 hsplits] at hhappens
  exact ⟨hreads, htext, hhappens, hsplits⟩

end LineReader

end RemoteSession.Terminal
