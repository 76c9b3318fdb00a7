import Mathlib.Algebra.Group.Nat.Defs
import Mathlib.Data.List.Infix
import RemoteSession.Proofs.Text.Cuts

/-!
# Octets that are replaced

Any octets divide, from the left, into characters and maximal ill-formed prefixes (`Divides`).
Where a character stands it is one piece. Where none stands a piece holds the octets with which
a character may begin, as many as there are, or one octet if no character begins so
(`IsIllFormed`). This is said with the octets of characters alone, without the reader.

What the reader has pending spells the beginning of a character (`Pending.Follows`), and it
has something pending after each such beginning (`exists_feed_of_isBeginning`). So it has one
entry for each piece (`scan_of_divides`), of whatever octets (`exists_divides`), and they divide
in no other way (`Divides.unique`). A sequence that is pending is closed by the first octet of a
character (`scan_append_of_beginsWhole`), so that what stands before and behind a character is
read as if it stood alone.
-/

namespace RemoteSession.Text.Utf8

variable {octets part rest : List UInt8} {b : UInt8} {p q : Pending} {n v : Nat}

/-! ## Pieces -/

/-- Octets with which a character begins, and does not end. -/
def IsBeginning (octets : List UInt8) : Prop :=
  ∃ c rest, rest ≠ [] ∧ String.utf8EncodeChar c = octets ++ rest

/-- A part of some octets that begins where no character does, and is as long as it can be :
the longest with which a character begins, or a single octet. -/
structure IsIllFormed (part rest : List UInt8) : Prop where
  ne_nil : part ≠ []
  no_character : ∀ c, ¬String.utf8EncodeChar c <+: part ++ rest
  begins : IsBeginning part ∨ part.length = 1
  longest : ∀ more, more <+: part ++ rest → IsBeginning more → more.length ≤ part.length

/-- What octets are made of. -/
inductive Piece where
  | character (c : Char)
  | illFormed (part : List UInt8)
deriving DecidableEq

/-- The division of octets into pieces. -/
inductive Divides : List UInt8 → List Piece → Prop where
  | nil : Divides [] []
  | character {rest : List UInt8} {pieces : List Piece} (c : Char) :
    Divides rest pieces → Divides (String.utf8EncodeChar c ++ rest) (.character c :: pieces)
  | illFormed {part rest : List UInt8} {pieces : List Piece} :
    IsIllFormed part rest → Divides rest pieces →
      Divides (part ++ rest) (.illFormed part :: pieces)

namespace Piece

/-- The character that a piece is, if it is one. -/
def character? : Piece → Option Char
  | .character c => some c
  | .illFormed _ => none

/-- The character as which a piece is read. -/
def read (piece : Piece) : Char :=
  piece.character?.getD replacement

end Piece

/-! ## What is pending -/

/-- The octets that spell a number, as many of the last ones as are given. -/
def trails : Nat → Nat → List UInt8
  | 0, _ => []
  | more + 1, v => UInt8.ofNat (v / 64 ^ more % 64 + 0x80) :: trails more v

/-- What is pending after some octets : with whatever octet it may go on, these octets and
those to come spell a character. -/
structure Pending.Follows (p : Pending) (octets : List UInt8) : Prop where
  more_pos : 0 < p.more
  least_le : p.least ≤ p.most
  bounded : p.Bounded
  /-- Each number is a character's that is the pending one as far as it has been read and has
  its next octet within the bounds. -/
  spells : ∀ more v, p.more = more + 1 → v / 64 ^ more / 64 = p.value →
    p.least ≤ v / 64 ^ more % 64 + 0x80 → v / 64 ^ more % 64 + 0x80 ≤ p.most →
      ∃ c, String.utf8EncodeChar c = octets ++ trails p.more v

theorem exists_toNat_eq {v : Nat} (h : v < 0xD800 ∨ 0xDFFF < v ∧ v < 0x110000) :
    ∃ c : Char, c.val.toNat = v :=
  ⟨Char.ofNatAux v h, rfl⟩

/-- A lead of two octets and what its number allows behind it spell a character. -/
theorem exists_encodeChar_two (hle : 0xC2 ≤ n) (hlt : n < 0xE0) (hv : v / 64 = n - 0xC0) :
    ∃ c, String.utf8EncodeChar c = UInt8.ofNat n :: trails 1 v := by
  obtain ⟨c, rfl⟩ := exists_toNat_eq (v := v) (by omega)
  refine ⟨c, ?_⟩
  unfold String.utf8EncodeChar
  generalize c.val.toNat = v at hv
  have hlead : v / 64 % 0x20 + 0xC0 = n := by omega
  rw [if_neg (by omega), if_pos (by omega), hlead]
  simp [trails]

/-- After a lead of `E0` a spelling in two octets is ruled out, and after `ED` a surrogate. -/
theorem exists_encodeChar_three (hle : 0xE0 ≤ n) (hlt : n < 0xF0) (hv : v / 64 / 64 = n - 0xE0)
    (hleast : (if n = 0xE0 then 0xA0 else 0x80) ≤ v / 64 % 64 + 0x80)
    (hmost : v / 64 % 64 + 0x80 ≤ if n = 0xED then 0x9F else 0xBF) :
    ∃ c, String.utf8EncodeChar c = UInt8.ofNat n :: trails 2 v := by
  have hwide : 0x800 ≤ v := by split at hleast <;> omega
  obtain ⟨c, rfl⟩ := exists_toNat_eq (v := v) (by split at hmost <;> omega)
  refine ⟨c, ?_⟩
  unfold String.utf8EncodeChar
  generalize c.val.toNat = v at hv hwide
  have hlead : v / 4096 % 0x10 + 0xE0 = n := by omega
  rw [if_neg (by omega), if_neg (by omega), if_pos (by omega), hlead]
  simp [trails]

/-- After a lead of `F0` a spelling in three octets is ruled out, and after `F4` what is past the
last plane. -/
theorem exists_encodeChar_four (hle : 0xF0 ≤ n) (hlt : n < 0xF5)
    (hv : v / 4096 / 64 = n - 0xF0)
    (hleast : (if n = 0xF0 then 0x90 else 0x80) ≤ v / 4096 % 64 + 0x80)
    (hmost : v / 4096 % 64 + 0x80 ≤ if n = 0xF4 then 0x8F else 0xBF) :
    ∃ c, String.utf8EncodeChar c = UInt8.ofNat n :: trails 3 v := by
  have hwide : 0x10000 ≤ v := by split at hleast <;> omega
  obtain ⟨c, rfl⟩ := exists_toNat_eq (v := v) (by split at hmost <;> omega)
  refine ⟨c, ?_⟩
  unfold String.utf8EncodeChar
  generalize c.val.toNat = v at hv hwide
  have hlead : v / 262144 % 8 + 0xF0 = n := by omega
  rw [if_neg (by omega), if_neg (by omega), if_neg (by omega), hlead]
  simp [trails]

theorem follows_start (h : start b = ([], some p)) : p.Follows [b] := by
  have hbounded := bounded_start b p (by rw [h]; rfl)
  have hb : UInt8.ofNat b.toNat = b := UInt8.ofNat_toNat
  simp only [start] at h
  generalize b.toNat = n at h hb
  rw [← hb]
  split at h
  · cases h
  split at h
  · cases h
  split at h
  · obtain rfl := Option.some.inj (Prod.mk.inj h).2
    refine ⟨Nat.one_pos, by simp, hbounded, fun more v hmore hv _ _ => ?_⟩
    obtain rfl : 0 = more := Nat.succ.inj hmore
    rw [Nat.pow_zero, Nat.div_one] at hv
    exact exists_encodeChar_two (by omega) (by omega) hv
  split at h
  · obtain rfl := Option.some.inj (Prod.mk.inj h).2
    refine ⟨Nat.two_pos, by dsimp only; split <;> split <;> omega, hbounded,
      fun more v hmore hv hleast hmost => ?_⟩
    obtain rfl : 1 = more := Nat.succ.inj hmore
    rw [Nat.pow_one] at hv hleast hmost
    exact exists_encodeChar_three (by omega) (by omega) hv hleast hmost
  split at h
  · obtain rfl := Option.some.inj (Prod.mk.inj h).2
    refine ⟨Nat.succ_pos 2, by dsimp only; split <;> split <;> omega, hbounded,
      fun more v hmore hv hleast hmost => ?_⟩
    obtain rfl : 2 = more := Nat.succ.inj hmore
    exact exists_encodeChar_four (by omega) (by omega) hv hleast hmost
  · cases h

namespace Pending

/-- The octet after which the number of a pending sequence goes on. -/
theorem Follows.next_eq (h : p.Follows octets) (hb : p.accepts b = true) {more v : Nat}
    (hv : v / 64 ^ more = p.value * 64 + (b.toNat - 0x80)) :
    v / 64 ^ more / 64 = p.value ∧ v / 64 ^ more % 64 + 0x80 = b.toNat := by
  have hbounds := accepts_iff.1 hb
  obtain ⟨hleast, hmost⟩ := h.bounded
  omega

/-- An octet that is taken spells on. -/
theorem Follows.spells_next (h : p.Follows octets) (hb : p.accepts b = true) {more v : Nat}
    (hmore : p.more = more + 1) (hv : v / 64 ^ more = p.value * 64 + (b.toNat - 0x80)) :
    ∃ c, String.utf8EncodeChar c = octets ++ [b] ++ trails more v := by
  obtain ⟨hvalue, hnext⟩ := h.next_eq hb hv
  have hbounds := accepts_iff.1 hb
  obtain ⟨c, hc⟩ := h.spells more v hmore hvalue (by omega) (by omega)
  refine ⟨c, ?_⟩
  rw [hc, hmore, trails, hnext, UInt8.ofNat_toNat, List.append_assoc, List.singleton_append]

theorem Follows.extend (h : p.Follows octets) (hb : p.accepts b = true)
    (hq : p.extend b = ([], some q)) : q.Follows (octets ++ [b]) := by
  rw [Pending.extend] at hq
  split at hq
  · cases hq
  · next hmore =>
    obtain rfl := Option.some.inj (Prod.mk.inj hq).2
    obtain ⟨more, hmore⟩ : ∃ more, p.more = more + 1 + 1 := ⟨p.more - 2, by omega⟩
    refine ⟨by simp only; omega, by simp, by simp [Bounded], fun m v hm hv _ _ => ?_⟩
    simp only [hmore, Nat.add_sub_cancel] at hm hv ⊢
    obtain rfl : more = m := by omega
    rw [Nat.div_div_eq_div_mul, ← Nat.pow_succ] at hv
    exact h.spells_next hb hmore hv

/-- With an octet that is taken, the sequence begins a character or is one. -/
theorem Follows.of_accepts (h : p.Follows octets) (hb : p.accepts b = true) :
    IsBeginning (octets ++ [b]) ∨ ∃ c, String.utf8EncodeChar c = octets ++ [b] := by
  obtain ⟨more, hmore⟩ := Nat.exists_eq_succ_of_ne_zero h.more_pos.ne'
  obtain ⟨c, hc⟩ := h.spells_next hb hmore
    (Nat.mul_div_cancel (p.value * 64 + (b.toNat - 0x80)) (Nat.pow_pos (by decide)))
  cases more with
  | zero => exact .inr ⟨c, by rw [hc, trails, List.append_nil]⟩
  | succ more => exact .inl ⟨c, _, by simp [trails], hc⟩

theorem Follows.isBeginning (h : p.Follows octets) : IsBeginning octets := by
  have hlt : p.least < 256 := by
    have hle := h.least_le
    have hmost := h.bounded.2
    omega
  have hb : p.accepts (UInt8.ofNat p.least) = true :=
    accepts_iff.2 (by rw [toNat_ofNat_of_lt hlt]; exact ⟨Nat.le_refl _, h.least_le⟩)
  rcases h.of_accepts hb with ⟨c, rest, -, hc⟩ | ⟨c, hc⟩
  · rw [List.append_assoc] at hc
    exact ⟨c, _, List.cons_ne_nil _ rest, hc⟩
  · exact ⟨c, _, List.cons_ne_nil _ _, hc⟩

end Pending

/-! ## What is read -/

theorem bounded_feed (octets : List UInt8) {s : State} (hs : ∀ p ∈ s, p.Bounded) :
    ∀ p ∈ (feed s octets).2, p.Bounded := by
  induction octets generalizing s with
  | nil => exact hs
  | cons b rest ih => exact ih (bounded_step hs b)

theorem entries_feed_pos (hne : octets ≠ []) : 0 < entries (feed none octets) := by
  obtain ⟨b, rest, rfl⟩ := List.exists_cons_of_ne_nil hne
  have hfirst := entries_start b
  have hrest := leads_le_entries (bounded_start b) rest
  rw [feed_cons, step_none]
  simp only [entries, List.length_append] at hfirst hrest ⊢
  omega

/-- A sequence that is pending when all octets are read follows them. -/
theorem follows_of_feed (h : feed none octets = ([], some p)) : p.Follows octets := by
  induction octets using List.reverseRecOn generalizing p with
  | nil => cases h
  | append_singleton xs b ih =>
    rw [feed_append, Prod.mk.injEq, List.append_eq_nil_iff] at h
    obtain ⟨⟨hxs, hnow⟩, hp⟩ := h
    cases hs : (feed none xs).2 with
    | none =>
      -- Octets that leave nothing pending have an entry, so there are none before the last.
      have hnil : xs = [] := by
        by_contra hne
        have hpos := entries_feed_pos hne
        rw [entries, hxs, hs] at hpos
        exact absurd hpos (by decide)
      subst hnil
      refine follows_start ?_
      rw [hs, feed_cons, step_none, List.append_eq_nil_iff] at hnow
      rw [hs, feed_cons, step_none] at hp
      exact Prod.ext hnow.1 hp
    | some q =>
      have hq := ih (Prod.ext hxs hs)
      rw [hs, feed_cons, List.append_eq_nil_iff] at hnow
      rw [hs, feed_cons] at hp
      have hstep : step (some q) b = ([], some p) := Prod.ext hnow.1 hp
      rw [step] at hstep
      split at hstep
      · next haccepts => exact hq.extend haccepts hstep
      · cases hstep

/-- After octets with which a character begins, the reader waits for more. -/
theorem exists_feed_of_isBeginning (h : IsBeginning octets) (hne : octets ≠ []) :
    ∃ p, feed none octets = ([], some p) := by
  obtain ⟨c, rest, hrest, hc⟩ := h
  have hfeed := feed_encodeChar c
  rw [hc, feed_append, Prod.mk.injEq] at hfeed
  obtain ⟨hentry, hend⟩ := hfeed
  have hlength := congrArg List.length hentry
  rw [List.length_append, List.length_singleton] at hlength
  cases hs : (feed none octets).2 with
  | none =>
    -- The rest would have an entry of its own.
    have hfirst := entries_feed_pos hne
    have hlast := entries_feed_pos hrest
    rw [hs] at hlength hend
    rw [entries, hs] at hfirst
    rw [entries, hend] at hlast
    simp only [finish, List.length_nil] at hfirst hlast
    omega
  | some p =>
    have hbounded : ∀ q ∈ (some p : State), q.Bounded := by
      rw [← hs]
      exact bounded_feed octets (by simp)
    have hlast := leads_le_entries hbounded rest
    rw [hs] at hlength hend
    rw [entries, hend] at hlast
    simp only [finish, List.length_nil, List.length_singleton] at hlast
    exact ⟨p, Prod.ext (List.eq_nil_of_length_eq_zero (by omega)) hs⟩

/-- An octet is a character, or of none, or the beginning of one. -/
theorem start_cases (b : UInt8) :
    (∃ c, start b = ([some c], none) ∧ String.utf8EncodeChar c = [b]) ∨
      start b = ([none], none) ∨ ∃ p, start b = ([], some p) := by
  by_cases hlt : b.toNat < 0x80
  · obtain ⟨c, hc⟩ := exists_toNat_eq (v := b.toNat) (by omega)
    have hcode : String.utf8EncodeChar c = [b] := by
      rw [utf8EncodeChar_of_lt (hc.trans_lt hlt)]
      exact congrArg (fun a => [a]) ((congrArg UInt8.ofNat hc).trans UInt8.ofNat_toNat)
    refine .inl ⟨c, ?_, hcode⟩
    have hfeed := feed_encodeChar c
    rw [hcode, feed_cons, step_none] at hfeed
    simpa [feed, Prod.ext_iff] using hfeed
  · simp only [start, if_neg hlt]
    repeat' split
    all_goals simp

/-- What does not go on with a pending sequence closes it. -/
theorem feed_of_refused (h : ∀ b ∈ rest.head?, p.accepts b = false) :
    (feed (some p) rest).1 ++ finish (feed (some p) rest).2 = none :: scan rest := by
  cases rest with
  | nil => rfl
  | cons b more =>
    have hstep : step (some p) b = (none :: (start b).1, (start b).2) := by
      rw [step, h b rfl]
      rfl
    rw [feed_cons, hstep, scan, feed_cons, step_none]
    rfl

theorem scan_of_feed {s : State} (h : feed none octets = ([], s)) :
    scan (octets ++ rest) = (feed s rest).1 ++ finish (feed s rest).2 := by
  rw [scan, feed_append, h, List.nil_append]

/-- An ill-formed piece has one entry, whatever stands behind it. -/
theorem scan_of_isIllFormed (h : IsIllFormed part rest) :
    scan (part ++ rest) = none :: scan rest := by
  by_cases hbegins : IsBeginning part
  · obtain ⟨p, hp⟩ := exists_feed_of_isBeginning hbegins h.ne_nil
    rw [scan_of_feed hp]
    -- With an octet more the part would be a character, or a longer beginning of one.
    refine feed_of_refused fun b hb => Bool.eq_false_iff.2 fun haccepts => ?_
    obtain ⟨more, rfl⟩ := List.head?_eq_some_iff.1 hb
    have hprefix : part ++ [b] <+: part ++ b :: more :=
      (List.prefix_append_right_inj part).2 ⟨more, rfl⟩
    rcases (follows_of_feed hp).of_accepts haccepts with hlonger | ⟨c, hc⟩
    · have hle := h.longest _ hprefix hlonger
      rw [List.length_append, List.length_singleton] at hle
      omega
    · exact h.no_character c (hc ▸ hprefix)
  · obtain ⟨b, rfl⟩ := List.length_eq_one_iff.1 (h.begins.resolve_left hbegins)
    rcases start_cases b with ⟨c, -, hc⟩ | hnone | ⟨p, hp⟩
    · exact absurd ⟨rest, by rw [hc]⟩ (h.no_character c)
    · rw [List.singleton_append, scan, feed_cons, step_none, hnone]
      rfl
    · exact absurd (follows_start hp).isBeginning hbegins

theorem scan_encodeChar_append (c : Char) (rest : List UInt8) :
    scan (String.utf8EncodeChar c ++ rest) = some c :: scan rest := by
  rw [scan_append _ _ (by rw [feed_encodeChar]), scan, feed_encodeChar]
  rfl

/-- Octets are read piece by piece. -/
theorem scan_of_divides {pieces : List Piece} (h : Divides octets pieces) :
    scan octets = pieces.map Piece.character? := by
  induction h with
  | nil => rfl
  | character c _ ih => rw [scan_encodeChar_append, ih, List.map_cons]; rfl
  | illFormed hpart _ ih => rw [scan_of_isIllFormed hpart, ih, List.map_cons]; rfl

theorem decodeLossy_of_divides {pieces : List Piece} (h : Divides octets pieces) :
    decodeLossy octets = String.ofList (pieces.map Piece.read) := by
  rw [decodeLossy, scan_of_divides h, List.map_map]
  rfl

/-! ## The division -/

theorem isBeginning_nil : IsBeginning [] :=
  ⟨default, _, encodeChar_ne_nil default, rfl⟩

/-- Of the octets at the beginning that have a property, some are the most. -/
theorem exists_longest {P : List UInt8 → Prop} (h : P []) (octets : List UInt8) :
    ∃ part rest, part ++ rest = octets ∧ P part ∧
      ∀ more, more <+: octets → P more → more.length ≤ part.length := by
  induction octets using List.reverseRecOn with
  | nil => exact ⟨[], [], rfl, h, fun more hmore _ => hmore.length_le⟩
  | append_singleton xs b ih =>
    by_cases hall : P (xs ++ [b])
    · exact ⟨xs ++ [b], [], List.append_nil _, hall, fun more hmore _ => hmore.length_le⟩
    · obtain ⟨part, rest, rfl, hpart, hlongest⟩ := ih
      refine ⟨part, rest ++ [b], (List.append_assoc ..).symm, hpart, fun more hmore hP => ?_⟩
      rcases List.prefix_concat_iff.1 hmore with rfl | hmore
      · exact absurd hP hall
      · exact hlongest more hmore hP

theorem exists_isIllFormed (hne : octets ≠ [])
    (hno : ∀ c, ¬String.utf8EncodeChar c <+: octets) :
    ∃ part rest, part ++ rest = octets ∧ IsIllFormed part rest := by
  obtain ⟨part, rest, rfl, hpart, hlongest⟩ := exists_longest isBeginning_nil octets
  cases part with
  | nil =>
    obtain ⟨b, more, rfl⟩ := List.exists_cons_of_ne_nil hne
    exact ⟨[b], more, rfl, List.cons_ne_nil b [], hno, .inr rfl,
      fun longer hlonger hP => (hlongest longer hlonger hP).trans (Nat.zero_le 1)⟩
  | cons b part =>
    exact ⟨b :: part, rest, rfl, List.cons_ne_nil b part, hno, .inl hpart, hlongest⟩

/-- Any octets divide into pieces. -/
theorem exists_divides (octets : List UInt8) : ∃ pieces, Divides octets pieces := by
  induction hlength : octets.length using Nat.strong_induction_on generalizing octets with
  | _ length ih =>
    by_cases hne : octets = []
    · exact ⟨[], hne ▸ .nil⟩
    by_cases hchar : ∃ c, String.utf8EncodeChar c <+: octets
    · obtain ⟨c, rest, rfl⟩ := hchar
      have hpos := List.length_pos_of_ne_nil (encodeChar_ne_nil c)
      rw [List.length_append] at hlength
      obtain ⟨pieces, hpieces⟩ := ih rest.length (by omega) rest rfl
      exact ⟨_, .character c hpieces⟩
    · obtain ⟨part, rest, rfl, hpart⟩ := exists_isIllFormed hne (not_exists.1 hchar)
      have hpos := List.length_pos_of_ne_nil hpart.ne_nil
      rw [List.length_append] at hlength
      obtain ⟨pieces, hpieces⟩ := ih rest.length (by omega) rest rfl
      exact ⟨_, .illFormed hpart hpieces⟩

/-- A character at the beginning is the only one there. -/
theorem encodeChar_append_inj {c d : Char} {xs ys : List UInt8}
    (h : String.utf8EncodeChar c ++ xs = String.utf8EncodeChar d ++ ys) : c = d ∧ xs = ys := by
  have hscan := congrArg scan h
  rw [scan_encodeChar_append, scan_encodeChar_append] at hscan
  obtain rfl : c = d := Option.some.inj (List.cons.inj hscan).1
  exact ⟨rfl, List.append_cancel_left h⟩

theorem IsIllFormed.length_le {part' rest' : List UInt8} (h : IsIllFormed part rest)
    (h' : IsIllFormed part' rest') (heq : part ++ rest = part' ++ rest') :
    part.length ≤ part'.length := by
  rcases h.begins with hbegins | hone
  · exact h'.longest part ⟨rest, heq⟩ hbegins
  · rw [hone]
    exact List.length_pos_of_ne_nil h'.ne_nil

theorem IsIllFormed.append_inj {part' rest' : List UInt8} (h : IsIllFormed part rest)
    (h' : IsIllFormed part' rest') (heq : part ++ rest = part' ++ rest') :
    part = part' ∧ rest = rest' :=
  List.append_inj heq ((h.length_le h' heq).antisymm (h'.length_le h heq.symm))

/-- Octets divide in one way only. -/
theorem Divides.unique {pieces others : List Piece} (h : Divides octets pieces)
    (h' : Divides octets others) : others = pieces := by
  induction h generalizing others with
  | nil =>
    generalize hnil : ([] : List UInt8) = octets at h'
    cases h' with
    | nil => rfl
    | character c _ => exact absurd (List.append_eq_nil_iff.1 hnil.symm).1 (encodeChar_ne_nil c)
    | illFormed hpart _ => exact absurd (List.append_eq_nil_iff.1 hnil.symm).1 hpart.ne_nil
  | @character rest pieces c _ ih =>
    generalize heq : String.utf8EncodeChar c ++ rest = octets at h'
    cases h' with
    | nil => exact absurd (List.append_eq_nil_iff.1 heq).1 (encodeChar_ne_nil c)
    | character d hrest =>
      obtain ⟨rfl, rfl⟩ := encodeChar_append_inj heq
      rw [ih hrest]
    | illFormed hpart _ => exact absurd ⟨rest, heq⟩ (hpart.no_character c)
  | @illFormed part rest pieces hpart _ ih =>
    generalize heq : part ++ rest = octets at h'
    cases h' with
    | nil => exact absurd (List.append_eq_nil_iff.1 heq).1 hpart.ne_nil
    | character d _ => exact absurd ⟨_, heq.symm⟩ (hpart.no_character d)
    | illFormed hpart' hrest =>
      obtain ⟨rfl, rfl⟩ := hpart.append_inj hpart' heq
      rw [ih hrest]

/-! ## Cuts before a character -/

/-- Octets that do not begin with one that follows others close what is pending. -/
theorem scan_append_of_beginsWhole (xs : List UInt8) {ys : List UInt8} (h : BeginsWhole ys) :
    scan (xs ++ ys) = scan xs ++ scan ys := by
  cases hs : (feed none xs).2 with
  | none => exact scan_append xs ys hs
  | some p =>
    have hrefused : ∀ b ∈ ys.head?, p.accepts b = false := fun b hb =>
      Bool.eq_false_iff.2 fun haccepts => by
        have hbounded : p.Bounded := bounded_feed xs (s := none) (by simp) p (by rw [hs]; rfl)
        have htrail := Pending.isTrail_of_accepts hbounded haccepts
        rw [h b hb] at htrail
        cases htrail
    have hclosed := feed_of_refused hrefused
    have hxs : scan xs = (feed none xs).1 ++ [none] := by rw [scan, hs]; rfl
    rw [hxs, scan, feed_append, hs, List.append_assoc, hclosed, List.append_assoc]
    rfl

theorem decodeLossy_append_of_beginsWhole (xs : List UInt8) {ys : List UInt8}
    (h : BeginsWhole ys) : decodeLossy (xs ++ ys) = decodeLossy xs ++ decodeLossy ys := by
  rw [decodeLossy, scan_append_of_beginsWhole xs h, List.map_append, String.ofList_append]
  rfl

/-- A text is read as it is, whatever stands behind it. -/
theorem decodeLossy_encode_append (text : String) (octets : List UInt8) :
    decodeLossy (encode text ++ octets) = text ++ decodeLossy octets := by
  have hnone : (feed none (encode text)).2 = none := by rw [encode, feed_encode]
  rw [decodeLossy, scan_append _ _ hnone, List.map_append, String.ofList_append]
  exact congrArg (· ++ decodeLossy octets) (decodeLossy_encode text)

theorem beginsWhole_encodeChar (c : Char) (rest : List UInt8) :
    BeginsWhole (String.utf8EncodeChar c ++ rest) := by
  obtain ⟨b, trails, heq, hb, -⟩ := exists_utf8EncodeChar c
  rw [heq]
  intro a ha
  obtain rfl := Option.some.inj ha
  exact hb

/-- What is read before and behind a character does not depend on it. -/
theorem decodeLossy_around (before : List UInt8) (c : Char) (octets : List UInt8) :
    decodeLossy (before ++ String.utf8EncodeChar c ++ octets) =
      decodeLossy before ++ String.singleton c ++ decodeLossy octets := by
  have hcode : encode (String.singleton c) = String.utf8EncodeChar c := by simp [encode]
  rw [List.append_assoc, decodeLossy_append_of_beginsWhole before (beginsWhole_encodeChar c octets),
    ← hcode, decodeLossy_encode_append, String.append_assoc]

end RemoteSession.Text.Utf8
