import RemoteSession.Proofs.Url.Forms

/-!
# Segments as they are read

Who reads a path undoes the escapes of each segment and reads the octets as text
(`Url.segmentText?`). Where the set of escaped characters has `%` in it, the octets of the
text come back whatever they are (`Percent.decode_encode`). Where it has not, an escape
that the text itself spells is undone with the others (`Percent.decode_encode_of_not`).

Segments are put on a path one after another and a dot segment takes one away, so that what
ends a path stands either where it stood or among the new segments
(`exists_pushSegments`).
-/

namespace RemoteSession.Url

namespace Percent

variable {escaped : Char → Bool}

/-- Octets of which none begins an escape stand for themselves. -/
theorem decode_append {octets : List UInt8} (h : ∀ b ∈ octets, b ≠ 0x25) (rest : List UInt8) :
    decode (octets ++ rest) = octets ++ decode rest := by
  induction octets with
  | nil => rfl
  | cons b more ih =>
    rw [List.cons_append, decode_cons (h b List.mem_cons_self),
      ih fun c hc => h c (List.mem_cons_of_mem b hc), List.cons_append]

/-- No octet of a character but `%` begins an escape. -/
theorem ne_of_mem_utf8EncodeChar {c : Char} (hc : c ≠ '%') {b : UInt8}
    (hb : b ∈ String.utf8EncodeChar c) : b ≠ 0x25 := by
  rintro rfl
  rcases Nat.lt_or_ge c.toNat 0x80 with hlt | hge
  · rw [Text.Utf8.utf8EncodeChar_of_lt hlt, List.mem_singleton] at hb
    have hnat := congrArg UInt8.toNat hb
    rw [Text.Utf8.toNat_ofNat_of_lt (by omega)] at hnat
    exact hc (Char.toNat_inj.1 hnat.symm)
  · exact absurd (Text.Utf8.le_of_mem_utf8EncodeChar hge hb) (by decide)

theorem octets_escape (b : UInt8) :
    (escape b).flatMap String.utf8EncodeChar = formOctets (escape b) := by
  have hdigit : ∀ n < 16, Text.upperHex n ≠ '+' := by decide
  have hhigh := hdigit (b.toNat / 16) (by have := b.toNat_lt; omega)
  have hlow := hdigit (b.toNat % 16) (Nat.mod_lt _ (by decide))
  simp [escape, formOctets, hhigh, hlow]

theorem octets_escapes (octets : List UInt8) :
    (octets.flatMap escape).flatMap String.utf8EncodeChar =
      formOctets (octets.flatMap escape) := by
  induction octets with
  | nil => rfl
  | cons b more ih =>
    rw [List.flatMap_cons, List.flatMap_append, octets_escape, ih, formOctets_append]

/-- A character is read as its octets, unless it is a `%` that was left as it is. -/
theorem decode_encodeChar {c : Char} (h : c = '%' → escaped c = true) (rest : List UInt8) :
    decode ((encodeChar escaped c).flatMap String.utf8EncodeChar ++ rest) =
      String.utf8EncodeChar c ++ decode rest := by
  unfold encodeChar
  split
  · next hkept =>
    rw [Bool.and_eq_true, Bool.not_eq_true'] at hkept
    have hne : c ≠ '%' := fun heq => Bool.noConfusion (hkept.2.symm.trans (h heq))
    rw [List.flatMap_singleton]
    exact decode_append (fun b => ne_of_mem_utf8EncodeChar hne) rest
  · rw [octets_escapes]
    exact decode_escapes _ rest

/-- Any text comes back from its escapes if `%` is escaped too. -/
theorem decode_encode (h : escaped '%' = true) (cs : List Char) :
    decode ((encode escaped cs).flatMap String.utf8EncodeChar) =
      cs.flatMap String.utf8EncodeChar := by
  induction cs with
  | nil => rfl
  | cons c rest ih =>
    rw [encode, List.flatMap_cons, List.flatMap_append,
      decode_encodeChar fun heq => heq ▸ h]
    exact congrArg _ ih

/-- Nothing is written otherwise where nothing is to be escaped. -/
theorem encode_eq_self {cs : List Char} (h : ∀ c ∈ cs, c.toNat < 0x80 ∧ escaped c = false) :
    encode escaped cs = cs := by
  induction cs with
  | nil => rfl
  | cons c rest ih =>
    have hc := h c List.mem_cons_self
    have hrest := ih fun d hd => h d (List.mem_cons_of_mem c hd)
    rw [encode] at hrest ⊢
    rw [List.flatMap_cons, hrest, encodeChar, if_pos (by simp [hc]), List.singleton_append]

/-! ## Where `%` stays -/

/-- A digit of an escape. -/
def isHex (b : UInt8) : Bool :=
  (Text.hexValue? (Char.ofNat b.toNat)).isSome

/-- Whether the octets begin with the two digits of an escape. -/
def leadsHex : List UInt8 → Bool
  | high :: low :: _ => isHex high && isHex low
  | _ => false

/-- A `%` without two digits after it stands for itself. -/
theorem decode_percent {octets : List UInt8} (h : leadsHex octets = false) :
    decode (0x25 :: octets) = 0x25 :: decode octets := by
  rcases octets with _ | ⟨high, _ | ⟨low, rest⟩⟩
  · rfl
  · rfl
  · rw [decode, if_pos rfl]
    split
    · next hhigh hlow =>
      rw [leadsHex, isHex, isHex, hhigh, hlow] at h
      cases h
    · rfl

/-- A way to write characters in which `%` stays as it is and all else is read as its
octets. -/
structure Spells (write : Char → List UInt8) : Prop where
  percent : write '%' = [0x25]
  other : ∀ c ≠ '%', ∀ rest, decode (write c ++ rest) = String.utf8EncodeChar c ++ decode rest
  hex : ∀ c, (Text.hexValue? c).isSome → write c = [UInt8.ofNat c.toNat]
  leads : ∀ c, Text.hexValue? c = none →
    ∃ lead trails, write c = lead :: trails ∧ isHex lead = false

theorem toNat_lt_of_hexValue? {c : Char} (h : (Text.hexValue? c).isSome) : c.toNat < 0x80 := by
  have hle : ∀ d : Char, c ≤ d → c.toNat ≤ d.toNat := fun d hd => hd
  unfold Text.hexValue? at h
  split at h
  · next hc => exact Nat.lt_of_le_of_lt (hle '9' hc.2) (by decide)
  split at h
  · next hc => exact Nat.lt_of_le_of_lt (hle 'f' hc.2) (by decide)
  split at h
  · next hc => exact Nat.lt_of_le_of_lt (hle 'F' hc.2) (by decide)
  · cases h

theorem isHex_ofNat {c : Char} (h : c.toNat < 0x80) :
    isHex (UInt8.ofNat c.toNat) = (Text.hexValue? c).isSome := by
  rw [isHex, Text.Utf8.toNat_ofNat_of_lt (by omega), Char.ofNat_toNat]

theorem isHex_of_le {b : UInt8} (h : 0x80 ≤ b.toNat) : isHex b = false := by
  have hvalid : b.toNat.isValidChar := .inl (Nat.lt_trans b.toNat_lt (by decide))
  have hchar : (Char.ofNat b.toNat).toNat = b.toNat := by
    rw [Char.ofNat, dif_pos hvalid]
    rfl
  refine Bool.eq_false_iff.2 fun hhex => ?_
  have hlt := toNat_lt_of_hexValue? hhex
  omega

theorem isHex_of_mem_utf8EncodeChar {c : Char} (h : Text.hexValue? c = none) {b : UInt8}
    (hb : b ∈ String.utf8EncodeChar c) : isHex b = false := by
  rcases Nat.lt_or_ge c.toNat 0x80 with hlt | hge
  · rw [Text.Utf8.utf8EncodeChar_of_lt hlt, List.mem_singleton] at hb
    rw [hb, isHex_ofNat hlt, h, Option.isSome_none]
  · exact isHex_of_le (Text.Utf8.le_of_mem_utf8EncodeChar hge hb)

theorem exists_utf8EncodeChar_of_hexValue? {c : Char} (h : Text.hexValue? c = none) :
    ∃ lead trails, String.utf8EncodeChar c = lead :: trails ∧ isHex lead = false := by
  cases hc : String.utf8EncodeChar c with
  | nil => exact absurd hc String.utf8EncodeChar_ne_nil
  | cons lead trails =>
    exact ⟨lead, trails, rfl, isHex_of_mem_utf8EncodeChar h (hc ▸ List.mem_cons_self)⟩

theorem spells_utf8EncodeChar : Spells String.utf8EncodeChar where
  percent := rfl
  other _ hc rest := decode_append (fun _ => ne_of_mem_utf8EncodeChar hc) rest
  hex _ hc := Text.Utf8.utf8EncodeChar_of_lt (toNat_lt_of_hexValue? hc)
  leads _ := exists_utf8EncodeChar_of_hexValue?

theorem spells_encodeChar (hpercent : escaped '%' = false)
    (hhex : ∀ c, (Text.hexValue? c).isSome → escaped c = false) :
    Spells fun c => (encodeChar escaped c).flatMap String.utf8EncodeChar where
  percent := by simp [encodeChar, hpercent, Text.Utf8.utf8EncodeChar_of_lt]
  other c hc rest := decode_encodeChar (fun heq => absurd heq hc) rest
  hex c hc := by
    have hlt := toNat_lt_of_hexValue? hc
    simp [encodeChar, hhex c hc, hlt, Text.Utf8.utf8EncodeChar_of_lt hlt]
  leads c hc := by
    unfold encodeChar
    split
    · rw [List.flatMap_singleton]
      exact exists_utf8EncodeChar_of_hexValue? hc
    · cases hoctets : String.utf8EncodeChar c with
      | nil => exact absurd hoctets String.utf8EncodeChar_ne_nil
      | cons lead trails => exact ⟨0x25, _, rfl, rfl⟩

variable {write write' : Char → List UInt8}

/-- What follows a `%` begins with two digits in one way of writing as in any other. -/
theorem Spells.leadsHex_eq (h : Spells write) (cs : List Char) :
    leadsHex (cs.flatMap write) = match cs with
      | d :: e :: _ => (Text.hexValue? d).isSome && (Text.hexValue? e).isSome
      | _ => false := by
  have single : ∀ c, (Text.hexValue? c).isSome →
      isHex (UInt8.ofNat c.toNat) = true := fun c hc => by
    rw [isHex_ofNat (toNat_lt_of_hexValue? hc), hc]
  have first : ∀ d rest, Text.hexValue? d = none → leadsHex (write d ++ rest) = false := by
    intro d rest hd
    obtain ⟨lead, trails, hwrite, hlead⟩ := h.leads d hd
    rw [hwrite, List.cons_append]
    cases trails ++ rest with
    | nil => rfl
    | cons b more => rw [leadsHex, hlead, Bool.false_and]
  rcases cs with _ | ⟨d, cs⟩
  · rfl
  rw [List.flatMap_cons]
  cases hd : Text.hexValue? d with
  | none =>
    rw [first d _ hd]
    rcases cs with _ | ⟨e, cs⟩ <;> simp [hd]
  | some n =>
    have hsome : (Text.hexValue? d).isSome := by rw [hd, Option.isSome_some]
    rw [h.hex d hsome]
    rcases cs with _ | ⟨e, cs⟩
    · rfl
    cases he : Text.hexValue? e with
    | none =>
      obtain ⟨lead, trails, hwrite, hlead⟩ := h.leads e he
      simp [leadsHex, hwrite, hlead, he]
    | some m =>
      have hsome' : (Text.hexValue? e).isSome := by rw [he, Option.isSome_some]
      simp [leadsHex, h.hex e hsome', single d hsome, single e hsome', hd, he]

/-- A `%` and two digits are read as one octet. -/
theorem decode_of_hex {d e : Char} {n m : Nat} (hd : Text.hexValue? d = some n)
    (he : Text.hexValue? e = some m) (rest : List UInt8) :
    decode (0x25 :: UInt8.ofNat d.toNat :: UInt8.ofNat e.toNat :: rest) =
      UInt8.ofNat (n * 16 + m) :: decode rest := by
  have hread : ∀ {x : Char} {k : Nat}, Text.hexValue? x = some k →
      Text.hexValue? (Char.ofNat (UInt8.ofNat x.toNat).toNat) = some k := fun {x k} hx => by
    have hlt : x.toNat < 0x80 := toNat_lt_of_hexValue? (by rw [hx, Option.isSome_some])
    rw [Text.Utf8.toNat_ofNat_of_lt (by omega), Char.ofNat_toNat, hx]
  rw [decode, if_pos rfl]
  simp only [hread hd, hread he]

/-- Two such ways of writing are read alike. -/
theorem Spells.decode_eq (h : Spells write) (h' : Spells write') :
    ∀ cs : List Char, decode (cs.flatMap write) = decode (cs.flatMap write')
  | [] => rfl
  | c :: rest => by
    have ih := Spells.decode_eq h h' rest
    rw [List.flatMap_cons, List.flatMap_cons]
    by_cases hc : c = '%'
    · subst hc
      rw [h.percent, h'.percent, List.singleton_append, List.singleton_append]
      cases hleads : leadsHex (rest.flatMap write) with
      | false =>
        have hleads' : leadsHex (rest.flatMap write') = false := by
          rw [h'.leadsHex_eq, ← h.leadsHex_eq, hleads]
        rw [decode_percent hleads, decode_percent hleads', ih]
      | true =>
        rw [h.leadsHex_eq] at hleads
        match rest, hleads with
        | d :: e :: more, hleads =>
          rw [Bool.and_eq_true] at hleads
          -- The two digits are used up, so that the induction goes on behind them.
          have ihmore := Spells.decode_eq h h' more
          rw [List.flatMap_cons, List.flatMap_cons, List.flatMap_cons, List.flatMap_cons,
            h.hex d hleads.1, h.hex e hleads.2, h'.hex d hleads.1, h'.hex e hleads.2]
          simp only [List.singleton_append]
          obtain ⟨n, hn⟩ := Option.isSome_iff_exists.1 hleads.1
          obtain ⟨m, hm⟩ := Option.isSome_iff_exists.1 hleads.2
          rw [decode_of_hex hn hm, decode_of_hex hn hm, ihmore]
    · rw [h.other c hc, h'.other c hc, ih]

/-- Where `%` is not escaped, a text is read as if none of it had been. -/
theorem decode_encode_of_not (hpercent : escaped '%' = false)
    (hhex : ∀ c, (Text.hexValue? c).isSome → escaped c = false) (cs : List Char) :
    decode ((encode escaped cs).flatMap String.utf8EncodeChar) =
      decode (cs.flatMap String.utf8EncodeChar) := by
  rw [encode, List.flatMap_assoc]
  exact (spells_encodeChar hpercent hhex).decode_eq spells_utf8EncodeChar cs

theorem length_decode_le : ∀ octets : List UInt8, (decode octets).length ≤ octets.length
  | [] => Nat.le_refl _
  | [_] => Nat.le_refl _
  | [_, _] => Nat.le_refl _
  | a :: high :: low :: rest => by
    have hshort := length_decode_le rest
    have hlong := length_decode_le (high :: low :: rest)
    rw [decode]
    simp only [List.length_cons] at hlong ⊢
    split
    · split <;> simp only [List.length_cons] <;> omega
    · simp only [List.length_cons]
      omega

end Percent

/-! ## What segments say -/

/-- Whether a segment stands for a text : with the escapes undone, its octets are those of
the text. -/
def Says (segment text : String) : Prop :=
  Percent.decode (Text.Utf8.encode segment) = Text.Utf8.encode text

instance (segment text : String) : Decidable (Says segment text) :=
  inferInstanceAs (Decidable (_ = _))

/-- A segment stands for one text only. -/
theorem Says.unique {segment text text' : String} (h : Says segment text)
    (h' : Says segment text') : text = text' :=
  Text.Utf8.encode_injective (h.symm.trans h')

/-- A segment that is added whole stands for its text. -/
theorem says_encode_inSegment {cs : List Char} :
    Says (String.ofList (Percent.encode Percent.inSegment cs)) (String.ofList cs) := by
  rw [Says, Text.Utf8.encode, Text.Utf8.encode, String.toList_ofList, String.toList_ofList]
  exact Percent.decode_encode rfl cs

theorem not_inPath_of_hexValue? {c : Char} (h : (Text.hexValue? c).isSome) :
    Percent.inPath c = false := by
  have hall : ∀ c : Char, c.toNat < 0x80 → (Text.hexValue? c).isSome = true →
      Percent.inPath c = false := Text.forall_of_toNat_lt (by decide)
  exact hall c (Percent.toNat_lt_of_hexValue? h) h

/-- A segment that is read out of a path stands for a text exactly when the text is what
the part of the path says by itself. -/
theorem says_encode_inPath {cs : List Char} {text : String} :
    Says (String.ofList (Percent.encode Percent.inPath cs)) text ↔
      Says (String.ofList cs) text := by
  rw [Says, Says, Text.Utf8.encode, String.toList_ofList,
    Percent.decode_encode_of_not rfl fun _ => not_inPath_of_hexValue?]
  simp [Text.Utf8.encode]

/-! ## Dot segments -/

/-- Whether a segment names a level instead of being one. -/
def isDot (segment : String) : Bool :=
  isSingleDot segment || isDoubleDot segment

/-- What stands for a text that is no dot segment is none either, however it is escaped. -/
theorem Says.isDot_eq_false {segment text : String} (h : Says segment text) (hone : text ≠ ".")
    (htwo : text ≠ "..") : isDot segment = false := by
  have single : ∀ s ∈ [".", "%2e", "%2E"], Says s "." := by decide
  have double : ∀ s ∈ ["..", "%2e%2e", "%2e%2E", "%2E%2e", "%2E%2E", "%2e.", "%2E.", ".%2e",
      ".%2E"], Says s ".." := by decide
  refine Bool.eq_false_iff.2 fun hdot => ?_
  rcases Bool.or_eq_true_iff.1 hdot with hdot | hdot
  · exact hone (h.unique (single segment (List.contains_iff_mem.1 hdot)))
  · exact htwo (h.unique (double segment (List.contains_iff_mem.1 hdot)))

variable {path names rest : List String} {segment last : String}

theorem pushSegments_cons (h : isDot segment = false) :
    pushSegments path (segment :: rest) = pushSegments (path ++ [segment]) rest := by
  rw [isDot, Bool.or_eq_false_iff] at h
  cases rest <;> simp [pushSegments, h.1, h.2]

/-- Segments that are no dot segments are put on the path as they are. -/
theorem pushSegments_append (h : ∀ s ∈ names, isDot s = false) :
    pushSegments path (names ++ rest) = pushSegments (path ++ names) rest := by
  induction names generalizing path with
  | nil => rw [List.nil_append, List.append_nil]
  | cons s names ih =>
    rw [List.cons_append, pushSegments_cons (h s List.mem_cons_self),
      ih fun t ht => h t (List.mem_cons_of_mem s ht), List.append_assoc, List.singleton_append]

/-- Whatever levels the new segments go up, what ends the path before the last one stood
there before, at its place, or is one of the new ones. -/
theorem exists_pushSegments (path names : List String) (hlast : isDot last = false) :
    ∃ k kept, pushSegments path (names ++ [last]) = path.take k ++ kept ++ [last] ∧
      ∀ s ∈ kept, s ∈ names ∧ isDot s = false := by
  induction names generalizing path with
  | nil =>
    refine ⟨path.length, [], ?_, nofun⟩
    rw [List.nil_append, pushSegments_cons hlast, List.take_length, List.append_nil]
    rfl
  | cons s names ih =>
    have hmore : ∀ {kept : List String}, (∀ t ∈ kept, t ∈ names ∧ isDot t = false) →
        ∀ t ∈ kept, t ∈ s :: names ∧ isDot t = false :=
      fun h t ht => ⟨List.mem_cons_of_mem s (h t ht).1, (h t ht).2⟩
    cases hs : isDot s with
    | false =>
      obtain ⟨k, kept, heq, hkept⟩ := ih (path ++ [s])
      rw [List.cons_append, pushSegments_cons hs, heq]
      rcases Nat.lt_or_ge path.length k with hlt | hge
      · refine ⟨path.length, s :: kept, ?_, ?_⟩
        · rw [List.take_of_length_le (by rwa [List.length_append]), List.take_length]
          simp
        · exact List.forall_mem_cons.2 ⟨⟨List.mem_cons_self, hs⟩, hmore hkept⟩
      · exact ⟨k, kept, by rw [List.take_append_of_le_length hge], hmore hkept⟩
    | true =>
      have hne : names ++ [last] ≠ [] := List.concat_ne_nil last names
      obtain ⟨t, rest, hrest⟩ := List.exists_cons_of_ne_nil hne
      by_cases hdouble : isDoubleDot s = true
      · obtain ⟨k, kept, heq, hkept⟩ := ih path.dropLast
        refine ⟨min k (path.length - 1), kept, ?_, hmore hkept⟩
        rw [hrest] at heq
        rw [List.cons_append, hrest, pushSegments, if_pos hdouble, heq, List.dropLast_eq_take,
          List.take_take]
        exact nofun
      · have hsingle : isSingleDot s = true := by simpa [isDot, hdouble] using hs
        obtain ⟨k, kept, heq, hkept⟩ := ih path
        refine ⟨k, kept, ?_, hmore hkept⟩
        rw [hrest] at heq
        rw [List.cons_append, hrest, pushSegments, if_neg hdouble, if_pos hsingle, heq]
        exact nofun

end RemoteSession.Url
