import RemoteSession.Proofs.Text.Utf8
import RemoteSession.Url.Basic

/-!
# Forms as they are read

A query is a form : pairs of a name and a value, each written with what would end it
escaped. Who reads it takes it apart, undoes `+` and then the escapes, and reads the octets
as text (`Url.pairs`).

Whatever characters a text has, it is read as it was written (`formDecode_formEncode`), and
nothing in it ends it (`ne_of_mem_formEncode`), so that a pair is read as it was written
(`readPair_formPair`).
-/

namespace RemoteSession.Url

namespace Percent

/-- The octets that are written in a form, where `+` is a blank. -/
def formOctets (cs : List Char) : List UInt8 :=
  cs.flatMap fun c => String.utf8EncodeChar (if c = '+' then ' ' else c)

/-- The text that is written in a form. -/
def formDecode (cs : List Char) : String :=
  Text.Utf8.decodeLossy (decode (formOctets cs))

/-! ## Octets -/

/-- What begins no escape stands for itself. -/
theorem decode_cons {a : UInt8} (ha : a ≠ 0x25) (rest : List UInt8) :
    decode (a :: rest) = a :: decode rest := by
  rcases rest with _ | ⟨b, _ | ⟨c, rest⟩⟩
  · rfl
  · rfl
  · rw [decode, if_neg ha]

/-- A digit as it is written. -/
def digitOctet (n : Nat) : UInt8 :=
  UInt8.ofNat (Text.upperHex n).toNat

theorem formOctets_upperHex : ∀ n < 16, formOctets [Text.upperHex n] = [digitOctet n] := by
  decide

theorem hexValue?_digitOctet :
    ∀ n < 16, Text.hexValue? (Char.ofNat (digitOctet n).toNat) = some n := by
  decide

theorem formOctets_append (xs ys : List Char) :
    formOctets (xs ++ ys) = formOctets xs ++ formOctets ys :=
  List.flatMap_append

/-- An escape is read as its octet. -/
theorem decode_escape (b : UInt8) (rest : List UInt8) :
    decode (formOctets (escape b) ++ rest) = b :: decode rest := by
  have hhigh : b.toNat / 16 < 16 := by have := b.toNat_lt; omega
  have hlow : b.toNat % 16 < 16 := Nat.mod_lt _ (by decide)
  have hoctets : formOctets (escape b) =
      [0x25, digitOctet (b.toNat / 16), digitOctet (b.toNat % 16)] := by
    change formOctets
      (['%'] ++ ([Text.upperHex (b.toNat / 16)] ++ [Text.upperHex (b.toNat % 16)])) = _
    rw [formOctets_append, formOctets_append, formOctets_upperHex _ hhigh,
      formOctets_upperHex _ hlow]
    rfl
  rw [hoctets, List.cons_append, List.cons_append, List.cons_append, List.nil_append, decode,
    if_pos rfl]
  simp only [hexValue?_digitOctet _ hhigh, hexValue?_digitOctet _ hlow]
  rw [Nat.div_add_mod', UInt8.ofNat_toNat]

theorem decode_escapes (octets rest : List UInt8) :
    decode (formOctets (octets.flatMap escape) ++ rest) = octets ++ decode rest := by
  induction octets with
  | nil => rfl
  | cons b more ih =>
    rw [List.flatMap_cons, formOctets_append, List.append_assoc, decode_escape, ih,
      List.cons_append]

/-! ## Characters -/

/-- A character of a form is read as its octets. -/
theorem decode_formChar (c : Char) (rest : List UInt8) :
    decode (formOctets (formChar c) ++ rest) = String.utf8EncodeChar c ++ decode rest := by
  unfold formChar
  split
  · next hblank =>
    subst hblank
    exact decode_cons (by decide) rest
  · unfold encodeChar
    split
    · next hsafe =>
      rw [Bool.and_eq_true, decide_eq_true_iff, Bool.not_not] at hsafe
      obtain ⟨hascii, hsafe⟩ := hsafe
      have hplus : c ≠ '+' := Text.ne_of_test hsafe rfl
      have hpercent : c ≠ '%' := Text.ne_of_test hsafe rfl
      have hoctet := Text.Utf8.utf8EncodeChar_of_lt hascii
      have hne : UInt8.ofNat c.toNat ≠ 0x25 := by
        intro heq
        have hnat := congrArg UInt8.toNat heq
        rw [Text.Utf8.toNat_ofNat_of_lt (by omega)] at hnat
        exact hpercent (Char.toNat_inj.1 hnat)
      have hwritten : formOctets [c] = [UInt8.ofNat c.toNat] := by
        simp [formOctets, hplus, hoctet]
      rw [hwritten, hoctet]
      exact decode_cons hne rest
    · exact decode_escapes _ rest

theorem decode_formEncode (s : String) :
    decode (formOctets (formEncode s)) = Text.Utf8.encode s := by
  have hall : ∀ cs : List Char,
      decode (formOctets (cs.flatMap formChar)) = cs.flatMap String.utf8EncodeChar := by
    intro cs
    induction cs with
    | nil => rfl
    | cons c rest ih =>
      rw [List.flatMap_cons, formOctets_append, decode_formChar, ih, List.flatMap_cons]
  exact hall s.toList

/-- Any text is read from a form as it was written. -/
theorem formDecode_formEncode (s : String) : formDecode (formEncode s) = s := by
  rw [formDecode, decode_formEncode, Text.Utf8.decodeLossy_encode]

/-- What is written for a character is the character or an escape. -/
theorem forall_mem_encodeChar {escaped : Char → Bool} {a : Char} {p : Char → Prop}
    (hkept : a.toNat < 0x80 → escaped a = false → p a) (hpercent : p '%')
    (hdigit : ∀ n < 16, p (Text.upperHex n)) : ∀ c ∈ encodeChar escaped a, p c := by
  intro c hc
  unfold encodeChar at hc
  split at hc
  · next h =>
    rw [Bool.and_eq_true, decide_eq_true_iff, Bool.not_eq_true'] at h
    rw [List.mem_singleton.1 hc]
    exact hkept h.1 h.2
  · obtain ⟨b, -, hc⟩ := List.mem_flatMap.1 hc
    rcases List.mem_cons.1 hc with rfl | hc
    · exact hpercent
    rcases List.mem_cons.1 hc with rfl | hc
    · exact hdigit _ (by have := b.toNat_lt; omega)
    · rw [List.mem_singleton.1 hc]
      exact hdigit _ (Nat.mod_lt _ (by decide))

theorem forall_mem_encode {escaped : Char → Bool} {cs : List Char} {p : Char → Prop}
    (hkept : ∀ a ∈ cs, a.toNat < 0x80 → escaped a = false → p a) (hpercent : p '%')
    (hdigit : ∀ n < 16, p (Text.upperHex n)) : ∀ c ∈ encode escaped cs, p c := by
  intro c hc
  obtain ⟨a, ha, hc⟩ := List.mem_flatMap.1 hc
  exact forall_mem_encodeChar (hkept a ha) hpercent hdigit c hc

/-- A form has no characters but those that are safe, `+` for a blank, and escapes. -/
theorem ne_of_mem_formEncode {s : String} {c d : Char} (hc : c ∈ formEncode s)
    (hd : isFormSafe d = false) (hplus : d ≠ '+') (hpercent : d ≠ '%') : c ≠ d := by
  have hdigit : ∀ n < 16, isFormSafe (Text.upperHex n) = true := by decide
  obtain ⟨a, -, hc⟩ := List.mem_flatMap.1 hc
  unfold formChar at hc
  split at hc
  · rw [List.mem_singleton.1 hc]
    exact hplus.symm
  · refine forall_mem_encodeChar (p := (· ≠ d)) (fun _ hsafe => ?_) hpercent.symm
      (fun n hn => Text.ne_of_test (hdigit n hn) hd) c hc
    rw [Bool.not_eq_false'] at hsafe
    exact Text.ne_of_test hsafe hd

end Percent

/-! ## Pairs -/

/-- A pair as it is read : the name is what stands before the first `=`. -/
def readPair (cs : List Char) : String × String :=
  (Percent.formDecode (cs.takeWhile (· != '=')),
    Percent.formDecode ((cs.dropWhile (· != '=')).drop 1))

/-- The pairs of the query of an address, in order. -/
def pairs (url : Url) : List (String × String) :=
  ((splitAt (· == '&') (url.query.getD "").toList).filter (· ≠ [])).map readPair

theorem toList_formPair (name value : String) :
    (formPair name value).toList =
      Percent.formEncode name ++ '=' :: Percent.formEncode value := by
  rw [formPair, String.toList_ofList]

/-- A pair is read as it was written. -/
theorem readPair_formPair (name value : String) :
    readPair (formPair name value).toList = (name, value) := by
  have hname : ∀ c ∈ Percent.formEncode name, (c != '=') = true := fun c hc =>
    bne_iff_ne.2 (Percent.ne_of_mem_formEncode hc rfl (by decide) (by decide))
  rw [toList_formPair, readPair, List.takeWhile_append_of_pos hname,
    List.dropWhile_append_of_pos hname]
  simp [Percent.formDecode_formEncode]

/-- A pair has no characters but those of a form, and `=`. -/
theorem ne_of_mem_formPair {name value : String} {c d : Char}
    (hc : c ∈ (formPair name value).toList) (hd : Percent.isFormSafe d = false)
    (hmarks : d ∉ ['+', '%', '=']) : c ≠ d := by
  simp only [List.mem_cons, List.not_mem_nil, or_false, not_or] at hmarks
  obtain ⟨hplus, hpercent, hequals⟩ := hmarks
  rw [toList_formPair] at hc
  rcases List.mem_append.1 hc with hc | hc
  · exact Percent.ne_of_mem_formEncode hc hd hplus hpercent
  rcases List.mem_cons.1 hc with rfl | hc
  · exact Ne.symm hequals
  · exact Percent.ne_of_mem_formEncode hc hd hplus hpercent

/-! ## Parts between separators -/

theorem splitAt_ne_nil (separator : Char → Bool) (cs : List Char) :
    splitAt separator cs ≠ [] := by
  cases cs with
  | nil => exact List.cons_ne_nil _ _
  | cons c rest =>
    rw [splitAt]
    split
    · exact List.cons_ne_nil _ _
    · split <;> exact List.cons_ne_nil _ _

/-- A separator divides the parts before it from those after it. -/
theorem splitAt_append_cons {separator : Char → Bool} {c : Char} (hc : separator c = true)
    (xs ys : List Char) :
    splitAt separator (xs ++ c :: ys) = splitAt separator xs ++ splitAt separator ys := by
  induction xs with
  | nil => simp [splitAt, hc]
  | cons x rest ih =>
    obtain ⟨part, parts, hparts⟩ := List.exists_cons_of_ne_nil (splitAt_ne_nil separator rest)
    rw [List.cons_append, splitAt, splitAt, ih, hparts]
    split <;> rfl

theorem splitAt_of_forall {separator : Char → Bool} {xs : List Char}
    (hxs : ∀ x ∈ xs, separator x = false) : splitAt separator xs = [xs] := by
  induction xs with
  | nil => rfl
  | cons x rest ih =>
    have hx : separator x = false := hxs x List.mem_cons_self
    simp [splitAt, hx, ih fun y hy => hxs y (List.mem_cons_of_mem x hy)]

theorem splitAt_append {separator : Char → Bool} {xs : List Char} {c : Char} (ys : List Char)
    (hxs : ∀ x ∈ xs, separator x = false) (hc : separator c = true) :
    splitAt separator (xs ++ c :: ys) = xs :: splitAt separator ys := by
  rw [splitAt_append_cons hc, splitAt_of_forall hxs, List.singleton_append]

end RemoteSession.Url
