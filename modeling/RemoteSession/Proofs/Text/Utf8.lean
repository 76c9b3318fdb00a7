import Mathlib.Data.List.Basic
import Mathlib.Data.List.Flatten
import RemoteSession.Text.Utf8

/-!
# Text as octets and back

The octets of a character complete just that character, in one, two, three or four steps
(`feed_encodeChar`), and so the octets of a text are read as the text (`decode?_encode`).
-/

namespace RemoteSession.Text

/-- What holds of all characters of a text is decided one by one, not for all there are. -/
instance (priority := high) decidableForallMem (cs : List Char) (p : Char → Prop)
    [DecidablePred p] : Decidable (∀ c ∈ cs, p c) :=
  List.decidableBAll p cs

/-- What holds of all numbers below a bound holds of the characters with these numbers. -/
theorem forall_of_toNat_lt {bound : Nat} {p : Char → Prop}
    (h : ∀ n < bound, p (Char.ofNat n)) : ∀ c : Char, c.toNat < bound → p c := by
  intro c hc
  have hp := h c.toNat hc
  rwa [Char.ofNat_toNat] at hp

/-- A test tells characters apart. -/
theorem ne_of_test {p : Char → Bool} {c d : Char} (hc : p c = true) (hd : p d = false) :
    c ≠ d := by
  rintro rfl
  rw [hc] at hd
  cases hd

namespace Utf8

variable {n : Nat}

theorem toNat_ofNat_of_lt (h : n < 256) : (UInt8.ofNat n).toNat = n := by
  rw [UInt8.toNat_ofNat']
  exact Nat.mod_eq_of_lt h

/-- A character of ASCII is one octet. -/
theorem utf8EncodeChar_of_lt {c : Char} (h : c.toNat < 0x80) :
    String.utf8EncodeChar c = [UInt8.ofNat c.toNat] := by
  have hle : c.toNat ≤ 0x7F := Nat.le_of_lt_succ h
  exact if_pos hle

/-- No octet of any other character is one of ASCII. -/
theorem le_of_mem_utf8EncodeChar {c : Char} (h : 0x80 ≤ c.toNat) {b : UInt8}
    (hb : b ∈ String.utf8EncodeChar c) : 0x80 ≤ b.toNat := by
  have hle : 0x80 ≤ c.val.toNat := h
  have hof : ∀ m, 0x80 ≤ m → m < 256 → 0x80 ≤ (UInt8.ofNat m).toNat := fun m hm hlt => by
    rwa [toNat_ofNat_of_lt hlt]
  unfold String.utf8EncodeChar at hb
  generalize c.val.toNat = v at hle hb
  simp only at hb
  split at hb
  · omega
  split at hb
  · simp only [List.mem_cons, List.not_mem_nil, or_false] at hb
    rcases hb with rfl | rfl <;> exact hof _ (by omega) (by omega)
  split at hb
  · simp only [List.mem_cons, List.not_mem_nil, or_false] at hb
    rcases hb with rfl | rfl | rfl <;> exact hof _ (by omega) (by omega)
  · simp only [List.mem_cons, List.not_mem_nil, or_false] at hb
    rcases hb with rfl | rfl | rfl | rfl <;> exact hof _ (by omega) (by omega)

/-- An octet of ASCII is of no other character. -/
theorem toNat_of_mem_utf8EncodeChar {c : Char} {b : UInt8} (hb : b ∈ String.utf8EncodeChar c)
    (hlt : b.toNat < 0x80) : c.toNat = b.toNat := by
  by_cases hc : c.toNat < 0x80
  · rw [utf8EncodeChar_of_lt hc, List.mem_singleton] at hb
    rw [hb, toNat_ofNat_of_lt (by omega)]
  · have hle := le_of_mem_utf8EncodeChar (Nat.le_of_not_lt hc) hb
    omega

/-- An octet of ASCII is a character of its own. -/
theorem start_one (h : n < 0x80) : start (UInt8.ofNat n) = ([some (Char.ofNat n)], none) := by
  simp only [start, toNat_ofNat_of_lt (show n < 256 by omega), if_pos h]

theorem start_two (hle : 0xC2 ≤ n) (hlt : n < 0xE0) :
    start (UInt8.ofNat n) = ([], some ⟨n - 0xC0, 1, 0x80, 0xBF⟩) := by
  simp only [start, toNat_ofNat_of_lt (show n < 256 by omega)]
  rw [if_neg (by omega), if_neg (by omega), if_pos hlt]

theorem start_three (hle : 0xE0 ≤ n) (hlt : n < 0xF0) :
    start (UInt8.ofNat n) =
      ([], some
        ⟨n - 0xE0, 2, if n = 0xE0 then 0xA0 else 0x80, if n = 0xED then 0x9F else 0xBF⟩) := by
  simp only [start, toNat_ofNat_of_lt (show n < 256 by omega)]
  rw [if_neg (by omega), if_neg (by omega), if_neg (by omega), if_pos hlt]

theorem start_four (hle : 0xF0 ≤ n) (hlt : n < 0xF5) :
    start (UInt8.ofNat n) =
      ([], some
        ⟨n - 0xF0, 3, if n = 0xF0 then 0x90 else 0x80, if n = 0xF4 then 0x8F else 0xBF⟩) := by
  simp only [start, toNat_ofNat_of_lt (show n < 256 by omega)]
  rw [if_neg (by omega), if_neg (by omega), if_neg (by omega), if_neg (by omega), if_pos hlt]

theorem feed_cons (s : State) (b : UInt8) (rest : List UInt8) :
    feed s (b :: rest) = ((step s b).1 ++ (feed (step s b).2 rest).1, (feed (step s b).2 rest).2) :=
  rfl

theorem step_none (b : UInt8) : step none b = start b :=
  rfl

variable {value more least most : Nat}

/-- An octet that ends a sequence. -/
theorem step_last (hn : n < 256) (hle : least ≤ n) (hlt : n ≤ most) :
    step (some ⟨value, 1, least, most⟩) (UInt8.ofNat n) =
      ([some (Char.ofNat (value * 64 + (n - 0x80)))], none) := by
  have hnat := toNat_ofNat_of_lt hn
  simp [step, Pending.accepts, Pending.extend, hnat, hle, hlt]

/-- An octet inside a sequence. -/
theorem step_more (hmore : 1 < more) (hn : n < 256) (hle : least ≤ n) (hlt : n ≤ most) :
    step (some ⟨value, more, least, most⟩) (UInt8.ofNat n) =
      ([], some ⟨value * 64 + (n - 0x80), more - 1, 0x80, 0xBF⟩) := by
  have hnat := toNat_ofNat_of_lt hn
  have hnot : ¬more ≤ 1 := Nat.not_le.2 hmore
  simp [step, Pending.accepts, Pending.extend, hnat, hle, hlt, hnot]

/-- The octets of a character complete just this character. -/
theorem feed_encodeChar (c : Char) : feed none (String.utf8EncodeChar c) = ([some c], none) := by
  have hchar : Char.ofNat c.val.toNat = c := Char.ofNat_toNat c
  have hvalid : c.val.toNat < 0xD800 ∨ 0xDFFF < c.val.toNat ∧ c.val.toNat < 0x110000 := c.valid
  unfold String.utf8EncodeChar
  generalize c.val.toNat = v at hchar hvalid
  simp only
  split
  · next hone =>
    rw [feed_cons, step_none, start_one (by omega), hchar]
    rfl
  split
  · next hone htwo =>
    have hvalue : (v / 64 % 0x20 + 0xC0 - 0xC0) * 64 + (v % 0x40 + 0x80 - 0x80) = v := by omega
    rw [feed_cons, step_none, start_two (by omega) (by omega), feed_cons,
      step_last (by omega) (by omega) (by omega), hvalue, hchar]
    rfl
  split
  · next hone htwo hthree =>
    have hvalue : ((v / 4096 % 0x10 + 0xE0 - 0xE0) * 64 + (v / 64 % 0x40 + 0x80 - 0x80)) * 64 +
        (v % 0x40 + 0x80 - 0x80) = v := by omega
    -- A lead of `E0` rules out what two octets can say, and `ED` the surrogates.
    have hleast : (if v / 4096 % 0x10 + 0xE0 = 0xE0 then 0xA0 else 0x80) ≤
        v / 64 % 0x40 + 0x80 := by split <;> omega
    have hmost : v / 64 % 0x40 + 0x80 ≤
        (if v / 4096 % 0x10 + 0xE0 = 0xED then 0x9F else 0xBF) := by split <;> omega
    rw [feed_cons, step_none, start_three (by omega) (by omega), feed_cons,
      step_more (by omega) (by omega) hleast hmost, feed_cons,
      step_last (by omega) (by omega) (by omega), hvalue, hchar]
    rfl
  · next hone htwo hthree =>
    have hvalue : (((v / 262144 % 8 + 0xF0 - 0xF0) * 64 + (v / 4096 % 0x40 + 0x80 - 0x80)) * 64 +
        (v / 64 % 0x40 + 0x80 - 0x80)) * 64 + (v % 0x40 + 0x80 - 0x80) = v := by omega
    -- A lead of `F0` rules out what three octets can say, and `F4` what is past the last plane.
    have hleast : (if v / 262144 % 8 + 0xF0 = 0xF0 then 0x90 else 0x80) ≤
        v / 4096 % 0x40 + 0x80 := by split <;> omega
    have hmost : v / 4096 % 0x40 + 0x80 ≤
        (if v / 262144 % 8 + 0xF0 = 0xF4 then 0x8F else 0xBF) := by split <;> omega
    rw [feed_cons, step_none, start_four (by omega) (by omega), feed_cons,
      step_more (by omega) (by omega) hleast hmost, feed_cons,
      step_more (by omega) (by omega) (by omega) (by omega), feed_cons,
      step_last (by omega) (by omega) (by omega), hvalue, hchar]
    rfl

theorem feed_encode (cs : List Char) :
    feed none (cs.flatMap String.utf8EncodeChar) = (cs.map some, none) := by
  induction cs with
  | nil => rfl
  | cons c rest ih =>
    rw [List.flatMap_cons, feed_append, feed_encodeChar, ih]
    rfl

theorem scan_encode (s : String) : scan (encode s) = s.toList.map some := by
  rw [scan, encode, feed_encode]
  simp [finish]

/-- The octets of a text are read as the text. -/
theorem decode?_encode (s : String) : decode? (encode s) = some s := by
  have hall : ∀ cs : List Char, (cs.map some).mapM id = some cs := by
    intro cs
    induction cs with
    | nil => rfl
    | cons c rest ih => simp [ih]
  rw [decode?, scan_encode]
  simp [hall]

theorem encode_injective {s t : String} (h : encode s = encode t) : s = t := by
  have hs := decode?_encode s
  rw [h, decode?_encode] at hs
  exact (Option.some.inj hs).symm

theorem encode_eq_nil_iff {s : String} : encode s = [] ↔ s = "" :=
  ⟨fun h => encode_injective (t := "") h, fun h => h ▸ rfl⟩

theorem encodeChar_ne_nil (c : Char) : String.utf8EncodeChar c ≠ [] := by
  intro h
  have hfeed := feed_encodeChar c
  rw [h] at hfeed
  cases hfeed

/-- A text whose last octet is one of ASCII ends in this character. -/
theorem getLast?_of_getLast?_flatMap {cs : List Char} {c : Char} (hc : c.toNat < 0x80)
    (h : (cs.flatMap String.utf8EncodeChar).getLast? = some (UInt8.ofNat c.toNat)) :
    cs.getLast? = some c := by
  have hnat := toNat_ofNat_of_lt (show c.toNat < 256 by omega)
  rcases List.eq_nil_or_concat cs with rfl | ⟨init, last, rfl⟩
  · cases h
  · rw [List.concat_eq_append] at h ⊢
    rw [List.flatMap_append, List.flatMap_singleton,
      List.getLast?_append_of_ne_nil _ (encodeChar_ne_nil last)] at h
    have hchar := toNat_of_mem_utf8EncodeChar (List.mem_of_getLast? h) (by rwa [hnat])
    rw [List.getLast?_concat, Char.toNat_inj.1 (hchar.trans hnat)]

/-- What is left of a text has fewer octets, unless all of it is left. -/
theorem eq_of_sublist {xs ys : List Char} (h : xs.Sublist ys)
    (hle : (ys.flatMap String.utf8EncodeChar).length ≤
      (xs.flatMap String.utf8EncodeChar).length) : xs = ys := by
  have hoctets := (h.flatMap String.utf8EncodeChar).eq_of_length_le hle
  refine String.ofList_injective (encode_injective ?_)
  rwa [encode, encode, String.toList_ofList, String.toList_ofList]

/-- In the octets of a text nothing has to be replaced. -/
theorem decodeLossy_encode (s : String) : decodeLossy (encode s) = s := by
  rw [decodeLossy, scan_encode]
  simp [Function.comp_def]

end Utf8

end RemoteSession.Text
