import RemoteSession.Proofs.Toml.Integers
import RemoteSession.Proofs.Toml.Strings

/-!
# Lines with a key and a value

A number and a text are read as they were from what is written for them (`Reads`). A line
with a key and such a value is read to its end, and adds the value under the key
(`line?_writeKey`). Such a line is what the reader of lines takes it for
(`lines?_writeKey`) : whatever the key, its first character begins nothing else.
-/

namespace RemoteSession.Toml

/-- What begins a key is no blank and begins no comment, no empty line and no header. -/
theorem ne_of_key_start {c : Char} (h : isBareKeyChar c = true ∨ c = '"' ∨ c = '\'') :
    isBlank c = false ∧ c ≠ '#' ∧ c ≠ '\n' ∧ c ≠ '\r' ∧ c ≠ '[' := by
  have hblank : ∀ d, isBlank d = true → d = ' ' ∨ d = '\t' := by simp [isBlank]
  rcases h with h | rfl | rfl
  · refine ⟨Bool.eq_false_iff.2 fun hc => ?_, ?_, ?_, ?_, ?_⟩
    · rcases hblank c hc with rfl | rfl <;> cases h
    all_goals
      rintro rfl
      cases h
  · decide
  · decide

theorem skipBlanks_writeKey (key : String) (rest : List Char) :
    skipBlanks (writeKey key ++ rest) = writeKey key ++ rest := by
  obtain ⟨c, cs, hkey, hc⟩ := writeKey_eq_cons key
  have hblank := (ne_of_key_start hc).1
  rw [hkey]
  exact List.dropWhile_cons_of_neg (by simp [hblank])

theorem key?_writeKey (key : String) (fuel : Nat) (rest : List Char) :
    key? (fuel + 1) (writeKey key ++ ' ' :: '=' :: rest) = some ([key], '=' :: rest) := by
  rw [key?, skipBlanks_writeKey, simpleKey?_writeKey]
  rfl

/-! ## Values -/

/-- What is written is read as a value without others in it, up to the end of the line. -/
structure Reads (written : List Char) (node : Node) : Prop where
  start : ∃ c cs, written = c :: cs ∧ isBlank c = false ∧ c ≠ '[' ∧ c ≠ '\x7b'
  scalar : ∀ rest, scalar? (written ++ '\n' :: rest) = some (node, '\n' :: rest)

variable {written : List Char} {node : Node}

theorem Reads.skipBlanks (h : Reads written node) (rest : List Char) :
    skipBlanks (' ' :: (written ++ rest)) = written ++ rest := by
  obtain ⟨c, cs, rfl, hblank, -, -⟩ := h.start
  rw [Toml.skipBlanks, List.dropWhile_cons_of_pos rfl]
  exact List.dropWhile_cons_of_neg (by simp [hblank])

theorem Reads.value (h : Reads written node) (depth fuel : Nat) (rest : List Char) :
    value? depth (fuel + 1) (written ++ '\n' :: rest) = some (node, '\n' :: rest) := by
  have hscalar := h.scalar rest
  obtain ⟨c, cs, rfl, -, harray, htable⟩ := h.start
  rw [List.cons_append] at hscalar ⊢
  rw [value?]
  · exact hscalar
  · exact fun _ heq => harray (List.cons.inj heq).1
  · exact fun _ heq => htable (List.cons.inj heq).1

theorem reads_toDigits {n : Nat} (hn : n ≤ 9223372036854775807) :
    Reads (Nat.toDigits 10 n) (.integer n) := by
  refine ⟨?_, scalar?_toDigits hn⟩
  have hall := all_isDigit_toDigits n
  cases hdigits : Nat.toDigits 10 n with
  | nil => exact absurd hdigits Nat.toDigits_ne_nil
  | cons c cs =>
    have hc := hall c (hdigits ▸ List.mem_cons_self)
    refine ⟨c, cs, rfl, Bool.eq_false_iff.2 fun hblank => ?_, ?_, ?_⟩
    · simp only [isBlank, Bool.or_eq_true, beq_iff_eq] at hblank
      rcases hblank with rfl | rfl <;> cases hc
    all_goals
      rintro rfl
      cases hc

theorem reads_writeString (s : String) : Reads (writeString s) (.text s) := by
  obtain ⟨c, cs, hwritten, hquote⟩ := writeString_eq_cons s
  refine ⟨⟨c, cs, hwritten, by rcases hquote with rfl | rfl <;> decide⟩, fun rest => ?_⟩
  have hread := readString_writeString s rest
  rw [hwritten, List.cons_append] at hread ⊢
  rw [scalar?]
  · simp [hquote, hread]
  all_goals
    rintro _ heq
    cases heq
    simp at hquote

/-! ## Lines -/

/-- A key does not begin a header. -/
theorem writeKey_append_ne (key : String) (rest after : List Char) :
    writeKey key ++ rest ≠ '[' :: after := by
  obtain ⟨c, cs, hkey, hc⟩ := writeKey_eq_cons key
  obtain ⟨-, -, -, -, hheader⟩ := ne_of_key_start hc
  intro heq
  rw [hkey, List.cons_append] at heq
  exact hheader (List.cons.inj heq).1

/-- A line with a key and a value adds them. -/
theorem line?_writeKey {b b' : Builder} {key : String} (h : Reads written node)
    (hadd : b.add? [] key node = some b') (rest : List Char) :
    line? b (writeKey key ++ ' ' :: '=' :: ' ' :: (written ++ '\n' :: rest)) = some (b', rest) := by
  have hkey := fun fuel => key?_writeKey key fuel (' ' :: (written ++ '\n' :: rest))
  have hvalue := fun fuel => h.value (depthLimit - 1) fuel rest
  have hmark : mark? '=' ('=' :: ' ' :: (written ++ '\n' :: rest)) =
      some (' ' :: (written ++ '\n' :: rest)) := rfl
  have hsplit : splitKey? [key] = some ([], key) := rfl
  have hrest : restOfLine? ('\n' :: rest) = some rest := rfl
  unfold line?
  split
  · next heq => exact absurd heq (writeKey_append_ne _ _ _)
  · next heq => exact absurd heq (writeKey_append_ne _ _ _)
  · simp only [hkey, hmark, hsplit, h.skipBlanks, hvalue, hrest, hadd, Option.bind_eq_bind,
      Option.bind_some]

theorem lines?_writeKey (fuel : Nat) (b : Builder) (key : String) (rest : List Char) :
    lines? (fuel + 1) b (writeKey key ++ rest) =
      (line? b (writeKey key ++ rest)).bind fun p => lines? fuel p.1 p.2 := by
  obtain ⟨c, cs, hkey, hc⟩ := writeKey_eq_cons key
  obtain ⟨-, hcomment, hnewline, hreturn, -⟩ := ne_of_key_start hc
  rw [lines?, skipBlanks_writeKey, hkey, List.cons_append]
  split
  · next heq => cases heq
  · next heq => exact absurd (List.cons.inj heq).1 hcomment
  · next heq => exact absurd (List.cons.inj heq).1 hnewline
  · next heq => exact absurd (List.cons.inj heq).1 hreturn
  · rfl

end RemoteSession.Toml
