import RemoteSession.Toml.Parser

/-!
# Integers as they are written and read

The digits of a number at the end of a line are read as this number (`scalar?_toDigits`) :
they begin no date, no time and no number with a fraction, and the number is in the
range of integers.
-/

namespace RemoteSession.Toml

/-- The characters of a line from digits on. -/
abbrev digitLine (digits rest : List Char) : List Char :=
  digits ++ '\n' :: rest

variable {digits : List Char}

/-! ## Digits -/

theorem hexValue?_of_isDigit {c : Char} (h : c.isDigit = true) :
    Text.hexValue? c = some (c.toNat - 48) := by
  have hrange : '0' ≤ c ∧ c ≤ '9' := by simpa [Char.isDigit, Char.le_def] using h
  rw [Text.hexValue?, if_pos hrange]

theorem all_isDigit_toDigits (n : Nat) : ∀ c ∈ Nat.toDigits 10 n, c.isDigit = true :=
  fun _ hc => Nat.isDigit_of_mem_toDigits (by decide) (by decide) hc

/-- A zero begins no other number than zero. -/
theorem toDigits_cases (n : Nat) : n = 0 ∨ ∃ c cs, Nat.toDigits 10 n = c :: cs ∧ c ≠ '0' := by
  induction n using Nat.strongRecOn with
  | ind n ih =>
    by_cases hlt : n < 10
    · by_cases hzero : n = 0
      · exact .inl hzero
      · refine .inr ⟨_, _, Nat.toDigits_of_lt_base hlt, fun h => hzero ?_⟩
        have hdigit := Nat.toNat_digitChar_sub_48_of_lt_ten hlt
        rw [h] at hdigit
        exact hdigit.symm
    · have hle : 10 ≤ n := Nat.le_of_not_lt hlt
      rcases ih (n / 10) (by omega) with hzero | ⟨c, cs, hcons, hne⟩
      · omega
      · refine .inr ⟨c, cs ++ [Nat.digitChar (n % 10)], ?_, hne⟩
        rw [Nat.toDigits_of_base_le (by decide) hle, hcons]
        rfl

theorem digitRun_append (h : ∀ c ∈ digits, c.isDigit = true) (rest : List Char) :
    digitRun Char.isDigit (digitLine digits rest) = (digits, '\n' :: rest) := by
  induction digits with
  | nil => rfl
  | cons c cs ih =>
    have hc := h c List.mem_cons_self
    have hne : c ≠ '_' := by
      rintro rfl
      cases hc
    have htail := ih fun d hd => h d (List.mem_cons_of_mem c hd)
    rw [digitLine, List.cons_append, digitRun]
    · simp only [hc, if_true, htail]
    · exact fun _ _ heq _ => hne heq

theorem decimal?_toDigits (n : Nat) (rest : List Char) :
    decimal? (digitLine (Nat.toDigits 10 n) rest) = some (Nat.toDigits 10 n, '\n' :: rest) := by
  rcases toDigits_cases n with rfl | ⟨c, cs, hcons, hne⟩
  · rfl
  · have hall := all_isDigit_toDigits n
    rw [hcons] at hall ⊢
    have hrun := digitRun_append hall rest
    rw [digitLine, List.cons_append] at hrun ⊢
    rw [decimal?]
    · simp [digits?, hall c List.mem_cons_self, hrun]
    · rintro _ heq
      cases heq
      exact hne rfl

theorem valueOf_toDigits (n : Nat) : valueOf 10 (Nat.toDigits 10 n) = n := by
  have hfold : ∀ (cs : List Char) (start : Nat), (∀ c ∈ cs, c.isDigit = true) →
      cs.foldl (fun n c => n * 10 + (Text.hexValue? c).getD 0) start =
        Nat.ofDigitChars 10 cs start := by
    intro cs
    induction cs with
    | nil => intro start _; rfl
    | cons c cs ih =>
      intro start hcs
      rw [List.foldl_cons, Nat.ofDigitChars_cons,
        ih _ fun d hd => hcs d (List.mem_cons_of_mem c hd),
        hexValue?_of_isDigit (hcs c List.mem_cons_self), Nat.mul_comm]
      rfl
  rw [valueOf, hfold _ 0 (all_isDigit_toDigits n), Nat.ofDigitChars_ten_toDigits]

/-! ## No dates -/

/-- A field of a date leaves digits before the end of the line. -/
theorem field?_digitLine (h : ∀ c ∈ digits, c.isDigit = true) (width least most : Nat)
    (rest : List Char) : field? width least most (digitLine digits rest) = none ∨
      ∃ value after, (∀ c ∈ after, c.isDigit = true) ∧
        field? width least most (digitLine digits rest) = some (value, digitLine after rest) := by
  unfold field?
  simp only
  split
  · next hfield =>
    simp only [Bool.and_eq_true, decide_eq_true_eq, List.all_eq_true] at hfield
    by_cases hlen : width ≤ digits.length
    · have hdrop : (digitLine digits rest).drop width = digitLine (digits.drop width) rest :=
        List.drop_append_of_le_length hlen
      rw [hdrop]
      exact .inr ⟨_, digits.drop width, fun c hc => h c (List.mem_of_mem_drop hc), rfl⟩
    · -- The end of the line would be one of the digits.
      have hin : '\n' ∈ (digitLine digits rest).take width := by
        obtain ⟨k, hk⟩ : ∃ k, width - digits.length = k + 1 := ⟨width - digits.length - 1, by omega⟩
        rw [digitLine, List.take_append, hk, List.take_succ_cons]
        exact List.mem_append.2 (.inr List.mem_cons_self)
      have hdigit := hfield.1.1.2 _ hin
      cases hdigit
  · exact .inl rfl

/-- What is no digit and no line end stands nowhere after digits. -/
theorem mark?_digitLine (h : ∀ c ∈ digits, c.isDigit = true) (m : Char)
    (hm : m.isDigit = false ∧ m ≠ '\n') (rest : List Char) :
    mark? m (digitLine digits rest) = none := by
  cases digits with
  | nil => simp [mark?, Ne.symm hm.2]
  | cons c cs =>
    have hne : c ≠ m := by
      rintro rfl
      rw [h c List.mem_cons_self] at hm
      cases hm.1
    simp [mark?, hne]

theorem date?_digitLine (h : ∀ c ∈ digits, c.isDigit = true) (rest : List Char) :
    date? (digitLine digits rest) = none := by
  have hday : day? (digitLine digits rest) = none := by
    rcases field?_digitLine h 4 0 9999 rest with hnone | ⟨value, after, hafter, hsome⟩
    · simp [day?, hnone]
    · simp [day?, hsome, mark?_digitLine hafter '-' (by decide) rest]
  have htime : time? (digitLine digits rest) = none := by
    rcases field?_digitLine h 2 0 23 rest with hnone | ⟨value, after, hafter, hsome⟩
    · simp [time?, hnone]
    · simp [time?, hsome, mark?_digitLine hafter ':' (by decide) rest]
  rw [date?, hday, htime]
  rfl

/-! ## Integers -/

/-- A line of digits begins with a digit. -/
theorem digitLine_toDigits (n : Nat) (rest : List Char) : ∃ c cs,
    digitLine (Nat.toDigits 10 n) rest = c :: cs ∧ c.isDigit = true := by
  have hall := all_isDigit_toDigits n
  cases hn : Nat.toDigits 10 n with
  | nil => exact absurd hn Nat.toDigits_ne_nil
  | cons c cs => exact ⟨c, cs ++ '\n' :: rest, rfl, hall c (hn ▸ List.mem_cons_self)⟩

theorem sign_toDigits (n : Nat) (rest : List Char) :
    sign (digitLine (Nat.toDigits 10 n) rest) = (false, digitLine (Nat.toDigits 10 n) rest) := by
  obtain ⟨c, cs, hline, hc⟩ := digitLine_toDigits n rest
  rw [hline]
  unfold sign
  split
  · next heq =>
    cases heq
    cases hc
  · next heq =>
    cases heq
    cases hc
  · rfl

theorem float?_toDigits (n : Nat) (rest : List Char) :
    float? (digitLine (Nat.toDigits 10 n) rest) = none := by
  simp [float?, sign_toDigits, decimal?_toDigits, exponent?]

theorem special?_toDigits (n : Nat) (rest : List Char) :
    special? (digitLine (Nat.toDigits 10 n) rest) = none := by
  obtain ⟨c, cs, hline, hc⟩ := digitLine_toDigits n rest
  rw [special?, sign_toDigits, hline]
  simp only
  split
  · next heq =>
    cases heq
    cases hc
  · next heq =>
    cases heq
    cases hc
  · rfl

/-- A zero that begins a number is followed by the end of the line. -/
theorem digitLine_ne (n : Nat) {m : Char} (hm : m ≠ '\n') (rest after : List Char) :
    digitLine (Nat.toDigits 10 n) rest ≠ '0' :: m :: after := by
  intro heq
  rcases toDigits_cases n with rfl | ⟨c, cs, hcons, hne⟩
  · cases heq
    exact hm rfl
  · rw [hcons, digitLine, List.cons_append] at heq
    exact hne (List.cons.inj heq).1

theorem integer?_toDigits {n : Nat} (hn : n ≤ 9223372036854775807) (rest : List Char) :
    integer? (digitLine (Nat.toDigits 10 n) rest) = some (.integer n, '\n' :: rest) := by
  have hrange : (-9223372036854775808 : Int) ≤ n ∧ (n : Int) ≤ 9223372036854775807 := by omega
  unfold integer?
  split
  · next heq => exact absurd heq (digitLine_ne n (by decide) rest _)
  · next heq => exact absurd heq (digitLine_ne n (by decide) rest _)
  · next heq => exact absurd heq (digitLine_ne n (by decide) rest _)
  · have hnode : integerNode? n = some (.integer n) := if_pos hrange
    simp only [sign_toDigits, decimal?_toDigits, valueOf_toDigits, Option.bind_eq_bind,
      Option.bind_some, Bool.false_eq_true, if_false, hnode]

/-- The digits of a number at the end of a line are read as the number. -/
theorem scalar?_toDigits {n : Nat} (hn : n ≤ 9223372036854775807) (rest : List Char) :
    scalar? (digitLine (Nat.toDigits 10 n) rest) = some (.integer n, '\n' :: rest) := by
  have hnumber :
      number? (digitLine (Nat.toDigits 10 n) rest) = some (.integer n, '\n' :: rest) := by
    rw [number?, date?_digitLine (all_isDigit_toDigits n), float?_toDigits, special?_toDigits,
      integer?_toDigits hn]
    rfl
  obtain ⟨c, cs, hline, hc⟩ := digitLine_toDigits n rest
  rw [hline] at hnumber ⊢
  have hquote : c ≠ '"' ∧ c ≠ '\'' := by
    constructor <;> rintro rfl <;> cases hc
  unfold scalar?
  split
  · next heq =>
    cases heq
    cases hc
  · next heq =>
    cases heq
    cases hc
  · next heq =>
    cases heq
    simp [hquote, hc, hnumber]
  · next heq => cases heq

end RemoteSession.Toml
