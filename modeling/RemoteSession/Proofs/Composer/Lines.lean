import RemoteSession.Composer
import RemoteSession.Proofs.Text.Blank

/-!
# Composed lines

A composed line is to be in normal form (`Composer.Line.Normal`) : no carriage return stands
before a line feed, the line ends in a line feed unless it is to be taken as it is, and
composing it once more changes nothing. The carriage return before each line feed is left out
once, and the line feed at the end is put there after that. So the form is reached if and only
if no line feed has two carriage returns before it and the line feed that is put to the end
has none before it (`Composer.normal_iff`).
-/

namespace RemoteSession.Composer

/-- A text in which no carriage return stands before a line feed. -/
def Joined (cs : List Char) : Prop :=
  ¬['\r', '\n'] <:+: cs

variable {cs ds rest : List Char} {c : Char} {raw engine : String} {rawMode : Bool} {l : Line}

/-! ## Joining line ends -/

theorem joined_nil : Joined [] := by
  rw [Joined, List.infix_nil]
  exact List.cons_ne_nil _ _

theorem joined_cons :
    Joined (c :: rest) ↔ ¬(c = '\r' ∧ rest.head? = some '\n') ∧ Joined rest := by
  have hhead : ['\r', '\n'] <+: c :: rest ↔ c = '\r' ∧ rest.head? = some '\n' := by
    cases rest <;> simp [List.cons_prefix_cons, eq_comm]
  rw [Joined, Joined, List.infix_cons_iff, hhead, not_or]

theorem Joined.of_isPrefix (h : Joined cs) (hle : ds <+: cs) : Joined ds :=
  fun hbreak => h (hbreak.trans hle.isInfix)

/-- A line feed at the end leaves a text joined unless a carriage return is before it. -/
theorem joined_append_newline :
    Joined (cs ++ ['\n']) ↔ Joined cs ∧ cs.getLast? ≠ some '\r' := by
  induction cs with
  | nil => simp [joined_nil, joined_cons]
  | cons c cs ih =>
    cases cs with
    | nil => simp [joined_nil, joined_cons]
    | cons d rest =>
      rw [List.cons_append, joined_cons, ih, joined_cons (c := c), List.getLast?_cons_cons,
        List.cons_append, List.head?_cons, List.head?_cons, and_assoc]

/-- A text stays as it is if and only if there is nothing to join. -/
theorem joinLineEnds_eq_self_iff : joinLineEnds cs = cs ↔ Joined cs := by
  fun_induction joinLineEnds cs with
  | case1 rest => simp [joined_cons]
  | case2 c rest hpair ih =>
    rw [List.cons_inj_right, ih, joined_cons, iff_and_self]
    rintro - ⟨rfl, hhead⟩
    obtain ⟨more, rfl⟩ := List.head?_eq_some_iff.1 hhead
    exact hpair more rfl rfl
  | case3 => simp [joined_nil]

/-- A text ends as it did. -/
theorem getLast?_joinLineEnds (cs : List Char) : (joinLineEnds cs).getLast? = cs.getLast? := by
  fun_induction joinLineEnds cs with
  | case1 rest ih => cases rest <;> simp_all [List.getLast?_cons, joinLineEnds]
  | case2 c rest hpair ih => cases rest <;> simp_all [List.getLast?_cons]
  | case3 => rfl

/-- What is joined begins with a line feed if the text did, or if a carriage return was all
that stood before it. -/
theorem head?_joinLineEnds (cs : List Char) :
    (joinLineEnds cs).head? = some '\n' ↔ cs.head? = some '\n' ∨ ['\r', '\n'] <+: cs := by
  fun_cases joinLineEnds cs with
  | case1 rest => simp
  | case2 c rest hpair =>
    have hnot : ¬['\r', '\n'] <+: c :: rest := by
      rintro ⟨more, hmore⟩
      obtain ⟨rfl, htail⟩ := List.cons.inj hmore
      exact hpair more rfl htail.symm
    simp [hnot]
  | case3 => simp

/-- Of two carriage returns before a line feed one is left. -/
theorem joined_joinLineEnds_iff :
    Joined (joinLineEnds cs) ↔ ¬['\r', '\r', '\n'] <:+: cs := by
  fun_induction joinLineEnds cs with
  | case1 rest ih => simp [joined_cons, ih, List.infix_cons_iff]
  | case2 c rest hpair ih =>
    -- A return is not before a line feed of its own, so that only a pair behind it counts.
    have hfeed : c = '\r' → rest.head? ≠ some '\n' := by
      rintro hc hhead
      obtain ⟨more, rfl⟩ := List.head?_eq_some_iff.1 hhead
      exact hpair more hc rfl
    have hpairs : c = '\r' ∧ (joinLineEnds rest).head? = some '\n' ↔
        ['\r', '\r', '\n'] <+: c :: rest := by
      rw [head?_joinLineEnds, List.cons_prefix_cons, eq_comm (a := '\r')]
      exact and_congr_right fun hc => or_iff_right (hfeed hc)
    rw [joined_cons, ih, hpairs, List.infix_cons_iff, not_or]
  | case3 => simp [joined_nil]

/-! ## Composing -/

/-- Whether a line is made to end in a line feed. -/
def terminates (engine : String) (rawMode : Bool) : Bool :=
  !rawMode && LineEnd.ofEngine engine == .newline

theorem terminates_iff : terminates engine rawMode = true ↔
    rawMode = false ∧ Text.eqIgnoreCase (Text.trim engine) "codex" = false := by
  rw [terminates, LineEnd.ofEngine]
  cases Text.eqIgnoreCase (Text.trim engine) "codex" <;> simp

/-- A text with a line feed at its end, if it needs one and has none. -/
def terminated (engine : String) (rawMode : Bool) (text : List Char) : List Char :=
  if terminates engine rawMode = true ∧ text.getLast? ≠ some '\n' then text ++ ['\n'] else text

/-- What a line is made of : a text that is not blank, its line ends joined. -/
theorem line?_eq_some_iff : line? raw engine rawMode = some l ↔
    Text.dropBlankEnd (joinLineEnds raw.toList) ≠ [] ∧
      l.data.toList = terminated engine rawMode (joinLineEnds raw.toList) ∧
      l.echo.toList = Text.dropBlankEnd (joinLineEnds raw.toList) := by
  obtain ⟨data, echo⟩ := l
  have hblank : Text.isBlank (String.ofList (joinLineEnds raw.toList)) = true ↔
      Text.dropBlankEnd (joinLineEnds raw.toList) = [] := by
    rw [Text.isBlank, String.toList_ofList, List.all_eq_true, Text.dropBlankEnd_eq_nil_iff]
  have hends : (String.ofList (joinLineEnds raw.toList)).endsWith "\n" = false ↔
      (joinLineEnds raw.toList).getLast? ≠ some '\n' := by
    rw [← Bool.not_eq_true, Text.endsWith_newline_iff, String.toList_ofList]
  unfold line?
  simp only [hblank, Text.trimEnd, String.toList_ofList]
  split
  · next hnil => simp [hnil]
  next hne =>
  rw [Option.some_inj, Line.mk.injEq, and_iff_right hne, ← String.toList_inj, ← String.toList_inj,
    eq_comm, eq_comm (b := echo.toList), String.toList_ofList]
  refine and_congr_left' (Eq.congr_right ?_)
  have hneeds : (!rawMode && LineEnd.ofEngine engine == .newline &&
      !(String.ofList (joinLineEnds raw.toList)).endsWith "\n") = true ↔
      terminates engine rawMode = true ∧ (joinLineEnds raw.toList).getLast? ≠ some '\n' := by
    rw [Bool.and_eq_true, Bool.not_eq_true', hends]
    rfl
  simp only [hneeds, terminated]
  split
  · rw [String.toList_append, String.toList_ofList]
    rfl
  · exact String.toList_ofList

theorem joined_terminated_iff {text : List Char} : Joined (terminated engine rawMode text) ↔
    Joined text ∧ ¬(terminates engine rawMode = true ∧ text.getLast? = some '\r') := by
  unfold terminated
  split
  · next h => simp [joined_append_newline, h.1]
  · next h =>
    rw [iff_self_and]
    rintro - ⟨hends, hreturn⟩
    exact h ⟨hends, by simp [hreturn]⟩

theorem dropBlankEnd_terminated (text : List Char) :
    Text.dropBlankEnd (terminated engine rawMode text) = Text.dropBlankEnd text := by
  unfold terminated
  split
  · exact Text.dropBlankEnd_append (List.forall_mem_singleton.2 (by decide)) text
  · rfl

theorem getLast?_terminated (h : terminates engine rawMode = true) (text : List Char) :
    (terminated engine rawMode text).getLast? = some '\n' := by
  unfold terminated
  split
  · exact List.getLast?_concat
  · next hnot => exact Decidable.not_not.1 fun hlast => hnot ⟨h, hlast⟩

/-- A text that ends as it should stays as it is. -/
theorem terminated_of_ends {text : List Char}
    (h : terminates engine rawMode = true → text.getLast? = some '\n') :
    terminated engine rawMode text = text :=
  if_neg fun hneeds => hneeds.2 (h hneeds.1)

/-! ## Normal form -/

/-- A line in normal form. -/
structure Line.Normal (l : Line) (engine : String) (rawMode : Bool) : Prop where
  data_joined : Joined l.data.toList
  echo_joined : Joined l.echo.toList
  echo_ne : l.echo ≠ ""
  echo_eq : l.echo = Text.trimEnd l.data
  /-- Outside raw mode all engines but one get a line feed at the end. -/
  ends : rawMode = false → Text.eqIgnoreCase (Text.trim engine) "codex" = false →
    l.data.endsWith "\n" = true
  /-- The line that is composed of the line is the line. -/
  stable : line? l.data engine rawMode = some l

namespace Line

theorem echo_toList (h : line? raw engine rawMode = some l) :
    l.echo.toList = Text.dropBlankEnd l.data.toList := by
  obtain ⟨-, hdata, hecho⟩ := line?_eq_some_iff.1 h
  rw [hdata, dropBlankEnd_terminated, hecho]

theorem echo_ne_empty (h : line? raw engine rawMode = some l) : l.echo ≠ "" := by
  obtain ⟨hne, -, hecho⟩ := line?_eq_some_iff.1 h
  rintro hempty
  rw [← hecho, hempty] at hne
  exact hne rfl

theorem echo_eq_trimEnd (h : line? raw engine rawMode = some l) :
    l.echo = Text.trimEnd l.data := by
  rw [Text.trimEnd, ← echo_toList h, String.ofList_toList]

theorem getLast?_data (h : line? raw engine rawMode = some l)
    (hends : terminates engine rawMode = true) : l.data.toList.getLast? = some '\n' := by
  obtain ⟨-, hdata, -⟩ := line?_eq_some_iff.1 h
  exact hdata ▸ getLast?_terminated hends _

/-- Composing a line once more changes nothing if and only if it has nothing to join. -/
theorem stable_iff (h : line? raw engine rawMode = some l) :
    line? l.data engine rawMode = some l ↔ Joined l.data.toList := by
  have hends : terminates engine rawMode = true →
      (joinLineEnds l.data.toList).getLast? = some '\n' := fun hterm => by
    rw [getLast?_joinLineEnds, getLast?_data h hterm]
  rw [← joinLineEnds_eq_self_iff, line?_eq_some_iff, terminated_of_ends hends]
  refine ⟨fun hsame => hsame.2.1.symm, fun hself => ?_⟩
  rw [hself, ← echo_toList h]
  exact ⟨fun hnil => echo_ne_empty h (String.toList_eq_nil_iff.1 hnil), rfl, rfl⟩

/-- A line is in normal form if and only if it has nothing to join. -/
theorem normal_iff_joined (h : line? raw engine rawMode = some l) :
    l.Normal engine rawMode ↔ Joined l.data.toList := by
  refine ⟨Normal.data_joined, fun hjoined => ?_⟩
  exact {
    data_joined := hjoined
    echo_joined := echo_toList h ▸ hjoined.of_isPrefix (Text.dropBlankEnd_isPrefix _)
    echo_ne := echo_ne_empty h
    echo_eq := echo_eq_trimEnd h
    ends := fun hmode hengine =>
      Text.endsWith_newline_iff.2 (getLast?_data h (terminates_iff.2 ⟨hmode, hengine⟩))
    stable := (stable_iff h).2 hjoined }

/-- A line has nothing to join if no line feed was typed behind two carriage returns, and
none is put behind one. -/
theorem joined_data_iff (h : line? raw engine rawMode = some l) : Joined l.data.toList ↔
    ¬['\r', '\r', '\n'] <:+: raw.toList ∧
      ¬(terminates engine rawMode = true ∧ raw.toList.getLast? = some '\r') := by
  obtain ⟨-, hdata, -⟩ := line?_eq_some_iff.1 h
  rw [hdata, joined_terminated_iff, joined_joinLineEnds_iff, getLast?_joinLineEnds]

end Line

/-- Whatever is typed, the echo of a line is not empty and is its data without the blanks at
its end, and the data end in a line feed where they should. The line is in normal form if and
only if no line feed stands behind two carriage returns and the text does not end in a
carriage return to which a line feed is added; and else composing the line again changes it. -/
theorem normal_iff (h : line? raw engine rawMode = some l) :
    (l.echo ≠ "" ∧ l.echo = Text.trimEnd l.data ∧
      (rawMode = false → Text.eqIgnoreCase (Text.trim engine) "codex" = false →
        l.data.endsWith "\n" = true)) ∧
    (l.Normal engine rawMode ↔
      ¬['\r', '\r', '\n'] <:+: raw.toList ∧
        ¬(rawMode = false ∧ Text.eqIgnoreCase (Text.trim engine) "codex" = false ∧
          raw.toList.getLast? = some '\r')) ∧
    (¬l.Normal engine rawMode → line? l.data engine rawMode ≠ some l) := by
  refine ⟨⟨Line.echo_ne_empty h, Line.echo_eq_trimEnd h, fun hmode hengine => ?_⟩, ?_, ?_⟩
  · exact Text.endsWith_newline_iff.2 (Line.getLast?_data h (terminates_iff.2 ⟨hmode, hengine⟩))
  · rw [Line.normal_iff_joined h, Line.joined_data_iff h, terminates_iff, and_assoc]
  · rw [Line.normal_iff_joined h]
    exact fun hnot hsame => hnot ((Line.stable_iff h).1 hsame)

/-- Line ends in the middle and at the end of a text, for an engine that takes lines. -/
theorem normal_iff_two_lines :
    line? "ls -la\r\npwd\r\n" "shell" false = some ⟨"ls -la\npwd\n", "ls -la\npwd"⟩ ∧
      Line.Normal ⟨"ls -la\npwd\n", "ls -la\npwd"⟩ "shell" false := by
  have h : line? "ls -la\r\npwd\r\n" "shell" false =
      some ⟨"ls -la\npwd\n", "ls -la\npwd"⟩ := by
    decide +kernel
  have hlast : "ls -la\r\npwd\r\n".toList.getLast? ≠ some '\r' := by decide
  exact ⟨h, (normal_iff h).2.1.2 ⟨by decide +kernel, fun hends => hlast hends.2.2⟩⟩

/-- A text that ends in a carriage return gets a line feed behind it, and loses the carriage
return when it is composed again. -/
theorem not_normal_of_return :
    line? "a\r" "shell" false = some ⟨"a\r\n", "a"⟩ ∧
      ¬Line.Normal ⟨"a\r\n", "a"⟩ "shell" false ∧
      line? "a\r\n" "shell" false = some ⟨"a\n", "a"⟩ := by
  have hinfix : ['\r', '\n'] <:+: "a\r\n".toList := by decide
  exact ⟨by decide +kernel, fun hnormal => hnormal.data_joined hinfix, by decide +kernel⟩

end RemoteSession.Composer
