/-!
# Blank characters

The blanks are the characters with the property `White_Space`. `trim` removes
them from both ends of a text and `isBlank` tells whether nothing else is in
it. `dropBlankEnd_append_dropped` says that trimming loses blanks only, and
`dropBlank_eq_nil_iff` that a text trims to nothing exactly when it is blank.
-/

namespace RemoteSession.Text

/-- The property `White_Space`: tabs and line ends, the spaces of every width,
and neither joiners nor marks without width. -/
def isBlankChar (c : Char) : Bool :=
  let n := c.toNat
  (0x09 ≤ n && n ≤ 0x0D) || n == 0x20 || n == 0x85 || n == 0xA0 || n == 0x1680 ||
    (0x2000 ≤ n && n ≤ 0x200A) || n == 0x2028 || n == 0x2029 || n == 0x202F ||
    n == 0x205F || n == 0x3000

/-- The characters from the first one that is no blank. -/
def dropBlank (cs : List Char) : List Char :=
  cs.dropWhile isBlankChar

/-- The characters up to the last one that is no blank. -/
def dropBlankEnd (cs : List Char) : List Char :=
  (dropBlank cs.reverse).reverse

/-- A text without the blanks at its end. -/
def trimEnd (s : String) : String :=
  String.ofList (dropBlankEnd s.toList)

/-- A text without the blanks at its start. -/
def trimStart (s : String) : String :=
  String.ofList (dropBlank s.toList)

/-- A text without the blanks at either end. -/
def trim (s : String) : String :=
  String.ofList (dropBlankEnd (dropBlank s.toList))

/-- A text of blanks only. -/
def isBlank (s : String) : Bool :=
  s.toList.all isBlankChar

/-- Trimming the end takes a run of blanks away and nothing else. -/
theorem dropBlankEnd_append_dropped (cs : List Char) :
    dropBlankEnd cs ++ (cs.reverse.takeWhile isBlankChar).reverse = cs := by
  unfold dropBlankEnd dropBlank
  rw [← List.reverse_append, List.takeWhile_append_dropWhile, List.reverse_reverse]

/-- A text trims to nothing exactly when all of it is blank. -/
theorem dropBlank_eq_nil_iff (cs : List Char) :
    dropBlank cs = [] ↔ ∀ c ∈ cs, isBlankChar c = true := by
  induction cs with
  | nil => simp [dropBlank]
  | cons c r ih =>
    by_cases h : isBlankChar c = true
    · rw [show dropBlank (c :: r) = dropBlank r by simp [dropBlank, h], ih]
      simp [h]
    · simp [dropBlank, h]

/-- Letters of the Latin alphabet `A`–`Z` in lower case; all else stays. -/
def lowerAscii (s : String) : String :=
  s.map Char.toLower

/-- Equality up to the case of `A`–`Z`. -/
def eqIgnoreCase (a b : String) : Bool :=
  lowerAscii a == lowerAscii b

end RemoteSession.Text
