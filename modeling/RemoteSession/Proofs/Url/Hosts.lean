import RemoteSession.Proofs.Url.Reading

/-!
# Hosts as they are written

A host that was read from a text is one of three forms (`Host.IsRead`), and each of them is
written back in its usual way. A name has none of the characters that mean something in an
address, an address of four octets is its octets in decimal (`Host.toList_ipv4Text`), and an
address of eight pieces is made of colons and hexadecimal digits
(`Host.isPieceChar_of_mem_ipv6Text`). Of these only the one of the own machine is written as
`::1` (`Host.ipv6Text_eq_iff`).
-/

namespace RemoteSession.Url

/-! ## Hosts of addresses -/

theorem host_of_hostAndPort {cs : List Char} {host : Host} {port : Option Nat}
    (h : hostAndPort .web cs = .ok (host, port)) : ∃ text, Host.parse text = .ok host := by
  simp only [hostAndPort] at h
  split at h
  · cases h
  split at h
  · next hfamily => exact absurd hfamily (by decide)
  obtain ⟨read, hparse, h⟩ := bind_eq_ok h
  refine ⟨_, hparse.trans (congrArg _ ?_)⟩
  split at h
  · cases h
    rfl
  split at h
  · cases h
  · obtain ⟨_, -, h⟩ := bind_eq_ok h
    cases h
    rfl

/-- User and host of an authority are read from a text each. -/
theorem of_readAuthority {cs tail : List Char} {user : String × Option String} {host : Host}
    {port : Option Nat} (h : readAuthority .web cs tail = .ok (user, host, port)) :
    (∃ text, user = userInfoOf text) ∧ ∃ text, Host.parse text = .ok host := by
  simp only [readAuthority] at h
  split at h
  · cases h
  · obtain ⟨⟨read, _⟩, hhost, h⟩ := bind_eq_ok h
    cases h
    exact ⟨⟨_, rfl⟩, host_of_hostAndPort hhost⟩

/-- The host of every address was read from some text. -/
theorem exists_host_of_parse {text : String} {url : Url} (h : parse text = .ok (.web url)) :
    ∃ hostText, Host.parse hostText = .ok url.host := by
  obtain ⟨_, _, _, _, _, _, hread⟩ := web_of_parse h
  obtain ⟨port, hauthority⟩ := hread.authority
  exact (of_readAuthority hauthority).2

/-- User name and password of every address were read from some text. -/
theorem exists_user_of_parse {text : String} {url : Url} (h : parse text = .ok (.web url)) :
    ∃ userText, (url.username, url.password) = userInfoOf userText := by
  obtain ⟨_, _, _, _, _, _, hread⟩ := web_of_parse h
  obtain ⟨port, hauthority⟩ := hread.authority
  exact (of_readAuthority hauthority).1

namespace Host

/-! ## Names -/

theorem not_isForbiddenInName_of_nameOf? {octets : List UInt8} {word : List Char}
    (h : nameOf? octets = some word) : ∀ c ∈ word, isForbiddenInName c = false := by
  simp only [nameOf?, Option.bind_eq_bind, Option.bind_eq_some_iff] at h
  obtain ⟨text, -, mapped, -, labels, -, h⟩ := h
  split at h
  · cases h
  · next hgood =>
    cases h
    intro c hc
    exact Bool.eq_false_iff.2 fun hbad => hgood (List.any_eq_true.2 ⟨c, hc, hbad⟩)

/-- What a host that was read from a text is, by its form. -/
inductive IsRead : Host → Prop where
  | name (word : String) : word ≠ "" → (∀ c ∈ word.toList, isForbiddenInName c = false) →
    IsRead (.name word)
  | ipv4 (address : Nat) : IsRead (.ipv4 address)
  | ipv6 (pieces : List Nat) : pieces.length = 8 → IsRead (.ipv6 pieces)

theorem length_of_ipv6Of? {text : List Char} {pieces : List Nat}
    (h : ipv6Of? text = some pieces) : pieces.length = 8 := by
  simp only [ipv6Of?, Option.bind_eq_bind, Option.bind_eq_some_iff] at h
  obtain ⟨fields, -, h⟩ := h
  split at h
  · simp only [Option.bind_eq_some_iff] at h
    obtain ⟨read, -, h⟩ := h
    split at h
    · next hlength =>
      cases h
      exact hlength
    · cases h
  · split at h
    · cases h
    simp only [Option.bind_eq_some_iff] at h
    obtain ⟨left, -, right, -, h⟩ := h
    split at h
    · cases h
      simp only [List.length_append, List.length_replicate]
      omega
    · cases h

theorem isRead_of_parse {text : List Char} {host : Host} (h : parse text = .ok host) :
    IsRead host := by
  unfold parse at h
  split at h
  · unfold ofBracketed at h
    split at h
    · next pieces hpieces =>
      cases h
      obtain ⟨_, -, hread⟩ := Option.bind_eq_some_iff.1 hpieces
      exact .ipv6 pieces (length_of_ipv6Of? hread)
    · cases h
  split at h
  · cases h
  · cases h
  · next word hne hname =>
    split at h
    · split at h
      · cases h
        exact .ipv4 _
      · cases h
    · cases h
      refine .name _ (fun hempty => hne (String.ofList_eq_empty_iff.1 hempty)) ?_
      rw [String.toList_ofList]
      exact not_isForbiddenInName_of_nameOf? hname

/-! ## Addresses of four octets -/

/-- An octet of an address, counted from the last. -/
def octet (address i : Nat) : Nat :=
  (address >>> (8 * i)) % 256

theorem octet_lt (address i : Nat) : octet address i < 256 :=
  Nat.mod_lt _ (by decide)

theorem toList_ipv4Text (address : Nat) :
    (ipv4Text address).toList =
      Nat.toDigits 10 (octet address 3) ++ '.' :: (Nat.toDigits 10 (octet address 2) ++
        '.' :: (Nat.toDigits 10 (octet address 1) ++
          '.' :: Nat.toDigits 10 (octet address 0))) := by
  simp [ipv4Text, octet]

/-! ## Addresses of eight pieces -/

/-- The characters of an address of eight pieces. -/
def isPieceChar (c : Char) : Bool :=
  c == ':' || (Text.hexValue? c).isSome

/-- A piece is written in digits of the base 16. -/
theorem hexValue?_of_mem_toDigits {n : Nat} {c : Char} (hc : c ∈ Nat.toDigits 16 n) :
    (Text.hexValue? c).isSome = true := by
  have hdigit : ∀ d < 16, (Text.hexValue? (Nat.digitChar d)).isSome = true := by decide
  induction n using Nat.strongRecOn with
  | ind n ih =>
    by_cases hlt : n < 16
    · rw [Nat.toDigits_of_lt_base hlt, List.mem_singleton] at hc
      rw [hc]
      exact hdigit n hlt
    · rw [Nat.toDigits_of_base_le (by decide) (Nat.le_of_not_lt hlt)] at hc
      rcases List.mem_append.1 hc with hc | hc
      · exact ih (n / 16) (by omega) hc
      · rw [List.mem_singleton.1 hc]
        exact hdigit _ (Nat.mod_lt _ (by decide))

theorem toList_piecesText_cons (n : Nat) (rest : List Nat) :
    (piecesText (n :: rest)).toList =
      Nat.toDigits 16 n ++ if rest = [] then [] else ':' :: (piecesText rest).toList := by
  have htext : ∀ pieces, (piecesText pieces).toList =
      [':'].intercalate (pieces.map (Nat.toDigits 16)) := fun pieces => by
    rw [piecesText, String.toList_intercalate, List.map_map]
    simp [Function.comp_def]
  rcases rest with _ | ⟨m, rest⟩
  · simp [htext]
  · rw [htext, htext, List.map_cons, List.map_cons, List.intercalate_cons_cons]
    simp

theorem isPieceChar_of_mem_piecesText {pieces : List Nat} {c : Char}
    (hc : c ∈ (piecesText pieces).toList) : isPieceChar c = true := by
  induction pieces with
  | nil => cases hc
  | cons n rest ih =>
    rw [toList_piecesText_cons] at hc
    rcases List.mem_append.1 hc with hc | hc
    · rw [isPieceChar, hexValue?_of_mem_toDigits hc, Bool.or_true]
    split at hc
    · cases hc
    rcases List.mem_cons.1 hc with rfl | hc
    · decide
    · exact ih hc

/-- Pieces begin with a digit. -/
theorem piecesText_append_ne (n : Nat) (rest : List Nat) (tail more : List Char) :
    (piecesText (n :: rest)).toList ++ tail ≠ ':' :: more := by
  obtain ⟨c, digits, hdigits⟩ := List.exists_cons_of_ne_nil (Nat.toDigits_ne_nil (b := 16) (n := n))
  have hc := hexValue?_of_mem_toDigits (n := n) (hdigits ▸ List.mem_cons_self)
  rw [toList_piecesText_cons, hdigits, List.cons_append, List.cons_append]
  intro heq
  rw [(List.cons.inj heq).1] at hc
  exact absurd hc (by decide)

theorem isPieceChar_of_mem_ipv6Text {pieces : List Nat} {c : Char}
    (hc : c ∈ (ipv6Text pieces).toList) : isPieceChar c = true := by
  simp only [ipv6Text] at hc
  split at hc
  · exact isPieceChar_of_mem_piecesText hc
  · rw [String.toList_append, String.toList_append] at hc
    rcases List.mem_append.1 hc with hc | hc
    · rcases List.mem_append.1 hc with hc | hc
      · exact isPieceChar_of_mem_piecesText hc
      · have hcolons : ∀ d ∈ "::".toList, isPieceChar d = true := by decide
        exact hcolons c hc
    · exact isPieceChar_of_mem_piecesText hc

/-- A run of zeros as the search for the longest one keeps it. -/
theorem longestRun_spec (pieces : List Nat) :
    (longestRun pieces).2 = 0 ∨
      (longestRun pieces).2 = zeroRun (pieces.drop (longestRun pieces).1) := by
  have hfold : ∀ (is : List Nat) (best : Nat × Nat),
      (best.2 = 0 ∨ best.2 = zeroRun (pieces.drop best.1)) →
      let found := is.foldl (fun best i =>
        let run := zeroRun (pieces.drop i)
        if run > best.2 then (i, run) else best) best
      found.2 = 0 ∨ found.2 = zeroRun (pieces.drop found.1) := by
    intro is
    induction is with
    | nil => exact fun _ h => h
    | cons i is ih =>
      intro best h
      refine ih _ ?_
      dsimp only
      split
      · exact .inr rfl
      · exact h
  exact hfold _ _ (.inl rfl)

/-- The address of the own machine. -/
def ownPieces : List Nat :=
  [0, 0, 0, 0, 0, 0, 0, 1]

theorem toDigits_eq_one {n : Nat} (h : Nat.toDigits 16 n = ['1']) : n = 1 := by
  by_cases hlt : n < 16
  · have hdigit : ∀ d < 16, [Nat.digitChar d] = ['1'] → d = 1 := by decide
    rw [Nat.toDigits_of_lt_base hlt] at h
    exact hdigit n hlt h
  · rw [Nat.toDigits_of_base_le (by decide) (Nat.le_of_not_lt hlt)] at h
    have hlength := congrArg List.length h
    have hpos := List.length_pos_iff.2 (Nat.toDigits_ne_nil (b := 16) (n := n / 16))
    simp only [List.length_append, List.length_singleton] at hlength
    omega

theorem piecesText_eq_one {pieces : List Nat} (h : (piecesText pieces).toList = ['1']) :
    pieces = [1] := by
  rcases pieces with _ | ⟨n, rest⟩
  · cases h
  rw [toList_piecesText_cons] at h
  by_cases hrest : rest = []
  · rw [if_pos hrest, List.append_nil] at h
    rw [hrest, toDigits_eq_one h]
  · have hcolon : ':' ∈ ['1'] := by
      rw [← h, if_neg hrest]
      exact List.mem_append_right _ List.mem_cons_self
    exact absurd hcolon (by decide)

/-- Zeros up to a last piece that is one are the address of the own machine. -/
theorem eq_ownPieces_of_drop {pieces : List Nat} (hlength : pieces.length = 8)
    (h : pieces.drop (zeroRun pieces) = [1]) : pieces = ownPieces := by
  have hzero : ∀ n ∈ pieces.takeWhile (· == 0), n = 0 := fun n hn => by
    simpa using List.all_eq_true.1 List.all_takeWhile n hn
  obtain ⟨rest, hrest⟩ := List.takeWhile_prefix (l := pieces) (· == 0)
  rw [zeroRun] at h
  generalize pieces.takeWhile (· == 0) = zeros at h hzero hrest
  rw [← hrest, List.drop_left] at h
  rw [← hrest, h, List.length_append] at hlength
  rw [← hrest, h, List.eq_replicate_iff.2 ⟨Nat.succ.inj hlength, hzero⟩]
  rfl

/-- What is written as `::1` is seven zeros and a one : there is nothing before the gap, so
that it begins with the pieces, and one piece after it. -/
theorem ipv6Text_eq_iff {pieces : List Nat} (hlength : pieces.length = 8) :
    (ipv6Text pieces).toList = "::1".toList ↔ pieces = ownPieces := by
  constructor
  · intro h
    have hone : "::1".toList = [':', ':', '1'] := by decide
    have hgap : "::".toList = [':', ':'] := by decide
    rw [hone] at h
    simp only [ipv6Text] at h
    have hspec := longestRun_spec pieces
    generalize longestRun pieces = longest at h hspec
    obtain ⟨start, run⟩ := longest
    simp only at h hspec
    split at h
    · obtain ⟨n, rest, rfl⟩ := List.exists_cons_of_ne_nil
        (List.ne_nil_of_length_pos (l := pieces) (by omega))
      exact absurd ((List.append_nil _).trans h) (piecesText_append_ne n rest [] _)
    next hrun =>
    rw [String.toList_append, String.toList_append, hgap] at h
    obtain rfl : start = 0 := by
      cases hbefore : pieces.take start with
      | nil =>
        rcases List.take_eq_nil_iff.1 hbefore with hzero | hnil
        · exact hzero
        · rw [hnil] at hlength
          cases hlength
      | cons n rest =>
        rw [hbefore, List.append_assoc] at h
        exact absurd h (piecesText_append_ne n rest _ _)
    rw [List.take_zero, Nat.zero_add] at h
    have hafter : (piecesText (pieces.drop run)).toList = ['1'] := by
      simpa [piecesText] using h
    obtain rfl : run = zeroRun pieces := hspec.resolve_left (by omega)
    exact eq_ownPieces_of_drop hlength (piecesText_eq_one hafter)
  · rintro rfl
    decide

end Host

end RemoteSession.Url
