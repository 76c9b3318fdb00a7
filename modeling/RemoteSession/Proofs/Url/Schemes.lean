import Mathlib.Data.List.DropRight
import RemoteSession.Proofs.Toml.Integers
import RemoteSession.Proofs.Url.Hosts

/-!
# The scheme that a base gets

A base without a scheme gets one by the characters that it begins with, before it is read
as an address. Where these are the host in its usual form, the scheme is plain exactly for
the hosts of the own machine and of private networks, except that some names begin as such
hosts do. A base that begins otherwise gets the secure scheme
(`Endpoint.plain_iff_isLocal`). So a user before the host, such a name, or an address
written with fewer numbers or other digits may be taken for a local host
(`Endpoint.plain_of_name`).
-/

namespace RemoteSession

/-- Whether a host is of the own machine or of a private network. -/
def Url.Host.isLocal : Url.Host → Bool
  | .name word => word == "localhost"
  | .ipv4 address =>
    let first := octet address 3
    let second := octet address 2
    first == 127 || [3, 2, 1, 0].all (octet address · == 0) || first == 10 ||
      (first == 192 && second == 168) || (first == 172 && 16 ≤ second && second < 32)
  | .ipv6 pieces => pieces == ownPieces

namespace Endpoint

/-! ## Starts of texts -/

theorem afterStart?_eq_some_iff {start cs rest : List Char} :
    afterStart? start cs = some rest ↔ cs = start ++ rest := by
  induction start generalizing cs with
  | nil => simp [afterStart?]
  | cons a start ih =>
    cases cs with
    | nil => simp [afterStart?]
    | cons b cs =>
      rw [afterStart?]
      split
      · next heq =>
        subst heq
        simp [ih]
      · next hne => simp [Ne.symm hne]

theorem startsWith_iff {cs : List Char} {start : String} :
    startsWith cs start = true ↔ start.toList <+: cs := by
  rw [startsWith, Option.isSome_iff_exists]
  constructor
  · rintro ⟨rest, h⟩
    exact ⟨rest, (afterStart?_eq_some_iff.1 h).symm⟩
  · rintro ⟨rest, rfl⟩
    exact ⟨rest, afterStart?_eq_some_iff.2 rfl⟩

theorem holds_iff {mark : String} {cs : List Char} :
    holds mark cs = true ↔ mark.toList <:+: cs := by
  induction cs with
  | nil => rw [holds, startsWith_iff, List.infix_nil, List.prefix_nil]
  | cons c rest ih => rw [holds, Bool.or_eq_true, startsWith_iff, ih, List.infix_cons_iff]

theorem infix_trimBase (base : String) : trimBase base <:+: base.toList := by
  unfold trimBase dropSlashes Text.trim Text.dropBlankEnd
  rw [String.toList_ofList]
  change List.rdropWhile _ (List.rdropWhile _ (List.dropWhile _ _)) <:+: _
  exact ((List.rdropWhile_prefix _ _).trans (List.rdropWhile_prefix _ _)).isInfix.trans
    (List.dropWhile_suffix _).isInfix

/-! ## The scheme of the address -/

/-- What is put before a base is neither trimmed nor left out. -/
theorem significant_append {start : List Char} (hne : start ≠ [])
    (hstart : ∀ c ∈ start, 0x20 < c.toNat ∧ Url.isIgnored c = false) (base : List Char) :
    ∃ rest, Url.significant (String.ofList (start ++ base)) = start ++ rest := by
  have hedge : ∀ c ∈ start, ¬decide (c.toNat ≤ 0x20) = true := fun c hc => by
    simpa using (hstart c hc).1
  have hkept : start.filter (!Url.isIgnored ·) = start :=
    List.filter_eq_self.2 fun c hc => by rw [(hstart c hc).2, Bool.not_false]
  have hfirst : ∀ more, (start ++ more).dropWhile (fun c => decide (c.toNat ≤ 0x20)) =
      start ++ more := fun more => by
    obtain ⟨c, cs, rfl⟩ := List.exists_cons_of_ne_nil hne
    exact List.dropWhile_cons_of_neg (hedge c List.mem_cons_self)
  have hlast : start.reverse.dropWhile (fun c => decide (c.toNat ≤ 0x20)) = start.reverse := by
    obtain ⟨c, cs, hcs⟩ := List.exists_cons_of_ne_nil (List.reverse_ne_nil_iff.2 hne)
    rw [hcs]
    exact List.dropWhile_cons_of_neg (hedge c (List.mem_reverse.1 (hcs ▸ List.mem_cons_self)))
  simp only [Url.significant, String.toList_ofList, hfirst, List.reverse_append,
    List.dropWhile_append, hlast]
  split
  · exact ⟨[], by rw [List.reverse_reverse, hkept, List.append_nil]⟩
  · exact ⟨_, by rw [List.reverse_append, List.reverse_reverse, List.filter_append, hkept]⟩

theorem scheme?_append (first : Char) (word : List Char) (hfirst : first.isAlpha = true)
    (hword : ∀ c ∈ first :: word, Url.isSchemeChar c = true) (rest : List Char) :
    Url.scheme? (first :: word ++ ':' :: rest) =
      some (String.ofList ((first :: word).map Char.toLower), rest) := by
  have hcolon : ¬Url.isSchemeChar ':' = true := by decide
  rw [List.cons_append, Url.scheme?, if_pos hfirst, ← List.cons_append,
    List.dropWhile_append_of_pos hword, List.dropWhile_cons_of_neg hcolon,
    List.takeWhile_append_of_pos hword, List.takeWhile_cons_of_neg hcolon, List.append_nil]
  rfl

/-- The names that a scheme may have : a letter, and more letters, digits and marks. -/
def IsSchemeName (name : List Char) : Prop :=
  name.head?.any Char.isAlpha = true ∧ ∀ c ∈ name, Url.isSchemeChar c = true

instance (name : List Char) : Decidable (IsSchemeName name) :=
  inferInstanceAs (Decidable (_ ∧ _))

theorem IsSchemeName.ne_nil {name : List Char} (h : IsSchemeName name) : name ≠ [] := by
  rintro rfl
  cases h.1

theorem IsSchemeName.notMem {name : List Char} (h : IsSchemeName name) {c : Char}
    (hc : Url.isSchemeChar c = false) : c ∉ name := fun hmem =>
  Text.ne_of_test (h.2 c hmem) hc rfl

/-- In the name of a scheme is nothing that an address leaves out. -/
theorem IsSchemeName.significant {name : List Char} (h : IsSchemeName name) :
    ∀ c ∈ name, 0x20 < c.toNat ∧ Url.isIgnored c = false := by
  have hlow : ∀ c : Char, c.toNat < 0x21 → Url.isSchemeChar c = false :=
    Text.forall_of_toNat_lt (by decide)
  have hkept : ∀ c : Char, Url.isIgnored c = true → c.toNat < 0x21 := fun c hc => by
    simp only [Url.isIgnored, Bool.or_eq_true, beq_iff_eq] at hc
    rcases hc with (rfl | rfl) | rfl <;> decide
  intro c hc
  have hhigh : 0x20 < c.toNat := by
    by_contra hle
    exact h.notMem (hlow c (by omega)) hc
  exact ⟨hhigh, Bool.eq_false_iff.2 fun hignored => by have := hkept c hignored; omega⟩

/-- The name of a scheme before a base is read in lower case, and the base with what belongs
to its address. -/
theorem scheme?_written {name : List Char} (hname : IsSchemeName name) (base : List Char) :
    ∃ rest, Url.scheme? (Url.significant (String.ofList
      (name ++ schemeMark.toList ++ base))) =
        some (String.ofList (name.map Char.toLower), rest) := by
  have hmark : ∀ c ∈ schemeMark.toList, 0x20 < c.toNat ∧ Url.isIgnored c = false := by decide
  obtain ⟨rest, hrest⟩ := significant_append
    (List.append_ne_nil_of_left_ne_nil hname.ne_nil schemeMark.toList)
    (fun c hc => (List.mem_append.1 hc).elim (hname.significant c) (hmark c)) base
  obtain ⟨first, more, rfl⟩ := List.exists_cons_of_ne_nil hname.ne_nil
  refine ⟨"//".toList ++ rest, ?_⟩
  rw [hrest, List.append_assoc]
  exact scheme?_append first more (by simpa using hname.1) hname.2 _

theorem ofWord?_word (scheme : Url.Scheme) : Url.Scheme.ofWord? scheme.word = some scheme := by
  cases scheme <;> decide

theorem word_of_ofWord? {word : String} {scheme : Url.Scheme}
    (h : Url.Scheme.ofWord? word = some scheme) : scheme.word = word := by
  unfold Url.Scheme.ofWord? at h
  repeat' split at h
  all_goals cases h
  all_goals next hword => exact hword.symm

/-- An endpoint whose base is read with the name of a scheme before it has this scheme. -/
theorem word_of_new {base : String} {token : Option String} {e : Endpoint} {name rest : List Char}
    (hname : IsSchemeName name)
    (hbase : withScheme (trimBase base) = name ++ schemeMark.toList ++ rest)
    (h : Endpoint.new base token = .ok e) :
    e.baseUrl.scheme.word = String.ofList (name.map Char.toLower) := by
  obtain ⟨word, more, authority, tail, path, hword, hread⟩ := Url.web_of_parse (parse_of_new h).1
  obtain ⟨after, hafter⟩ := scheme?_written hname rest
  rw [hbase, hafter] at hword
  obtain ⟨rfl, -⟩ := Prod.mk.inj (Option.some.inj hword)
  exact word_of_ofWord? hread.scheme

/-- A base in which nothing marks a scheme gets one by the characters that it begins
with. -/
theorem scheme_of_guess {base : String} {token : Option String} {e : Endpoint}
    (hbase : ¬holds schemeMark (trimBase base) = true) (h : Endpoint.new base token = .ok e) :
    e.baseUrl.scheme = if looksLocal (hostPart (trimBase base)) then .http else .https := by
  have hinfer : inferScheme (trimBase base) =
      (if looksLocal (hostPart (trimBase base)) then Url.Scheme.http else .https).word.toList ++
        schemeMark.toList := by
    unfold inferScheme
    split <;> rfl
  generalize (if looksLocal (hostPart (trimBase base)) then Url.Scheme.http else .https) = scheme
    at hinfer ⊢
  have hname : IsSchemeName scheme.word.toList := by cases scheme <;> decide
  have hword := word_of_new hname (by rw [withScheme, if_neg hbase, hinfer]) h
  have hlower : String.ofList (scheme.word.toList.map Char.toLower) = scheme.word := by
    cases scheme <;> decide
  have hsame := congrArg Url.Scheme.ofWord? (hword.trans hlower)
  rw [ofWord?_word, ofWord?_word] at hsame
  exact Option.some.inj hsame

/-- A base without a scheme gets one by the characters that it begins with. -/
theorem scheme_of_new {base : String} {token : Option String} {e : Endpoint}
    (hbase : ¬schemeMark.toList <:+: base.toList) (h : Endpoint.new base token = .ok e) :
    e.baseUrl.scheme = if looksLocal (hostPart (trimBase base)) then .http else .https :=
  scheme_of_guess (fun hholds => hbase ((holds_iff.1 hholds).trans (infix_trimBase base))) h

/-! ## The host at the start of a base -/

/-- Whether a character ends a host. -/
def isHostEnd (c : Char) : Bool :=
  [':', '/', '?', '#', '\\'].contains c

/-- What follows a host : nothing, or something that begins with what ends it. -/
def EndsHost (rest : List Char) : Prop :=
  ∀ c ∈ rest.head?, isHostEnd c = true

/-- A base begins with a host in its usual form, in whatever case. -/
def BeginsWith (base : List Char) (host : Url.Host) : Prop :=
  ∃ rest, base.map Char.toLower = host.text.toList ++ rest ∧ EndsHost rest

theorem EndsHost.mono {rest more : List Char} (h : EndsHost rest) (hmore : more <+: rest) :
    EndsHost more := by
  obtain ⟨after, rfl⟩ := hmore
  cases more with
  | nil => intro c hc; cases hc
  | cons c more => exact h

/-- What holds nothing that ends a host is no longer than the host that it begins. -/
theorem prefix_append_iff {start host more : List Char} (hstart : ∀ c ∈ start, isHostEnd c = false)
    (hmore : EndsHost more) : start <+: host ++ more ↔ start <+: host := by
  induction start generalizing host with
  | nil => simp
  | cons a start ih =>
    cases host with
    | nil =>
      cases more with
      | nil => rfl
      | cons c more =>
        rw [List.nil_append, List.cons_prefix_cons, List.prefix_nil]
        refine iff_of_false (fun h => ?_) (List.cons_ne_nil _ _)
        have hc := hmore c rfl
        rw [← h.1, hstart a List.mem_cons_self] at hc
        cases hc
    | cons b host =>
      rw [List.cons_append, List.cons_prefix_cons, List.cons_prefix_cons,
        ih fun c hc => hstart c (List.mem_cons_of_mem a hc)]

/-- Only a letter is another one in lower case, and this is a letter too. -/
theorem toLower_eq_iff {c d : Char} (hcapital : d.toNat < 0x41 ∨ 0x5A < d.toNat)
    (hsmall : d.toNat < 0x61 ∨ 0x7A < d.toNat) : c.toLower = d ↔ c = d := by
  delta Char.toLower
  split
  · next h =>
    have hleast : 0x41 ≤ c.toNat := UInt32.le_iff_toNat_le.1 h.1
    have hmost : c.toNat ≤ 0x5A := UInt32.le_iff_toNat_le.1 h.2
    constructor
    · rintro rfl
      have hnat : (c.val + ('a'.val - 'A'.val)).toNat = c.toNat + 0x20 := by
        rw [UInt32.toNat_add]
        exact Nat.mod_eq_of_lt (by change c.toNat + 0x20 < 2 ^ 32; omega)
      change (c.val + ('a'.val - 'A'.val)).toNat < 0x61 ∨ _ < (c.val + _).toNat at hsmall
      omega
    · rintro rfl
      omega
  · rfl

theorem hostPart_eq (base : List Char) :
    hostPart base = (((base.map Char.toLower).takeWhile (· != '/')).dropWhile (· == '[')).takeWhile
      (· != ']') := by
  have hpass : ∀ d ∈ ['/', '[', ']'], ∀ c : Char, (c.toLower == d) = (c == d) := fun d hd c => by
    have hcode : ∀ d ∈ ['/', '[', ']'], (d.toNat < 0x41 ∨ 0x5A < d.toNat) ∧
        (d.toNat < 0x61 ∨ 0x7A < d.toNat) := by decide
    rw [Bool.eq_iff_iff, beq_iff_eq, beq_iff_eq, toLower_eq_iff (hcode d hd).1 (hcode d hd).2]
  have hslash : (· != '/') ∘ Char.toLower = (· != '/') :=
    funext fun c => congrArg (!·) (hpass '/' (by decide) c)
  have hopen : (· == '[') ∘ Char.toLower = (· == '[') :=
    funext fun c => hpass '[' (by decide) c
  have hclose : (· != ']') ∘ Char.toLower = (· != ']') :=
    funext fun c => congrArg (!·) (hpass ']' (by decide) c)
  rw [hostPart, List.takeWhile_map, List.dropWhile_map, List.takeWhile_map, hslash, hopen, hclose]

/-- What stands for the host begins the base, apart from brackets. -/
theorem hostPart_begins (base : List Char) :
    hostPart base <+: (base.map Char.toLower).dropWhile (· == '[') := by
  have hdrop : ∀ cs : List Char,
      (cs.takeWhile (· != '/')).dropWhile (· == '[') <+: cs.dropWhile (· == '[') := fun cs => by
    induction cs with
    | nil => exact List.prefix_rfl
    | cons c cs ih =>
      by_cases hopen : c = '['
      · subst hopen
        exact ih
      · have hkept : ∀ more, (c :: more).dropWhile (· == '[') = c :: more := fun more =>
          List.dropWhile_cons_of_neg (by simpa using hopen)
        rw [hkept, List.takeWhile_cons]
        split
        · rw [hkept]
          exact List.cons_prefix_cons.2 ⟨rfl, List.takeWhile_prefix _⟩
        · exact List.nil_prefix
  rw [hostPart_eq]
  exact (List.takeWhile_prefix _).trans (hdrop _)

theorem dropWhile_bracket {host : List Char} (hhost : '[' ∉ host) (rest : List Char)
    (hrest : rest.head? ≠ some '[') :
    (host ++ rest).dropWhile (· == '[') = host ++ rest := by
  cases host with
  | nil =>
    cases rest with
    | nil => rfl
    | cons c rest =>
      exact List.dropWhile_cons_of_neg fun hc => hrest (congrArg some (beq_iff_eq.1 hc))
  | cons c host =>
    exact List.dropWhile_cons_of_neg fun hc => hhost (beq_iff_eq.1 hc ▸ List.mem_cons_self)

/-- A host without brackets at the start of a base is what stands for it there, apart from
what follows it. -/
theorem hostPart_of_bare {base host rest : List Char} (hbase : base.map Char.toLower = host ++ rest)
    (hhost : ∀ c ∈ host, c ≠ '/' ∧ c ≠ '[' ∧ c ≠ ']') (hrest : EndsHost rest) :
    ∃ more, hostPart base = host ++ more ∧ EndsHost more := by
  have htake : rest.takeWhile (· != '/') <+: rest := List.takeWhile_prefix _
  refine ⟨(rest.takeWhile (· != '/')).takeWhile (· != ']'), ?_,
    hrest.mono ((List.takeWhile_prefix _).trans htake)⟩
  have hfirst : (rest.takeWhile (· != '/')).head? ≠ some '[' := fun h =>
    absurd (hrest.mono htake '[' h) (by decide)
  rw [hostPart_eq, hbase, List.takeWhile_append_of_pos fun c hc => bne_iff_ne.2 (hhost c hc).1,
    dropWhile_bracket (fun hc => (hhost '[' hc).2.1 rfl) _ hfirst,
    List.takeWhile_append_of_pos fun c hc => bne_iff_ne.2 (hhost c hc).2.2]

/-- A host in brackets at the start of a base is what stands for it there. -/
theorem hostPart_of_brackets {base host rest : List Char}
    (hbase : base.map Char.toLower = '[' :: (host ++ ']' :: rest))
    (hhost : ∀ c ∈ host, c ≠ '/' ∧ c ≠ '[' ∧ c ≠ ']') : hostPart base = host := by
  rw [hostPart_eq, hbase, List.takeWhile_cons_of_pos (by decide),
    List.takeWhile_append_of_pos fun c hc => bne_iff_ne.2 (hhost c hc).1,
    List.takeWhile_cons_of_pos (by decide), List.dropWhile_cons_of_pos (by decide),
    dropWhile_bracket (fun hc => (hhost '[' hc).2.1 rfl) _ (by simp),
    List.takeWhile_append_of_pos fun c hc => bne_iff_ne.2 (hhost c hc).2.2,
    List.takeWhile_cons_of_neg (by decide), List.append_nil]

/-! ## What looks local -/

/-- The starts by which a host counts as one of the own machine or of a private network,
apart from those of the second private network. -/
def localStarts : List String :=
  ["localhost", "127.", "0.0.0.0", "10.", "192.168."]

theorem looksLocal_iff {cs : List Char} : looksLocal cs = true ↔
    (∃ start ∈ localStarts, start.toList <+: cs) ∨ cs = "::1".toList ∨ isPrivate172 cs = true := by
  simp only [looksLocal, Bool.or_eq_true, startsWith_iff, beq_iff_eq, localStarts,
    List.mem_cons, List.not_mem_nil, or_false, exists_eq_or_imp, exists_eq_left]
  grind

theorem isPrivate172_iff {cs : List Char} : isPrivate172 cs = true ↔
    ∃ rest value, cs = "172.".toList ++ rest ∧ octet? (rest.takeWhile (· != '.')) = some value ∧
      16 ≤ value ∧ value < 32 := by
  constructor
  · intro h
    unfold isPrivate172 at h
    split at h
    · next value hvalue =>
      obtain ⟨rest, hrest, hoctet⟩ := Option.bind_eq_some_iff.1 hvalue
      rw [Bool.and_eq_true, decide_eq_true_iff, decide_eq_true_iff] at h
      exact ⟨rest, value, afterStart?_eq_some_iff.1 hrest, hoctet, h⟩
    · cases h
  · rintro ⟨rest, value, rfl, hoctet, hrange⟩
    rw [isPrivate172, afterStart?_eq_some_iff.2 rfl, Option.bind_some, hoctet]
    simpa using hrange

/-- What looks local begins as a host of the own machine or of a private network does. -/
theorem exists_start_of_looksLocal {cs : List Char} (h : looksLocal cs = true) :
    ∃ start ∈ "::1" :: "172." :: localStarts, start.toList <+: cs := by
  rcases looksLocal_iff.1 h with ⟨start, hstart, hbegin⟩ | rfl | hprivate
  · exact ⟨start, List.mem_cons_of_mem _ (List.mem_cons_of_mem _ hstart), hbegin⟩
  · exact ⟨"::1", List.mem_cons_self, List.prefix_rfl⟩
  · obtain ⟨rest, -, heq, -⟩ := isPrivate172_iff.1 hprivate
    exact ⟨"172.", List.mem_cons_of_mem _ List.mem_cons_self, rest, heq.symm⟩

/-- The names that begin as a host of the own machine or of a private network does, without
being the name of the own machine. -/
def IsMistakable : Url.Host → Prop
  | .name word => word ≠ "localhost" ∧ ∃ start ∈ "172." :: localStarts, start.toList <+: word.toList
  | _ => False

theorem looksLocal_name {word : String} {more : List Char} (hne : word ≠ "")
    (hword : ∀ c ∈ word.toList, Url.Host.isForbiddenInName c = false) (hmore : EndsHost more)
    (hmistakable : ¬IsMistakable (.name word)) :
    looksLocal (word.toList ++ more) = Url.Host.isLocal (.name word) := by
  have hstarts : ∀ start ∈ "172." :: localStarts, ∀ c ∈ start.toList, isHostEnd c = false := by
    decide
  have hown : ∀ start ∈ "172." :: localStarts, start.toList <+: word.toList ++ more →
      word = "localhost" := fun start hstart hbegin => by
    by_contra hother
    exact hmistakable ⟨hother, start, hstart,
      (prefix_append_iff (hstarts start hstart) hmore).1 hbegin⟩
  rw [Bool.eq_iff_iff, Url.Host.isLocal, beq_iff_eq]
  constructor
  · intro h
    obtain ⟨start, hstart, hbegin⟩ := exists_start_of_looksLocal h
    rcases List.mem_cons.1 hstart with rfl | hstart
    · obtain ⟨c, cs, hcs⟩ := List.exists_cons_of_ne_nil (mt String.toList_eq_nil_iff.1 hne)
      have hc := hword c (hcs ▸ List.mem_cons_self)
      rw [hcs, List.cons_append] at hbegin
      obtain rfl : ':' = c := (List.cons_prefix_cons.1 hbegin).1
      cases hc
    · exact hown start hstart hbegin
  · rintro rfl
    exact looksLocal_iff.2 (.inl ⟨"localhost", by decide, List.prefix_append _ _⟩)

/-! ## Addresses of four octets -/

theorem toDigits_injective {m n : Nat} (h : Nat.toDigits 10 m = Nat.toDigits 10 n) : m = n := by
  rw [← Nat.ofDigitChars_ten_toDigits (n := m), h, Nat.ofDigitChars_ten_toDigits]

theorem dot_notMem_toDigits (n : Nat) : '.' ∉ Nat.toDigits 10 n := fun h =>
  absurd (Toml.all_isDigit_toDigits n '.' h) (by decide)

/-- The texts before the first dot begin each other only if they are the same. -/
theorem dotted_prefix_iff {xs ys : List Char} (hxs : '.' ∉ xs) (hys : '.' ∉ ys)
    {rest more : List Char} :
    xs ++ '.' :: rest <+: ys ++ '.' :: more ↔ xs = ys ∧ rest <+: more := by
  induction xs generalizing ys with
  | nil =>
    cases ys with
    | nil => simp
    | cons y ys =>
      simp only [List.nil_append, List.cons_append, List.cons_prefix_cons]
      refine iff_of_false (fun h => hys (h.1 ▸ List.mem_cons_self)) (fun h => ?_)
      cases h.1
  | cons x xs ih =>
    cases ys with
    | nil =>
      simp only [List.nil_append, List.cons_append, List.cons_prefix_cons]
      refine iff_of_false (fun h => hxs (h.1 ▸ List.mem_cons_self)) (fun h => ?_)
      cases h.1
    | cons y ys =>
      simp only [List.cons_append, List.cons_prefix_cons, List.cons.injEq, and_assoc,
        ih (fun h => hxs (List.mem_cons_of_mem x h)) (fun h => hys (List.mem_cons_of_mem y h))]

theorem octet_prefix_iff {m n : Nat} {rest more : List Char} :
    Nat.toDigits 10 m ++ '.' :: rest <+: Nat.toDigits 10 n ++ '.' :: more ↔
      m = n ∧ rest <+: more := by
  rw [dotted_prefix_iff (dot_notMem_toDigits m) (dot_notMem_toDigits n)]
  exact and_congr_left fun _ => ⟨toDigits_injective, congrArg _⟩

theorem zero_prefix_iff {n : Nat} {more : List Char} :
    ['0'] <+: Nat.toDigits 10 n ++ more ↔ n = 0 := by
  rcases Toml.toDigits_cases n with rfl | ⟨c, cs, hcs, hne⟩
  · exact iff_of_true ⟨more, rfl⟩ rfl
  · rw [hcs, List.cons_append, List.cons_prefix_cons]
    refine iff_of_false (fun h => hne h.1.symm) ?_
    rintro rfl
    exact hne (List.cons.inj hcs).1.symm

theorem octet?_toDigits {n : Nat} (hn : n < 256) : octet? (Nat.toDigits 10 n) = some n := by
  obtain ⟨c, cs, hcs⟩ := List.exists_cons_of_ne_nil (Nat.toDigits_ne_nil (b := 10) (n := n))
  have hall : (Nat.toDigits 10 n).all Char.isDigit = true :=
    List.all_eq_true.2 (Toml.all_isDigit_toDigits n)
  have hplus : c ≠ '+' := by
    rintro rfl
    exact absurd (Toml.all_isDigit_toDigits n '+' (hcs ▸ List.mem_cons_self)) (by decide)
  have hvalue := Nat.ofDigitChars_ten_toDigits (n := n)
  rw [hcs] at hall hvalue ⊢
  rw [octet?]
  · simp only [hall, hvalue]
    exact if_neg (by simpa using Nat.le_of_lt_succ hn)
  · exact fun _ heq => hplus (List.cons.inj heq).1

theorem isPrivate172_dotted {m n : Nat} (hn : n < 256) (rest : List Char) :
    isPrivate172 (Nat.toDigits 10 m ++ '.' :: (Nat.toDigits 10 n ++ '.' :: rest)) = true ↔
      m = 172 ∧ 16 ≤ n ∧ n < 32 := by
  have hstart : "172.".toList = Nat.toDigits 10 172 ++ '.' :: [] := by decide
  have htake : (Nat.toDigits 10 n ++ '.' :: rest).takeWhile (· != '.') = Nat.toDigits 10 n := by
    have hdigits : ∀ c ∈ Nat.toDigits 10 n, (c != '.') = true := fun c hc => by
      rw [bne_iff_ne]
      rintro rfl
      exact dot_notMem_toDigits n hc
    rw [List.takeWhile_append_of_pos hdigits, List.takeWhile_cons_of_neg (by decide),
      List.append_nil]
  rw [isPrivate172_iff]
  constructor
  · rintro ⟨after, value, heq, hvalue, hrange⟩
    have hbegin :
        "172.".toList <+: Nat.toDigits 10 m ++ '.' :: (Nat.toDigits 10 n ++ '.' :: rest) :=
      ⟨after, heq.symm⟩
    rw [hstart] at hbegin
    obtain rfl : m = 172 := (octet_prefix_iff.1 hbegin).1.symm
    rw [hstart, List.append_assoc] at heq
    obtain rfl := (List.cons.inj (List.append_cancel_left heq)).2
    rw [htake, octet?_toDigits hn] at hvalue
    obtain rfl := Option.some.inj hvalue
    exact ⟨rfl, hrange⟩
  · rintro ⟨rfl, hrange⟩
    exact ⟨Nat.toDigits 10 n ++ '.' :: rest, n, by rw [hstart, List.append_assoc]; rfl,
      by rw [htake, octet?_toDigits hn], hrange⟩

/-- Only a digit begins the digits of a number. -/
theorem isDigit_of_append {n : Nat} {c : Char} {more rest : List Char}
    (h : c :: rest = Nat.toDigits 10 n ++ more) : c.isDigit = true := by
  obtain ⟨d, ds, hds⟩ := List.exists_cons_of_ne_nil (Nat.toDigits_ne_nil (b := 10) (n := n))
  rw [hds, List.cons_append] at h
  obtain ⟨rfl, -⟩ := List.cons.inj h
  exact Toml.all_isDigit_toDigits n c (hds ▸ List.mem_cons_self)

/-- The starts of hosts that octets in decimal begin with. -/
theorem localStarts_dotted {a b c d : Nat} {more : List Char} :
    (∃ start ∈ localStarts, start.toList <+: Nat.toDigits 10 a ++ '.' :: (Nat.toDigits 10 b ++
      '.' :: (Nat.toDigits 10 c ++ '.' :: (Nat.toDigits 10 d ++ more)))) ↔
      a = 127 ∨ (a = 0 ∧ b = 0 ∧ c = 0 ∧ d = 0) ∨ a = 10 ∨ (a = 192 ∧ b = 168) := by
  have hname : ∀ n rest, ¬"localhost".toList <+: Nat.toDigits 10 n ++ rest := fun n rest h => by
    obtain ⟨after, h⟩ := h
    exact absurd (isDigit_of_append (c := 'l') h) (by decide)
  have h127 : "127.".toList = Nat.toDigits 10 127 ++ '.' :: [] := by decide
  have h0 : "0.0.0.0".toList = Nat.toDigits 10 0 ++ '.' ::
      (Nat.toDigits 10 0 ++ '.' :: (Nat.toDigits 10 0 ++ '.' :: ['0'])) := by decide
  have h10 : "10.".toList = Nat.toDigits 10 10 ++ '.' :: [] := by decide
  have h192 : "192.168.".toList =
      Nat.toDigits 10 192 ++ '.' :: (Nat.toDigits 10 168 ++ '.' :: []) := by decide
  simp only [localStarts, List.mem_cons, List.not_mem_nil, or_false, exists_eq_or_imp,
    exists_eq_left, hname, false_or, h127, h0, h10, h192, octet_prefix_iff, zero_prefix_iff,
    List.nil_prefix, and_true]
  omega

theorem isDigit_of_mem_ipv4Text {address : Nat} {c : Char}
    (hc : c ∈ (Url.Host.ipv4Text address).toList) : c.isDigit = true ∨ c = '.' := by
  have hdigits := fun i => Toml.all_isDigit_toDigits (Url.Host.octet address i) c
  rw [Url.Host.toList_ipv4Text] at hc
  simp only [List.mem_append, List.mem_cons] at hc
  rcases hc with hc | hc | hc | hc | hc | hc | hc
  all_goals first | exact .inl (hdigits _ hc) | exact .inr hc

theorem looksLocal_ipv4 (address : Nat) (more : List Char) :
    looksLocal ((Url.Host.ipv4Text address).toList ++ more) =
      Url.Host.isLocal (.ipv4 address) := by
  have hown : ∀ n rest, Nat.toDigits 10 n ++ rest ≠ "::1".toList := fun n rest h =>
    absurd (isDigit_of_append (c := ':') h.symm) (by decide)
  rw [Bool.eq_iff_iff, looksLocal_iff, Url.Host.toList_ipv4Text]
  simp only [List.append_assoc, List.cons_append]
  rw [localStarts_dotted, or_iff_right (hown _ _),
    isPrivate172_dotted (Url.Host.octet_lt address 2)]
  simp only [Url.Host.isLocal, Bool.or_eq_true, Bool.and_eq_true, beq_iff_eq, decide_eq_true_iff,
    List.all_cons, List.all_nil, and_true]
  omega

theorem looksLocal_ipv6 {pieces : List Nat} (hlength : pieces.length = 8) :
    looksLocal (Url.Host.ipv6Text pieces).toList = Url.Host.isLocal (.ipv6 pieces) := by
  have hstarts : ∀ start ∈ "172." :: localStarts,
      start.toList.all Url.Host.isPieceChar = false := by
    decide
  have hother : ∀ start ∈ "172." :: localStarts,
      ¬start.toList <+: (Url.Host.ipv6Text pieces).toList := fun start hstart hbegin => by
    have hall : start.toList.all Url.Host.isPieceChar = true :=
      List.all_eq_true.2 fun c hc => Url.Host.isPieceChar_of_mem_ipv6Text (hbegin.subset hc)
    rw [hstarts start hstart] at hall
    cases hall
  rw [Bool.eq_iff_iff, looksLocal_iff, Url.Host.isLocal, beq_iff_eq,
    Url.Host.ipv6Text_eq_iff hlength]
  constructor
  · rintro (⟨start, hstart, hbegin⟩ | hown | hprivate)
    · exact absurd hbegin (hother start (List.mem_cons_of_mem _ hstart))
    · exact hown
    · obtain ⟨rest, -, heq, -⟩ := isPrivate172_iff.1 hprivate
      exact absurd ⟨rest, heq.symm⟩ (hother "172." List.mem_cons_self)
  · exact fun hown => .inr (.inl hown)

/-! ## Bases without a scheme -/

/-- A host at the start of a base looks local if and only if it is. -/
theorem looksLocal_hostPart {base : List Char} {host : Url.Host} (hread : host.IsRead)
    (hbegins : BeginsWith base host) (hmistakable : ¬IsMistakable host) :
    looksLocal (hostPart base) = host.isLocal := by
  obtain ⟨rest, hbase, hrest⟩ := hbegins
  cases hread with
  | name word hne hword =>
    have hplain : ∀ c ∈ word.toList, c ≠ '/' ∧ c ≠ '[' ∧ c ≠ ']' := fun c hc => by
      refine ⟨?_, ?_, ?_⟩ <;>
      · rintro rfl
        exact absurd (hword _ hc) (by decide)
    obtain ⟨more, hpart, hmore⟩ := hostPart_of_bare hbase hplain hrest
    rw [hpart]
    exact looksLocal_name hne hword hmore hmistakable
  | ipv4 address =>
    have hplain : ∀ c ∈ (Url.Host.ipv4Text address).toList, c ≠ '/' ∧ c ≠ '[' ∧ c ≠ ']' :=
      fun c hc => by
        refine ⟨?_, ?_, ?_⟩ <;>
        · rintro rfl
          exact absurd (isDigit_of_mem_ipv4Text hc) (by decide)
    obtain ⟨more, hpart, -⟩ := hostPart_of_bare hbase hplain hrest
    rw [hpart]
    exact looksLocal_ipv4 address more
  | ipv6 pieces hlength =>
    have hplain : ∀ c ∈ (Url.Host.ipv6Text pieces).toList, c ≠ '/' ∧ c ≠ '[' ∧ c ≠ ']' :=
      fun c hc => by
        have hpiece := Url.Host.isPieceChar_of_mem_ipv6Text hc
        exact ⟨Text.ne_of_test hpiece (by decide), Text.ne_of_test hpiece (by decide),
          Text.ne_of_test hpiece (by decide)⟩
    have hbrackets : base.map Char.toLower =
        '[' :: ((Url.Host.ipv6Text pieces).toList ++ ']' :: rest) := by
      rw [hbase, Url.Host.text, String.toList_append, String.toList_append]
      simp
    rw [hostPart_of_brackets hbrackets hplain]
    exact looksLocal_ipv6 hlength

/-- A base without a scheme that begins with its host in the usual form gets the plain
scheme exactly for the hosts of the own machine and of private networks, unless the host is a
name that begins as one of these does. A base that does not begin as one of these, whatever
its host, gets the secure one. -/
theorem plain_iff_isLocal {base : String} {token : Option String} {e : Endpoint}
    (hbase : ¬schemeMark.toList <:+: base.toList) (h : Endpoint.new base token = .ok e) :
    (BeginsWith (trimBase base) e.baseUrl.host → ¬IsMistakable e.baseUrl.host →
      (e.baseUrl.scheme = .http ↔ e.baseUrl.host.isLocal = true)) ∧
    ((∀ start ∈ "::1" :: "172." :: localStarts,
        ¬start.toList <+: ((trimBase base).map Char.toLower).dropWhile (· == '[')) →
      e.baseUrl.scheme = .https) := by
  rw [scheme_of_new hbase h]
  constructor
  · intro hbegins hmistakable
    obtain ⟨hostText, hhost⟩ := Url.exists_host_of_parse (parse_of_new h).1
    rw [looksLocal_hostPart (Url.Host.isRead_of_parse hhost) hbegins hmistakable]
    cases e.baseUrl.host.isLocal <;> decide
  · intro hother
    refine if_neg fun hlocal => ?_
    obtain ⟨start, hstart, hbegin⟩ := exists_start_of_looksLocal hlocal
    exact hother start hstart (hbegin.trans (hostPart_begins _))

/-- A host of a private network with a port and a path, and a user of a public host. -/
theorem plain_iff_isLocal_private :
    (∃ e, Endpoint.new " 172.31.255.1:8080/Rc/ " none = .ok e ∧
      BeginsWith (trimBase " 172.31.255.1:8080/Rc/ ") e.baseUrl.host ∧
      (e.baseUrl.scheme = .http ↔ e.baseUrl.host.isLocal = true)) ∧
    ∃ e, Endpoint.new "me@10.example.com" none = .ok e ∧ e.baseUrl.scheme = .https := by
  constructor
  · have hbase : ¬schemeMark.toList <:+: " 172.31.255.1:8080/Rc/ ".toList := by
      rw [← holds_iff]
      decide
    have hnew : Endpoint.new " 172.31.255.1:8080/Rc/ " none =
        .ok ⟨⟨.http, "", none, .ipv4 0xAC1FFF01, some 8080, ["Rc"], none, none⟩, none⟩ := rfl
    have hbegins : BeginsWith (trimBase " 172.31.255.1:8080/Rc/ ") (.ipv4 0xAC1FFF01) :=
      ⟨":8080/rc".toList, by decide, fun _ hc => Option.some.inj hc ▸ rfl⟩
    exact ⟨_, hnew, hbegins, (plain_iff_isLocal hbase hnew).1 hbegins id⟩
  · have hbase : ¬schemeMark.toList <:+: "me@10.example.com".toList := by
      rw [← holds_iff]
      decide
    have hnew : Endpoint.new "me@10.example.com" none =
        .ok ⟨⟨.https, "me", none, .name "10.example.com", none, [""], none, none⟩, none⟩ := rfl
    have hother : ∀ start ∈ "::1" :: "172." :: localStarts,
        ¬start.toList <+:
          ((trimBase "me@10.example.com").map Char.toLower).dropWhile (· == '[') := by
      decide
    exact ⟨_, hnew, (plain_iff_isLocal hbase hnew).2 hother⟩

/-- A host whose name begins with the name of the own machine gets the plain scheme. -/
theorem plain_of_name :
    ¬∀ (base : String) (token : Option String) (e : Endpoint),
      ¬schemeMark.toList <:+: base.toList → Endpoint.new base token = .ok e →
        e.baseUrl.scheme = .http → e.baseUrl.host.isLocal = true := by
  intro hlocal
  have hbase : ¬schemeMark.toList <:+: "localhost.example.com".toList := by
    rw [← holds_iff]
    decide
  have hpublic := hlocal "localhost.example.com" none
    ⟨⟨.http, "", none, .name "localhost.example.com", none, [""], none, none⟩, none⟩ hbase rfl rfl
  exact absurd hpublic (by decide)

end Endpoint

end RemoteSession
