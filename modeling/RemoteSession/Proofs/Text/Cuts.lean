import RemoteSession.Proofs.Text.Utf8

/-!
# Text in pieces

The octets of a text may be cut anywhere and the pieces read one by one. Each character has
one octet that does not trail another, its first (`exists_utf8EncodeChar`). However octets
are read, for each of these there is a character or a replacement, and one more if they
begin with a trailing octet (`leads_le_length`, `beginsWhole_of_length_le`). So the pieces
make up the text only if no piece begins within a character, and then each is a text of its
own (`join_decodeLossy_iff`).
-/

namespace RemoteSession.Text.Utf8

/-- Whether an octet can only follow others in a character. -/
def isTrail (b : UInt8) : Bool :=
  0x80 ≤ b.toNat && b.toNat < 0xC0

/-- The number of octets that follow no others in their character. -/
def leads (octets : List UInt8) : Nat :=
  octets.countP (!isTrail ·)

theorem leads_cons (b : UInt8) (rest : List UInt8) :
    leads (b :: rest) = leads rest + if isTrail b then 0 else 1 := by
  rw [leads, List.countP_cons, leads]
  cases isTrail b <;> rfl

/-! ## The octets of a text -/

/-- A character is an octet that follows no others and octets that do. -/
theorem exists_utf8EncodeChar (c : Char) : ∃ b trails, String.utf8EncodeChar c = b :: trails ∧
    isTrail b = false ∧ ∀ a ∈ trails, isTrail a = true := by
  have hlead : ∀ n < 256, n < 0x80 ∨ 0xC0 ≤ n → isTrail (UInt8.ofNat n) = false := fun n hn h => by
    simp only [isTrail, toNat_ofNat_of_lt hn, Bool.and_eq_false_iff, decide_eq_false_iff_not]
    omega
  have htrail : ∀ n, isTrail (UInt8.ofNat (n % 0x40 + 0x80)) = true := fun n => by
    simp only [isTrail, toNat_ofNat_of_lt (show n % 0x40 + 0x80 < 256 by omega), Bool.and_eq_true,
      decide_eq_true_iff]
    omega
  unfold String.utf8EncodeChar
  generalize c.val.toNat = v
  simp only
  split
  · exact ⟨_, [], rfl, hlead _ (by omega) (by omega), by simp⟩
  split
  · exact ⟨_, _, rfl, hlead _ (by omega) (by omega), by
      simp only [List.forall_mem_cons, htrail, List.not_mem_nil, false_implies, implies_true,
        and_self]⟩
  split
  · exact ⟨_, _, rfl, hlead _ (by omega) (by omega), by
      simp only [List.forall_mem_cons, htrail, List.not_mem_nil, false_implies, implies_true,
        and_self]⟩
  · exact ⟨_, _, rfl, hlead _ (by omega) (by omega), by
      simp only [List.forall_mem_cons, htrail, List.not_mem_nil, false_implies, implies_true,
        and_self]⟩

theorem leads_append (xs ys : List UInt8) : leads (xs ++ ys) = leads xs + leads ys :=
  List.countP_append

theorem leads_utf8EncodeChar (c : Char) : leads (String.utf8EncodeChar c) = 1 := by
  obtain ⟨b, trails, heq, hb, htrails⟩ := exists_utf8EncodeChar c
  have hnone : leads trails = 0 := List.countP_eq_zero.2 fun a ha => by simp [htrails a ha]
  rw [heq, leads_cons, hnone, hb]
  rfl

theorem leads_flatMap (cs : List Char) : leads (cs.flatMap String.utf8EncodeChar) = cs.length := by
  induction cs with
  | nil => rfl
  | cons c rest ih =>
    rw [List.flatMap_cons, leads_append, leads_utf8EncodeChar, ih, List.length_cons, Nat.add_comm]

/-- Octets that do not begin with one that follows others. -/
def BeginsWhole (octets : List UInt8) : Prop :=
  ∀ b ∈ octets.head?, isTrail b = false

/-- A cut between characters leaves a text on either side. -/
theorem exists_of_append {xs ys : List UInt8} {cs : List Char}
    (h : xs ++ ys = cs.flatMap String.utf8EncodeChar) (hys : BeginsWhole ys) :
    ∃ as bs, cs = as ++ bs ∧ xs = as.flatMap String.utf8EncodeChar ∧
      ys = bs.flatMap String.utf8EncodeChar := by
  induction cs generalizing xs with
  | nil =>
    obtain ⟨rfl, rfl⟩ := List.append_eq_nil_iff.1 h
    exact ⟨[], [], rfl, rfl, rfl⟩
  | cons c cs ih =>
    rw [List.flatMap_cons] at h
    rcases List.append_eq_append_iff.1 h with ⟨inner, hchar, hrest⟩ | ⟨inner, hxs, hrest⟩
    · cases xs with
      | nil => exact ⟨[], c :: cs, rfl, rfl, by rw [List.flatMap_cons]; exact h⟩
      | cons x xs =>
        cases inner with
        | nil =>
          rw [List.append_nil] at hchar
          exact ⟨[c], cs, rfl, by simp [hchar], hrest⟩
        | cons a inner =>
          -- The cut is within the character, so that what follows begins with a trailing octet.
          obtain ⟨b, trails, heq, -, htrails⟩ := exists_utf8EncodeChar c
          rw [heq, List.cons_append] at hchar
          have ha := htrails a (by rw [(List.cons.inj hchar).2]; simp)
          rw [hys a (by rw [hrest]; rfl)] at ha
          cases ha
    · obtain ⟨as, bs, rfl, hinner, hys⟩ := ih hrest.symm
      exact ⟨c :: as, bs, rfl, by rw [hxs, hinner, List.flatMap_cons], hys⟩

/-! ## Octets as they are read -/

/-- What is pending can only be continued by trailing octets. -/
def Pending.Bounded (p : Pending) : Prop :=
  0x80 ≤ p.least ∧ p.most < 0xC0

theorem Pending.accepts_iff {p : Pending} {b : UInt8} :
    p.accepts b = true ↔ p.least ≤ b.toNat ∧ b.toNat ≤ p.most := by
  rw [accepts, Bool.and_eq_true, decide_eq_true_iff, decide_eq_true_iff]

theorem Pending.isTrail_of_accepts {p : Pending} (hp : p.Bounded) {b : UInt8}
    (h : p.accepts b = true) : isTrail b = true := by
  obtain ⟨hleast, hmost⟩ := accepts_iff.1 h
  rw [isTrail, Bool.and_eq_true, decide_eq_true_iff, decide_eq_true_iff]
  exact ⟨Nat.le_trans hp.1 hleast, Nat.lt_of_le_of_lt hmost hp.2⟩

/-- The entries so far, and the one of what is pending. -/
def entries (out : List (Option Char) × State) : Nat :=
  out.1.length + (finish out.2).length

theorem bounded_start (b : UInt8) : ∀ p ∈ (start b).2, p.Bounded := by
  intro p hp
  unfold Pending.Bounded
  simp only [start] at hp
  split at hp
  · cases hp
  split at hp
  · cases hp
  split at hp
  · obtain rfl := Option.mem_some_iff.1 hp
    dsimp only
    omega
  split at hp
  · obtain rfl := Option.mem_some_iff.1 hp
    constructor <;> dsimp only <;> split <;> omega
  split at hp
  · obtain rfl := Option.mem_some_iff.1 hp
    constructor <;> dsimp only <;> split <;> omega
  · cases hp

/-- An octet at the start of a sequence has an entry, also one that has to follow others. -/
theorem entries_start (b : UInt8) : entries (start b) = 1 := by
  simp only [start]
  repeat' split
  all_goals rfl

theorem bounded_step {s : State} (hs : ∀ p ∈ s, p.Bounded) (b : UInt8) :
    ∀ p ∈ (step s b).2, p.Bounded := by
  cases s with
  | none => exact bounded_start b
  | some p =>
    simp only [step]
    split
    · intro q hq
      simp only [Pending.extend] at hq
      split at hq
      · cases hq
      · obtain rfl := Option.mem_some_iff.1 hq
        unfold Pending.Bounded
        dsimp only
        omega
    · exact bounded_start b

/-- An octet that follows no others has an entry of its own. -/
theorem leads_le_entries_step {s : State} (hs : ∀ p ∈ s, p.Bounded) (b : UInt8) :
    (finish s).length + leads [b] ≤ entries (step s b) := by
  have hlead : leads [b] ≤ 1 := List.countP_le_length
  cases s with
  | none =>
    rw [step_none, entries_start]
    simpa [finish] using hlead
  | some p =>
    simp only [step]
    split
    · next haccepts =>
      have hnone : leads [b] = 0 := by
        rw [leads_cons, Pending.isTrail_of_accepts (hs p rfl) haccepts]
        rfl
      rw [hnone, Pending.extend]
      split <;> exact Nat.le_refl _
    · have hstart := entries_start b
      simp only [entries, finish, List.length_cons, List.length_nil] at hstart ⊢
      omega

theorem leads_le_entries {s : State} (hs : ∀ p ∈ s, p.Bounded) (octets : List UInt8) :
    (finish s).length + leads octets ≤ entries (feed s octets) := by
  induction octets generalizing s with
  | nil => simp [entries, feed, leads]
  | cons b rest ih =>
    have hstep := leads_le_entries_step hs b
    have hrest := ih (bounded_step hs b)
    rw [leads_cons, feed_cons]
    rw [leads_cons] at hstep
    simp only [entries, List.length_append, leads, List.countP_nil] at hstep hrest ⊢
    omega

theorem length_decodeLossy (octets : List UInt8) :
    (decodeLossy octets).length = entries (feed none octets) := by
  simp [decodeLossy, scan, entries]

theorem leads_le_length (octets : List UInt8) : leads octets ≤ (decodeLossy octets).length := by
  rw [length_decodeLossy]
  simpa [finish] using leads_le_entries (s := none) (by simp) octets

/-- A trailing octet at the beginning has an entry too, so that there is one too many. -/
theorem beginsWhole_of_length_le {octets : List UInt8}
    (h : (decodeLossy octets).length ≤ leads octets) : BeginsWhole octets := by
  cases octets with
  | nil => simp [BeginsWhole]
  | cons b rest =>
    intro a ha
    obtain rfl := Option.mem_some_iff.1 ha
    by_cases hb : isTrail b = true
    · have hfirst := entries_start b
      have hrest := leads_le_entries (bounded_start b) rest
      rw [length_decodeLossy, leads_cons, if_pos hb, feed_cons, step_none] at h
      simp only [entries, List.length_append] at hfirst hrest h
      omega
    · rwa [Bool.not_eq_true] at hb

/-! ## Pieces -/

variable {pieces : List (List UInt8)}

theorem leads_flatten_le (pieces : List (List UInt8)) :
    leads pieces.flatten ≤ (String.join (pieces.map decodeLossy)).length := by
  induction pieces with
  | nil => exact Nat.zero_le _
  | cons piece rest ih =>
    have hpiece := leads_le_length piece
    rw [List.flatten_cons, leads_append, List.map_cons, String.join_cons, String.length_append]
    omega

/-- Pieces that are read as no more characters than they begin have no cut within one. -/
theorem forall_beginsWhole
    (h : (String.join (pieces.map decodeLossy)).length ≤ leads pieces.flatten) :
    ∀ piece ∈ pieces, BeginsWhole piece := by
  induction pieces with
  | nil => simp
  | cons piece rest ih =>
    have hpiece := leads_le_length piece
    have hrest := leads_flatten_le rest
    rw [List.flatten_cons, leads_append, List.map_cons, String.join_cons, String.length_append] at h
    exact List.forall_mem_cons.2 ⟨beginsWhole_of_length_le (by omega), ih (by omega)⟩

theorem beginsWhole_flatten (h : ∀ piece ∈ pieces, BeginsWhole piece) :
    BeginsWhole pieces.flatten := by
  induction pieces with
  | nil => simp [BeginsWhole]
  | cons piece rest ih =>
    obtain ⟨hpiece, hrest⟩ := List.forall_mem_cons.1 h
    cases piece with
    | nil => exact ih hrest
    | cons b more => exact hpiece

theorem exists_encode_of_mem {cs : List Char}
    (h : pieces.flatten = cs.flatMap String.utf8EncodeChar)
    (hwhole : ∀ piece ∈ pieces, BeginsWhole piece) : ∀ piece ∈ pieces, ∃ s, piece = encode s := by
  induction pieces generalizing cs with
  | nil => simp
  | cons piece rest ih =>
    obtain ⟨-, hrest⟩ := List.forall_mem_cons.1 hwhole
    obtain ⟨as, bs, -, hpiece, hafter⟩ := exists_of_append h (beginsWhole_flatten hrest)
    refine List.forall_mem_cons.2 ⟨⟨String.ofList as, ?_⟩, ih hafter hrest⟩
    rw [encode, String.toList_ofList]
    exact hpiece

theorem encode_append (s t : String) : encode (s ++ t) = encode s ++ encode t := by
  rw [encode, String.toList_append, List.flatMap_append]
  rfl

theorem encode_join_decodeLossy (h : ∀ piece ∈ pieces, ∃ s, piece = encode s) :
    encode (String.join (pieces.map decodeLossy)) = pieces.flatten := by
  induction pieces with
  | nil => rfl
  | cons piece rest ih =>
    obtain ⟨⟨s, rfl⟩, hrest⟩ := List.forall_mem_cons.1 h
    rw [List.map_cons, String.join_cons, decodeLossy_encode, encode_append, ih hrest,
      List.flatten_cons]

/-- Pieces of which each is read on its own make up the text if and only if each of them is
a text, so that no cut is within a character. -/
theorem join_decodeLossy_iff {text : String} (h : pieces.flatten = encode text) :
    String.join (pieces.map decodeLossy) = text ↔ ∀ piece ∈ pieces, ∃ s, piece = encode s := by
  constructor
  · intro hjoin
    have hlength : (String.join (pieces.map decodeLossy)).length = leads pieces.flatten := by
      rw [hjoin, h, encode, leads_flatMap, String.length_toList]
    exact exists_encode_of_mem h (forall_beginsWhole (Nat.le_of_eq hlength))
  · intro htexts
    exact encode_injective ((encode_join_decodeLossy htexts).trans h)

end RemoteSession.Text.Utf8
