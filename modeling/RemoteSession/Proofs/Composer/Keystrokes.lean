import RemoteSession.Proofs.Text.Replacements
import RemoteSession.Session.View

/-!
# Keys as data

Octets that are typed become the data of a message. The octets of a text become the text, before
whatever follows it and behind whatever stands before it. All others are divided into characters
and maximal ill-formed prefixes, which is possible in one way only, and of each prefix there is
one replacement in the data (`Composer.dataOf_pieces`).
-/

namespace RemoteSession.Composer

open Text.Utf8

/-- The data of the message that octets become. Without octets there is no message, and no
data. -/
def dataOf (octets : List UInt8) : String :=
  match keystrokes? octets with
  | some (.input data) => data
  | _ => ""

theorem dataOf_eq (octets : List UInt8) : dataOf octets = decodeLossy octets := by
  cases octets <;> rfl

theorem keystrokes?_eq (octets : List UInt8) :
    keystrokes? octets = if octets = [] then none else some (.input (dataOf octets)) := by
  cases octets <;> rfl

theorem sendKeystrokes_eq {σ : Type} (v : SessionView σ) (octets : List UInt8) :
    v.sendKeystrokes octets =
      if octets = [] then (v, false) else v.send (.input (dataOf octets)) := by
  cases octets <;> rfl

/-- Octets become no message if there are none, and the message of their data otherwise, which
a session is sent. The data of the octets of a text are the text; those of a text and what
follows it are the text and the data of what follows, and a character stands in the data
between those of what is before it and of what is behind it. Any octets divide in exactly one
way into characters and maximal ill-formed prefixes, and the data are the characters, with one
replacement for each prefix. -/
theorem dataOf_pieces {σ : Type} (v : SessionView σ) (octets : List UInt8) :
    keystrokes? octets = (if octets = [] then none else some (.input (dataOf octets))) ∧
    v.sendKeystrokes octets =
      (if octets = [] then (v, false) else v.send (.input (dataOf octets))) ∧
    (∀ text, keystrokes? (encode text) = if text = "" then none else some (.input text)) ∧
    (∀ text, dataOf (encode text ++ octets) = text ++ dataOf octets) ∧
    (∀ before c, dataOf (before ++ String.utf8EncodeChar c ++ octets) =
      dataOf before ++ String.singleton c ++ dataOf octets) ∧
    ∃ pieces, (∀ others, Divides octets others ↔ others = pieces) ∧
      dataOf octets = String.ofList (pieces.map Piece.read) := by
  obtain ⟨pieces, hpieces⟩ := exists_divides octets
  refine ⟨keystrokes?_eq octets, sendKeystrokes_eq v octets, fun text => ?_, fun text => ?_,
    fun before c => ?_, pieces, fun others => ⟨hpieces.unique, fun h => h ▸ hpieces⟩, ?_⟩
  · rw [keystrokes?_eq, dataOf_eq, decodeLossy_encode]
    exact if_congr encode_eq_nil_iff rfl rfl
  · rw [dataOf_eq, dataOf_eq, decodeLossy_encode_append]
  · rw [dataOf_eq, dataOf_eq, dataOf_eq, decodeLossy_around]
  · rw [dataOf_eq, decodeLossy_of_divides hpieces]

/-- A sequence cut short, a letter, a sequence cut short by a character, and a surrogate, of
which each octet stands for itself. -/
example : dataOf [0xE2, 0x82, 0x41, 0xF0, 0x9F, 0xC3, 0xA9, 0xED, 0xA0, 0x80] =
    "\uFFFDA\uFFFDé\uFFFD\uFFFD\uFFFD" := by
  decide

end RemoteSession.Composer
