import RemoteSession.Config.Basic
import RemoteSession.Proofs.Text.Blank

/-!
# Blanks in the configuration

An endpoint is made of a base address and a credential without the blanks around them, so
that it makes no difference whether these were taken away before (`Endpoint.new_trim`,
`Endpoint.new_nonBlank?`). The credential has no part in the address (`Endpoint.new_eq`).
So the endpoint of a configuration is that of its values that are not blank, and is missing
where the base address is (`Config.endpoint_eq`).
-/

namespace RemoteSession

namespace Config

variable {value : Option String} {text : String}

theorem nonBlank?_eq_none_iff :
    nonBlank? value = none ↔ ∀ text, value = some text → Text.isBlank text = true := by
  cases value with
  | none => simp [nonBlank?]
  | some text => simp [nonBlank?, Text.trim_eq_empty_iff]

theorem nonBlank?_eq_some_iff : nonBlank? value = some text ↔
    ∃ whole, value = some whole ∧ Text.trim whole = text ∧ text ≠ "" := by
  cases value with
  | none => simp [nonBlank?]
  | some whole =>
    simp only [nonBlank?, Option.map_some, Option.bind_some, Option.some_inj, exists_eq_left']
    split <;> grind

end Config

namespace Endpoint

/-- The address of a base has nothing to do with the credential. -/
theorem new_eq (base : String) (token : Option String) :
    new base token = (new base none).map fun e => ⟨e.baseUrl, token.bind normaliseToken⟩ := by
  simp only [new]
  split
  · rfl
  · cases readBase (trimBase base) <;> rfl

/-- Blanks around a base make no difference. -/
theorem new_trim (base : String) (token : Option String) :
    new (Text.trim base) token = new base token := by
  have htrim : trimBase (Text.trim base) = trimBase base := by
    rw [trimBase, Text.trim_trim, trimBase]
  rw [new, htrim, new]

theorem new_of_isBlank {base : String} (h : Text.isBlank base = true) (token : Option String) :
    new base token = .error (.notConfigured "base url cannot be empty") := by
  rw [← new_trim, Text.trim_eq_empty_iff.2 h]
  rfl

theorem normaliseToken_trim (token : String) :
    normaliseToken (Text.trim token) = normaliseToken token := by
  rw [normaliseToken, Text.trim_trim, normaliseToken]

/-- A credential makes no difference if it is blank, nor do the blanks around it. -/
theorem new_nonBlank? (base : String) (token : Option String) :
    new base (Config.nonBlank? token) = new base token := by
  have hbind : (Config.nonBlank? token).bind normaliseToken = token.bind normaliseToken := by
    cases htoken : Config.nonBlank? token with
    | none =>
      cases token with
      | none => rfl
      | some text =>
        have hblank := Text.trim_eq_empty_iff.2 (Config.nonBlank?_eq_none_iff.1 htoken text rfl)
        rw [Option.bind_some, ← normaliseToken_trim, hblank]
        rfl
    | some text =>
      obtain ⟨whole, rfl, rfl, -⟩ := Config.nonBlank?_eq_some_iff.1 htoken
      rw [Option.bind_some, Option.bind_some, normaliseToken_trim]
  rw [new_eq, hbind, ← new_eq]

end Endpoint

namespace Config

/-- The endpoint of a configuration is that of its values that are not blank. -/
theorem endpoint_eq (c : Config) :
    match nonBlank? c.baseUrl with
    | none => ∃ what, c.endpoint = .error (.endpoint (.notConfigured what))
    | some base => c.endpoint = (Endpoint.new base (nonBlank? c.token)).mapError .endpoint := by
  obtain ⟨baseUrl, token⟩ := c
  split
  · next hblank =>
    cases baseUrl with
    | none => exact ⟨unsetMessage, rfl⟩
    | some base =>
      refine ⟨"base url cannot be empty", ?_⟩
      have hnew := Endpoint.new_of_isBlank (nonBlank?_eq_none_iff.1 hblank base rfl) token
      simp only [endpoint, hnew]
  · next base hbase =>
    obtain ⟨whole, rfl, rfl, -⟩ := nonBlank?_eq_some_iff.1 hbase
    rw [Endpoint.new_nonBlank?, Endpoint.new_trim]
    simp only [endpoint]
    cases Endpoint.new whole token <;> rfl

end Config

end RemoteSession
