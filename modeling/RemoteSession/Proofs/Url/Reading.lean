import RemoteSession.Proofs.Text.Utf8
import RemoteSession.Endpoint

/-!
# What an address was read from

A text that is read as an address of the web begins with the word of its scheme, has an
authority that names its host, and a path (`web_of_parse`). All other ways to read a text
end at the word of a scheme. The address of an endpoint is read from its base with a scheme
(`Endpoint.parse_of_new`).
-/

namespace RemoteSession.Url

/-- What comes of two readings one after another comes of both. -/
theorem bind_eq_ok {ε α β : Type} {x : Except ε α} {f : α → Except ε β} {b : β}
    (h : x >>= f = .ok b) : ∃ a, x = .ok a ∧ f a = .ok b := by
  cases x with
  | error e => cases h
  | ok a => exact ⟨a, rfl, h⟩

/-- An address of a file is never one of the web, whatever its host. -/
theorem parseFile_ne_web {rest : List Char} {url : Url} : parseFile rest ≠ .ok (.web url) := by
  intro h
  unfold parseFile at h
  split at h
  · split at h
    · split at h
      split at h
      · obtain ⟨_, -, h⟩ := bind_eq_ok h
        cases h
      · cases h
    · cases h
  · cases h

theorem parseOther_ne_web {word : String} {rest : List Char} {url : Url} :
    parseOther word rest ≠ .ok (.web url) := by
  intro h
  unfold parseOther at h
  split at h
  · obtain ⟨_, -, h⟩ := bind_eq_ok h
    cases h
  · cases h

/-- The parts of a text from which the parts of an address were read. -/
structure IsReadFrom (url : Url) (word : String) (authority tail path : List Char) : Prop where
  scheme : Scheme.ofWord? word = some url.scheme
  authority : ∃ port,
    readAuthority .web authority tail = .ok ((url.username, url.password), url.host, port)
  path : url.path = pathOf path

theorem web_of_parseWeb {word : String} {rest : List Char} {url : Url}
    (h : parseWeb word rest = .ok (.web url)) :
    ∃ authority tail path, IsReadFrom url word authority tail path := by
  unfold parseWeb at h
  obtain ⟨⟨⟨username, password⟩, host, port⟩, hauthority, h⟩ := bind_eq_ok h
  simp only at h
  cases hscheme : Scheme.ofWord? word with
  | none =>
    rw [hscheme] at h
    cases h
  | some scheme =>
    rw [hscheme] at h
    cases h
    exact ⟨_, _, _, hscheme, ⟨port, hauthority⟩, rfl⟩

/-- What a text that is read as an address consists of. -/
theorem web_of_parse {text : String} {url : Url} (h : parse text = .ok (.web url)) :
    ∃ word rest authority tail path, scheme? (significant text) = some (word, rest) ∧
      IsReadFrom url word authority tail path := by
  unfold parse at h
  split at h
  · cases h
  · next word rest hword =>
    split at h
    · obtain ⟨authority, tail, path, hread⟩ := web_of_parseWeb h
      exact ⟨word, rest, authority, tail, path, hword, hread⟩
    · exact absurd h parseFile_ne_web
    · exact absurd h parseOther_ne_web

end RemoteSession.Url

namespace RemoteSession.Endpoint

/-- An endpoint has the address that its base is read as, and one of the two schemes of
requests. -/
theorem parse_of_new {base : String} {token : Option String} {e : Endpoint}
    (h : Endpoint.new base token = .ok e) :
    Url.parse (String.ofList (withScheme (trimBase base))) = .ok (.web e.baseUrl) ∧
      (e.baseUrl.scheme = .http ∨ e.baseUrl.scheme = .https) := by
  simp only [Endpoint.new] at h
  split at h
  · cases h
  cases hread : readBase (trimBase base) with
  | error fault =>
    rw [hread] at h
    cases h
  | ok address =>
    rw [hread] at h
    cases h
    unfold readBase at hread
    split at hread
    · cases hread
    · cases hread
    · next hparse =>
      split at hread
      · next hscheme =>
        cases hread
        exact ⟨hparse, .inl hscheme⟩
      · next hscheme =>
        cases hread
        exact ⟨hparse, .inr hscheme⟩
      · cases hread

end RemoteSession.Endpoint
