import RemoteSession.Config.Basic
import RemoteSession.Proofs.Storage.Writable
import RemoteSession.Proofs.Toml.Lines

/-!
# The configuration as it is written and read

Each value that is set stands in a line of its own, and a value that is not set in none
(`Config.lines?_line`). So the text of a configuration is read as the configuration, whatever
the characters of its values (`Config.parse?_render`), and where nothing stands in the way of
the file what is saved is loaded (`Config.load_save`).
-/

namespace RemoteSession

namespace Config

variable {t : FileTree} {p : FilePath}

/-! ## Lines -/

/-- The entry of a value in the document, if it is set. -/
def entry (key : String) (value : Option String) : Toml.Entries :=
  value.toList.map fun text => (key, .text text)

theorem length_entry_le (key : String) (value : Option String) :
    (entry key value).length ≤ (line key value).length := by
  cases value with
  | none => exact Nat.le_refl 0
  | some text =>
    rw [line, List.length_append]
    exact Nat.le_add_left ..

/-- A line adds the entry of its value. -/
theorem lines?_line {b : Toml.Builder} {key : String} (hkey : b.current.get? key = none)
    (value : Option String) (fuel : Nat) (rest : List Char) :
    Toml.lines? (fuel + (entry key value).length) b (line key value ++ rest) =
      Toml.lines? fuel { b with current := b.current ++ entry key value } rest := by
  cases value with
  | none =>
    rw [entry, Option.toList_none, List.map_nil, List.append_nil]
    rfl
  | some text =>
    have hadd : b.add? [] key (.text text) =
        some { b with current := b.current ++ entry key (some text) } := by
      rw [Toml.Builder.add?, Toml.Entries.add?, hkey]
      rfl
    have hline := Toml.line?_writeKey (Toml.reads_writeString text) hadd rest
    have hchars : line key (some text) ++ rest =
        Toml.writeKey key ++ ' ' :: '=' :: ' ' :: (Toml.writeString text ++ '\n' :: rest) := by
      simp [line]
    rw [hchars, entry, Option.toList_some, List.map_singleton, List.length_singleton,
      Toml.lines?_writeKey, hline]
    rfl

/-! ## Texts -/

/-- The entries of a configuration in the document. -/
def entries (c : Config) : Toml.Entries :=
  entry "base_url" c.baseUrl ++ entry "token" c.token

theorem toList_render (c : Config) :
    c.render.toList = line "base_url" c.baseUrl ++ line "token" c.token := by
  rw [render, String.toList_ofList]

/-- The text of a configuration does not begin with a mark. -/
theorem dropMark_render (c : Config) : Toml.dropMark c.render.toList = c.render.toList := by
  have hbase : Toml.writeKey "base_url" = "base_url".toList := by decide
  have htoken : Toml.writeKey "token" = "token".toList := by decide
  obtain ⟨_ | base, _ | token⟩ := c <;> simp only [toList_render, line, hbase, htoken] <;> rfl

theorem parse?_render_entries (c : Config) : Toml.parse? c.render = some c.entries := by
  have hbase := length_entry_le "base_url" c.baseUrl
  have htoken := length_entry_le "token" c.token
  have hlength := congrArg List.length c.toList_render
  rw [List.length_append] at hlength
  obtain ⟨fuel, hfuel⟩ : ∃ fuel, c.render.toList.length + 1 =
      fuel + 1 + (entry "token" c.token).length + (entry "base_url" c.baseUrl).length :=
    ⟨c.render.toList.length - (entry "token" c.token).length -
      (entry "base_url" c.baseUrl).length, by omega⟩
  have hkey : Toml.Entries.get? (entry "base_url" c.baseUrl) "token" = none := by
    cases c.baseUrl <;> rfl
  have hlines : Toml.lines? (c.render.toList.length + 1) .start c.render.toList =
      some ⟨[], [], false, c.entries⟩ := by
    rw [hfuel, toList_render, lines?_line rfl, ← List.append_nil (line "token" c.token),
      lines?_line hkey]
    rfl
  simp only [Toml.parse?, dropMark_render, hlines, Option.bind_eq_bind, Option.bind_some]
  rfl

/-- The text of a configuration is read as the configuration. -/
theorem parse?_render (c : Config) : parse? c.render = some c := by
  obtain ⟨baseUrl, token⟩ := c
  have hbase : textField? (entries ⟨baseUrl, token⟩) "base_url" = some baseUrl := by
    cases baseUrl <;> cases token <;> rfl
  have htoken : textField? (entries ⟨baseUrl, token⟩) "token" = some token := by
    cases baseUrl <;> cases token <;> rfl
  simp only [parse?, parse?_render_entries, hbase, htoken, Option.bind_eq_bind, Option.bind_some]

/-! ## Files -/

/-- Nothing stands in the way of a file that was loaded. -/
theorem clear_of_load {c : Config} (hexists : t.exists? p = true) (h : load t p = .ok c) :
    t.Clear p := by
  have hway : t.wayFault? p = none := by
    rw [FileTree.exists?, Bool.and_eq_true, Option.isNone_iff_eq_none] at hexists
    exact hexists.1
  refine .of_wayFault? hway fun hdirectory => ?_
  have hread : t.readText p = .error .isADirectory := by
    simp only [FileTree.readText, FileTree.read, hway, hdirectory, bind, Except.bind]
  simp only [load, hexists, if_true, hread] at h
  cases h

/-- Where nothing stands in the way of the file, what is saved is loaded. -/
theorem load_save (ht : t.Closed) (hp : t.Clear p) (c : Config) :
    ∃ t', c.save t p = .ok t' ∧ load t' p = .ok c := by
  obtain ⟨t', hwrite⟩ := FileTree.writePrivate_of_clear ht hp (Text.Utf8.encode c.render)
  have hclosed := Disk.lawful_sound.write_closed ht hwrite
  obtain ⟨mode, hfile⟩ := Disk.lawful_sound.write_done ht hwrite
  refine ⟨t', ?_, ?_⟩
  · rw [save, FileTree.writePrivate_of_sound hwrite]
  · rw [load, FileTree.exists?_eq hclosed, hfile]
    simp only [Option.isSome_some, if_true, FileTree.readText_of_file hclosed hfile, parse?_render]

end Config

end RemoteSession
