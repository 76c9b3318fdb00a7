/-!
# Keyed entries

Entries in the order of their keys, each key once. `insert` and `erase` keep
the order, and reading a key after either of them gives what it put there or
took away.
-/

namespace RemoteSession

/-- Entries by key. -/
abbrev Keyed (α : Type) := List (String × α)

namespace Keyed

variable {α : Type}

/-- The entry of a key. -/
def get? (entries : Keyed α) (key : String) : Option α :=
  match entries with
  | [] => none
  | (k, v) :: rest => if k = key then some v else get? rest key

/-- The entries with one more. A key that is there already gets the new value,
a new key goes to its place in the order. -/
def insert (entries : Keyed α) (key : String) (value : α) : Keyed α :=
  match entries with
  | [] => [(key, value)]
  | (k, v) :: rest =>
    if key < k then (key, value) :: (k, v) :: rest
    else if key = k then (key, value) :: rest
    else (k, v) :: insert rest key value

/-- The entries without a key. -/
def erase (entries : Keyed α) (key : String) : Keyed α :=
  entries.filter fun e => e.1 != key

/-- What was put under a key is there, and nothing else has changed. -/
theorem get?_insert (entries : Keyed α) (key other : String) (value : α) :
    (entries.insert key value).get? other =
      if key = other then some value else entries.get? other := by
  induction entries with
  | nil => simp [insert, get?]
  | cons e rest ih =>
    obtain ⟨k, v⟩ := e
    unfold insert
    split
    · simp [get?]
    · split
      · next h => subst h; by_cases h : key = other <;> simp [get?, h]
      · next h =>
        by_cases hk : k = other
        · subst hk; simp [get?, h]
        · simp [get?, hk, ih]

/-- A key taken away is gone, and nothing else has changed. -/
theorem get?_erase (entries : Keyed α) (key other : String) :
    (entries.erase key).get? other = if key = other then none else entries.get? other := by
  induction entries with
  | nil => simp [erase, get?]
  | cons e rest ih =>
    obtain ⟨k, v⟩ := e
    unfold erase at ih ⊢
    by_cases hk : k = key
    · by_cases ho : key = other <;> simp_all [get?]
    · by_cases ho : k = other
      · have hne : ¬ key = other := fun h => hk (ho.trans h.symm)
        simp [get?, ho, hne]
        simp [get?, ← ho, hk]
      · simp [get?, hk, ho, ih]

end Keyed

end RemoteSession
