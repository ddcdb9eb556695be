import EntityTable.Text

/-!
Key-value lists in insertion order. A key written twice keeps its first position and takes its
last value.
-/

namespace EntityTable

abbrev Entries (α : Type) := List (Text × α)

namespace Entries

variable {α β : Type}

def keys (entries : Entries α) : List Text := entries.map (·.1)

def get? (key : Text) : Entries α → Option α
  | [] => none
  | (k, v) :: rest => if k = key then some v else get? key rest

def contains (key : Text) (entries : Entries α) : Bool := (get? key entries).isSome

/-- Replaces the value in place, or appends the entry if the key is new. -/
def put (key : Text) (value : α) : Entries α → Entries α
  | [] => [(key, value)]
  | (k, v) :: rest => if k = key then (key, value) :: rest else (k, v) :: put key value rest

def ofList (pairs : List (Text × α)) : Entries α :=
  pairs.foldl (fun entries (key, value) => entries.put key value) []

def without (known : List Text) (entries : Entries α) : Entries α :=
  entries.filter fun entry => !known.contains entry.1

def mapValues (f : Text → α → β) (entries : Entries α) : Entries β :=
  entries.map fun (key, value) => (key, f key value)

theorem mem_keys_of_get? {entries : Entries α} {key : Text} {value : α}
    (h : entries.get? key = some value) : key ∈ entries.keys := by
  induction entries with
  | nil => simp [get?] at h
  | cons entry rest ih =>
    obtain ⟨k, v⟩ := entry
    by_cases hk : k = key
    · simp [keys, hk]
    · simp only [get?, hk, if_false] at h
      simpa [keys] using Or.inr (by simpa [keys] using ih h)

end Entries
end EntityTable
