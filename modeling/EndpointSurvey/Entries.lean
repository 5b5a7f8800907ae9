/-
Maps from texts that list their entries in the order the keys were first written; writing a key again keeps its place.

Main statements: `lookup?_insert` (an entry written is found, the others stay), `keys_insert_of_mem` and
`keys_insert_of_not_mem` (an old key keeps its place, a new one comes last).
-/
import EndpointSurvey.Text.Basic

namespace EndpointSurvey

abbrev Entries (α : Type) := List (Text × α)

namespace Entries

variable {α : Type}

def lookup? (key : Text) : Entries α → Option α
  | [] => none
  | (k, v) :: rest => if k = key then some v else lookup? key rest

/-- writes an entry: in its place if the key is there, else at the end -/
def insert (key : Text) (value : α) : Entries α → Entries α
  | [] => [(key, value)]
  | (k, v) :: rest => if k = key then (k, value) :: rest else (k, v) :: insert key value rest

/-- keeps the first value written for a key -/
def insertIfAbsent (key : Text) (value : α) (entries : Entries α) : Entries α :=
  if (lookup? key entries).isSome then entries else entries ++ [(key, value)]

def keys (entries : Entries α) : List Text := entries.map (·.1)

/-- the entries written one after another -/
def ofList (pairs : List (Text × α)) : Entries α := pairs.foldl (fun acc (k, v) => insert k v acc) []

theorem mem_of_lookup? {key : Text} {value : α} {entries : Entries α} (h : lookup? key entries = some value) :
    (key, value) ∈ entries := by
  induction entries with
  | nil => cases h
  | cons entry rest ih =>
    obtain ⟨k, v⟩ := entry
    unfold lookup? at h
    split at h
    · next hk => cases h; simp [hk]
    · exact List.mem_cons_of_mem _ (ih h)

theorem lookup?_insert (key other : Text) (value : α) (entries : Entries α) :
    lookup? other (insert key value entries) = if key = other then some value else lookup? other entries := by
  induction entries with
  | nil => simp [insert, lookup?]
  | cons entry rest ih =>
    obtain ⟨k, v⟩ := entry
    by_cases hk : k = key
    · subst hk
      by_cases ho : k = other <;> simp [insert, lookup?, ho]
    · by_cases ho : k = other
      · subst ho
        simp [insert, lookup?, hk, Ne.symm hk]
      · simp [insert, lookup?, hk, ho, ih]

theorem keys_insert_of_mem {key : Text} (value : α) (entries : Entries α) (h : key ∈ keys entries) :
    keys (insert key value entries) = keys entries := by
  induction entries with
  | nil => simp [keys] at h
  | cons entry rest ih =>
    obtain ⟨k, v⟩ := entry
    by_cases hk : k = key
    · simp [insert, keys, hk]
    · have hr : key ∈ keys rest := by
        rcases List.mem_cons.1 h with e | e
        · exact absurd e.symm hk
        · exact e
      have := ih hr
      simp only [keys] at this
      simp [insert, keys, hk, this]

theorem keys_insert_of_not_mem {key : Text} (value : α) (entries : Entries α) (h : key ∉ keys entries) :
    keys (insert key value entries) = keys entries ++ [key] := by
  induction entries with
  | nil => simp [insert, keys]
  | cons entry rest ih =>
    obtain ⟨k, v⟩ := entry
    have hk : k ≠ key := fun e => h (by simp [keys, e])
    have hr : key ∉ keys rest := fun e => h (List.mem_cons_of_mem _ e)
    have := ih hr
    simp only [keys] at this
    simp [insert, keys, hk, this]

end Entries

end EndpointSurvey
