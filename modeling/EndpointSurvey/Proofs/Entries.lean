/-
Entries looked up in joined lists, and entries written one after another.

Main statements: `lookup?_append` (the first list counts first), `lookup?_of_mem` (entries of different keys are all
found), `ext_of_nodup` (entries are their keys and what is found under them), `ofList_of_nodup` (they stay as they are
written), `keys_foldl` and `addKeys_addKeys` (the keys of entries written one after another, or in two goes) and
`lookup?_ofList_map` (an entry that its key decides is found).
-/
import EndpointSurvey.Entries

namespace EndpointSurvey

namespace Entries

variable {α : Type}

theorem lookup?_append (key : Text) (a b : Entries α) :
    lookup? key (a ++ b) = (lookup? key a).or (lookup? key b) := by
  induction a with
  | nil => rfl
  | cons entry rest ih =>
    obtain ⟨k, v⟩ := entry
    by_cases hk : k = key <;> simp [lookup?, hk, ih]

theorem lookup?_eq_none {key : Text} {entries : Entries α} (h : ∀ entry ∈ entries, entry.1 ≠ key) :
    lookup? key entries = none := by
  cases found : lookup? key entries with
  | none => rfl
  | some v => exact absurd rfl (h _ (mem_of_lookup? found))

theorem isSome_lookup?_iff (key : Text) (entries : Entries α) :
    (lookup? key entries).isSome ↔ key ∈ keys entries := by
  induction entries with
  | nil => simp [lookup?, keys]
  | cons entry rest ih =>
    obtain ⟨k, v⟩ := entry
    rw [keys, List.map_cons, List.mem_cons, ← keys, ← ih]
    by_cases same : k = key
    · simp [lookup?, same]
    · simp [lookup?, same, Ne.symm same]

theorem lookup?_of_mem {key : Text} {value : α} {entries : Entries α} (distinct : (keys entries).Nodup)
    (h : (key, value) ∈ entries) : lookup? key entries = some value := by
  induction entries with
  | nil => cases h
  | cons entry rest ih =>
    obtain ⟨first, others⟩ := List.nodup_cons.1 distinct
    rcases List.mem_cons.1 h with rfl | h
    · exact if_pos rfl
    · have different : entry.1 ≠ key := by
        rintro rfl
        exact first (List.mem_map.2 ⟨_, h, rfl⟩)
      exact (if_neg different).trans (ih others h)

/-- **Entries are the same** if their keys are, in order, and each key holds the same. -/
theorem ext_of_nodup {a b : Entries α} (distinct : (keys a).Nodup) (order : keys a = keys b)
    (held : ∀ key, lookup? key a = lookup? key b) : a = b := by
  induction a generalizing b with
  | nil => exact (List.map_eq_nil_iff.1 order.symm).symm
  | cons entry rest ih =>
    obtain ⟨key, value⟩ := entry
    cases b with
    | nil => cases order
    | cons entry' rest' =>
      obtain ⟨key', value'⟩ := entry'
      obtain ⟨rfl, tails⟩ := List.cons.inj order
      have after : keys rest = keys rest' := tails
      obtain ⟨first, distinct⟩ := List.nodup_cons.1 distinct
      have value_eq : value = value' := by simpa [lookup?] using held key
      subst value_eq
      refine congrArg _ (ih distinct after fun other => ?_)
      by_cases same : key = other
      · subst same
        have absent : ∀ {es : Entries α}, key ∉ keys es → lookup? key es = none := fun new =>
          lookup?_eq_none fun e he same => new (List.mem_map.2 ⟨e, he, same⟩)
        rw [absent first, absent (after ▸ first)]
      · simpa [lookup?, same] using held other

/-- Of values that stand under their own names, those of a name are the one that is found. -/
theorem filter_values {name : α → Text} {entries : Entries α} (distinct : (keys entries).Nodup)
    (named : ∀ entry ∈ entries, name entry.2 = entry.1) (key : Text) :
    (entries.map (·.2)).filter (name · = key) = (lookup? key entries).toList := by
  induction entries with
  | nil => rfl
  | cons entry rest ih =>
    obtain ⟨first, distinct⟩ := List.nodup_cons.1 distinct
    have head := named entry List.mem_cons_self
    have tail := ih distinct fun e he => named e (List.mem_cons_of_mem entry he)
    rw [List.map_cons, List.filter_cons, tail, lookup?, head]
    by_cases same : entry.1 = key
    · have absent : lookup? key rest = none :=
        lookup?_eq_none fun e he other => first (List.mem_map.2 ⟨e, he, other.trans same.symm⟩)
      rw [if_pos (decide_eq_true same), if_pos same, absent]
      rfl
    · rw [if_neg (by simpa using same), if_neg same]

theorem insert_of_not_mem {key : Text} (value : α) (entries : Entries α) (h : key ∉ keys entries) :
    insert key value entries = entries ++ [(key, value)] := by
  induction entries with
  | nil => rfl
  | cons entry rest ih =>
    obtain ⟨k, v⟩ := entry
    have first : k ≠ key := fun same => h (by simp [keys, same])
    have others : key ∉ keys rest := fun member => h (List.mem_cons_of_mem _ member)
    rw [insert, if_neg first, ih others, List.cons_append]

theorem foldl_insert_of_nodup {before pairs : List (Text × α)} (h : (keys (before ++ pairs)).Nodup) :
    pairs.foldl (fun acc pair => insert pair.1 pair.2 acc) before = before ++ pairs := by
  induction pairs generalizing before with
  | nil => rw [List.append_nil, List.foldl_nil]
  | cons pair rest ih =>
    have new : pair.1 ∉ keys before := by
      intro member
      rw [keys, List.map_append, List.nodup_append] at h
      exact h.2.2 _ member _ List.mem_cons_self rfl
    rw [List.foldl_cons, insert_of_not_mem pair.2 before new, ih]
    · rw [List.append_assoc, List.singleton_append]
    · rwa [List.append_assoc, List.singleton_append]

theorem ofList_of_nodup {pairs : List (Text × α)} (h : (keys pairs).Nodup) : ofList pairs = pairs :=
  foldl_insert_of_nodup h

/-! ## The keys of entries that are written -/

/-- adds keys, one after another, that are not there yet -/
def addKeys (keys more : List Text) : List Text :=
  more.foldl (fun keys key => if key ∈ keys then keys else keys ++ [key]) keys

theorem keys_insert (key : Text) (value : α) (entries : Entries α) :
    keys (insert key value entries) = addKeys (keys entries) [key] := by
  by_cases member : key ∈ keys entries
  · rw [keys_insert_of_mem value entries member]
    exact (if_pos member).symm
  · rw [keys_insert_of_not_mem value entries member]
    exact (if_neg member).symm

theorem mem_keys_insert {key other : Text} (value : α) (entries : Entries α) :
    other ∈ keys (insert key value entries) ↔ other ∈ keys entries ∨ key = other := by
  by_cases member : key ∈ keys entries
  · rw [keys_insert_of_mem value entries member]
    refine (or_iff_left_of_imp ?_).symm
    rintro rfl
    exact member
  · rw [keys_insert_of_not_mem value entries member, List.mem_append, List.mem_singleton, eq_comm (a := other)]

theorem keys_insertIfAbsent (key : Text) (value : α) (entries : Entries α) :
    keys (insertIfAbsent key value entries) = addKeys (keys entries) [key] := by
  unfold insertIfAbsent
  by_cases member : key ∈ keys entries
  · rw [if_pos ((isSome_lookup?_iff key entries).2 member)]
    exact (if_pos member).symm
  · rw [if_neg fun found => member ((isSome_lookup?_iff key entries).1 found), keys, List.map_append]
    exact (if_neg member).symm

theorem addKeys_of_nodup {before more : List Text} (distinct : (before ++ more).Nodup) :
    addKeys before more = before ++ more := by
  induction more generalizing before with
  | nil => exact (List.append_nil before).symm
  | cons key rest ih =>
    have new : key ∉ before := fun member => (List.nodup_append.1 distinct).2.2 key member key List.mem_cons_self rfl
    have step : addKeys before (key :: rest) = addKeys (before ++ [key]) rest :=
      congrArg (addKeys · rest) (if_neg new)
    rw [step, ih] <;> rw [List.append_assoc, List.singleton_append]
    exact distinct

theorem mem_addKeys {key : Text} (before more : List Text) : key ∈ addKeys before more ↔ key ∈ before ∨ key ∈ more := by
  induction more generalizing before with
  | nil => exact (or_iff_left List.not_mem_nil).symm
  | cons other rest ih =>
    show key ∈ addKeys (if other ∈ before then before else before ++ [other]) rest ↔ _
    rw [ih, List.mem_cons, ← or_assoc]
    refine or_congr_left ?_
    split
    · next old => exact (or_iff_left_of_imp fun same => same ▸ old).symm
    · rw [List.mem_append, List.mem_singleton]

theorem addKeys_append (keys more last : List Text) : addKeys keys (more ++ last) = addKeys (addKeys keys more) last :=
  List.foldl_append

/-- Keys that were put together before are added as they would be one after another. -/
theorem addKeys_addKeys (keys more last : List Text) :
    addKeys keys (addKeys more last) = addKeys (addKeys keys more) last := by
  induction last generalizing more with
  | nil => rfl
  | cons key rest ih =>
    show addKeys keys (addKeys (if key ∈ more then more else more ++ [key]) rest) =
      addKeys (if key ∈ addKeys keys more then addKeys keys more else addKeys keys more ++ [key]) rest
    rw [ih]
    by_cases old : key ∈ more
    · rw [if_pos old, if_pos ((mem_addKeys keys more).2 (.inr old))]
    · rw [if_neg old, addKeys_append]
      rfl

theorem nodup_addKeys {keys : List Text} (distinct : keys.Nodup) (more : List Text) : (addKeys keys more).Nodup := by
  induction more generalizing keys with
  | nil => exact distinct
  | cons key rest ih =>
    have first : (if key ∈ keys then keys else keys ++ [key]).Nodup := by
      split
      · exact distinct
      · next new =>
        refine List.nodup_append.2 ⟨distinct, List.nodup_cons.2 ⟨List.not_mem_nil, List.nodup_nil⟩, ?_⟩
        rintro old member _ last rfl
        exact new (List.mem_singleton.1 last ▸ member)
    exact ih first

/-- Whatever way entries are written one after another, their keys are those before and the new ones. -/
theorem keys_foldl {ι : Type} {write : Entries α → ι → Entries α} {key : ι → Text}
    (h : ∀ entries a, keys (write entries a) = addKeys (keys entries) [key a]) (list : List ι) (before : Entries α) :
    keys (list.foldl write before) = addKeys (keys before) (list.map key) := by
  induction list generalizing before with
  | nil => rfl
  | cons a rest ih =>
    rw [List.foldl_cons, ih, h, List.map_cons]
    rfl

/-- An entry whose value depends on its key alone is found however often it is written. -/
theorem lookup?_ofList_map (value : Text → α) {list : List Text} {key : Text} (h : key ∈ list) :
    lookup? key (ofList (list.map fun key => (key, value key))) = some (value key) := by
  have written : ∀ (list : List Text) (before : Entries α),
      lookup? key ((list.map fun key => (key, value key)).foldl (fun acc pair => insert pair.1 pair.2 acc) before) =
        if key ∈ list then some (value key) else lookup? key before := by
    intro list
    induction list with
    | nil => exact fun before => (if_neg List.not_mem_nil).symm
    | cons other rest ih =>
      intro before
      rw [List.map_cons, List.foldl_cons, ih, lookup?_insert]
      by_cases last : key ∈ rest
      · rw [if_pos last, if_pos (List.mem_cons_of_mem _ last)]
      · by_cases same : other = key
        · subst same
          rw [if_neg last, if_pos rfl, if_pos List.mem_cons_self]
        · rw [if_neg last, if_neg same, if_neg]
          simp [last, Ne.symm same]
  exact (written list []).trans (if_pos h)

end Entries

end EndpointSurvey
