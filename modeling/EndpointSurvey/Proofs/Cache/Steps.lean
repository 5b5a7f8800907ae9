/-
What each step of the cache does to the entry of a key: an entry stays as it is unless the step says that it stored,
evicted, invalidated or cleared it.

Main statements: `entry?_lookup`, `entry?_store` and `entry?_invalidate` (a step that does not unsettle a key keeps its
entry), `store_of_current` (a current entry is not stored again) and `current?_store` (after its store a result is the
one that its key's entry holds).
-/
import EndpointSurvey.Cache.Basic
import EndpointSurvey.Proofs.Diagnostic.TracedValue
import EndpointSurvey.Proofs.Entries

namespace EndpointSurvey

/-- the event says that the entry of a key was replaced or removed -/
def Event.Unsettles (key : Text) : Event → Prop
  | .cacheStored k _ => k = key
  | .cacheEvicted k => k = key
  | .cacheInvalidated k => k = key
  | .cacheCleared => True
  | _ => False

namespace DocumentCache

variable {α : Type} {c : DocumentCache α} {key other fingerprint : Text} {e : CacheEntry α}

/-! ## Entries moved to the end and dropped at the front -/

theorem lookup?_without (key other : Text) (entries : Entries (CacheEntry α)) :
    Entries.lookup? other (without key entries) = if key = other then none else Entries.lookup? other entries := by
  induction entries with
  | nil => simp [without, Entries.lookup?]
  | cons entry rest ih =>
    obtain ⟨k, v⟩ := entry
    have rest_eq : without key ((k, v) :: rest) =
        if k = key then without key rest else (k, v) :: without key rest := by
      by_cases hk : k = key <;> simp [without, hk]
    rw [rest_eq]
    by_cases hk : k = key
    · rw [if_pos hk, ih]
      by_cases ho : key = other <;> simp [Entries.lookup?, hk, ho]
    · rw [if_neg hk]
      by_cases ho : k = other
      · subst ho
        simp [Entries.lookup?, Ne.symm hk]
      · simp [Entries.lookup?, ho, ih]

theorem lookup?_withLast (key other : Text) (e : CacheEntry α) (entries : Entries (CacheEntry α)) :
    Entries.lookup? other (withLast key e entries) =
      if key = other then some e else Entries.lookup? other entries := by
  unfold withLast
  rw [Entries.lookup?_append, lookup?_without]
  by_cases h : key = other <;> simp [Entries.lookup?, h]

theorem mem_withLast {entries : Entries (CacheEntry α)} {entry : Text × CacheEntry α}
    (h : entry ∈ withLast key e entries) : entry ∈ entries ∨ entry = (key, e) := by
  unfold withLast without at h
  rcases List.mem_append.1 h with h | h
  · exact .inl (List.mem_filter.1 h).1
  · exact .inr (List.mem_singleton.1 h)

theorem entries_trim : c.trim.value.entries = c.entries.drop c.excess := rfl

theorem events_trim : c.trim.events = (c.entries.take c.excess).map fun entry => .cacheEvicted entry.1 := by
  simp only [trim, Traced.events_bind, Traced.events_mapList, Traced.events_emit, Traced.events_pure, List.append_nil]
  induction c.entries.take c.excess with
  | nil => rfl
  | cons entry rest ih => rw [List.flatMap_cons, ih, List.map_cons, List.singleton_append]

/-- An entry whose key is not evicted is still there. -/
theorem entry?_trim (kept : ∀ event ∈ c.trim.events, ¬ event.Unsettles key) :
    c.trim.value.entry? key = c.entry? key := by
  have gone : Entries.lookup? key (c.entries.take c.excess) = none := by
    refine Entries.lookup?_eq_none fun entry member same => ?_
    refine kept (.cacheEvicted entry.1) ?_ same
    rw [events_trim]
    exact List.mem_map_of_mem member
  calc Entries.lookup? key (c.entries.drop c.excess)
      = Entries.lookup? key (c.entries.take c.excess ++ c.entries.drop c.excess) := by
        rw [Entries.lookup?_append, gone, Option.none_or]
    _ = Entries.lookup? key c.entries := by rw [List.take_append_drop]

/-- What was put last stays: there is room for one entry at least. -/
theorem entry?_trim_last {entries : Entries (CacheEntry α)} (h : c.entries = withLast key e entries) :
    c.trim.value.entry? key = some e := by
  have room : c.excess ≤ (without key entries).length := by
    have length_eq : c.entries.length = (without key entries).length + 1 := by
      rw [h, withLast, List.length_append, List.length_singleton]
    have capacity_pos := c.capacity_pos
    unfold excess
    cases capacity : c.capacity with
    | none => exact Nat.zero_le _
    | some n =>
      have : 0 < n := capacity_pos n capacity
      show c.entries.length - n ≤ _
      omega
  have others : Entries.lookup? key ((without key entries).drop c.excess) = none := by
    refine Entries.lookup?_eq_none fun entry member => ?_
    have := (List.mem_filter.1 (List.mem_of_mem_drop member)).2
    simpa using this
  unfold entry?
  rw [entries_trim, h, withLast, List.drop_append_of_le_length room, Entries.lookup?_append, others, Option.none_or]
  simp [Entries.lookup?]

/-! ## The steps -/

/-- the entry that a store would leave as it is -/
def current? (c : DocumentCache α) (key fingerprint : Text) : Option (CacheEntry α) :=
  (c.entry? key).filter (isCurrent · fingerprint)

/-- the entry that a store makes of a result -/
def fresh (c : DocumentCache α) (key fingerprint : Text) (result : α) : CacheEntry α :=
  ⟨fingerprint, (Entries.lookup? key c.generations).getD 0 + 1, result, Binding.ruleVersion⟩

/-- the cache with a fresh entry for the key, before there is room made -/
def withFresh (c : DocumentCache α) (key fingerprint : Text) (result : α) : DocumentCache α :=
  { c with
    entries := withLast key (c.fresh key fingerprint result) c.entries
    generations := Entries.insert key (c.fresh key fingerprint result).generation c.generations }

theorem current?_eq_some_iff :
    c.current? key fingerprint = some e ↔
      c.entry? key = some e ∧ e.fingerprint = fingerprint ∧ e.ruleVersion = Binding.ruleVersion := by
  unfold current?
  rw [Option.filter_eq_some_iff]
  simp [isCurrent]

theorem lookup_of_current (h : c.current? key fingerprint = some e) :
    c.lookup key fingerprint =
      ({ c with entries := withLast key e c.entries, counts := { c.counts with hits := c.counts.hits + 1 } },
        some e) := by
  obtain ⟨found, current⟩ := Option.filter_eq_some_iff.1 h
  unfold lookup
  rw [found]
  exact if_pos current

theorem lookup_of_none (h : c.current? key fingerprint = none) :
    c.lookup key fingerprint = ({ c with counts := { c.counts with misses := c.counts.misses + 1 } }, none) := by
  unfold lookup
  cases found : c.entry? key with
  | none => rfl
  | some e =>
    have stale : ¬ isCurrent e fingerprint := by
      unfold current? at h
      rw [found] at h
      simpa using h
    exact if_neg stale

theorem store_of_current (h : c.current? key fingerprint = some e) (result : α) :
    c.store key fingerprint result = pure (c, e.result) := by
  unfold current? at h
  unfold store
  rw [h]

theorem store_of_none (h : c.current? key fingerprint = none) (result : α) :
    c.store key fingerprint result = (do
      let after ← (c.withFresh key fingerprint result).trim
      Traced.emit (.cacheStored key (c.fresh key fingerprint result).generation)
      pure (after, result)) := by
  unfold current? at h
  unfold store
  rw [h]
  rfl

/-! ## The entry of a key after a step -/

theorem entry?_lookup : entry? (c.lookup key fingerprint).1 other = c.entry? other := by
  cases h : c.current? key fingerprint with
  | none => rw [lookup_of_none h]; rfl
  | some e =>
    rw [lookup_of_current h]
    show Entries.lookup? other (withLast key e c.entries) = Entries.lookup? other c.entries
    rw [lookup?_withLast]
    split
    · next same => rw [← same]; exact (current?_eq_some_iff.1 h).1.symm
    · rfl

theorem entry?_store {result : α}
    (kept : ∀ event ∈ (c.store key fingerprint result).events, ¬ event.Unsettles other) :
    entry? (c.store key fingerprint result).value.1 other = c.entry? other := by
  cases h : c.current? key fingerprint with
  | some e => rw [store_of_current h]; rfl
  | none =>
    rw [store_of_none h] at kept ⊢
    simp only [Traced.events_bind, Traced.events_emit, Traced.events_pure, List.append_nil, List.mem_append,
      List.mem_singleton] at kept
    have different : key ≠ other := kept (.cacheStored key _) (.inr rfl)
    calc entry? (c.withFresh key fingerprint result).trim.value other
        = entry? (c.withFresh key fingerprint result) other := entry?_trim fun event member => kept event (.inl member)
      _ = c.entry? other := by
        show Entries.lookup? other (withLast key _ c.entries) = _
        rw [lookup?_withLast, if_neg different]
        rfl

theorem entry?_invalidate (kept : ∀ event ∈ (c.invalidate key).events, ¬ event.Unsettles other) :
    entry? (c.invalidate key).value.1 other = c.entry? other := by
  unfold invalidate at kept ⊢
  split at kept
  · rfl
  · have different : key ≠ other := kept (.cacheInvalidated key) (List.mem_singleton.2 rfl)
    show Entries.lookup? other (without key c.entries) = _
    rw [lookup?_without, if_neg different]
    rfl

/-- Once a result has been stored, the entry of its key is current and holds the result given. -/
theorem current?_store (c : DocumentCache α) (key fingerprint : Text) (result : α) :
    ∃ e, (c.store key fingerprint result).value.1.current? key fingerprint = some e ∧
      (c.store key fingerprint result).value.2 = e.result := by
  cases h : c.current? key fingerprint with
  | some e =>
    rw [store_of_current h]
    exact ⟨e, h, rfl⟩
  | none =>
    rw [store_of_none h]
    refine ⟨c.fresh key fingerprint result, current?_eq_some_iff.2 ⟨?_, rfl, rfl⟩, rfl⟩
    exact entry?_trim_last rfl

/-! ## The entries after a step -/

variable {entry : Text × CacheEntry α}

theorem mem_entries_lookup (h : entry ∈ (c.lookup key fingerprint).1.entries) : entry ∈ c.entries := by
  cases found : c.current? key fingerprint with
  | none => rwa [lookup_of_none found] at h
  | some e =>
    rw [lookup_of_current found] at h
    rcases mem_withLast h with h | rfl
    · exact h
    · exact Entries.mem_of_lookup? (current?_eq_some_iff.1 found).1

theorem mem_entries_store {result : α} (h : entry ∈ (c.store key fingerprint result).value.1.entries) :
    entry ∈ c.entries ∨ entry = (key, c.fresh key fingerprint result) := by
  cases found : c.current? key fingerprint with
  | some e =>
    rw [store_of_current found] at h
    exact .inl h
  | none =>
    rw [store_of_none found] at h
    exact mem_withLast (List.mem_of_mem_drop h)

theorem mem_entries_invalidate (h : entry ∈ (c.invalidate key).value.1.entries) : entry ∈ c.entries := by
  unfold invalidate at h
  split at h
  · exact h
  · exact (List.mem_filter.1 h).1

end DocumentCache

end EndpointSurvey
