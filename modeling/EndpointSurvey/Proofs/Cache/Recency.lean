/-
Calls that a cache serves one after another, seen through the versions that it holds, the least recently used first: a
version that is found or stored becomes the most recently used, and beyond the capacity the least recently used go. What
is made of the texts does not matter for that.

Main statements:
- `SharedCache.serve_alone`: a call is served as when its two turns are not interrupted;
- `versions_serve`: what a call does to the versions that are held;
- `hits_serve`: a call hits exactly if it asks for a version that is held.
-/
import EndpointSurvey.Proofs.Cache.Interleaving
import Mathlib.Data.List.Nodup

namespace EndpointSurvey

variable {α : Type}

namespace DocumentCache

/-! ## Calls served one after another -/

/-- serves a call that nothing interrupts -/
def serve (make : Text → Traced α) (c : DocumentCache α) : Call → Traced (DocumentCache α × Answer α)
  | .get key text =>
    match c.lookup key (Digest.fingerprint text) with
    | (c, some e) => pure (c, .result e.result)
    | (c, none) => pure (c, .absent)
  | .getOrMake key text => do
    let (c, r) ← c.getOrMake make key (Digest.fingerprint text) text
    pure (c, .result r)
  | .invalidate key => do
    let (c, was) ← c.invalidate key
    pure (c, .removed was)
  | .clear => do
    let c ← c.clear
    pure (c, .cleared)

/-- the cache after calls served one after another -/
def serveAll (make : Text → Traced α) (c : DocumentCache α) : List Call → Traced (DocumentCache α)
  | [] => pure c
  | call :: rest => do
    let (c, _) ← c.serve make call
    serveAll make c rest

end DocumentCache

/-- A call is served as when its two turns are not interrupted. -/
theorem SharedCache.serve_alone (make : Text → α) (c : DocumentCache α) (call : Call) :
    (start c [call]).run make [0, 0] = (do
      let (c, answer) ← c.serve (fun text => pure (make text)) call
      pure ⟨c, [(call, .answered answer)]⟩) := by
  cases call with
  | getOrMake key text =>
    rw [getOrMake_alone]
    apply Traced.ext <;> simp [DocumentCache.serve]
  | get key text =>
    cases found : c.lookup key (Digest.fingerprint text) with
    | mk after entry =>
      cases entry <;>
      · apply Traced.ext <;>
        simp [run, start, turn, Call.nextSection, Call.firstSection, DocumentCache.serve, found]
  | invalidate key =>
    apply Traced.ext <;> simp [run, start, turn, Call.nextSection, Call.firstSection, DocumentCache.serve]
  | clear => apply Traced.ext <;> simp [run, start, turn, Call.nextSection, Call.firstSection, DocumentCache.serve]

namespace DocumentCache

/-! ## Versions in the order of their use -/

/-- a key with what decides whether its entry is current -/
structure Version where
  key : Text
  fingerprint : Text
  ruleVersion : Nat
  deriving DecidableEq, Repr

namespace Version

/-- the version that a call for a text asks for -/
def asked (key text : Text) : Version := ⟨key, Digest.fingerprint text, Binding.ruleVersion⟩

variable {v : Version} {versions : List Version} {key : Text}

/-- the versions of other keys -/
def without (key : Text) (versions : List Version) : List Version := versions.filter (·.key != key)

/-- the versions with this one as the most recently used -/
def refresh (v : Version) (versions : List Version) : List Version := without v.key versions ++ [v]

/-- as many of the most recently used versions as there is room for -/
def trim (room : Nat) (versions : List Version) : List Version := versions.drop (versions.length - room)

theorem without_of_not_mem (absent : key ∉ versions.map Version.key) : without key versions = versions := by
  refine List.filter_eq_self.2 fun v member => ?_
  have : v.key ≠ key := fun same => absent (same ▸ List.mem_map_of_mem member)
  simpa using this

theorem key_not_mem_without (key : Text) (versions : List Version) : key ∉ (without key versions).map Version.key := by
  simp [without]

/-- One version goes if the key has one. -/
theorem length_without (distinct : (versions.map Version.key).Nodup) (key : Text) :
    (without key versions).length + (if key ∈ versions.map Version.key then 1 else 0) = versions.length := by
  induction versions with
  | nil => rfl
  | cons v rest ih =>
    obtain ⟨first, others⟩ := List.nodup_cons.1 distinct
    have rest_length := ih others
    by_cases same : v.key = key
    · subst same
      have kept : without v.key (v :: rest) = rest := by
        rw [without, List.filter_cons_of_neg (by simp)]
        exact without_of_not_mem first
      rw [kept]
      simp
    · have kept : without key (v :: rest) = v :: without key rest := by
        rw [without, List.filter_cons_of_pos (by simpa using same)]
        rfl
      rw [kept]
      simp only [List.length_cons, List.map_cons, List.mem_cons, Ne.symm same, false_or]
      omega

theorem length_refresh (distinct : (versions.map Version.key).Nodup) (v : Version) :
    (refresh v versions).length = versions.length + if v.key ∈ versions.map Version.key then 0 else 1 := by
  have := length_without distinct v.key
  rw [refresh, List.length_append, List.length_singleton]
  split at this <;> simp_all

theorem nodup_without (distinct : (versions.map Version.key).Nodup) (key : Text) :
    ((without key versions).map Version.key).Nodup :=
  distinct.sublist (List.filter_sublist.map _)

theorem nodup_refresh (distinct : (versions.map Version.key).Nodup) (v : Version) :
    ((refresh v versions).map Version.key).Nodup := by
  rw [refresh, List.map_append, List.map_singleton, List.nodup_append]
  refine ⟨nodup_without distinct v.key, List.nodup_singleton _, fun a member b single same => ?_⟩
  rw [same, List.mem_singleton.1 single] at member
  exact key_not_mem_without v.key versions member

theorem length_trim (room : Nat) (versions : List Version) : (trim room versions).length = min versions.length room := by
  rw [trim, List.length_drop]
  omega

theorem trim_of_fits {room : Nat} (fits : versions.length ≤ room) : trim room versions = versions := by
  rw [trim, Nat.sub_eq_zero_of_le fits, List.drop_zero]

/-- the versions after a call is served from a cache with this room: a version that is made, or found, is the most
recently used then -/
def afterCall (room : Nat) (versions : List Version) : Call → List Version
  | .get key text =>
    let v := asked key text
    if v ∈ versions then refresh v versions else versions
  | .getOrMake key text => trim room (refresh (asked key text) versions)
  | .invalidate key => without key versions
  | .clear => []

/-- one if the call asks for a version that is held -/
def hits (versions : List Version) : Call → Nat
  | .get key text | .getOrMake key text => if asked key text ∈ versions then 1 else 0
  | .invalidate _ | .clear => 0

end Version

/-! ## The versions that a cache holds -/

def versionOf (entry : Text × CacheEntry α) : Version := ⟨entry.1, entry.2.fingerprint, entry.2.ruleVersion⟩

def versions (c : DocumentCache α) : List Version := c.entries.map versionOf

section Steps

variable {make : Text → Traced α} {c : DocumentCache α} {key fingerprint : Text} {e : CacheEntry α} {call : Call}
  {room : Nat}

theorem map_key_versions (c : DocumentCache α) : c.versions.map Version.key = c.keys := by
  rw [versions, List.map_map]
  rfl

theorem map_versionOf_without (key : Text) (entries : Entries (CacheEntry α)) :
    (without key entries).map versionOf = Version.without key (entries.map versionOf) := by
  rw [without, Version.without, List.filter_map]
  rfl

theorem map_versionOf_withLast (key : Text) (e : CacheEntry α) (entries : Entries (CacheEntry α)) :
    (withLast key e entries).map versionOf = Version.refresh (versionOf (key, e)) (entries.map versionOf) := by
  rw [withLast, List.map_append, map_versionOf_without, List.map_singleton]
  rfl

/-- A look-up finds exactly the versions that are held. -/
theorem current?_isSome_iff (distinct : c.keys.Nodup) (key text : Text) :
    (c.current? key (Digest.fingerprint text)).isSome ↔ Version.asked key text ∈ c.versions := by
  rw [Option.isSome_iff_exists, versions, List.mem_map]
  constructor
  · rintro ⟨e, current⟩
    obtain ⟨held, version, rules⟩ := current?_eq_some_iff.1 current
    exact ⟨(key, e), Entries.mem_of_lookup? held, by rw [versionOf, version, rules]; rfl⟩
  · rintro ⟨⟨k, e⟩, held, same⟩
    simp only [versionOf, Version.asked, Version.mk.injEq] at same
    obtain ⟨rfl, version, rules⟩ := same
    exact ⟨e, current?_eq_some_iff.2 ⟨Entries.lookup?_of_mem distinct held, version, rules⟩⟩

theorem current?_eq_none_iff (distinct : c.keys.Nodup) (key text : Text) :
    c.current? key (Digest.fingerprint text) = none ↔ Version.asked key text ∉ c.versions := by
  rw [← current?_isSome_iff distinct, Option.not_isSome_iff_eq_none]

/-- The version that is found becomes the most recently used. -/
theorem versions_lookup_hit {text : Text} (hit : c.current? key (Digest.fingerprint text) = some e) :
    (c.lookup key (Digest.fingerprint text)).1.versions = (Version.asked key text).refresh c.versions := by
  obtain ⟨-, version, rules⟩ := current?_eq_some_iff.1 hit
  have same : versionOf (key, e) = Version.asked key text := by rw [versionOf, version, rules]; rfl
  rw [lookup_of_current hit, ← same]
  exact map_versionOf_withLast key e c.entries

theorem versions_lookup_miss (miss : c.current? key fingerprint = none) :
    (c.lookup key fingerprint).1.versions = c.versions := by
  rw [lookup_of_none miss]
  rfl

/-- A version that is stored becomes the most recently used, and the least recently used go if there is no room. -/
theorem versions_store {text : Text} (miss : c.current? key (Digest.fingerprint text) = none)
    (capacity : c.capacity = some room) (result : α) :
    (c.store key (Digest.fingerprint text) result).value.1.versions =
      Version.trim room ((Version.asked key text).refresh c.versions) := by
  have fresh : (c.withFresh key (Digest.fingerprint text) result).versions =
      (Version.asked key text).refresh c.versions := map_versionOf_withLast key _ c.entries
  have excess : (c.withFresh key (Digest.fingerprint text) result).excess =
      ((Version.asked key text).refresh c.versions).length - room := by
    rw [← fresh, versions, List.length_map, DocumentCache.excess]
    simp only [withFresh, capacity]
  rw [store_of_none miss]
  calc versions (c.withFresh key (Digest.fingerprint text) result).trim.value
      = (c.withFresh key (Digest.fingerprint text) result).versions.drop
          (c.withFresh key (Digest.fingerprint text) result).excess := List.map_drop
    _ = Version.trim room ((Version.asked key text).refresh c.versions) := by rw [fresh, excess, Version.trim]

theorem versions_invalidate (c : DocumentCache α) (key : Text) :
    (c.invalidate key).value.1.versions = Version.without key c.versions := by
  unfold invalidate
  cases found : c.entry? key with
  | some e => exact map_versionOf_without key c.entries
  | none =>
    refine (Version.without_of_not_mem ?_).symm
    rw [map_key_versions]
    intro member
    have held : (c.entry? key).isSome := (Entries.isSome_lookup?_iff key c.entries).2 member
    rw [found] at held
    cases held

/-! ## Calls on the versions that are held -/

theorem capacity_lookup (c : DocumentCache α) (key fingerprint : Text) :
    (c.lookup key fingerprint).1.capacity = c.capacity := by
  cases found : c.current? key fingerprint with
  | some e => rw [lookup_of_current found]
  | none => rw [lookup_of_none found]

theorem capacity_store (c : DocumentCache α) (key fingerprint : Text) (result : α) :
    (c.store key fingerprint result).value.1.capacity = c.capacity := by
  cases found : c.current? key fingerprint with
  | some e => rw [store_of_current found]; rfl
  | none => rw [store_of_none found]; rfl

theorem hits_store (c : DocumentCache α) (key fingerprint : Text) (result : α) :
    (c.store key fingerprint result).value.1.counts.hits = c.counts.hits := by
  cases found : c.current? key fingerprint with
  | some e => rw [store_of_current found]; rfl
  | none => rw [store_of_none found]; rfl

/-- a call that makes what is missing, as its look-up and its store -/
theorem getOrMake_of_miss {text : Text} (miss : c.current? key fingerprint = none) :
    (c.getOrMake make key fingerprint text).value =
      ((c.lookup key fingerprint).1.store key fingerprint (make text).value).value := by
  unfold getOrMake
  rw [lookup_of_none miss]
  rfl

theorem getOrMake_of_hit {text : Text} (hit : c.current? key fingerprint = some e) :
    (c.getOrMake make key fingerprint text).value = ((c.lookup key fingerprint).1, e.result) := by
  unfold getOrMake
  rw [lookup_of_current hit]
  rfl

theorem serve_get (make : Text → Traced α) (c : DocumentCache α) (key text : Text) :
    (c.serve make (.get key text)).value.1 = (c.lookup key (Digest.fingerprint text)).1 := by
  cases found : c.current? key (Digest.fingerprint text) with
  | some e => rw [serve, lookup_of_current found]; rfl
  | none => rw [serve, lookup_of_none found]; rfl

theorem capacity_serve (make : Text → Traced α) (c : DocumentCache α) (call : Call) :
    (c.serve make call).value.1.capacity = c.capacity := by
  cases call with
  | get key text => rw [serve_get, capacity_lookup]
  | getOrMake key text =>
    show (c.getOrMake make key (Digest.fingerprint text) text).value.1.capacity = _
    cases found : c.current? key (Digest.fingerprint text) with
    | some e => rw [getOrMake_of_hit found, capacity_lookup]
    | none => rw [getOrMake_of_miss found, capacity_store, capacity_lookup]
  | invalidate key =>
    show (c.invalidate key).value.1.capacity = _
    unfold invalidate
    split <;> rfl
  | clear => rfl

/-- **What a call does to the versions that are held**, whatever is made of the texts. -/
theorem versions_serve (make : Text → Traced α) (distinct : c.keys.Nodup) (capacity : c.capacity = some room)
    (fits : c.versions.length ≤ room) (call : Call) :
    (c.serve make call).value.1.versions = Version.afterCall room c.versions call := by
  cases call with
  | get key text =>
    rw [serve_get, Version.afterCall]
    cases found : c.current? key (Digest.fingerprint text) with
    | some e =>
      have held : Version.asked key text ∈ c.versions := (current?_isSome_iff distinct key text).1 (by rw [found]; rfl)
      rw [versions_lookup_hit found, if_pos held]
    | none => rw [versions_lookup_miss found, if_neg ((current?_eq_none_iff distinct key text).1 found)]
  | getOrMake key text =>
    show (c.getOrMake make key (Digest.fingerprint text) text).value.1.versions = _
    rw [Version.afterCall]
    cases found : c.current? key (Digest.fingerprint text) with
    | some e =>
      have held : Version.asked key text ∈ c.versions := (current?_isSome_iff distinct key text).1 (by rw [found]; rfl)
      have same_length : ((Version.asked key text).refresh c.versions).length = c.versions.length := by
        rw [Version.length_refresh (by rwa [map_key_versions]), if_pos (List.mem_map_of_mem held), Nat.add_zero]
      rw [getOrMake_of_hit found, versions_lookup_hit found, Version.trim_of_fits (same_length ▸ fits)]
    | none =>
      have still : current? (c.lookup key (Digest.fingerprint text)).1 key (Digest.fingerprint text) = none := by
        rw [lookup_of_none found]
        exact found
      rw [getOrMake_of_miss found, versions_store still ((capacity_lookup ..).trans capacity),
        versions_lookup_miss found]
  | invalidate key => exact versions_invalidate c key
  | clear => rfl

theorem hits_serve (make : Text → Traced α) (distinct : c.keys.Nodup) (call : Call) :
    (c.serve make call).value.1.counts.hits = c.counts.hits + Version.hits c.versions call := by
  have asks : ∀ key text, ((c.lookup key (Digest.fingerprint text)).1.counts.hits =
      c.counts.hits + if Version.asked key text ∈ c.versions then 1 else 0) := by
    intro key text
    cases found : c.current? key (Digest.fingerprint text) with
    | some e =>
      rw [lookup_of_current found, if_pos ((current?_isSome_iff distinct key text).1 (by rw [found]; rfl))]
    | none => rw [lookup_of_none found, if_neg ((current?_eq_none_iff distinct key text).1 found)]; rfl
  cases call with
  | get key text => rw [serve_get, asks, Version.hits]
  | getOrMake key text =>
    show (c.getOrMake make key (Digest.fingerprint text) text).value.1.counts.hits = _
    rw [Version.hits, ← asks]
    cases found : c.current? key (Digest.fingerprint text) with
    | some e => rw [getOrMake_of_hit found]
    | none => rw [getOrMake_of_miss found, hits_store]
  | invalidate key =>
    show (c.invalidate key).value.1.counts.hits = _
    unfold invalidate
    split <;> rfl
  | clear => rfl

end Steps

end DocumentCache

end EndpointSurvey
