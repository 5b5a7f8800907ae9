/-
Two caches of different capacities that serve the same calls, one call after another. Everything that the smaller one
holds, the larger one holds too, in the same version and in the same order of use. The larger one may have used last
what only it holds, so what the smaller one holds need not be the most recently used part of it. But the larger one never
holds more beyond the smaller one than it has room beyond it, and so it never evicts what the smaller one keeps.

Main statements:
- `Within.afterCall`: every call keeps the versions of the smaller cache within those of the larger one;
- `larger_cache_includes`: after every run of calls the larger cache holds what the smaller one holds, and hits whenever
  the smaller one does.
-/
import EndpointSurvey.Proofs.Cache.Recency

namespace EndpointSurvey

namespace DocumentCache

variable {α : Type}

/-! ## The versions of two caches -/

/-- The versions of a small cache stand among those of a large one in the same order, and the large one holds no more
beyond them than it has room beyond the small one. -/
structure Within (small large : List Version) (m n : Nat) : Prop where
  order : small.Sublist large
  distinct : (large.map Version.key).Nodup
  fitsSmall : small.length ≤ m
  fits : large.length ≤ n
  room : large.length + m ≤ small.length + n

namespace Within

variable {small large : List Version} {m n : Nat} {v : Version} {key : Text}

theorem empty (le : m ≤ n) : Within [] [] m n :=
  ⟨List.Sublist.refl _, List.nodup_nil, Nat.zero_le _, Nat.zero_le _, by simpa using le⟩

theorem distinct_small (h : Within small large m n) : (small.map Version.key).Nodup :=
  h.distinct.sublist (h.order.map _)

theorem keys_subset (h : Within small large m n) : small.map Version.key ⊆ large.map Version.key :=
  (h.order.map _).subset

/-- A version that only the large cache holds is of a key that the small one does not hold. -/
theorem key_not_mem (h : Within small large m n) (held : v ∈ large) (absent : v ∉ small) :
    v.key ∉ small.map Version.key := by
  intro member
  obtain ⟨w, small_w, same⟩ := List.mem_map.1 member
  have : w = v := List.inj_on_of_nodup_map h.distinct (h.order.subset small_w) held same
  exact absent (this ▸ small_w)

theorem without (h : Within small large m n) (key : Text) :
    Within (Version.without key small) (Version.without key large) m n := by
  have small_length := Version.length_without h.distinct_small key
  have large_length := Version.length_without h.distinct key
  have held : key ∈ small.map Version.key → key ∈ large.map Version.key := fun member => h.keys_subset member
  have fitsSmall := h.fitsSmall
  have fits := h.fits
  have room := h.room
  refine ⟨h.order.filter _, Version.nodup_without h.distinct key, by omega, by omega, ?_⟩
  by_cases inSmall : key ∈ small.map Version.key
  · rw [if_pos inSmall] at small_length
    rw [if_pos (held inSmall)] at large_length
    omega
  · rw [if_neg inSmall] at small_length
    omega

/-- Both caches use a version, which the large one may have to make room for. -/
theorem refresh_trim (h : Within small large m n) (v : Version) :
    Within (Version.trim m (Version.refresh v small)) (Version.trim n (Version.refresh v large)) m n := by
  have small_length := Version.length_refresh h.distinct_small v
  have large_length := Version.length_refresh h.distinct v
  have held : v.key ∈ small.map Version.key → v.key ∈ large.map Version.key := fun member => h.keys_subset member
  have room : (Version.refresh v large).length + m ≤ (Version.refresh v small).length + n := by
    have := h.room
    by_cases inSmall : v.key ∈ small.map Version.key
    · rw [if_pos inSmall] at small_length
      rw [if_pos (held inSmall)] at large_length
      omega
    · rw [if_neg inSmall] at small_length
      split at large_length <;> omega
  have order : (Version.refresh v small).Sublist (Version.refresh v large) :=
    (h.order.filter _).append (List.Sublist.refl [v])
  constructor
  · -- what goes from the large cache is no more than what goes from the small one
    have fewer : (Version.refresh v large).length - n ≤ (Version.refresh v small).length - m := by omega
    exact (List.drop_sublist_drop_left _ fewer).trans (order.drop _)
  · exact (Version.nodup_refresh h.distinct v).sublist ((List.drop_sublist _ _).map _)
  · rw [Version.length_trim]
    exact Nat.min_le_right ..
  · rw [Version.length_trim]
    exact Nat.min_le_right ..
  · rw [Version.length_trim, Version.length_trim]
    omega

/-- Only the large cache uses a version, which the small one does not hold. -/
theorem refresh_large (h : Within small large m n) (held : v ∈ large) (absent : v ∉ small) :
    Within small (Version.refresh v large) m n := by
  have keep : Version.without v.key small = small := Version.without_of_not_mem (h.key_not_mem held absent)
  have same_length : (Version.refresh v large).length = large.length := by
    rw [Version.length_refresh h.distinct, if_pos (List.mem_map_of_mem held), Nat.add_zero]
  refine ⟨?_, Version.nodup_refresh h.distinct v, h.fitsSmall, same_length ▸ h.fits, same_length ▸ h.room⟩
  calc small
      _ = Version.without v.key small := keep.symm
      List.Sublist _ (Version.without v.key large) := h.order.filter _
      List.Sublist _ (Version.refresh v large) := List.sublist_append_left _ _

/-- Both caches use a version that they hold. -/
theorem refresh (h : Within small large m n) (held : v ∈ small) :
    Within (Version.refresh v small) (Version.refresh v large) m n := by
  have used := h.refresh_trim v
  have small_length := Version.length_refresh h.distinct_small v
  have large_length := Version.length_refresh h.distinct v
  rw [if_pos (List.mem_map_of_mem held), Nat.add_zero] at small_length
  rw [if_pos (List.mem_map_of_mem (h.order.subset held)), Nat.add_zero] at large_length
  rwa [Version.trim_of_fits (small_length ▸ h.fitsSmall), Version.trim_of_fits (large_length ▸ h.fits)] at used

/-- **Every call keeps a small cache within a large one.** -/
theorem afterCall (h : Within small large m n) (le : m ≤ n) (call : Call) :
    Within (Version.afterCall m small call) (Version.afterCall n large call) m n := by
  cases call with
  | get key text =>
    by_cases inSmall : Version.asked key text ∈ small
    · simpa only [Version.afterCall, if_pos inSmall, if_pos (h.order.subset inSmall)] using h.refresh inSmall
    · by_cases inLarge : Version.asked key text ∈ large
      · simpa only [Version.afterCall, if_neg inSmall, if_pos inLarge] using h.refresh_large inLarge inSmall
      · simpa only [Version.afterCall, if_neg inSmall, if_neg inLarge] using h
  | getOrMake key text => exact h.refresh_trim _
  | invalidate key => exact h.without key
  | clear => exact empty le

theorem hits_le (h : Within small large m n) (call : Call) : Version.hits small call ≤ Version.hits large call := by
  have asks : ∀ v, (if v ∈ small then 1 else 0) ≤ if v ∈ large then 1 else 0 := by
    intro v
    by_cases inSmall : v ∈ small
    · exact Nat.le_of_eq (by rw [if_pos inSmall, if_pos (h.order.subset inSmall)])
    · rw [if_neg inSmall]
      exact Nat.zero_le _
  cases call with
  | get key text => exact asks _
  | getOrMake key text => exact asks _
  | invalidate key => exact Nat.le_refl 0
  | clear => exact Nat.le_refl 0

end Within

/-! ## Two caches that serve the same calls -/

/-- what calls keep of a small cache and a large one: the small one is within the large one, and has hit no more -/
structure Includes (small large : DocumentCache α) (m n : Nat) : Prop where
  smallRoom : small.capacity = some m
  largeRoom : large.capacity = some n
  within : Within small.versions large.versions m n
  hits : small.counts.hits ≤ large.counts.hits

variable {small large : DocumentCache α} {m n : Nat}

namespace Includes

theorem distinct_small (h : Includes small large m n) : small.keys.Nodup :=
  map_key_versions small ▸ h.within.distinct_small

theorem distinct_large (h : Includes small large m n) : large.keys.Nodup :=
  map_key_versions large ▸ h.within.distinct

/-- A call that hits in the small cache hits in the large one. -/
theorem hits_serve_le (h : Includes small large m n) (make : Text → Traced α) (call : Call) :
    (small.serve make call).value.1.counts.hits - small.counts.hits ≤
      (large.serve make call).value.1.counts.hits - large.counts.hits := by
  have := h.within.hits_le call
  rw [hits_serve make h.distinct_small, hits_serve make h.distinct_large]
  omega

theorem serve (h : Includes small large m n) (le : m ≤ n) (make : Text → Traced α) (call : Call) :
    Includes (small.serve make call).value.1 (large.serve make call).value.1 m n := by
  constructor
  · rw [capacity_serve, h.smallRoom]
  · rw [capacity_serve, h.largeRoom]
  · rw [versions_serve make h.distinct_small h.smallRoom h.within.fitsSmall,
      versions_serve make h.distinct_large h.largeRoom h.within.fits]
    exact h.within.afterCall le call
  · have := h.within.hits_le call
    have := h.hits
    rw [hits_serve make h.distinct_small, hits_serve make h.distinct_large]
    omega

theorem serveAll (h : Includes small large m n) (le : m ≤ n) (make : Text → Traced α) (calls : List Call) :
    Includes (small.serveAll make calls).value (large.serveAll make calls).value m n := by
  induction calls generalizing small large with
  | nil => exact h
  | cons call rest ih => exact ih (h.serve le make call)

/-- What the small cache holds, the large one holds in the same version. -/
theorem entry? (h : Includes small large m n) {key : Text} {e : CacheEntry α} (held : small.entry? key = some e) :
    ∃ e', large.entry? key = some e' ∧ e'.fingerprint = e.fingerprint := by
  have member : versionOf (key, e) ∈ large.versions :=
    h.within.order.subset (List.mem_map_of_mem (Entries.mem_of_lookup? held))
  obtain ⟨⟨k, e'⟩, inLarge, same⟩ := List.mem_map.1 member
  simp only [versionOf, Version.mk.injEq] at same
  obtain ⟨rfl, version, -⟩ := same
  exact ⟨e', Entries.lookup?_of_mem h.distinct_large inLarge, version⟩

end Includes

/-- **A larger cache never does worse.** Let two empty caches of capacities `m ≤ n` serve the same calls, one after
another. After any calls each key that the small cache holds is held by the large one with the same fingerprint; the
next call hits in the large cache if it hits in the small one; and so far the large one has hit at least as often. -/
theorem larger_cache_includes (make : Text → Traced α) (le : m ≤ n) (one : ofCapacity? m = some small)
    (other : ofCapacity? n = some large) (calls : List Call) :
    let s := (small.serveAll make calls).value
    let l := (large.serveAll make calls).value
    (∀ key e, s.entry? key = some e → ∃ e', l.entry? key = some e' ∧ e'.fingerprint = e.fingerprint) ∧
      (∀ call, s.counts.hits < (s.serve make call).value.1.counts.hits →
        l.counts.hits < (l.serve make call).value.1.counts.hits) ∧
      s.counts.hits ≤ l.counts.hits := by
  intro s l
  have start : Includes small large m n := by
    unfold ofCapacity? at one other
    split at one
    · split at other
      · cases one
        cases other
        exact ⟨rfl, rfl, Within.empty le, Nat.le_refl 0⟩
      · cases other
    · cases one
  have reached : Includes s l m n := start.serveAll le make calls
  refine ⟨fun key e held => reached.entry? held, fun call hit => ?_, reached.hits⟩
  have := reached.hits_serve_le make call
  omega

/-- calls of which the last one finds its document in a cache for two, but not in a cache for one -/
def secondLook : List Call := [.getOrMake ['a'] ['x'], .getOrMake ['b'] ['y'], .get ['a'] ['x']]

/-- The theorem where the large cache has used a document last that the small one does not hold. -/
theorem larger_cache_includes_two :
    ∃ small large : DocumentCache Nat, ofCapacity? 1 = some small ∧ ofCapacity? 2 = some large ∧
      let s := (small.serveAll (fun text => pure text.length) secondLook).value
      let l := (large.serveAll (fun text => pure text.length) secondLook).value
      s.keys = [['b']] ∧ l.keys = [['b'], ['a']] ∧
        (∀ key e, s.entry? key = some e → ∃ e', l.entry? key = some e' ∧ e'.fingerprint = e.fingerprint) ∧
        s.counts.hits ≤ l.counts.hits := by
  refine ⟨_, _, rfl, rfl, by decide +kernel, by decide +kernel, ?_⟩
  have included := larger_cache_includes (m := 1) (n := 2) (fun text => pure text.length) (by decide) rfl rfl secondLook
  exact ⟨included.1, included.2.2⟩

end DocumentCache

end EndpointSurvey
