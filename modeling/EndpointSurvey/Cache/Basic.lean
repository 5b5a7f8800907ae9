/-
The cache of survey results, one entry per document. An entry is reused while the document's fingerprint and the binding
rules are those it was made from; beyond the capacity the least recently used entry goes. Looking up, storing,
invalidating and clearing are each one step that nothing interrupts, while the work between a look-up and its store may
meet other steps.

Main statements: `trim_length_le` (no step leaves more entries than the capacity) and `lookup_hit_result` (a hit gives
the result that the entry holds).
-/
import EndpointSurvey.Binding.Basic
import EndpointSurvey.Diagnostic.Event
import EndpointSurvey.Number.Binary64

namespace EndpointSurvey

structure CacheEntry (α : Type) where
  fingerprint : Text
  /-- how many entries its key has had, this one counted -/
  generation : Nat
  result : α
  ruleVersion : Nat
  deriving DecidableEq, Repr

structure CacheCounts where
  hits : Nat
  misses : Nat
  invalidations : Nat
  evictions : Nat
  deriving DecidableEq, Repr

structure DocumentCache (α : Type) where
  /-- how many entries are kept; nothing is evicted without a number -/
  capacity : Option Nat
  capacity_pos : ∀ n ∈ capacity, 0 < n
  /-- the least recently used first -/
  entries : Entries (CacheEntry α)
  /-- the last generation of every key that ever had an entry -/
  generations : Entries Nat
  counts : CacheCounts

namespace DocumentCache

variable {α : Type}

/-- an empty cache for this many entries; there is none for no entry -/
def ofCapacity? (n : Nat) : Option (DocumentCache α) :=
  if h : 0 < n then some ⟨some n, by simpa using h, [], [], ⟨0, 0, 0, 0⟩⟩ else none

/-- an empty cache that never evicts -/
def unbounded : DocumentCache α := ⟨none, by simp, [], [], ⟨0, 0, 0, 0⟩⟩

/-- what is said of a cache without room -/
def noRoomMessage : Text := "max_entries must be at least 1"

def entry? (c : DocumentCache α) (key : Text) : Option (CacheEntry α) := Entries.lookup? key c.entries

def size (c : DocumentCache α) : Nat := c.entries.length

/-- the keys, the least recently used first -/
def keys (c : DocumentCache α) : List Text := Entries.keys c.entries

/-- was the entry made from a text of this fingerprint, by the rules in force? -/
def isCurrent (e : CacheEntry α) (fingerprint : Text) : Bool :=
  e.fingerprint == fingerprint && e.ruleVersion == Binding.ruleVersion

def without (key : Text) (entries : Entries (CacheEntry α)) : Entries (CacheEntry α) :=
  entries.filter fun (k, _) => k != key

/-- the entries with one for the key as the most recently used -/
def withLast (key : Text) (e : CacheEntry α) (entries : Entries (CacheEntry α)) : Entries (CacheEntry α) :=
  without key entries ++ [(key, e)]

/-! ## Steps -/

/-- looks a document up: a current entry is a hit and becomes the most recently used -/
def lookup (c : DocumentCache α) (key fingerprint : Text) : DocumentCache α × Option (CacheEntry α) :=
  match c.entry? key with
  | some e =>
    if isCurrent e fingerprint then
      ({ c with entries := withLast key e c.entries, counts := { c.counts with hits := c.counts.hits + 1 } }, some e)
    else ({ c with counts := { c.counts with misses := c.counts.misses + 1 } }, none)
  | none => ({ c with counts := { c.counts with misses := c.counts.misses + 1 } }, none)

/-- how many of the oldest entries are more than there is room for -/
def excess (c : DocumentCache α) : Nat :=
  match c.capacity with
  | some n => c.entries.length - n
  | none => 0

/-- drops the entries there is no room for, the least recently used first -/
def trim (c : DocumentCache α) : Traced (DocumentCache α) := do
  let evicted := c.entries.take c.excess
  let _ ← Traced.mapList (fun (key, _) => Traced.emit (.cacheEvicted key)) evicted
  pure
    { c with
      entries := c.entries.drop c.excess
      counts := { c.counts with evictions := c.counts.evictions + evicted.length } }

/-- Stores a result as the next generation of its key, unless a current entry has been stored meanwhile; gives the
result that is valid in the end. -/
def store (c : DocumentCache α) (key fingerprint : Text) (result : α) : Traced (DocumentCache α × α) :=
  match (c.entry? key).filter (isCurrent · fingerprint) with
  | some e => pure (c, e.result)
  | none => do
    let generation := (Entries.lookup? key c.generations).getD 0 + 1
    let c ← trim
      { c with
        entries := withLast key ⟨fingerprint, generation, result, Binding.ruleVersion⟩ c.entries
        generations := Entries.insert key generation c.generations }
    Traced.emit (.cacheStored key generation)
    pure (c, result)

/-- drops the entry of a key, and says whether there was one -/
def invalidate (c : DocumentCache α) (key : Text) : Traced (DocumentCache α × Bool) :=
  match c.entry? key with
  | none => pure (c, false)
  | some _ => do
    Traced.emit (.cacheInvalidated key)
    pure
      ({ c with
          entries := without key c.entries
          counts := { c.counts with invalidations := c.counts.invalidations + 1 } }, true)

/-- drops all entries; generations are counted on -/
def clear (c : DocumentCache α) : Traced (DocumentCache α) := do
  Traced.emit .cacheCleared
  pure { c with entries := [] }

/-- the result for a text, made if there is no current one -/
def getOrMake (make : Text → Traced α) (c : DocumentCache α) (key fingerprint text : Text) :
    Traced (DocumentCache α × α) :=
  match c.lookup key fingerprint with
  | (c, some e) => do
    Traced.emit (.cacheHit key e.generation)
    pure (c, e.result)
  | (c, none) => do
    let result ← make text
    c.store key fingerprint result

/-! ## Statistics -/

/-- the part of all look-ups that were hits, zero before the first -/
def hitRate (c : DocumentCache α) : Binary64 :=
  let lookups := c.counts.hits + c.counts.misses
  if lookups = 0 then .finite false 0 0 else Binary64.ofRatio false c.counts.hits lookups

theorem trim_length_le (c : DocumentCache α) : ∀ n ∈ c.capacity, c.trim.value.entries.length ≤ n := by
  intro n hn
  have : c.excess = c.entries.length - n := by
    unfold excess
    rw [Option.mem_def.1 hn]
  show (c.entries.drop c.excess).length ≤ n
  rw [List.length_drop, this]
  omega

theorem lookup_hit_result {c after : DocumentCache α} {key fingerprint : Text} {e : CacheEntry α}
    (h : c.lookup key fingerprint = (after, some e)) : c.entry? key = some e ∧ e.fingerprint = fingerprint := by
  unfold lookup at h
  split at h
  · next found hf =>
    split at h
    · next hc =>
      cases h
      simp only [isCurrent, Bool.and_eq_true, beq_iff_eq] at hc
      exact ⟨hf, hc.1⟩
    · cases h
  · cases h

end DocumentCache

end EndpointSurvey
