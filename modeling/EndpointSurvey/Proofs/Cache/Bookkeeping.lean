/-
What the books of a cache say about its past. The past is the history of the sections that were run, in whatever order
the callers took their turns: which of them looked up, which stored for a key without an entry, which gave a key a new
generation, and how many entries were dropped at once. The counts, the entries and the generations that a cache holds
are those of its past.

Main statements:
- `Booked.lookup`, `Booked.store`, `Booked.invalidate`, `Booked.clear`: each section keeps the books;
- `Kept.run`: so does every run of callers, of whom some may be broken off;
- `interleaved_bookkeeping`: the books of a cache after any run, and what a call that is broken off leaves behind.
-/
import EndpointSurvey.Proofs.Cache.Recency
import EndpointSurvey.Proofs.Cache.Sections

namespace EndpointSurvey

variable {α ε : Type}

/-! ## What a history says -/

namespace Step

def looksUp (step : Step α) : Bool :=
  match step.ran with
  | .lookup _ _ => true
  | _ => false

/-- did the step store for a key that had no entry? -/
def creates (step : Step α) : Bool :=
  match step.ran with
  | .store key _ _ => (step.before.entry? key).isNone
  | _ => false

/-- how many entries the step cleared -/
def cleared (step : Step α) : Nat :=
  match step.ran with
  | .clear => step.before.size
  | _ => 0

/-- the generation that the step gave to a key: a store that finds a current entry gives none -/
def assigned? (key : Text) (step : Step α) : Option Nat :=
  match step.ran with
  | .store k text _ =>
    if k = key ∧ step.before.current? k (Digest.fingerprint text) = none then
      (step.after.entry? k).map (·.generation)
    else none
  | _ => none

/-- the step looked a version up and did not find it -/
def Missed (key text : Text) (step : Step α) : Prop :=
  step.ran = .lookup key text ∧
    step.after = { step.before with
      counts := { step.before.counts with misses := step.before.counts.misses + 1 } }

/-- A store that finds a current entry leaves the cache as it was. -/
theorem after_of_current {step : Step α} {key text : Text} {result : α} {found : CacheEntry α}
    (ran : step.ran = .store key text result)
    (hit : step.before.current? key (Digest.fingerprint text) = some found) : step.after = step.before := by
  simp only [Step.after, ran, Section.run, DocumentCache.store_of_current hit]
  rfl

/-- A store that finds no current entry writes one behind the others, and those that are too many go. -/
theorem after_of_fresh {step : Step α} {key text : Text} {result : α} (ran : step.ran = .store key text result)
    (miss : step.before.current? key (Digest.fingerprint text) = none) :
    step.after = (step.before.withFresh key (Digest.fingerprint text) result).trim.value := by
  simp only [Step.after, ran, Section.run, DocumentCache.store_of_none miss]
  rfl

theorem entry?_of_fresh {step : Step α} {key text : Text} {result : α} (ran : step.ran = .store key text result)
    (miss : step.before.current? key (Digest.fingerprint text) = none) :
    step.after.entry? key = some (step.before.fresh key (Digest.fingerprint text) result) := by
  rw [after_of_fresh ran miss]
  exact DocumentCache.entry?_trim_last rfl

/-- Such a store gives its key the next generation, and none to the others. -/
theorem assigned?_of_fresh {step : Step α} {key text : Text} {result : α} (ran : step.ran = .store key text result)
    (miss : step.before.current? key (Digest.fingerprint text) = none) (k : Text) :
    step.assigned? k =
      if key = k then some ((Entries.lookup? key step.before.generations).getD 0 + 1) else none := by
  simp only [assigned?, ran, miss, and_true, entry?_of_fresh ran miss]
  rfl

/-- A store leaves a current entry for its version: its own, or the one that it found. -/
theorem entry?_of_store {step : Step α} {key text : Text} {result : α} (ran : step.ran = .store key text result) :
    ∃ e, step.after.entry? key = some e ∧ e.fingerprint = Digest.fingerprint text ∧
      (step.before.current? key (Digest.fingerprint text) = none → e.result = result) ∧
      ∀ found, step.before.current? key (Digest.fingerprint text) = some found → step.after = step.before := by
  cases found : step.before.current? key (Digest.fingerprint text) with
  | none => exact ⟨_, entry?_of_fresh ran found, rfl, fun _ => rfl, fun _ hit => by cases hit⟩
  | some e =>
    obtain ⟨held, version, _⟩ := DocumentCache.current?_eq_some_iff.1 found
    have unchanged := after_of_current ran found
    exact ⟨e, unchanged ▸ held, version, fun miss => (by cases miss), fun _ _ => unchanged⟩

end Step

namespace History

/-- how many look-ups were run -/
def lookups (past : List (Step α)) : Nat := past.countP Step.looksUp

/-- how many stores made an entry for a key that had none -/
def created (past : List (Step α)) : Nat := past.countP Step.creates

/-- how many entries were cleared -/
def dropped : List (Step α) → Nat
  | [] => 0
  | step :: rest => step.cleared + dropped rest

/-- the generations that stores gave to a key, the first one first -/
def assigned (key : Text) (past : List (Step α)) : List Nat := past.filterMap (Step.assigned? key)

/-- what one caller ran -/
def ofCaller (i : Nat) (past : List (Step α)) : List (Step α) := past.filter (·.caller == i)

variable {past : List (Step α)} {step : Step α} {i : Nat}

theorem lookups_snoc : lookups (past ++ [step]) = lookups past + if step.looksUp then 1 else 0 := by
  rw [lookups, List.countP_append, List.countP_singleton]
  rfl

theorem created_snoc : created (past ++ [step]) = created past + if step.creates then 1 else 0 := by
  rw [created, List.countP_append, List.countP_singleton]
  rfl

theorem dropped_snoc : dropped (past ++ [step]) = dropped past + step.cleared := by
  induction past with
  | nil => exact Nat.add_comm ..
  | cons first rest ih => rw [List.cons_append, dropped, dropped, ih, Nat.add_assoc]

theorem assigned_snoc (key : Text) :
    assigned key (past ++ [step]) = assigned key past ++ (step.assigned? key).toList := by
  rw [assigned, List.filterMap_append]
  cases given : step.assigned? key <;> simp [assigned, given]

/-- A turn adds its step to what its own caller ran, and nothing to what the others ran. -/
theorem ofCaller_turn (make : Nat → Text → Except ε α) (s : Callers ε α) (i j : Nat) :
    ofCaller j (past ++ (s.step? make i).toList) =
      ofCaller j past ++ if i = j then (s.step? make i).toList else [] := by
  have of_turn : ∀ step ∈ (s.step? make i).toList, step.caller = i := fun step member =>
    Callers.caller_of_step? (Option.mem_toList.1 member)
  rw [ofCaller, List.filter_append]
  refine congrArg _ ?_
  split
  · next same => exact List.filter_eq_self.2 fun step member => by simpa [same] using of_turn step member
  · next different => exact List.filter_eq_nil_iff.2 fun step member => by simpa [of_turn step member] using different

end History

/-! ## Entries counted before and after a section -/

namespace DocumentCache

variable {c : DocumentCache α} {key : Text} {e : CacheEntry α}

theorem keys_withLast (key : Text) (e : CacheEntry α) (c : DocumentCache α) :
    keys { c with entries := withLast key e c.entries } =
      ((⟨key, e.fingerprint, e.ruleVersion⟩ : Version).refresh c.versions).map Version.key := by
  rw [← map_key_versions]
  exact congrArg _ (map_versionOf_withLast key e c.entries)

theorem nodup_withLast (distinct : c.keys.Nodup) (key : Text) (e : CacheEntry α) :
    (keys { c with entries := withLast key e c.entries }).Nodup := by
  rw [keys_withLast]
  exact Version.nodup_refresh (by rwa [map_key_versions]) _

theorem length_withLast (distinct : c.keys.Nodup) (key : Text) (e : CacheEntry α) :
    (withLast key e c.entries).length = c.size + if (c.entry? key).isNone then 1 else 0 := by
  have listed : (withLast key e c.entries).length =
      ((⟨key, e.fingerprint, e.ruleVersion⟩ : Version).refresh c.versions).length := by
    rw [← List.length_map versionOf, map_versionOf_withLast]
    rfl
  have held := Entries.isSome_lookup?_iff key c.entries
  rw [listed, Version.length_refresh (by rwa [map_key_versions]), map_key_versions, versions, List.length_map]
  unfold entry? size
  by_cases member : key ∈ c.keys
  · have found := held.2 member
    rw [if_pos member, if_neg]
    rw [Option.isNone_iff_eq_none]
    intro none
    rw [none] at found
    cases found
  · have absent : Entries.lookup? key c.entries = none :=
      Option.not_isSome_iff_eq_none.1 fun found => member (held.1 found)
    rw [if_neg member, absent]
    rfl

/-- One entry goes if the key has one. -/
theorem length_without (distinct : c.keys.Nodup) (held : c.entry? key = some e) :
    (without key c.entries).length + 1 = c.size := by
  have member : key ∈ c.versions.map Version.key := by
    rw [map_key_versions]
    refine (Entries.isSome_lookup?_iff key c.entries).1 ?_
    rw [show Entries.lookup? key c.entries = some e from held]
    rfl
  have shorter := Version.length_without (by rwa [map_key_versions]) key
  rw [if_pos member, versions, ← map_versionOf_without, List.length_map, List.length_map] at shorter
  exact shorter

theorem size_trim (c : DocumentCache α) : c.trim.value.size + c.trim.value.counts.evictions =
    c.size + c.counts.evictions := by
  show (c.entries.drop c.excess).length + (c.counts.evictions + (c.entries.take c.excess).length) = _
  unfold size
  rw [List.length_drop, List.length_take]
  omega

theorem entry?_of_mem (distinct : c.keys.Nodup) (h : (key, e) ∈ c.entries) : c.entry? key = some e :=
  Entries.lookup?_of_mem distinct h

end DocumentCache

/-! ## The books of a cache -/

/-- the state of a cache is what its past says -/
structure Booked (room : Nat) (past : List (Step α)) (c : DocumentCache α) : Prop where
  capacity : c.capacity = some room
  distinct : c.keys.Nodup
  fits : c.size ≤ room
  numbered : ∀ key, History.assigned key past = List.range' 1 ((Entries.lookup? key c.generations).getD 0)
  last : ∀ key e, c.entry? key = some e → (History.assigned key past).getLast? = some e.generation
  looked : c.counts.hits + c.counts.misses = History.lookups past
  balance : c.size + c.counts.evictions + c.counts.invalidations + History.dropped past = History.created past

namespace Booked

open History

variable {room : Nat} {past : List (Step α)} {c : DocumentCache α}

theorem empty {n : Nat} (h : DocumentCache.ofCapacity? n = some c) : Booked n [] c := by
  unfold DocumentCache.ofCapacity? at h
  split at h
  · cases h
    exact ⟨rfl, List.nodup_nil, Nat.zero_le _, fun _ => rfl, fun _ _ held => (by cases held), rfl, rfl⟩
  · cases h

/-- What a step that gives no generation has to keep. -/
theorem of_not_assigned (h : Booked room past c) {step : Step α} {after : DocumentCache α}
    (capacity : after.capacity = c.capacity) (generations : after.generations = c.generations)
    (distinct : after.keys.Nodup) (le : after.size ≤ c.size)
    (held : ∀ key e, after.entry? key = some e → c.entry? key = some e)
    (not_given : ∀ key, step.assigned? key = none) (not_created : step.creates = false)
    (looked : after.counts.hits + after.counts.misses =
      c.counts.hits + c.counts.misses + if step.looksUp then 1 else 0)
    (balance : after.size + after.counts.evictions + after.counts.invalidations + step.cleared =
      c.size + c.counts.evictions + c.counts.invalidations) : Booked room (past ++ [step]) after where
  capacity := capacity.trans h.capacity
  distinct := distinct
  fits := Nat.le_trans le h.fits
  numbered key := by
    rw [assigned_snoc, not_given, generations, ← h.numbered key]
    exact List.append_nil _
  last key e found := by
    rw [assigned_snoc, not_given, ← h.last key e (held key e found)]
    exact congrArg _ (List.append_nil _)
  looked := by rw [lookups_snoc, looked, h.looked]
  balance := by
    have before := h.balance
    rw [dropped_snoc, created_snoc, not_created, if_neg Bool.false_ne_true]
    omega

theorem lookup (h : Booked room past c) (i : Nat) (key text : Text) :
    Booked room (past ++ [⟨i, .lookup key text, c⟩]) (Section.run c (.lookup key text)) := by
  have held_before : ∀ k e, DocumentCache.entry? (Section.run c (.lookup key text)) k = some e →
      c.entry? k = some e := fun k e held => DocumentCache.entry?_lookup.symm.trans held
  simp only [Section.run] at held_before ⊢
  cases found : c.current? key (Digest.fingerprint text) with
  | none =>
    rw [DocumentCache.lookup_of_none found]
    refine h.of_not_assigned rfl rfl h.distinct (Nat.le_refl _) (fun _ _ held => held) (fun _ => rfl) rfl ?_ rfl
    exact (Nat.add_assoc ..).symm
  | some e =>
    have held : c.entry? key = some e := (DocumentCache.current?_eq_some_iff.1 found).1
    have same_size : (DocumentCache.withLast key e c.entries).length = c.size := by
      rw [DocumentCache.length_withLast h.distinct, held]
      rfl
    rw [DocumentCache.lookup_of_current found] at held_before ⊢
    refine h.of_not_assigned rfl rfl (DocumentCache.nodup_withLast h.distinct key e) (Nat.le_of_eq same_size)
      held_before (fun _ => rfl) rfl ?_ ?_
    · exact Nat.add_right_comm ..
    · show (DocumentCache.withLast key e c.entries).length + c.counts.evictions + c.counts.invalidations + 0 = _
      rw [same_size, Nat.add_zero]

theorem invalidate (h : Booked room past c) (i : Nat) (key : Text) :
    Booked room (past ++ [⟨i, .invalidate key, c⟩]) (Section.run c (.invalidate key)) := by
  have held_before : ∀ k e, DocumentCache.entry? (c.invalidate key).value.1 k = some e → c.entry? k = some e :=
    fun k e held => DocumentCache.entry?_of_mem h.distinct
      (DocumentCache.mem_entries_invalidate (Entries.mem_of_lookup? held))
  simp only [Section.run]
  cases held : c.entry? key with
  | none =>
    have unchanged : c.invalidate key = pure (c, false) := by
      unfold DocumentCache.invalidate
      rw [held]
    rw [unchanged]
    exact h.of_not_assigned rfl rfl h.distinct (Nat.le_refl _) (fun _ _ found => found) (fun _ => rfl) rfl rfl rfl
  | some e =>
    have shorter := DocumentCache.length_without h.distinct held
    have removed : (c.invalidate key).value.1 = { c with
        entries := DocumentCache.without key c.entries
        counts := { c.counts with invalidations := c.counts.invalidations + 1 } } := by
      unfold DocumentCache.invalidate
      rw [held]
      rfl
    rw [removed] at held_before ⊢
    refine h.of_not_assigned rfl rfl (h.distinct.sublist (List.filter_sublist.map _)) ?_ held_before (fun _ => rfl) rfl
      rfl ?_
    · show (DocumentCache.without key c.entries).length ≤ c.size
      omega
    · show (DocumentCache.without key c.entries).length + c.counts.evictions + (c.counts.invalidations + 1) + 0 = _
      omega

theorem clear (h : Booked room past c) (i : Nat) :
    Booked room (past ++ [⟨i, .clear, c⟩]) (Section.run c .clear) := by
  refine h.of_not_assigned rfl rfl List.nodup_nil (Nat.zero_le _) (fun _ _ held => (by cases held)) (fun _ => rfl) rfl
    rfl ?_
  show 0 + c.counts.evictions + c.counts.invalidations + c.size = _
  omega

theorem store_fresh (h : Booked room past c) (i : Nat) {key text : Text} (result : α)
    (miss : c.current? key (Digest.fingerprint text) = none) :
    Booked room (past ++ [⟨i, .store key text result, c⟩]) (Section.run c (.store key text result)) := by
  let step : Step α := ⟨i, .store key text result, c⟩
  let fresh := c.withFresh key (Digest.fingerprint text) result
  let generation := (Entries.lookup? key c.generations).getD 0 + 1
  have after : step.after = fresh.trim.value := step.after_of_fresh rfl miss
  have held : step.after.entry? key = some (c.fresh key (Digest.fingerprint text) result) :=
    step.entry?_of_fresh rfl miss
  have given : ∀ k, step.assigned? k = if key = k then some generation else none := step.assigned?_of_fresh rfl miss
  have size_fresh : fresh.size = c.size + if (c.entry? key).isNone then 1 else 0 :=
    DocumentCache.length_withLast h.distinct key _
  show Booked room (past ++ [step]) step.after
  rw [after] at held ⊢
  refine ⟨h.capacity, ?_, ?_, fun k => ?_, fun k e held_after => ?_, ?_, ?_⟩
  · exact (DocumentCache.nodup_withLast h.distinct key _).sublist ((List.drop_sublist _ _).map _)
  · exact DocumentCache.trim_length_le fresh room h.capacity
  · have numbers : Entries.lookup? k fresh.trim.value.generations =
        if key = k then some generation else Entries.lookup? k c.generations :=
      Entries.lookup?_insert key k generation c.generations
    rw [assigned_snoc, given, numbers, h.numbered k]
    by_cases same : key = k
    · subst same
      rw [if_pos rfl, if_pos rfl]
      show _ ++ [_] = List.range' 1 generation
      rw [List.range'_concat, Nat.one_mul, Nat.add_comm 1]
    · rw [if_neg same, if_neg same]
      exact List.append_nil _
  · rw [assigned_snoc, given]
    by_cases same : key = k
    · subst same
      rw [held] at held_after
      cases held_after
      rw [if_pos rfl]
      exact List.getLast?_concat
    · rw [if_neg same, Option.toList_none, List.append_nil]
      rcases DocumentCache.mem_withLast (List.mem_of_mem_drop (Entries.mem_of_lookup? held_after)) with old | new
      · exact h.last k e (DocumentCache.entry?_of_mem h.distinct old)
      · exact absurd (congrArg Prod.fst new).symm same
  · rw [lookups_snoc]
    exact h.looked
  · have trimmed := DocumentCache.size_trim fresh
    have balance := h.balance
    rw [created_snoc, dropped_snoc]
    show fresh.trim.value.size + fresh.trim.value.counts.evictions + c.counts.invalidations + (dropped past + 0) =
      created past + if (c.entry? key).isNone then 1 else 0
    have evictions_fresh : fresh.counts.evictions = c.counts.evictions := rfl
    omega

theorem store (h : Booked room past c) (i : Nat) (key text : Text) (result : α) :
    Booked room (past ++ [⟨i, .store key text result, c⟩]) (Section.run c (.store key text result)) := by
  cases found : c.current? key (Digest.fingerprint text) with
  | none => exact h.store_fresh i result found
  | some e =>
    have held : c.entry? key = some e := (DocumentCache.current?_eq_some_iff.1 found).1
    have unchanged : Section.run c (.store key text result) = c :=
      (⟨i, .store key text result, c⟩ : Step α).after_of_current rfl found
    have not_given : ∀ k, (⟨i, .store key text result, c⟩ : Step α).assigned? k = none := fun k =>
      if_neg fun missed => by rw [found] at missed; cases missed.2
    have not_created : (⟨i, .store key text result, c⟩ : Step α).creates = false := by
      simp only [Step.creates, held]
      rfl
    rw [unchanged]
    exact h.of_not_assigned rfl rfl h.distinct (Nat.le_refl _) (fun _ _ found => found) not_given not_created rfl rfl

/-- **Every section keeps the books.** -/
theorem step (h : Booked room past c) (i : Nat) (ran : Section α) :
    Booked room (past ++ [⟨i, ran, c⟩]) (ran.run c) := by
  cases ran with
  | lookup key text => exact h.lookup i key text
  | store key text result => exact h.store i key text result
  | invalidate key => exact h.invalidate i key
  | clear => exact h.clear i

end Booked

/-! ## The books after a run -/

/-- what a call has run when it has come this far -/
def Accounted (make : Text → Except ε α) (own : List (Step α)) (call : Call) : Except ε (Phase α) → Prop
  | .ok .waiting => own = []
  | .ok (.making key text) => call = .getOrMake key text ∧ ∃ step, own = [step] ∧ step.Missed key text
  | .ok (.answered _) => True
  | .error fault => ∃ key text, call = .getOrMake key text ∧ make text = .error fault ∧
      ∃ step, own = [step] ∧ step.Missed key text

/-- A turn of its own adds its step to what a call has run. -/
theorem Accounted.advance {make : Text → Except ε α} {own : List (Step α)} {call : Call}
    {stage : Except ε (Phase α)} (h : Accounted make own call stage) (i : Nat) (c : DocumentCache α) :
    Accounted make (own ++ ((call.section? make stage).map fun ran => (⟨i, ran, c⟩ : Step α)).toList) call
      (call.advance make c stage).2 := by
  match stage with
  | .error fault =>
    have none_left : call.section? make (.error fault : Except ε (Phase α)) = none := by cases call <;> rfl
    rw [none_left]
    exact (List.append_nil own).symm ▸ h
  | .ok (.answered answer) => trivial
  | .ok (.making key text) =>
    obtain ⟨rfl, missed⟩ := h
    cases made : make text with
    | ok result => simp only [Call.advance, made]; trivial
    | error fault =>
      simp only [Call.section?, Call.advance, made]
      exact ⟨key, text, rfl, made, (List.append_nil own).symm ▸ missed⟩
  | .ok .waiting =>
    obtain rfl : own = [] := h
    cases call with
    | get key text =>
      cases found : c.lookup key (Digest.fingerprint text) with
      | mk after entry => cases entry <;> simp only [Call.advance, Call.firstSection, found] <;> trivial
    | getOrMake key text =>
      cases found : c.current? key (Digest.fingerprint text) with
      | some e =>
        simp only [Call.advance, Call.firstSection, DocumentCache.lookup_of_current found]
        trivial
      | none =>
        simp only [Call.section?, Call.advance, Call.firstSection, DocumentCache.lookup_of_none found]
        refine ⟨rfl, _, rfl, rfl, ?_⟩
        simp only [Step.after, Section.run, DocumentCache.lookup_of_none found]
    | invalidate key => trivial
    | clear => trivial

/-- what every run keeps: the books are those of the past, and so is what each call has run -/
structure Kept (room : Nat) (make : Nat → Text → Except ε α) (past : List (Step α)) (s : Callers ε α) : Prop where
  booked : Booked room past s.cache
  accounted : ∀ i call stage, s.calls[i]? = some (call, stage) →
    Accounted (make i) (History.ofCaller i past) call stage

namespace Kept

variable {room : Nat} {make : Nat → Text → Except ε α} {past : List (Step α)} {s : Callers ε α}

theorem start {n : Nat} {c : DocumentCache α} (h : DocumentCache.ofCapacity? n = some c)
    (make : Nat → Text → Except ε α) (calls : List Call) : Kept n make [] (Callers.start c calls) := by
  refine ⟨Booked.empty h, fun i call stage found => ?_⟩
  obtain ⟨_, member⟩ := List.mem_map.1 (List.mem_of_getElem? found)
  cases member.2
  exact rfl

theorem turn (h : Kept room make past s) (i : Nat) :
    Kept room make (past ++ (s.step? make i).toList) (s.turn make i) := by
  cases own : s.calls[i]? with
  | none =>
    rw [Callers.step?_of_none own, Callers.turn_of_none own]
    exact (List.append_nil past).symm ▸ h
  | some entry =>
    obtain ⟨call, stage⟩ := entry
    refine ⟨?_, fun j call' stage' found => ?_⟩
    · rw [Callers.cache_turn, Callers.step?_of_call own]
      cases call.section? (make i) stage with
      | none => exact (List.append_nil past).symm ▸ h.booked
      | some ran => exact h.booked.step i ran
    · rw [History.ofCaller_turn]
      by_cases same : i = j
      · subst same
        rw [Callers.calls_turn_self own] at found
        cases found
        rw [if_pos rfl, Callers.step?_of_call own]
        exact (h.accounted i call stage own).advance i s.cache
      · rw [Callers.calls_turn_of_ne same] at found
        rw [if_neg same, List.append_nil]
        exact h.accounted j call' stage' found

theorem run (h : Kept room make past s) (turns : List Nat) :
    Kept room make (past ++ s.history make turns) (s.run make turns) := by
  induction turns generalizing past s with
  | nil => exact (List.append_nil past).symm ▸ h
  | cons i rest ih =>
    have first := ih (h.turn i)
    rwa [List.append_assoc] at first

end Kept

/-- **The books hold after every run.** However the callers take their turns, no more entries are held than there is
room for; a store leaves an entry for its own version, and one with its own result unless it found a current one, which
it leaves as it is; the generations that a key was given are the numbers from one on, and an entry has the last one of
its key; every look-up was a hit or a miss; and the stores for keys without an entry are as many as the entries that are
held, were evicted, were invalidated and were cleared. A call that is broken off has run its look-up and nothing else,
so that it has added one miss. -/
theorem interleaved_bookkeeping {n : Nat} {c : DocumentCache α} (new : DocumentCache.ofCapacity? n = some c)
    (make : Nat → Text → Except ε α) (calls : List Call) (turns : List Nat) :
    let s := (Callers.start c calls).run make turns
    let past := (Callers.start c calls).history make turns
    s.cache.size ≤ n ∧
    (∀ step ∈ past, ∀ key text result, step.ran = .store key text result →
      ∃ e, step.after.entry? key = some e ∧ e.fingerprint = Digest.fingerprint text ∧
        (step.before.current? key (Digest.fingerprint text) = none → e.result = result) ∧
        ∀ found, step.before.current? key (Digest.fingerprint text) = some found → step.after = step.before) ∧
    (∀ key, History.assigned key past = List.range' 1 (History.assigned key past).length ∧
      ∀ e, s.cache.entry? key = some e → (History.assigned key past).getLast? = some e.generation) ∧
    s.cache.counts.hits + s.cache.counts.misses = History.lookups past ∧
    s.cache.size + s.cache.counts.evictions + s.cache.counts.invalidations + History.dropped past =
      History.created past ∧
    (∀ i call fault, s.calls[i]? = some (call, .error fault) →
      ∃ key text step, call = .getOrMake key text ∧ make i text = .error fault ∧
        History.ofCaller i past = [step] ∧ step.Missed key text) ∧
    ∀ i call key text fault, s.calls[i]? = some (call, .ok (.making key text)) → make i text = .error fault →
      s.turn make i = ⟨s.cache, s.calls.set i (call, .error fault)⟩ := by
  intro s past
  have kept : Kept n make past s := (Kept.start new make calls).run turns
  refine ⟨kept.booked.fits, fun step _ key text result ran => ?_, fun key => ⟨?_, kept.booked.last key⟩,
    kept.booked.looked, kept.booked.balance, fun i call fault broken => ?_,
    fun i call key text fault making failed => ?_⟩
  · exact step.entry?_of_store ran
  · rw [kept.booked.numbered key, List.length_range']
  · obtain ⟨key, text, asked, failed, step, only, missed⟩ := kept.accounted i call _ broken
    exact ⟨key, text, step, asked, failed, only, missed⟩
  · rw [Callers.turn_of_call making]
    simp only [Call.advance, failed]

/-- calls for two documents; one of them is for a text that nothing can be made of -/
def crowd : List Call :=
  [.getOrMake ['a'] ['x'], .getOrMake ['b'] ['y'], .getOrMake ['a'] ['!'], .get ['b'] ['y'], .getOrMake ['a'] ['x'],
    .invalidate ['a']]

/-- The theorem where there is room for one: the store of the second call evicts the entry of the first one, which is
made again by the fifth; the third is broken off. -/
theorem interleaved_bookkeeping_crowd :
    ∃ c : DocumentCache Nat, DocumentCache.ofCapacity? 1 = some c ∧
      let make : Nat → Text → Except Unit Nat := fun _ text => if text = ['!'] then .error () else .ok text.length
      let s := (Callers.start c crowd).run make [0, 1, 0, 2, 1, 2, 3, 4, 4, 5]
      let past := (Callers.start c crowd).history make [0, 1, 0, 2, 1, 2, 3, 4, 4, 5]
      s.cache.counts = ⟨1, 4, 1, 2⟩ ∧ History.lookups past = 5 ∧ History.created past = 3 ∧
        History.assigned ['a'] past = [1, 2] ∧ s.cache.size ≤ 1 ∧
        s.cache.counts.hits + s.cache.counts.misses = History.lookups past ∧
        s.cache.size + s.cache.counts.evictions + s.cache.counts.invalidations + History.dropped past =
          History.created past ∧
        ∃ key text step, Call.getOrMake ['a'] ['!'] = .getOrMake key text ∧ make 2 text = .error () ∧
          History.ofCaller 2 past = [step] ∧ step.Missed key text := by
  refine ⟨_, rfl, by decide +kernel, by decide +kernel, by decide +kernel, by decide +kernel, ?_⟩
  have books := interleaved_bookkeeping (show DocumentCache.ofCapacity? 1 = some _ from rfl)
    (fun _ text => if text = ['!'] then .error () else .ok text.length) crowd [0, 1, 0, 2, 1, 2, 3, 4, 4, 5]
  obtain ⟨fits, -, -, looked, balance, broken, -⟩ := books
  exact ⟨fits, looked, balance, broken 2 _ () (by decide +kernel)⟩

end EndpointSurvey
