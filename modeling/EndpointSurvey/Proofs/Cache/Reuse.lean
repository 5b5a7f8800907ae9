/-
The same questions put to a cache twice. A question that has been answered leaves its entry among the most recently
used, so with room for as many entries as there are questions none of them goes before the questions come again.

Main statements: `Holds.getOrMake` (a further question keeps what is held of the earlier ones) and `answerAll_again`
(asked again, every question is answered as before, by a hit).
-/
import EndpointSurvey.Proofs.Cache.Recency

namespace EndpointSurvey.DocumentCache

variable {α : Type}

/-- the result for a text is asked for, under a key -/
structure Question where
  key : Text
  text : Text
  deriving DecidableEq, Repr

/-- the cache after a question, and its result -/
def answer (make : Text → Traced α) (c : DocumentCache α) (q : Question) : Traced (DocumentCache α × α) :=
  c.getOrMake make q.key (Digest.fingerprint q.text) q.text

/-- the cache after questions put one after another, and their results -/
def answerAll (make : Text → Traced α) (c : DocumentCache α) : List Question → Traced (DocumentCache α × List α)
  | [] => pure (c, [])
  | q :: rest => do
    let (c, r) ← c.answer make q
    let (c, rs) ← answerAll make c rest
    pure (c, r :: rs)

/-- the entry that would answer a question at once -/
def ready? (c : DocumentCache α) (q : Question) : Option (CacheEntry α) := c.current? q.key (Digest.fingerprint q.text)

section Answer

variable {make : Text → Traced α} {c : DocumentCache α} {q : Question} {e : CacheEntry α}

/-! ## One question -/

theorem answer_of_ready (make : Text → Traced α) (h : c.ready? q = some e) :
    c.answer make q = (do
      Traced.emit (.cacheHit q.key e.generation)
      pure ((c.lookup q.key (Digest.fingerprint q.text)).1, e.result)) := by
  rw [answer, getOrMake, lookup_of_current h]

theorem excess_eq (c : DocumentCache α) : c.excess = 0 ∨ ∃ n ∈ c.capacity, c.excess = c.entries.length - n := by
  unfold excess
  split
  · next n capacity => exact .inr ⟨n, capacity, rfl⟩
  · exact .inl rfl

theorem capacity_answer (make : Text → Traced α) (c : DocumentCache α) (q : Question) :
    (c.answer make q).value.1.capacity = c.capacity :=
  capacity_serve make c (.getOrMake q.key q.text)

/-- what a question leaves behind: the entry that answers it, as the most recently used one -/
structure Leaves (c : DocumentCache α) (q : Question) (outcome : DocumentCache α × α) (e : CacheEntry α)
    (dropped : Nat) : Prop where
  entries : outcome.1.entries = (withLast q.key e c.entries).drop dropped
  current : isCurrent e (Digest.fingerprint q.text) = true
  result : e.result = outcome.2
  /-- an entry that was ready is kept as it is -/
  kept : ∀ held ∈ c.ready? q, held = e
  room : dropped = 0 ∨ ∃ n ∈ c.capacity, dropped = (withLast q.key e c.entries).length - n

theorem leaves_answer (make : Text → Traced α) (c : DocumentCache α) (q : Question) :
    ∃ e dropped, Leaves c q (c.answer make q).value e dropped := by
  cases found : c.ready? q with
  | some e =>
    refine ⟨e, 0, ?_, (Option.filter_eq_some_iff.1 found).2, ?_, ?_, .inl rfl⟩
    · rw [answer_of_ready make found, lookup_of_current found]
      rfl
    · rw [answer_of_ready make found]
      rfl
    · rintro held same
      exact Option.some_inj.1 (same.symm.trans found)
  | none =>
    -- the look-up counts a miss and changes nothing else that the store depends on
    have still : current? (c.lookup q.key (Digest.fingerprint q.text)).1 q.key (Digest.fingerprint q.text) = none := by
      rw [lookup_of_none found]
      exact found
    have outcome : (c.answer make q).value =
        ((withFresh { c with counts := { c.counts with misses := c.counts.misses + 1 } } q.key
          (Digest.fingerprint q.text) (make q.text).value).trim.value, (make q.text).value) := by
      rw [answer, getOrMake_of_miss found, store_of_none still, lookup_of_none found]
      rfl
    rw [outcome]
    refine ⟨c.fresh q.key (Digest.fingerprint q.text) (make q.text).value, _, rfl, ?_, rfl, ?_, ?_⟩
    · simp [isCurrent, fresh]
    · rintro held same
      rw [found] at same
      cases same
    · exact excess_eq _

/-- The entry that answers a question is there afterwards. -/
theorem size_answer_pos (make : Text → Traced α) (c : DocumentCache α) (q : Question) :
    (c.answer make q).value.1.size ≠ 0 := by
  obtain ⟨e, dropped, left⟩ := leaves_answer make c q
  have length_eq : (withLast q.key e c.entries).length = (without q.key c.entries).length + 1 := by
    rw [withLast, List.length_append, List.length_singleton]
  rw [size, left.entries, List.length_drop]
  rcases left.room with none_dropped | ⟨n, capacity, dropped_eq⟩
  · omega
  · have := c.capacity_pos n capacity
    omega

/-! ## What is held of the questions so far -/

/-- The cache holds what was answered: the entries that answered are the most recently used ones, no more of them than
there were questions. -/
def Holds (c : DocumentCache α) (answered : List (Question × α)) : Prop :=
  ∃ older recent, c.entries = older ++ recent ∧ recent.length ≤ answered.length ∧
    ∀ a ∈ answered, a.1.key ∉ Entries.keys older ∧
      ∃ e, Entries.lookup? a.1.key recent = some e ∧ isCurrent e (Digest.fingerprint a.1.text) = true ∧ e.result = a.2

variable {answered : List (Question × α)}

theorem Holds.nil (c : DocumentCache α) : Holds c [] := ⟨c.entries, [], by simp⟩

theorem Holds.ready? (h : Holds c answered) {a : Question × α} (member : a ∈ answered) :
    ∃ e, c.ready? a.1 = some e ∧ e.result = a.2 := by
  obtain ⟨older, recent, entries, -, held⟩ := h
  obtain ⟨absent, e, found, current, result⟩ := held a member
  refine ⟨e, Option.filter_eq_some_iff.2 ⟨?_, current⟩, result⟩
  have passed : Entries.lookup? a.1.key older = none := by
    refine Entries.lookup?_eq_none fun entry there same => absent ?_
    exact List.mem_map.2 ⟨entry, there, same⟩
  unfold entry?
  rw [entries, Entries.lookup?_append, passed, Option.none_or, found]

theorem without_append (key : Text) (a b : Entries (CacheEntry α)) :
    without key (a ++ b) = without key a ++ without key b :=
  List.filter_append ..

theorem not_mem_keys_without {key other : Text} {entries : Entries (CacheEntry α)}
    (h : key ∉ Entries.keys entries ∨ other = key) : key ∉ Entries.keys (without other entries) := by
  intro member
  obtain ⟨entry, there, rfl⟩ := List.mem_map.1 member
  obtain ⟨there, different⟩ := List.mem_filter.1 there
  rcases h with absent | rfl
  · exact absent (List.mem_map_of_mem there)
  · simp at different

/-- **A further question keeps what is held of the earlier ones**, if there is room for one entry more than there were
questions, and questions under one key are about one text. -/
theorem Holds.answer (h : Holds c answered) (consistent : ∀ a ∈ answered, a.1.key = q.key → a.1 = q)
    (room : ∀ n ∈ c.capacity, answered.length + 1 ≤ n) :
    Holds (c.answer make q).value.1 (answered ++ [(q, (c.answer make q).value.2)]) := by
  have ready : ∀ a ∈ answered, ∃ e, c.ready? a.1 = some e ∧ e.result = a.2 := fun _ member => h.ready? member
  obtain ⟨older, recent, entries, fits, held⟩ := h
  obtain ⟨e, dropped, left⟩ := leaves_answer make c q
  have recent_fits : (without q.key recent).length ≤ answered.length := Nat.le_trans (List.length_filter_le ..) fits
  have whole : withLast q.key e c.entries = without q.key older ++ withLast q.key e recent := by
    rw [withLast, entries, without_append, List.append_assoc, withLast]
  have recent_length : (withLast q.key e recent).length = (without q.key recent).length + 1 := by
    rw [withLast, List.length_append, List.length_singleton]
  -- what is dropped is older than every question
  have dropped_le : dropped ≤ (without q.key older).length := by
    rcases left.room with none_dropped | ⟨n, capacity, dropped_eq⟩
    · omega
    · have := room n capacity
      rw [whole, List.length_append] at dropped_eq
      omega
  refine ⟨(without q.key older).drop dropped, withLast q.key e recent, ?_, ?_, ?_⟩
  · rw [left.entries, whole, List.drop_append_of_le_length dropped_le]
  · rw [recent_length, List.length_append, List.length_singleton]
    omega
  · intro a member
    have absent : a.1.key ∉ Entries.keys (without q.key older) := by
      rcases List.mem_append.1 member with old | new
      · exact not_mem_keys_without (.inl (held a old).1)
      · exact not_mem_keys_without (.inr (by rw [List.mem_singleton.1 new]))
    refine ⟨fun there => absent (List.map_subset _ (List.drop_subset ..) there), ?_⟩
    rw [lookup?_withLast]
    by_cases same : q.key = a.1.key
    · refine ⟨e, if_pos same, ?_⟩
      rcases List.mem_append.1 member with old | new
      · obtain ⟨entry, found, result⟩ := ready a old
        have question : a.1 = q := consistent a old same.symm
        have kept : entry = e := left.kept entry (question ▸ found)
        exact ⟨question ▸ left.current, kept ▸ result⟩
      · rw [List.mem_singleton.1 new]
        exact ⟨left.current, left.result⟩
    · rw [if_neg same]
      rcases List.mem_append.1 member with old | new
      · exact (held a old).2
      · exact absurd (by rw [List.mem_singleton.1 new]) same

end Answer

/-! ## Questions put one after another -/

variable {make : Text → Traced α} {c : DocumentCache α} {questions : List Question}

theorem length_answerAll (make : Text → Traced α) (c : DocumentCache α) (questions : List Question) :
    (c.answerAll make questions).value.2.length = questions.length := by
  induction questions generalizing c with
  | nil => rfl
  | cons q rest ih =>
    rw [List.length_cons, ← ih (c.answer make q).value.1]
    rfl

/-- A cache that holds something holds something after every question. -/
theorem size_answerAll_ne_zero (h : c.size ≠ 0) : (c.answerAll make questions).value.1.size ≠ 0 := by
  induction questions generalizing c with
  | nil => exact h
  | cons q rest ih => exact ih (size_answer_pos make c q)

theorem Holds.answerAll {answered : List (Question × α)} (h : Holds c answered)
    (consistent : ∀ p ∈ answered.map Prod.fst ++ questions, ∀ q ∈ questions, p.key = q.key → p = q)
    (room : ∀ n ∈ c.capacity, answered.length + questions.length ≤ n) :
    Holds (c.answerAll make questions).value.1 (answered ++ questions.zip (c.answerAll make questions).value.2) := by
  induction questions generalizing c answered with
  | nil => rwa [List.zip_nil_left, List.append_nil]
  | cons q rest ih =>
    have first : Holds (c.answer make q).value.1 (answered ++ [(q, (c.answer make q).value.2)]) := by
      refine h.answer (fun a member => consistent a.1 ?_ q List.mem_cons_self) fun n capacity => ?_
      · exact List.mem_append_left _ (List.mem_map_of_mem member)
      · have := room n capacity
        rw [List.length_cons] at this
        omega
    have others := ih first (fun p before q' after => ?_) (fun n capacity => ?_)
    · rwa [List.append_assoc, List.singleton_append] at others
    · refine consistent p ?_ q' (List.mem_cons_of_mem _ after)
      rw [List.map_append, List.append_assoc] at before
      exact before
    · have := room n (by rwa [capacity_answer] at capacity)
      rw [List.length_cons] at this
      rw [List.length_append, List.length_singleton]
      omega

/-- Questions that are all ready are all hits. -/
theorem answerAll_of_ready (make : Text → Traced α) {answered : List (Question × α)}
    (h : ∀ a ∈ answered, ∃ e, c.ready? a.1 = some e ∧ e.result = a.2) :
    (c.answerAll make (answered.map Prod.fst)).value.2 = answered.map Prod.snd ∧
      ∀ event ∈ (c.answerAll make (answered.map Prod.fst)).events,
        ∃ key generation, event = .cacheHit key generation := by
  induction answered generalizing c with
  | nil => exact ⟨rfl, by simp [answerAll]⟩
  | cons a rest ih =>
    obtain ⟨e, found, result⟩ := h a List.mem_cons_self
    have after := answer_of_ready make found
    -- a hit keeps every entry
    have still : ∀ b ∈ rest, ∃ e, (c.answer make a.1).value.1.ready? b.1 = some e ∧ e.result = b.2 := by
      intro b member
      obtain ⟨entry, ready, same⟩ := h b (List.mem_cons_of_mem _ member)
      have kept : entry? (c.lookup a.1.key (Digest.fingerprint a.1.text)).1 b.1.key = c.entry? b.1.key := entry?_lookup
      refine ⟨entry, ?_, same⟩
      rw [after]
      exact (congrArg (Option.filter _) kept).trans ready
    obtain ⟨results, events⟩ := ih still
    constructor
    · show (c.answer make a.1).value.2 :: ((c.answer make a.1).value.1.answerAll make (rest.map Prod.fst)).value.2 = _
      rw [results, after, List.map_cons, ← result]
      rfl
    · intro event member
      rw [List.map_cons] at member
      rcases List.mem_append.1 member with first | others
      · rw [after] at first
        exact ⟨a.1.key, e.generation, List.mem_singleton.1 first⟩
      · rcases List.mem_append.1 others with others | none
        · exact events event others
        · cases none

/-- **Questions asked again.** With room for as many entries as there are questions, and one text a key, every question
is answered as before, and nothing is made for it. -/
theorem answerAll_again (make : Text → Traced α)
    (consistent : ∀ p ∈ questions, ∀ q ∈ questions, p.key = q.key → p = q)
    (room : ∀ n ∈ c.capacity, questions.length ≤ n) :
    let done := (c.answerAll make questions).value
    let again := done.1.answerAll make questions
    again.value.2 = done.2 ∧ ∀ event ∈ again.events, ∃ key generation, event = .cacheHit key generation := by
  intro done again
  have held : Holds done.1 (questions.zip done.2) :=
    (Holds.nil c).answerAll (by simpa using consistent) (by simpa using room)
  have lengths : done.2.length = questions.length := length_answerAll make c questions
  have asked : (questions.zip done.2).map Prod.fst = questions := List.map_fst_zip (by omega)
  have results : (questions.zip done.2).map Prod.snd = done.2 := List.map_snd_zip (by omega)
  have hits := answerAll_of_ready make fun a member => held.ready? member
  rwa [asked, results] at hits

/-- The first question to an empty cache is made. -/
theorem events_answerAll_of_empty {q : Question} {event : Event} (h : c.size = 0) (made : event ∈ (make q.text).events)
    (rest : List Question) : event ∈ (c.answerAll make (q :: rest)).events := by
  have none_ready : c.current? q.key (Digest.fingerprint q.text) = none := by
    rw [current?, entry?, List.eq_nil_of_length_eq_zero h]
    rfl
  refine List.mem_append_left _ ?_
  rw [answer, getOrMake, lookup_of_none none_ready]
  exact List.mem_append_left _ made

end EndpointSurvey.DocumentCache
