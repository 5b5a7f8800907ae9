/-
Callers that share one cache. A call runs in sections that nothing interrupts: asking, invalidating and clearing are one
section each, while a call that makes what is missing looks up in one section and stores in another. In between, any
other calls may take their turns.

Main statements:
- `getOrMake_alone`: a call that nobody interrupts does what `getOrMake` does;
- `answered_of_two_turns`: whatever the others do, a call is answered after two turns of its own;
- `interleaved_calls`: whatever the order of the turns, a caller gets what is made of a text with the fingerprint of its
  own text, and a second store of one version answers with the first one's result and leaves the cache as it is, unless
  the entry was replaced or removed in between.
-/
import EndpointSurvey.Digest
import EndpointSurvey.Proofs.Cache.Steps

namespace EndpointSurvey

/-- what a caller wants of a cache -/
inductive Call where
  | get (key text : Text)
  | getOrMake (key text : Text)
  | invalidate (key : Text)
  | clear
  deriving DecidableEq, Repr

/-- the text whose result is wanted -/
def Call.text? : Call → Option Text
  | .get _ text => some text
  | .getOrMake _ text => some text
  | .invalidate _ => none
  | .clear => none

inductive Answer (α : Type) where
  | result (r : α)
  | absent
  | removed (was : Bool)
  | cleared
  deriving DecidableEq, Repr

/-- how far a call has come -/
inductive Phase (α : Type) where
  | waiting
  /-- the look-up found nothing, and the result for the text is being made -/
  | making (key text : Text)
  | answered (answer : Answer α)
  deriving DecidableEq, Repr

variable {α : Type}

/-- the first section of a call -/
def Call.firstSection (c : DocumentCache α) : Call → Traced (DocumentCache α × Phase α)
  | get key text =>
    match c.lookup key (Digest.fingerprint text) with
    | (c, some e) => pure (c, .answered (.result e.result))
    | (c, none) => pure (c, .answered .absent)
  | getOrMake key text =>
    match c.lookup key (Digest.fingerprint text) with
    | (c, some e) => do
      Traced.emit (.cacheHit key e.generation)
      pure (c, .answered (.result e.result))
    | (c, none) => pure (c, .making key text)
  | invalidate key => do
    let (c, was) ← c.invalidate key
    pure (c, .answered (.removed was))
  | clear => do
    let c ← c.clear
    pure (c, .answered .cleared)

/-- the next section of a call, if it has one -/
def Call.nextSection (make : Text → α) (c : DocumentCache α) (call : Call) :
    Phase α → Traced (DocumentCache α × Phase α)
  | .waiting => call.firstSection c
  | .making key text => do
    let (c, r) ← c.store key (Digest.fingerprint text) (make text)
    pure (c, .answered (.result r))
  | .answered answer => pure (c, .answered answer)

/-- a cache and the calls that share it -/
structure SharedCache (α : Type) where
  cache : DocumentCache α
  calls : List (Call × Phase α)

namespace SharedCache

/-- calls that are all still to come -/
def start (c : DocumentCache α) (calls : List Call) : SharedCache α := ⟨c, calls.map fun call => (call, .waiting)⟩

/-- the turn of a call: it runs its next section -/
def turn (make : Text → α) (s : SharedCache α) (i : Nat) : Traced (SharedCache α) :=
  match s.calls[i]? with
  | some (call, phase) => do
    let (c, phase) ← call.nextSection make s.cache phase
    pure ⟨c, s.calls.set i (call, phase)⟩
  | none => pure s

/-- turns in the given order -/
def run (make : Text → α) (s : SharedCache α) : List Nat → Traced (SharedCache α)
  | [] => pure s
  | i :: rest => do
    let s ← s.turn make i
    run make s rest

variable {make : Text → α} {s : SharedCache α}

theorem turn_of_call {i : Nat} {call : Call} {phase : Phase α} (h : s.calls[i]? = some (call, phase)) :
    s.turn make i = (do
      let (c, phase) ← call.nextSection make s.cache phase
      pure ⟨c, s.calls.set i (call, phase)⟩) := by
  unfold turn
  rw [h]

/-- A call that nobody interrupts looks up, makes what is missing and stores it, as `getOrMake` does. -/
theorem getOrMake_alone (make : Text → α) (c : DocumentCache α) (key text : Text) :
    (start c [.getOrMake key text]).run make [0, 0] = (do
      let (c, r) ← c.getOrMake (fun text => pure (make text)) key (Digest.fingerprint text) text
      pure ⟨c, [(.getOrMake key text, .answered (.result r))]⟩) := by
  cases found : c.lookup key (Digest.fingerprint text) with
  | mk after entry =>
    cases entry <;>
    · apply Traced.ext <;>
      simp [run, start, turn, Call.nextSection, Call.firstSection, DocumentCache.getOrMake, found]

/-! ## Results -/

/-- the entries hold what is made of texts of their fingerprints -/
def Made (make : Text → α) (c : DocumentCache α) : Prop :=
  ∀ entry ∈ c.entries, ∃ t, Digest.fingerprint t = entry.2.fingerprint ∧ entry.2.result = make t

/-- how far a call may have come: it stores for its own text, and a result is made of a text of its fingerprint -/
def Proper (make : Text → α) (call : Call) : Phase α → Prop
  | .making _ text => call.text? = some text
  | .answered (.result r) =>
    ∃ text t, call.text? = some text ∧ Digest.fingerprint t = Digest.fingerprint text ∧ r = make t
  | _ => True

variable {c : DocumentCache α} {call : Call}

/-- A look-up finds nothing but what is made of a text of the version asked for. -/
theorem made_lookup (made : Made make c) (key text : Text) :
    ∃ after found, c.lookup key (Digest.fingerprint text) = (after, found) ∧ Made make after ∧
      ∀ e ∈ found, ∃ t, Digest.fingerprint t = Digest.fingerprint text ∧ e.result = make t := by
  refine ⟨_, _, rfl, fun entry member => made entry (DocumentCache.mem_entries_lookup member), fun e hit => ?_⟩
  obtain ⟨held, version⟩ := DocumentCache.lookup_hit_result (Prod.ext rfl hit)
  obtain ⟨t, version', result⟩ := made (key, e) (Entries.mem_of_lookup? held)
  exact ⟨t, version'.trans version, result⟩

/-- A store answers with what is made of a text of the version stored. -/
theorem made_store (made : Made make c) (key text : Text) :
    Made make (c.store key (Digest.fingerprint text) (make text)).value.1 ∧
      ∃ t, Digest.fingerprint t = Digest.fingerprint text ∧
        (c.store key (Digest.fingerprint text) (make text)).value.2 = make t := by
  have after : Made make (c.store key (Digest.fingerprint text) (make text)).value.1 := by
    intro entry member
    rcases DocumentCache.mem_entries_store member with old | rfl
    · exact made entry old
    · exact ⟨text, rfl, rfl⟩
  obtain ⟨e, current, answer⟩ := DocumentCache.current?_store c key (Digest.fingerprint text) (make text)
  obtain ⟨held, version, _⟩ := DocumentCache.current?_eq_some_iff.1 current
  obtain ⟨t, version', result⟩ := after (key, e) (Entries.mem_of_lookup? held)
  exact ⟨after, t, version'.trans version, answer.trans result⟩

theorem proper_firstSection (made : Made make c) :
    Made make (call.firstSection c).value.1 ∧ Proper make call (call.firstSection c).value.2 := by
  cases call with
  | get key text =>
    obtain ⟨after, found, run, made_after, of_text⟩ := made_lookup made key text
    simp only [Call.firstSection, run]
    cases found with
    | none => exact ⟨made_after, trivial⟩
    | some e =>
      obtain ⟨t, version, result⟩ := of_text e rfl
      exact ⟨made_after, text, t, rfl, version, result⟩
  | getOrMake key text =>
    obtain ⟨after, found, run, made_after, of_text⟩ := made_lookup made key text
    simp only [Call.firstSection, run]
    cases found with
    | none => exact ⟨made_after, rfl⟩
    | some e =>
      obtain ⟨t, version, result⟩ := of_text e rfl
      exact ⟨made_after, text, t, rfl, version, result⟩
  | invalidate key => exact ⟨fun entry member => made entry (DocumentCache.mem_entries_invalidate member), trivial⟩
  | clear => exact ⟨fun entry member => absurd member List.not_mem_nil, trivial⟩

theorem proper_nextSection {phase : Phase α} (made : Made make c) (proper : Proper make call phase) :
    Made make (call.nextSection make c phase).value.1 ∧
      Proper make call (call.nextSection make c phase).value.2 := by
  cases phase with
  | waiting => exact proper_firstSection made
  | making key text =>
    obtain ⟨after, t, version, answer⟩ := made_store made key text
    exact ⟨after, text, t, proper, version, answer⟩
  | answered answer => exact ⟨made, proper⟩

/-- what every turn keeps: the entries are made of texts of their versions, and so are the answers -/
structure Sound (make : Text → α) (s : SharedCache α) : Prop where
  made : Made make s.cache
  proper : ∀ call phase, (call, phase) ∈ s.calls → Proper make call phase

theorem sound_start (empty : c.entries = []) (calls : List Call) : (start c calls).Sound make := by
  constructor
  · intro entry member
    have : entry ∈ c.entries := member
    rw [empty] at this
    exact absurd this List.not_mem_nil
  · intro call phase member
    obtain ⟨_, _, same⟩ := List.mem_map.1 member
    cases same
    trivial

theorem sound_turn (sound : s.Sound make) (i : Nat) : (s.turn make i).value.Sound make := by
  cases h : s.calls[i]? with
  | none =>
    unfold turn
    rw [h]
    exact sound
  | some entry =>
    obtain ⟨call, phase⟩ := entry
    rw [turn_of_call h]
    have proper := sound.proper call phase (List.mem_of_getElem? h)
    obtain ⟨made, proper⟩ := proper_nextSection sound.made proper
    refine ⟨made, fun other phase member => ?_⟩
    rcases List.mem_or_eq_of_mem_set member with old | new
    · exact sound.proper other phase old
    · cases new
      exact proper

theorem sound_run (sound : s.Sound make) (turns : List Nat) : (s.run make turns).value.Sound make := by
  induction turns generalizing s with
  | nil => exact sound
  | cons i rest ih => exact ih (sound_turn sound i)

/-! ## Entries between two stores -/

variable {key : Text}

theorem get_cache (c : DocumentCache α) (key text : Text) :
    (Call.firstSection c (.get key text)).value.1 = (c.lookup key (Digest.fingerprint text)).1 := by
  simp only [Call.firstSection]
  split
  · next run => rw [run]; rfl
  · next run => rw [run]; rfl

theorem getOrMake_cache (c : DocumentCache α) (key text : Text) :
    (Call.firstSection c (.getOrMake key text)).value.1 = (c.lookup key (Digest.fingerprint text)).1 := by
  simp only [Call.firstSection]
  split
  · next run => rw [run]; rfl
  · next run => rw [run]; rfl

theorem entry?_nextSection {phase : Phase α}
    (kept : ∀ event ∈ (call.nextSection make c phase).events, ¬ event.Unsettles key) :
    DocumentCache.entry? (call.nextSection make c phase).value.1 key = c.entry? key := by
  cases phase with
  | making other text =>
    exact DocumentCache.entry?_store fun event member => kept event (List.mem_append_left _ member)
  | answered answer => rfl
  | waiting =>
    cases call with
    | get other text =>
      show DocumentCache.entry? (Call.firstSection c (.get other text)).value.1 key = _
      rw [get_cache]
      exact DocumentCache.entry?_lookup
    | getOrMake other text =>
      show DocumentCache.entry? (Call.firstSection c (.getOrMake other text)).value.1 key = _
      rw [getOrMake_cache]
      exact DocumentCache.entry?_lookup
    | invalidate other =>
      exact DocumentCache.entry?_invalidate fun event member => kept event (List.mem_append_left _ member)
    | clear => exact absurd trivial (kept .cacheCleared (List.mem_cons_self))

theorem entry?_turn {i : Nat} (kept : ∀ event ∈ (s.turn make i).events, ¬ event.Unsettles key) :
    DocumentCache.entry? (s.turn make i).value.cache key = s.cache.entry? key := by
  cases h : s.calls[i]? with
  | none =>
    unfold turn
    rw [h]
    rfl
  | some entry =>
    rw [turn_of_call h] at kept ⊢
    exact entry?_nextSection fun event member => kept event (List.mem_append_left _ member)

theorem entry?_run {turns : List Nat} (kept : ∀ event ∈ (s.run make turns).events, ¬ event.Unsettles key) :
    DocumentCache.entry? (s.run make turns).value.cache key = s.cache.entry? key := by
  induction turns generalizing s with
  | nil => rfl
  | cons i rest ih =>
    calc DocumentCache.entry? ((s.turn make i).value.run make rest).value.cache key
        = DocumentCache.entry? (s.turn make i).value.cache key :=
          ih fun event member => kept event (List.mem_append_right _ member)
      _ = s.cache.entry? key := entry?_turn fun event member => kept event (List.mem_append_left _ member)

/-! ## Turns that finish a call -/

/-- how many sections a call has behind it at least -/
def progress : Phase α → Nat
  | .waiting => 0
  | .making _ _ => 1
  | .answered _ => 2

theorem progress_nextSection (phase : Phase α) :
    min 2 (progress phase + 1) ≤ progress (call.nextSection make c phase).value.2 := by
  cases phase with
  | making key text => exact Nat.le_refl 2
  | answered answer => exact Nat.le_refl 2
  | waiting =>
    cases call with
    | get key text =>
      simp only [Call.nextSection, Call.firstSection]
      split <;> exact Nat.le_succ 1
    | getOrMake key text =>
      simp only [Call.nextSection, Call.firstSection]
      split
      · exact Nat.le_succ 1
      · exact Nat.le_refl 1
    | invalidate key => exact Nat.le_succ 1
    | clear => exact Nat.le_succ 1

theorem progress_turn (make : Text → α) {i : Nat} {phase : Phase α} (h : s.calls[i]? = some (call, phase)) (j : Nat) :
    ∃ after, (s.turn make j).value.calls[i]? = some (call, after) ∧
      min 2 (progress phase + if j = i then 1 else 0) ≤ progress after := by
  by_cases same : j = i
  · subst same
    rw [turn_of_call h]
    refine ⟨(call.nextSection make s.cache phase).value.2, ?_, ?_⟩
    · exact List.getElem?_set_self (List.getElem?_eq_some_iff.1 h).1
    · rw [if_pos rfl]
      exact progress_nextSection phase
  · refine ⟨phase, ?_, by rw [if_neg same]; omega⟩
    cases other : s.calls[j]? with
    | none =>
      unfold turn
      rw [other]
      exact h
    | some entry =>
      obtain ⟨call', phase'⟩ := entry
      rw [turn_of_call other]
      exact (List.getElem?_set_ne same).trans h

theorem progress_run (make : Text → α) {i : Nat} {phase : Phase α} (h : s.calls[i]? = some (call, phase))
    (turns : List Nat) :
    ∃ after, (s.run make turns).value.calls[i]? = some (call, after) ∧
      min 2 (progress phase + turns.count i) ≤ progress after := by
  induction turns generalizing s phase with
  | nil => exact ⟨phase, h, Nat.min_le_right ..⟩
  | cons j rest ih =>
    obtain ⟨between, found, first⟩ := progress_turn make h j
    obtain ⟨after, found, others⟩ := ih found
    refine ⟨after, found, ?_⟩
    rw [List.count_cons]
    simp only [beq_iff_eq]
    omega

/-- **A call is answered after two turns of its own**, whatever the others do. -/
theorem answered_of_two_turns (make : Text → α) (c : DocumentCache α) (calls : List Call) (turns : List Nat) {i : Nat}
    (h : calls[i]? = some call) (twice : 2 ≤ turns.count i) :
    ∃ answer, ((start c calls).run make turns).value.calls[i]? = some (call, .answered answer) := by
  have waiting : (start c calls).calls[i]? = some (call, .waiting) := by simp [start, h]
  obtain ⟨after, found, reached⟩ := progress_run make waiting turns
  cases after with
  | answered answer => exact ⟨answer, found⟩
  | waiting => simp only [progress] at reached; omega
  | making key text => simp only [progress] at reached; omega

/-! ## The results of interleaved calls -/

/-- **The cache is transparent under any interleaving.** Whatever the order of the turns, every result that a caller
gets is made of a text with the fingerprint of its own text. When a version has been stored, and its entry is neither
replaced nor removed before another caller stores the same version, that caller gets the result stored first, and its
store leaves the cache with all its generations as it was. -/
theorem interleaved_calls (make : Text → α) {c : DocumentCache α} (empty : c.entries = []) (calls : List Call) :
    (∀ turns call r, (call, .answered (.result r)) ∈ ((start c calls).run make turns).value.calls →
      ∃ text t, call.text? = some text ∧ Digest.fingerprint t = Digest.fingerprint text ∧ r = make t ∧
        ((∀ t', Digest.fingerprint t' = Digest.fingerprint text → t' = text) → r = make text)) ∧
    (∀ turns i between j call call' key text text',
      let s := ((start c calls).run make turns).value
      let stored := (s.turn make i).value
      let later := (stored.run make between).value
      s.calls[i]? = some (call, .making key text) → later.calls[j]? = some (call', .making key text') →
      Digest.fingerprint text' = Digest.fingerprint text →
      (∀ event ∈ (stored.run make between).events, ¬ event.Unsettles key) →
      ∃ e, stored.cache.entry? key = some e ∧ e.fingerprint = Digest.fingerprint text ∧
        stored.calls[i]? = some (call, .answered (.result e.result)) ∧
        (later.turn make j).value = ⟨later.cache, later.calls.set j (call', .answered (.result e.result))⟩) := by
  constructor
  · intro turns call r member
    obtain ⟨text, t, own, version, result⟩ := (sound_run (sound_start empty calls) turns).proper call _ member
    refine ⟨text, t, own, version, result, fun distinct => ?_⟩
    rw [result, distinct t version]
  · intro turns i between j call call' key text text' s stored later first second version kept
    obtain ⟨e, current, answer⟩ := DocumentCache.current?_store s.cache key (Digest.fingerprint text) (make text)
    have stored_eq : stored = ⟨(s.cache.store key (Digest.fingerprint text) (make text)).value.1,
        s.calls.set i (call, .answered (.result e.result))⟩ := by
      show (s.turn make i).value = _
      rw [turn_of_call first, ← answer]
      rfl
    have still : later.cache.current? key (Digest.fingerprint text') = some e := by
      unfold DocumentCache.current?
      rw [show later.cache.entry? key = stored.cache.entry? key from entry?_run kept, stored_eq, version]
      exact current
    obtain ⟨held, same, _⟩ := DocumentCache.current?_eq_some_iff.1 current
    refine ⟨e, by rw [stored_eq]; exact held, same, ?_, ?_⟩
    · rw [stored_eq]
      exact List.getElem?_set_self (List.getElem?_eq_some_iff.1 first).1
    · rw [turn_of_call second]
      simp only [Call.nextSection, DocumentCache.store_of_current still]
      rfl

/-- a cache with room for one document -/
def roomForOne : DocumentCache Nat := ⟨some 1, by simp, [], [], ⟨0, 0, 0, 0⟩⟩

/-- two callers who both missed one version; the first has stored what it made -/
def race : SharedCache Nat :=
  ((start roomForOne [.getOrMake ['k'] ['t'], .getOrMake ['k'] ['t']]).run List.length [0, 1, 0]).value

/-- The first caller of a race is answered, and the store of the second changes nothing. -/
theorem interleaved_calls_race :
    (∃ text t, Call.text? (.getOrMake ['k'] ['t']) = some text ∧ Digest.fingerprint t = Digest.fingerprint text ∧
      1 = t.length ∧ ((∀ t', Digest.fingerprint t' = Digest.fingerprint text → t' = text) → 1 = text.length)) ∧
    ∃ e, race.cache.entry? ['k'] = some e ∧ (race.turn List.length 1).value =
      ⟨race.cache, race.calls.set 1 (.getOrMake ['k'] ['t'], .answered (.result e.result))⟩ := by
  have calls := interleaved_calls List.length (c := roomForOne) rfl [.getOrMake ['k'] ['t'], .getOrMake ['k'] ['t']]
  constructor
  · exact calls.1 [0, 1, 0] (.getOrMake ['k'] ['t']) 1 List.mem_cons_self
  · obtain ⟨e, held, _, _, second⟩ := calls.2 [0, 1] 0 [] 1 (.getOrMake ['k'] ['t']) (.getOrMake ['k'] ['t'])
      ['k'] ['t'] ['t'] rfl rfl rfl fun event member => absurd member List.not_mem_nil
    exact ⟨e, held, second⟩

end SharedCache

end EndpointSurvey
