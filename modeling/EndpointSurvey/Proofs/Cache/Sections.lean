/-
The sections that callers of one cache run. While a section runs, nothing else touches the cache; in between, and while
a result is being made, any other caller may take its turn. Making a result may fail, and then the call is broken off
without a store. A run leaves a history: which caller ran which section, and on what cache.

Main statements:
- `Call.cache_advance`: a turn of a call does to the cache what its section does, and nothing if it has none;
- `Callers.cache_turn`: so does a turn of a caller;
- `Callers.run_ofShared`: callers whose results can all be made are those of `SharedCache`.
-/
import EndpointSurvey.Proofs.Cache.Interleaving

namespace EndpointSurvey

variable {α ε : Type}

/-! ## Sections -/

/-- what a caller does to a cache without being interrupted -/
inductive Section (α : Type) where
  | lookup (key text : Text)
  | store (key text : Text) (result : α)
  | invalidate (key : Text)
  | clear
  deriving DecidableEq, Repr

/-- the cache when a section ends -/
def Section.run (c : DocumentCache α) : Section α → DocumentCache α
  | lookup key text => (c.lookup key (Digest.fingerprint text)).1
  | store key text result => (c.store key (Digest.fingerprint text) result).value.1
  | invalidate key => (c.invalidate key).value.1
  | clear => c.clear.value

/-- a section that was run, by which caller and on which cache -/
structure Step (α : Type) where
  caller : Nat
  ran : Section α
  before : DocumentCache α

/-- the cache that a step leaves -/
def Step.after (step : Step α) : DocumentCache α := step.ran.run step.before

/-! ## Calls that may be broken off -/

/-- the section that a call runs next; nothing is stored for a text whose result cannot be made -/
def Call.section? (make : Text → Except ε α) : Call → Except ε (Phase α) → Option (Section α)
  | get key text, .ok .waiting => some (.lookup key text)
  | getOrMake key text, .ok .waiting => some (.lookup key text)
  | invalidate key, .ok .waiting => some (.invalidate key)
  | clear, .ok .waiting => some .clear
  | _, .ok (.making key text) =>
    match make text with
    | .ok result => some (.store key text result)
    | .error _ => none
  | _, .ok (.answered _) => none
  | _, .error _ => none

/-- the turn of a call: it runs its next section, or is broken off by the fault that kept its result from being made -/
def Call.advance (make : Text → Except ε α) (c : DocumentCache α) (call : Call) :
    Except ε (Phase α) → DocumentCache α × Except ε (Phase α)
  | .ok .waiting =>
    let (c, phase) := (call.firstSection c).value
    (c, .ok phase)
  | .ok (.making key text) =>
    match make text with
    | .ok result =>
      let (c, phase) := (call.nextSection (fun _ => result) c (.making key text)).value
      (c, .ok phase)
    | .error fault => (c, .error fault)
  | .ok (.answered answer) => (c, .ok (.answered answer))
  | .error fault => (c, .error fault)

theorem Call.cache_advance (make : Text → Except ε α) (c : DocumentCache α) (call : Call)
    (stage : Except ε (Phase α)) :
    (call.advance make c stage).1 = ((call.section? make stage).map (·.run c)).getD c := by
  match stage with
  | .error fault => cases call <;> rfl
  | .ok (.answered answer) => cases call <;> rfl
  | .ok (.making key text) =>
    cases made : make text <;> cases call <;> simp only [advance, section?, made] <;> rfl
  | .ok .waiting =>
    cases call with
    | get key text => exact SharedCache.get_cache c key text
    | getOrMake key text => exact SharedCache.getOrMake_cache c key text
    | invalidate key => rfl
    | clear => rfl

/-- A call whose result can be made takes its turn as one that is never broken off. -/
theorem Call.advance_ok (make : Text → α) (c : DocumentCache α) (call : Call) (phase : Phase α) :
    (call.advance (fun text => .ok (make text)) c (.ok phase) : DocumentCache α × Except ε (Phase α)) =
      ((call.nextSection make c phase).value.1, .ok (call.nextSection make c phase).value.2) := by
  cases phase <;> rfl

/-! ## Callers that take turns -/

/-- a cache and the calls that share it, some of them broken off by a fault -/
structure Callers (ε α : Type) where
  cache : DocumentCache α
  calls : List (Call × Except ε (Phase α))

namespace Callers

/-- calls that are all still to come -/
def start (c : DocumentCache α) (calls : List Call) : Callers ε α := ⟨c, calls.map fun call => (call, .ok .waiting)⟩

/-- the turn of a call; what is made of a text, or that it cannot be made, may differ from caller to caller -/
def turn (make : Nat → Text → Except ε α) (s : Callers ε α) (i : Nat) : Callers ε α :=
  match s.calls[i]? with
  | some (call, stage) =>
    let (c, stage) := call.advance (make i) s.cache stage
    ⟨c, s.calls.set i (call, stage)⟩
  | none => s

/-- turns in the given order -/
def run (make : Nat → Text → Except ε α) (s : Callers ε α) (turns : List Nat) : Callers ε α :=
  turns.foldl (turn make) s

/-- the step that a turn takes, if it runs a section -/
def step? (make : Nat → Text → Except ε α) (s : Callers ε α) (i : Nat) : Option (Step α) :=
  match s.calls[i]? with
  | some (call, stage) => (call.section? (make i) stage).map fun ran => ⟨i, ran, s.cache⟩
  | none => none

/-- the steps that turns take, the first one first -/
def history (make : Nat → Text → Except ε α) (s : Callers ε α) : List Nat → List (Step α)
  | [] => []
  | i :: rest => (s.step? make i).toList ++ history make (s.turn make i) rest

variable {make : Nat → Text → Except ε α} {s : Callers ε α} {i : Nat} {call : Call} {stage : Except ε (Phase α)}

theorem turn_of_call (h : s.calls[i]? = some (call, stage)) :
    s.turn make i =
      ⟨(call.advance (make i) s.cache stage).1, s.calls.set i (call, (call.advance (make i) s.cache stage).2)⟩ := by
  unfold turn
  rw [h]

theorem turn_of_none (h : s.calls[i]? = none) : s.turn make i = s := by
  unfold turn
  rw [h]

theorem step?_of_call (h : s.calls[i]? = some (call, stage)) :
    s.step? make i = (call.section? (make i) stage).map fun ran => ⟨i, ran, s.cache⟩ := by
  unfold step?
  rw [h]

theorem step?_of_none (h : s.calls[i]? = none) : s.step? make i = none := by
  unfold step?
  rw [h]

theorem caller_of_step? {step : Step α} (h : s.step? make i = some step) : step.caller = i := by
  unfold step? at h
  split at h
  · obtain ⟨ran, -, rfl⟩ := Option.map_eq_some_iff.1 h
    rfl
  · cases h

/-- A turn leaves the cache of its step, and the cache as it was if it takes none. -/
theorem cache_turn (make : Nat → Text → Except ε α) (s : Callers ε α) (i : Nat) :
    (s.turn make i).cache = ((s.step? make i).map Step.after).getD s.cache := by
  cases h : s.calls[i]? with
  | none => rw [turn_of_none h, step?_of_none h]; rfl
  | some entry =>
    obtain ⟨call, stage⟩ := entry
    rw [turn_of_call h, step?_of_call h, Call.cache_advance, Option.map_map]
    rfl

/-- Another caller's turn does not change how far a call has come. -/
theorem calls_turn_of_ne {j : Nat} (different : j ≠ i) : (s.turn make j).calls[i]? = s.calls[i]? := by
  cases h : s.calls[j]? with
  | none => rw [turn_of_none h]
  | some entry =>
    obtain ⟨call, stage⟩ := entry
    rw [turn_of_call h]
    exact List.getElem?_set_ne different

theorem calls_turn_self (h : s.calls[i]? = some (call, stage)) :
    (s.turn make i).calls[i]? = some (call, (call.advance (make i) s.cache stage).2) := by
  rw [turn_of_call h]
  exact List.getElem?_set_self (List.getElem?_eq_some_iff.1 h).1

/-! ## Calls that are never broken off -/

/-- calls none of which is broken off -/
def ofShared (s : SharedCache α) : Callers ε α := ⟨s.cache, s.calls.map fun (call, phase) => (call, .ok phase)⟩

theorem turn_ofShared (make : Text → α) (s : SharedCache α) (i : Nat) :
    turn (fun _ text => .ok (make text)) (ofShared s) i = (ofShared (s.turn make i).value : Callers ε α) := by
  cases h : s.calls[i]? with
  | none =>
    have none_left : (ofShared s : Callers ε α).calls[i]? = none := by simp [ofShared, h]
    rw [turn_of_none none_left]
    simp only [SharedCache.turn, h]
    rfl
  | some entry =>
    obtain ⟨call, phase⟩ := entry
    have same : (ofShared s : Callers ε α).calls[i]? = some (call, .ok phase) := by simp [ofShared, h]
    rw [turn_of_call same, SharedCache.turn_of_call h, Call.advance_ok]
    simp only [ofShared, Traced.value_bind, Traced.value_pure, List.map_set]

/-- **Callers whose results can all be made** share a cache as those do that are never broken off. -/
theorem run_ofShared (make : Text → α) (s : SharedCache α) (turns : List Nat) :
    run (fun _ text => .ok (make text)) (ofShared s) turns = (ofShared (s.run make turns).value : Callers ε α) := by
  induction turns generalizing s with
  | nil => rfl
  | cons i rest ih =>
    show run _ (turn _ (ofShared s) i) rest = ofShared ((s.turn make i).value.run make rest).value
    rw [turn_ofShared, ih]

end Callers

end EndpointSurvey
