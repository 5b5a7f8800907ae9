/-
The events of a survey in the order they happen. Every event can be logged; some carry a warning for the caller too. A
traced value is a value with the events of computing it.

Main statement: `warnings_bind` (the warnings of two steps are those of the first, then those of the second).
-/
import EndpointSurvey.Diagnostic.Warning
import EndpointSurvey.Text.Quoted

namespace EndpointSurvey

inductive Level where
  | debug
  | info
  | warning
  deriving DecidableEq, Repr

def Level.name : Level → Text
  | .debug => "DEBUG"
  | .info => "INFO"
  | .warning => "WARNING"

/-- the weight by which a log's threshold compares levels -/
def Level.weight : Level → Nat
  | .debug => 10
  | .info => 20
  | .warning => 30

structure LogRecord where
  level : Level
  channel : Channel
  message : Text
  deriving DecidableEq, Repr

inductive Event where
  /-- a warning for the caller -/
  | reported (w : Warning)
  /-- a warning that nobody collects, only logged -/
  | noticed (w : Warning)
  | segmented (declarations : Nat)
  | catalogued (types : Nat)
  | routeComposed (template controller action : Text)
  | parameterInjected (name typeText : Text)
  | documentParsed (controllers endpoints types : Nat)
  | cacheHit (key : Text) (generation : Nat)
  | cacheStored (key : Text) (generation : Nat)
  | cacheEvicted (key : Text)
  | cacheInvalidated (key : Text)
  | cacheCleared
  | fileTooLarge (path size limit : Text)
  | fileUnreadable (path reason : Text)
  | environmentsLoaded (count : Nat) (path current : Text)
  deriving DecidableEq, Repr

namespace Event

/-- the warning that the event brings the caller -/
def warning? : Event → Option Warning
  | reported w => some w
  | _ => none

/-- a count in a message -/
def count (n : Nat) : Text := Text.ofNat n

/-- how a warning is logged: with its line, with its subject, or with both its kind and its subject -/
def warningRecord (w : Warning) : LogRecord :=
  let subject : Text := w.subject.getD "None"
  match w.problem.channel with
  | .requests => ⟨.debug, .requests, w.kind.name ++ ": " ++ w.message ++ " (" ++ subject ++ ")"⟩
  | .binding => ⟨.warning, .binding, w.message ++ " (" ++ subject ++ ")"⟩
  | channel =>
    ⟨.warning, channel,
      match w.location with
      | some location => w.message ++ " (line " ++ count location.line ++ ")"
      | none => w.message⟩

/-- what a log keeps of an event -/
def record : Event → LogRecord
  | reported w => warningRecord w
  | noticed w => warningRecord w
  | segmented n => ⟨.debug, .segments, "Segmented " ++ count n ++ " type declarations"⟩
  | catalogued n => ⟨.debug, .types, "Type catalog built with " ++ count n ++ " types"⟩
  | routeComposed template controller action =>
    ⟨.debug, .routes, "Composed route " ++ template ++ " for " ++ controller ++ "." ++ action⟩
  | parameterInjected name typeText =>
    ⟨.debug, .binding, "Skipping injected parameter " ++ name ++ " (" ++ typeText ++ ")"⟩
  | documentParsed controllers endpoints types =>
    ⟨.info, .documents, "Parsed " ++ count controllers ++ " controllers, " ++ count endpoints ++ " endpoints, " ++
      count types ++ " types"⟩
  | cacheHit key generation =>
    ⟨.debug, .cache, "Cache hit: " ++ key ++ " (generation " ++ count generation ++ ")"⟩
  | cacheStored key generation =>
    ⟨.debug, .cache, "Cache store: " ++ key ++ " (generation " ++ count generation ++ ")"⟩
  | cacheEvicted key => ⟨.debug, .cache, "Cache evicted: " ++ key⟩
  | cacheInvalidated key => ⟨.debug, .cache, "Cache invalidated: " ++ key⟩
  | cacheCleared => ⟨.info, .cache, "Cleared all cached documents"⟩
  | fileTooLarge path size limit =>
    ⟨.warning, .commandLine, "Skipping large file " ++ path ++ ": " ++ size ++ "MB > " ++ limit ++ "MB"⟩
  | fileUnreadable path reason => ⟨.debug, .commandLine, "File read error " ++ path ++ ": " ++ reason⟩
  | environmentsLoaded n path current =>
    ⟨.debug, .environments, "Loaded " ++ count n ++ " environments from " ++ path ++ " (current: " ++ current ++ ")"⟩

end Event

/-- a value with the events of computing it -/
structure Traced (α : Type) where
  value : α
  events : List Event

namespace Traced

variable {α β : Type}

instance : Monad Traced where
  pure a := ⟨a, []⟩
  bind t f := let u := f t.value; ⟨u.value, t.events ++ u.events⟩

/-- an event and nothing else -/
def emit (e : Event) : Traced Unit := ⟨(), [e]⟩

/-- a warning for the caller -/
def warn (problem : Problem) (location : Option Location) (subject : Option Text) : Traced Unit :=
  emit (.reported ⟨problem, location, subject⟩)

/-- the warnings among the events, for the caller -/
def warnings (t : Traced α) : List Warning := t.events.filterMap Event.warning?

/-- the same computation where nobody collects warnings -/
def unreported (t : Traced α) : Traced α :=
  ⟨t.value, t.events.map fun
    | .reported w => .noticed w
    | e => e⟩

theorem warnings_pure (a : α) : (pure a : Traced α).warnings = [] := rfl

theorem warnings_bind (t : Traced α) (f : α → Traced β) :
    (t >>= f).warnings = t.warnings ++ (f t.value).warnings := by
  simp [warnings, bind, List.filterMap_append]

theorem warnings_unreported (t : Traced α) : t.unreported.warnings = [] := by
  simp only [warnings, unreported, List.filterMap_map]
  rw [List.filterMap_eq_nil_iff]
  intro e _
  cases e <;> rfl

/-- the results of a list, each with its events, in order -/
def mapList (f : α → Traced β) : List α → Traced (List β)
  | [] => pure []
  | a :: as => do
    let b ← f a
    let bs ← mapList f as
    pure (b :: bs)

/-- the results that a list has, in order -/
def filterMapList (f : α → Traced (Option β)) (as : List α) : Traced (List β) := do
  let bs ← mapList f as
  pure (bs.filterMap id)

end Traced

end EndpointSurvey
