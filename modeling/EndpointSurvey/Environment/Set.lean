/-
Sets of environments, of which one is the current one. Names are matched whatever their case, the first wins.

Main statement: `get?_mem` (what is found belongs to the set).
-/
import EndpointSurvey.Diagnostic.Event
import EndpointSurvey.Environment.Basic
import EndpointSurvey.Json.File
import EndpointSurvey.Text.LowerCase

namespace EndpointSurvey

structure EnvironmentSet where
  environments : List Environment
  current : Text
  deriving DecidableEq, Repr

namespace EnvironmentSet

/-- the set in use without a file -/
def builtIn : EnvironmentSet := ⟨[⟨"Development", "http://localhost:5000", [], []⟩], "Development"⟩

def names (s : EnvironmentSet) : List Text := s.environments.map (·.name)

/-- the environment of a name, or the current one -/
def get? (s : EnvironmentSet) (name : Option Text) : Except EnvironmentError Environment :=
  let wanted := match name with
    | some (c :: cs) => c :: cs
    | _ => s.current
  match s.environments.find? fun e => Text.sameFolded e.name wanted with
  | some e => .ok e
  | none => .error (.unknownName wanted s.names)

theorem get?_mem {s : EnvironmentSet} {name : Option Text} {e : Environment} (h : s.get? name = .ok e) :
    e ∈ s.environments := by
  unfold get? at h
  simp only at h
  split at h
  · next found hf => cases h; exact List.mem_of_find?_eq_some hf
  · cases h

/-- the entries of the environments in the value of a file; the path is named in errors -/
def entriesOf? (path : Text) (j : Json) : Except EnvironmentError (List Json) :=
  match j with
  | .object _ =>
    match j.member? "environments" with
    | some (.array (first :: rest)) => .ok (first :: rest)
    | _ => .error (.fileEmpty path)
  | _ => .error (.fileNotObject path)

/-- the name of the current environment, the first one if none is told -/
def currentName (j : Json) (environments : List Environment) : Text :=
  let firstName := (environments.head?.map (·.name)).getD []
  match j.member? "current" with
  | some given => if given.isEmpty then firstName else given.plain
  | none => firstName

/-- the set that the value of a file describes -/
def ofJson? (path : Text) (j : Json) : Except EnvironmentError EnvironmentSet := do
  let entries ← entriesOf? path j
  let environments ← entries.mapM Environment.ofJson?
  let s : EnvironmentSet := ⟨environments, currentName j environments⟩
  let _ ← s.get? (some s.current)
  pure s

/-- the set that the content of a file describes -/
def ofFile? (path content : Text) : Except EnvironmentError EnvironmentSet :=
  match Json.ofFile? path content with
  | some j => ofJson? path j
  | none => .error (.malformedFile path)

/-- the event of a set read from a file -/
def loaded (s : EnvironmentSet) (path : Text) : Event :=
  .environmentsLoaded s.environments.length path s.current

end EnvironmentSet

end EndpointSurvey
