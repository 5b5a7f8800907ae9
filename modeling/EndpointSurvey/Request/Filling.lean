/-
Filling skeletons: the slots are settled one after another by a picker that counts its draws, and the problems met on
the way are kept. The first failure ends the filling.
-/
import EndpointSurvey.Request.Basic
import EndpointSurvey.Request.Skeleton

namespace EndpointSurvey

/-- how far a filling has come: the draws made and the problems met -/
structure Progress where
  draws : Nat
  problems : List Problem
  deriving DecidableEq, Repr

/-- a filling: the progress is kept also when it fails -/
abbrev Filling := ExceptT RequestError (StateM Progress)

namespace Filling

def note (problem : Problem) : Filling Unit := modify fun s => { s with problems := s.problems ++ [problem] }

/-- chooses an entry of a pool, which is one draw -/
def draw (picker : Picker) (first : Json) (others : List Json) : Filling Json :=
  modifyGet fun s => (picker.choose s.draws first others, { s with draws := s.draws + 1 })

end Filling

namespace Skeleton

mutual

/-- fills a skeleton; of members with one key the last value counts, in the place of the first -/
def fill (picker : Picker) : Skeleton → Filling Json
  | slot (.settled v) => pure v
  | slot (.pick first others) => Filling.draw picker first others
  | cut => pure .null
  | items list => do
    let values ← fillItems picker list
    pure (.array values)
  | members list => do
    let values ← fillMembers picker list
    pure (.object (Entries.ofList values))
  | noted problem s => do
    Filling.note problem
    fill picker s
  | failed e => throw (.template e)

def fillItems (picker : Picker) : List Skeleton → Filling (List Json)
  | [] => pure []
  | s :: rest => do
    let v ← fill picker s
    let vs ← fillItems picker rest
    pure (v :: vs)

def fillMembers (picker : Picker) : List (Text × Skeleton) → Filling (List (Text × Json))
  | [] => pure []
  | (key, s) :: rest => do
    let v ← fill picker s
    let vs ← fillMembers picker rest
    pure ((key, v) :: vs)

end

/-- fills the values of entries as texts -/
def fillEntries (picker : Picker) : List Entry → Filling (List FormField)
  | [] => pure []
  | entry :: rest => do
    let v ← fill picker entry.value
    let fields ← fillEntries picker rest
    pure (⟨entry.key, Sample.textOf v, entry.isFile⟩ :: fields)

/-- fills named values as texts -/
def fillTexts (picker : Picker) : List (Text × Skeleton) → Filling (List (Text × Text))
  | [] => pure []
  | (key, s) :: rest => do
    let v ← fill picker s
    let vs ← fillTexts picker rest
    pure ((key, Sample.textOf v) :: vs)

end Skeleton

end EndpointSurvey
