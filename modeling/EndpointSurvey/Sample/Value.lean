/-
Sample values of scalars: by a name rule, by the current time, or from a pool of the scalar. A value from a pool is left
open until someone chooses an entry.

Main statement: `Picker.choose_mem` (what is chosen is an entry of the pool).
-/
import EndpointSurvey.Clock.Instant
import EndpointSurvey.Json.Printer
import EndpointSurvey.Sample.NameRule

namespace EndpointSurvey

/-- a value: settled, or one entry of a pool -/
inductive Slot where
  | settled (value : Json)
  | pick (first : Json) (others : List Json)

namespace Sample

def guid : Text := "550e8400-e29b-41d4-a716-446655440000"

/-- a decimal number with this many hundredths -/
def hundredths (n : Nat) : Json := .float (Binary64.ofDecimal false n (-2))

/-- the current time as a scalar of time -/
def timestamp (now : Instant) : Scalar → Text
  | .date => now.date
  | .time => now.timeOfDay
  | _ => now.stamp

def placeholder : Text := "sample_string"

def texts (first : Text) (others : List Text) : Slot := .pick (.string first) (others.map .string)

/-- the value of a scalar whose name says nothing -/
def fallback (now : Instant) : Scalar → Slot
  | .string => texts placeholder ["test_value", "example", "data"]
  | .character => texts "a" ["x"]
  | .integer => .pick (.int 1) [.int 42, .int 123]
  | .number => .pick (hundredths 150) [hundredths 4250, hundredths 314]
  | .boolean => .pick (.bool true) [.bool false]
  | .guid => texts guid ["12345678-1234-1234-1234-123456789012"]
  | .url => texts "https://example.com" ["https://api.example.com"]
  | .binary => texts "c2FtcGxl" []
  | .duration => texts "00:30:00" []
  | .dateTime => .settled (.string (timestamp now .dateTime))
  | .date => .settled (.string (timestamp now .date))
  | .time => .settled (.string (timestamp now .time))

/-- the value that a rule gives for a scalar -/
def ofRule (now : Instant) (scalar : Scalar) : RuleValue → Json
  | .text t => .string t
  | .whole n => .int n
  | .decimal v => .float v
  | .truth b => .bool b
  | .timestamp => .string (timestamp now scalar)
  | .identifier =>
    match scalar with
    | .guid => .string guid
    | .string => .string "1"
    | _ => .int 1

/-- the value of a name and a scalar -/
def valueFor (now : Instant) (name : Text) (scalar : Scalar) : Slot :=
  match NameRule.find? name scalar with
  | some rule => .settled (ofRule now scalar rule.value)
  | none => fallback now scalar

/-- the text of a value in a path, a header or a form: nothing for null, and JSON for lists and objects -/
def textOf : Json → Text
  | .null => []
  | .bool true => "true"
  | .bool false => "false"
  | .array items => (Json.array items).write
  | .object members => (Json.object members).write
  | v => v.plain

end Sample

/-! ## Choosing -/

/-- says which entry of a pool to take at each draw; without one the first entry is always taken -/
abbrev Picker := Option (Nat → Int)

namespace Picker

/-- takes the entries at these places, round and round; no places are no picker -/
def cycle (places : List Int) : Picker :=
  if places.isEmpty then none else some fun draw => (places[draw % places.length]?).getD 0

/-- the entry chosen at a draw; places beyond the pool count round from its start -/
def choose (p : Picker) (draw : Nat) (first : Json) (others : List Json) : Json :=
  match p with
  | none => first
  | some place => ((first :: others)[((place draw).emod (others.length + 1)).toNat]?).getD first

theorem choose_mem (p : Picker) (draw : Nat) (first : Json) (others : List Json) :
    p.choose draw first others ∈ first :: others := by
  unfold choose
  split
  · simp
  · next place =>
    cases h : (first :: others)[((place draw).emod (others.length + 1)).toNat]? with
    | none => simp
    | some v => exact List.mem_of_getElem? h

end Picker

end EndpointSurvey
