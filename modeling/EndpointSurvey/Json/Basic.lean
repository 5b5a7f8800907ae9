/-
JSON values. Whole numbers are unbounded, other numbers are 64-bit, and the members of an object keep their order.

Main statement: `member?_record` (a member of a record is found by its name).
-/
import EndpointSurvey.Entries
import EndpointSurvey.Number.Binary64

namespace EndpointSurvey

inductive Json where
  | null
  | bool (value : Bool)
  | int (value : Int)
  | float (value : Binary64)
  | string (value : Text)
  | array (items : List Json)
  | object (members : List (Text × Json))

namespace Json

/-- the member of an object, nothing for any other value -/
def member? (key : Text) : Json → Option Json
  | .object members => Entries.lookup? key members
  | _ => none

/-- an object from a list of members -/
def record (members : List (String × Json)) : Json := .object (members.map fun (k, v) => (k.toList, v))

theorem member?_record (key : String) (value : Json) (rest : List (String × Json)) :
    member? key (record ((key, value) :: rest)) = some value := by
  simp [member?, record, Entries.lookup?]

def ofOption {α : Type} (encode : α → Json) : Option α → Json
  | none => .null
  | some a => encode a

def ofNat (n : Nat) : Json := .int n

def texts (items : List Text) : Json := .array (items.map .string)

/-- is the value one that counts as absent: null, false, zero, or empty? -/
def isEmpty : Json → Bool
  | .null => true
  | .bool b => !b
  | .int n => n == 0
  | .float (.finite _ m _) => m == 0
  | .float _ => false
  | .string t => t.isEmpty
  | .array items => items.isEmpty
  | .object members => members.isEmpty

end Json

end EndpointSurvey
