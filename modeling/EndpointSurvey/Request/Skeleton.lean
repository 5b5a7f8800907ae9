/-
Skeletons of sample values: everything that the types decide, with slots where a scalar stands. An object type that
repeats on the way down, or lies deeper than the limit, is cut.

Main statement: `ofType_object_cut` (a repeated or too deep object type is cut).
-/
import EndpointSurvey.Binding.Basic
import EndpointSurvey.Catalog.Inheritance
import EndpointSurvey.Diagnostic.Warning
import EndpointSurvey.Sample.Value

namespace EndpointSurvey

inductive Skeleton where
  | slot (s : Slot)
  /-- an object type that is not entered -/
  | cut
  | items (list : List Skeleton)
  | members (list : List (Text × Skeleton))
  /-- a value that a warning goes with -/
  | noted (problem : Problem) (s : Skeleton)
  /-- properties whose types cannot be written out -/
  | failed (e : Template.Error)

namespace Skeleton

def text (t : Text) : Skeleton := .slot (.settled (.string t))

/-- stands for the content of a file -/
def fileMark : Text := "[FILE]"

/-- how many object types may enclose each other -/
def depthLimit : Nat := 8

/-- what the skeletons of an endpoint's values depend on besides their types -/
structure Setting where
  catalog : Catalog
  now : Instant

/-- a text slot for a name -/
def named (setting : Setting) (name : Text) : Skeleton := .slot (Sample.valueFor setting.now name .string)

/-- a value of no known form; a type that should be known is noted -/
def ofUntyped (typeName name : Text) (known : Bool) (s : Skeleton) : Skeleton :=
  if known then s else .noted (.undeclaredType typeName name) s

/-- the value of a list whose elements look like this; a list of cut objects is empty -/
def ofItem (element : ResolvedType) (item : Skeleton) : Skeleton :=
  match element, item with
  | .object .., .cut => .items []
  | _, _ => .items [item]

/-- the skeleton of a value, given its name and the object types that enclose it -/
def ofType (setting : Setting) (enclosing : List Text) (name : Text) (r : ResolvedType) : Skeleton :=
  match r with
  | .primitive _ _ scalar => .slot (Sample.valueFor setting.now name scalar)
  | .enumeration typeName _ d =>
    match d.enumMembers with
    | first :: _ => text first
    | [] => .noted (.emptyEnumeration typeName) (named setting name)
  | .file .. => text fileMark
  | .collection _ _ element => ofItem element (ofType setting enclosing name element)
  | .dictionary _ _ element _ => .members [("key", ofType setting enclosing name element)]
  | .untyped typeName _ _ known => ofUntyped typeName name known (.members [])
  | .object _ _ d _ =>
    if _h : enclosing.contains d.name || depthLimit ≤ enclosing.length then .cut
    else match setting.catalog.propertiesOf r with
      | .error e => .failed e
      | .ok properties => .members (properties.map fun p =>
          (p.wireName, ofType setting (enclosing ++ [d.name]) p.name (setting.catalog.resolve p.typeText)))
  termination_by (depthLimit - enclosing.length, sizeOf r)
  decreasing_by
    · apply Prod.Lex.right; simp
    · apply Prod.Lex.right; simp; omega
    · apply Prod.Lex.left
      simp at _h ⊢
      omega

/-- the skeleton of a single text -/
def ofTextType (setting : Setting) (enclosing : List Text) (name : Text) (r : ResolvedType) : Skeleton :=
  match r with
  | .untyped typeName _ _ known => ofUntyped typeName name known (named setting name)
  | r => ofType setting enclosing name r

/-! ## Flattening -/

/-- an entry of a query or a form -/
structure Entry where
  key : Text
  value : Skeleton
  isFile : Bool

/-- the type that a query or form looks at: one layer of a collection is looked through -/
def throughCollection : ResolvedType → ResolvedType
  | .collection _ _ element => element
  | r => r

/-- The entries of a value: one for each leaf of a model, keyed by the path of property names. Properties of the
outermost model go by their own names. -/
def flatten (setting : Setting) (enclosing : List Text) (key : Text) (r : ResolvedType) : List Entry :=
  if r.isFile then [⟨key, text fileMark, true⟩]
  else match throughCollection r with
    | .object typeName nullable d arguments =>
      if _h : enclosing.contains d.name || depthLimit ≤ enclosing.length then []
      else match setting.catalog.propertiesOf (.object typeName nullable d arguments) with
        | .error e => [⟨key, .failed e, false⟩]
        | .ok properties => properties.flatMap fun p =>
            let childKey := if enclosing.isEmpty then p.name else key ++ '.' :: p.name
            flatten setting (enclosing ++ [d.name]) childKey (setting.catalog.resolve p.typeText)
    | target => [⟨key, ofTextType setting enclosing (Text.afterLast '.' key) target, false⟩]
  termination_by depthLimit - enclosing.length
  decreasing_by
    simp at _h ⊢
    omega

/-- the entries of a parameter; a model without anything to bind is noted and sends its own name -/
def ofParameter (setting : Setting) (p : Parameter) : List Entry :=
  match flatten setting [] p.name (setting.catalog.resolve p.typeText) with
  | [] => [⟨p.name, .noted (.nothingToBind p.name p.typeText) (named setting p.name), false⟩]
  | entries => entries

theorem ofType_object_cut (setting : Setting) (enclosing : List Text) (name typeName : Text) (nullable : Bool)
    (d : TypeDescriptor) (arguments : List Text) (h : d.name ∈ enclosing ∨ depthLimit ≤ enclosing.length) :
    ofType setting enclosing name (.object typeName nullable d arguments) = .cut := by
  unfold ofType
  rw [dif_pos]
  simpa using h

end Skeleton

end EndpointSurvey
