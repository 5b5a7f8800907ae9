/-
The catalog of model types. Declarations of one name and kind are parts of one type; names the catalog does not declare
are looked up in its fallbacks, one after another.

Main statements: `lookup?_add` (what a catalog holds under each name after one more declaration) and `mem_of_get?`.
-/
import EndpointSurvey.Declaration.Block
import EndpointSurvey.Entries

namespace EndpointSurvey

/-- a property of a model that a client can set -/
structure Property where
  name : Text
  typeText : Text
  comment : Option Text
  jsonName : Option Text
  required : Bool
  deriving DecidableEq, Repr

/-- the key of a property in a JSON body -/
def Property.wireName (p : Property) : Text :=
  match p.jsonName with
  | some (c :: cs) => c :: cs
  | _ => p.name

structure TypeDescriptor where
  name : Text
  kind : DeclarationKind
  properties : List Property
  baseType : Option Text
  typeParameters : List Text
  enumMembers : List Text
  comment : Option Text
  deriving DecidableEq, Repr

/-- the first text unless it is missing or empty -/
def firstGiven (first second : Option Text) : Option Text :=
  match first with
  | some (c :: cs) => some (c :: cs)
  | _ => second

namespace TypeDescriptor

/-- Adds a further part of the same type: properties that are new by name, all members, and what is not given yet. -/
def merge (d part : TypeDescriptor) : TypeDescriptor :=
  let names := d.properties.map (·.name)
  { d with
    properties := d.properties ++ part.properties.filter fun p => !names.contains p.name
    baseType := firstGiven d.baseType part.baseType
    typeParameters := if d.typeParameters.isEmpty then part.typeParameters else d.typeParameters
    enumMembers := d.enumMembers ++ part.enumMembers
    comment := firstGiven d.comment part.comment }

@[simp] theorem merge_name (d part : TypeDescriptor) : (d.merge part).name = d.name := rfl

@[simp] theorem merge_kind (d part : TypeDescriptor) : (d.merge part).kind = d.kind := rfl

end TypeDescriptor

structure Catalog where
  /-- the types declared here, in the order of their first declaration -/
  own : Entries TypeDescriptor
  /-- where other names are looked up, the nearest first -/
  fallbacks : List (Entries TypeDescriptor)
  deriving DecidableEq, Repr

namespace Catalog

def empty : Catalog := ⟨[], []⟩

/-- Declares a type. A part of a known type is merged into it; a declaration of another kind is passed over. -/
def add (c : Catalog) (d : TypeDescriptor) : Catalog :=
  match Entries.lookup? d.name c.own with
  | none => { c with own := Entries.insert d.name d c.own }
  | some known => if known.kind = d.kind then { c with own := Entries.insert d.name (known.merge d) c.own } else c

/-- the catalog of a list of declarations -/
def ofList (ds : List TypeDescriptor) : Catalog := ds.foldl add empty

/-- the same catalog with another one to fall back on -/
def withFallback (c fallback : Catalog) : Catalog := { c with fallbacks := fallback.own :: fallback.fallbacks }

/-- the type of a name, declared here or in a fallback -/
def get? (c : Catalog) (name : Text) : Option TypeDescriptor :=
  (c.own :: c.fallbacks).findSome? (Entries.lookup? name)

/-- is the name declared here? -/
def declares (c : Catalog) (name : Text) : Bool := (Entries.lookup? name c.own).isSome

/-- the types declared here -/
def types (c : Catalog) : List TypeDescriptor := c.own.map (·.2)

def size (c : Catalog) : Nat := c.own.length

/-- the types declared here and in the fallbacks -/
def reachable (c : Catalog) : List TypeDescriptor := ((c.own :: c.fallbacks).flatten).map (·.2)

theorem lookup?_add (c : Catalog) (d : TypeDescriptor) (name : Text) :
    Entries.lookup? name (c.add d).own =
      if d.name = name then
        some (match Entries.lookup? d.name c.own with
          | none => d
          | some known => if known.kind = d.kind then known.merge d else known)
      else Entries.lookup? name c.own := by
  unfold add
  by_cases hn : d.name = name
  · subst hn
    cases h : Entries.lookup? d.name c.own with
    | none => simp [Entries.lookup?_insert]
    | some known => by_cases hk : known.kind = d.kind <;> simp [hk, h, Entries.lookup?_insert]
  · cases h : Entries.lookup? d.name c.own with
    | none => simp [Entries.lookup?_insert, hn]
    | some known => by_cases hk : known.kind = d.kind <;> simp [hk, hn, Entries.lookup?_insert]

/-- What is found under a name is declared here or in a fallback. -/
theorem mem_of_get? {c : Catalog} {name : Text} {d : TypeDescriptor} (h : c.get? name = some d) :
    d ∈ c.reachable := by
  obtain ⟨entries, he, hl⟩ := List.exists_of_findSome?_eq_some h
  exact List.mem_map.2 ⟨(name, d), List.mem_flatten.2 ⟨entries, he, Entries.mem_of_lookup? hl⟩, rfl⟩

end Catalog

end EndpointSurvey
