/-
The properties of an object type with those it inherits: the bases are followed up to the first that repeats or does not
resolve, and each name keeps the place and the definition it has in the base-most type.

Main statement: `unmet_lt` (meeting a new type leaves fewer unmet, so that the way up ends in every catalog).
-/
import EndpointSurvey.Catalog.Resolution
import EndpointSurvey.Catalog.Substitution

namespace EndpointSurvey

/-- a type on the way up, with the arguments its parameters are bound to -/
structure Ancestor where
  descriptor : TypeDescriptor
  bound : TypeArguments
  deriving DecidableEq, Repr

namespace Catalog

/-- the reachable types whose names have not been met -/
def unmet (c : Catalog) (met : List Text) : List TypeDescriptor := c.reachable.filter fun d => !met.contains d.name

theorem unmet_cons (c : Catalog) (name : Text) (met : List Text) :
    c.unmet (name :: met) = (c.unmet met).filter fun d => d.name != name := by
  unfold unmet
  rw [List.filter_filter]
  congr 1
  funext d
  by_cases h : d.name = name <;> simp [h]

/-- Meeting a new reachable type leaves fewer unmet. -/
theorem unmet_lt {c : Catalog} {met : List Text} {d : TypeDescriptor} (reach : d ∈ c.reachable) (new : d.name ∉ met) :
    (c.unmet (d.name :: met)).length < (c.unmet met).length := by
  rw [unmet_cons, List.length_filter_lt_length_iff_exists]
  exact ⟨d, List.mem_filter.2 ⟨reach, by simpa using new⟩, by simp⟩

/-- the types from a declaration up its bases; `met` are the names met before it -/
def lineageFrom (c : Catalog) (met : List Text) (d : TypeDescriptor) (arguments : List Text) :
    Except Template.Error (List Ancestor) := do
  let bound := TypeArguments.ofLists d.typeParameters arguments
  let met := d.name :: met
  match d.baseType with
  | none | some [] => pure [⟨d, bound⟩]
  | some base =>
    let baseText ← bound.substitute base
    let resolved := c.resolve baseText
    match _h : resolved.descriptor? with
    | none => pure [⟨d, bound⟩]
    | some next =>
      if _new : next.name ∈ met then pure [⟨d, bound⟩]
      else do
        let rest ← c.lineageFrom met next resolved.arguments
        pure (⟨d, bound⟩ :: rest)
  termination_by (c.unmet (d.name :: met)).length
  decreasing_by exact unmet_lt (resolve_descriptor_mem _h) _new

/-- the types from an object type up its bases -/
def lineage (c : Catalog) (d : TypeDescriptor) (arguments : List Text) : Except Template.Error (List Ancestor) :=
  c.lineageFrom [] d arguments

/-- the properties of a list of ancestors, the first of each name, with type arguments put in; `names` have been met -/
def inheritedFrom (names : List Text) : List (Property × TypeArguments) → Except Template.Error (List Property)
  | [] => pure []
  | (p, bound) :: rest =>
    if names.contains p.name then inheritedFrom names rest
    else do
      let typeText ← bound.substitute p.typeText
      let others ← inheritedFrom (names ++ [p.name]) rest
      pure ({ p with typeText := typeText } :: others)

/-- the properties of a resolved type, those of its bases first; a type that is not declared has none -/
def propertiesOf (c : Catalog) (resolved : ResolvedType) : Except Template.Error (List Property) :=
  match resolved.descriptor? with
  | none => pure []
  | some d => do
    let ancestors ← c.lineage d resolved.arguments
    inheritedFrom [] (ancestors.reverse.flatMap fun a => a.descriptor.properties.map (·, a.bound))

end Catalog

end EndpointSurvey
