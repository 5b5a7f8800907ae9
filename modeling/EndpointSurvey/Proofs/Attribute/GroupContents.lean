/-
The attributes of a source as a plain list, read off the contents of its bracketed groups.

Main statements: `value_readGroups` (the attributes of a source are those of its groups) and `value_attributes` (they do
not depend on the place that warnings cite).
-/
import EndpointSurvey.Attribute.Groups
import EndpointSurvey.Proofs.Diagnostic.TracedValue

namespace EndpointSurvey

namespace Attribute

/-- the texts between the brackets of a source's groups, up to a group that does not close -/
def groupContents (s : Source) : List Text :=
  match _h : s.code with
  | [] => []
  | c :: cs =>
    if c = '[' then
      match closing? '[' ']' (c :: cs) with
      | none => []
      | some i => (s.slice 1 i).raw :: groupContents (s.drop (i + 1))
    else groupContents (s.drop 1)
  termination_by s.length
  decreasing_by
    all_goals
      rw [Source.length_drop]
      simp only [Source.length, _h, List.length_cons]
      omega

/-- the attribute that a part of a group writes, its target word aside; nothing for an empty part -/
def ofPart? (part : Text) : Option Attribute :=
  let entry := (afterTarget? part).getD part
  if entry.isEmpty then none else ofEntry? entry

theorem value_readGroup (location : Option Location) (content : Text) :
    (readGroup location content).value = (splitTop ',' false content).filterMap ofPart? := by
  simp only [readGroup, Traced.value_filterMapList]
  congr 1
  funext part
  simp only [ofPart?]
  split
  · rfl
  · split <;> next h => rw [h]; rfl

/-- The attributes of a source are those of its groups. -/
theorem value_readGroups (location : Option Location) (s : Source) :
    (readGroups location s).value =
      (groupContents s).flatMap fun content => (splitTop ',' false content).filterMap ofPart? := by
  simp only [← value_readGroup location]
  fun_induction groupContents s with
  | case1 s hs =>
    rw [readGroups]
    split <;> simp_all
  | case2 s cs hs found =>
    rw [readGroups]
    split <;> simp_all
  | case3 s cs hs i found ih =>
    rw [readGroups]
    split <;> simp_all
  | case4 s c cs hs hc ih =>
    rw [readGroups]
    split <;> simp_all

end Attribute

/-- the attributes written in a text, whatever is warned of -/
def attributesOf (t : Text) : List Attribute :=
  (Attribute.groupContents (Source.ofText t)).flatMap fun content =>
    (splitTop ',' false content).filterMap Attribute.ofPart?

/-- The attributes read do not depend on the place that warnings cite. -/
theorem value_attributes (location : Option Location) (t : Text) :
    (attributes location t).value = attributesOf t := Attribute.value_readGroups location (Source.ofText t)

end EndpointSurvey
