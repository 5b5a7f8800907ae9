/-
What a document yields as plain values: its controllers and endpoints are those of its declarations, without the
warnings of reading them.

Main statements: `value_readEndpoint`, `endpointOf?_isSome` (which members are actions) and `readDocument_controllers`,
`readDocument_endpoints`, `readDocument_catalog`.
-/
import EndpointSurvey.Document.Reading
import EndpointSurvey.Proofs.Attribute.GroupContents
import EndpointSurvey.Proofs.Declaration.Values

namespace EndpointSurvey

/-- the controller that a declaration writes -/
def controllerOf (b : TypeBlock) : Controller :=
  let marks := attributesOf b.attributeText
  { name := b.name
    baseRoute := ((Attribute.find? routeAttributes marks).bind (·.primary?)).getD []
    namespaceName := b.namespaceName
    start := b.start
    stop := b.stop
    attributes := marks
    authRequired := authorized marks false }

/-- what makes a member an action: its attributes with the one that gives its verb, and its signature -/
def MemberBlock.action? (m : MemberBlock) : Option (List Attribute × Attribute × Verb × Signature) :=
  let marks := attributesOf m.attributeText
  if !m.isMethod || m.attributeText.isEmpty || Attribute.has "NonAction" marks then none
  else (Verb.find? marks).bind fun (verbMark, verb) => (signature? m.signature).map (marks, verbMark, verb, ·)

def MemberBlock.isAction (m : MemberBlock) : Bool := m.action?.isSome

/-- the endpoint of a member, if it is an action -/
def endpointOf? (document : Text) (catalog : Catalog) (controller : Controller) (m : MemberBlock) : Option Endpoint :=
  m.action?.map fun (marks, verbMark, verb, signature) =>
    (buildEndpoint catalog controller m (locate document m.start) marks verbMark verb signature).value

theorem value_readController (document : Text) (b : TypeBlock) :
    (readController document b).value = controllerOf b := by
  simp only [readController, Traced.value_bind, Traced.value_pure, value_attributes]
  rfl

theorem value_readEndpoint (document : Text) (catalog : Catalog) (controller : Controller) (m : MemberBlock) :
    (readEndpoint document catalog controller m).value = endpointOf? document catalog controller m := by
  unfold readEndpoint endpointOf? MemberBlock.action?
  by_cases other : (!m.isMethod || m.attributeText.isEmpty) = true
  · rw [if_pos other, if_pos (by rw [other, Bool.true_or])]
    rfl
  · rw [if_neg other]
    simp only [other, Bool.false_or, Traced.value_bind, value_attributes]
    by_cases excluded : Attribute.has "NonAction" (attributesOf m.attributeText) = true
    · simp only [excluded, if_true]
      cases Verb.find? (attributesOf m.attributeText) <;> rfl
    · simp only [excluded]
      cases Verb.find? (attributesOf m.attributeText) with
      | none => rfl
      | some found => cases signature? m.signature <;> rfl

theorem endpointOf?_isSome (document : Text) (catalog : Catalog) (controller : Controller) (m : MemberBlock) :
    (endpointOf? document catalog controller m).isSome = m.isAction := Option.isSome_map

theorem buildEndpoint_location (catalog : Catalog) (controller : Controller) (m : MemberBlock) (location : Location)
    (marks : List Attribute) (verbMark : Attribute) (verb : Verb) (signature : Signature) :
    (buildEndpoint catalog controller m location marks verbMark verb signature).value.location = location := by
  simp only [buildEndpoint, Traced.value_bind, Traced.value_pure]

theorem endpointOf?_location {document : Text} {catalog : Catalog} {controller : Controller} {m : MemberBlock}
    {e : Endpoint} (h : endpointOf? document catalog controller m = some e) :
    e.location = locate document m.start := by
  obtain ⟨⟨marks, verbMark, verb, signature⟩, -, rfl⟩ := Option.map_eq_some_iff.1 h
  exact buildEndpoint_location ..

/-- the controllers among the declarations of a document -/
def controllerBlocks (text : Text) : List TypeBlock := (blocksOf text).filter (·.isController)

theorem value_readActions (document : Text) (catalog : Catalog) (b : TypeBlock) :
    (readActions document catalog b).value =
      (controllerOf b, b.members.filterMap (endpointOf? document catalog (controllerOf b))) := by
  simp only [readActions, Traced.value_bind, Traced.value_pure, Traced.value_filterMapList, value_readController,
    value_readEndpoint]

theorem readDocument_catalog (text : Text) :
    (readDocument text).value.catalog = (Catalog.ofBlocks (blocksOf text)).value := by
  simp only [readDocument, surveyText, Traced.value_bind, Traced.value_pure, value_typeBlocks]

/-- The controllers of a document are those of its declarations. -/
theorem readDocument_controllers (text : Text) :
    (readDocument text).value.controllers = (controllerBlocks text).map controllerOf := by
  simp only [readDocument, surveyText, Traced.value_bind, Traced.value_pure, value_typeBlocks, Traced.value_mapList,
    value_readActions, List.map_map]
  rfl

/-- The endpoints of a document are those of the members of its controllers. -/
theorem readDocument_endpoints (text : Text) :
    (readDocument text).value.endpoints = (controllerBlocks text).flatMap fun b =>
      b.members.filterMap (endpointOf? text (readDocument text).value.catalog (controllerOf b)) := by
  rw [readDocument_catalog]
  simp only [readDocument, surveyText, Traced.value_bind, Traced.value_pure, value_typeBlocks, Traced.value_mapList,
    value_readActions, List.flatMap_map]
  rfl

end EndpointSurvey
