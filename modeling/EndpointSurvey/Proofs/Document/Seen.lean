/-
Documents whose declarations are seen as the same yield controllers, endpoints and types that are seen as the same. So do
a document and the same document with its comments and directive lines blanked, but for documentation and the offsets
where controllers start.

Main statements: `endpointOf?_seen` (one action), `readDocument_seen` (whole documents), `readDocument_comments`, and
`comments_show` (the ways in which comments do show).
-/
import EndpointSurvey.Proofs.Catalog.Seen
import EndpointSurvey.Proofs.Document.Values
import EndpointSurvey.Proofs.Route.Layout

namespace EndpointSurvey

/-- a controller as it is seen, wherever its source starts -/
def Controller.seen (v : View) (c : Controller) : Controller :=
  { c with
    baseRoute := c.baseRoute.map v.blanks
    start := 0
    attributes := c.attributes.map (Attribute.seen v.blanks) }

/-- the place that counts -/
def View.place (v : View) (l : Location) : Option Location := if v.places then some l else none

def Warning.seen (v : View) (w : Warning) : Warning := { w with location := w.location.bind v.place }

def Endpoint.seen (v : View) (e : Endpoint) : Endpoint :=
  { e with
    route := e.route.map v.blanks
    location := (v.place e.location).getD ⟨1, 1⟩
    summary := v.doc e.summary
    warnings := e.warnings.map (Warning.seen v) }

section
variable {v : View}

theorem route_seen {marks marks' : List Attribute}
    (same : marks'.map (Attribute.seen v.blanks) = marks.map (Attribute.seen v.blanks)) :
    ((Attribute.find? routeAttributes marks').bind (·.primary?)).map (List.map v.blanks) =
      ((Attribute.find? routeAttributes marks).bind (·.primary?)).map (List.map v.blanks) := by
  have image : ∀ marks : List Attribute,
      ((Attribute.find? routeAttributes marks).bind (·.primary?)).map (List.map v.blanks) =
        (Attribute.find? routeAttributes (marks.map (Attribute.seen v.blanks))).bind (·.primary?) := by
    intro marks
    rw [find?_seen, Option.map_bind, Option.bind_map]
    congr 1
    funext a
    exact (primary?_seen v.blanks a).symm
  rw [image, image, same]

theorem authorized_seen {marks marks' : List Attribute}
    (same : marks'.map (Attribute.seen v.blanks) = marks.map (Attribute.seen v.blanks)) (inherited : Bool) :
    authorized marks' inherited = authorized marks inherited := by
  have has : ∀ name, Attribute.has name marks' = Attribute.has name marks := by
    intro name
    rw [← has_seen v.blanks, same, has_seen]
  unfold authorized
  rw [has, has]

/-- Declarations seen as the same write controllers that are seen as the same. -/
theorem controllerOf_seen {b b' : TypeBlock} (same : b'.seen v = b.seen v) :
    (controllerOf b').seen v = (controllerOf b).seen v := by
  simp only [TypeBlock.seen, SeenBlock.mk.injEq] at same
  obtain ⟨-, name, -, namespaceName, stop, -, marks, -⟩ := same
  have base : ∀ route : Option Text, (route.getD []).map v.blanks = (route.map (List.map v.blanks)).getD [] := by
    intro route
    cases route <;> rfl
  simp only [controllerOf, Controller.seen, name, namespaceName, stop, marks, authorized_seen marks, base,
    route_seen marks]

/-! ## Actions -/

theorem verb_seen (φ : Char → Char) (marks : List Attribute) :
    Verb.find? (marks.map (Attribute.seen φ)) = (Verb.find? marks).map fun (a, verb) => (a.seen φ, verb) := by
  unfold Verb.find?
  rw [List.findSome?_map, List.map_findSome?]
  congr 1
  funext a
  show _ = Option.map _ (Option.map _ _)
  rw [Option.map_map]
  rfl

/-- what makes a member an action, as it is seen -/
def actionSeen (φ : Char → Char) : List Attribute × Attribute × Verb × Signature →
    List Attribute × Attribute × Verb × Signature
  | (marks, verbMark, verb, signature) => (marks.map (Attribute.seen φ), verbMark.seen φ, verb, signature)

theorem action?_seen {m m' : MemberBlock} (same : m'.seen v = m.seen v) :
    m'.action?.map (actionSeen v.blanks) = m.action?.map (actionSeen v.blanks) := by
  simp only [MemberBlock.seen, SeenMember.mk.injEq] at same
  obtain ⟨signature, -, -, -, attributed, -, marks⟩ := same
  have image : ∀ m : MemberBlock, m.action?.map (actionSeen v.blanks) =
      let marks := (attributesOf m.attributeText).map (Attribute.seen v.blanks)
      if !m.isMethod || m.attributeText.isEmpty || Attribute.has "NonAction" marks then none
      else (Verb.find? marks).bind fun (verbMark, verb) =>
        (signature? m.signature).map (marks, verbMark, verb, ·) := by
    intro m
    unfold MemberBlock.action?
    simp only [has_seen]
    split
    · rfl
    · rw [verb_seen]
      cases Verb.find? (attributesOf m.attributeText) with
      | none => rfl
      | some found => cases signature? m.signature <;> rfl
  have empty : m'.attributeText.isEmpty = m.attributeText.isEmpty := Bool.not_inj attributed
  have isMethod : m'.isMethod = m.isMethod := by
    unfold MemberBlock.isMethod
    rw [signature]
  rw [image, image]
  simp only [isMethod, empty, marks, signature]

/-- the parts of two controllers that endpoints see -/
theorem Controller.seen_parts {c c' : Controller} (same : c'.seen v = c.seen v) :
    c'.name = c.name ∧ c'.baseRoute.map v.blanks = c.baseRoute.map v.blanks ∧ c'.authRequired = c.authRequired := by
  simp only [Controller.seen, Controller.mk.injEq] at same
  exact ⟨same.1, same.2.1, same.2.2.2.2.2.2⟩

/-- Endpoints built from what is seen as the same are seen as the same. -/
theorem buildEndpoint_seen (h : BlankMap v.blanks) {catalog catalog' : Catalog} (catalogs : catalog.Alike catalog')
    {c c' : Controller} (controllers : c'.seen v = c.seen v) {m m' : MemberBlock} (docs : v.doc m'.doc = v.doc m.doc)
    {l l' : Location} (places : v.place l' = v.place l) {marks marks' : List Attribute}
    (marked : marks'.map (Attribute.seen v.blanks) = marks.map (Attribute.seen v.blanks)) {a a' : Attribute}
    (verbMarks : a'.seen v.blanks = a.seen v.blanks) (verb : Verb) (signature : Signature) :
    (buildEndpoint catalog' c' m' l' marks' a' verb signature).value.seen v =
      (buildEndpoint catalog c m l marks a verb signature).value.seen v := by
  obtain ⟨name, base, required⟩ := Controller.seen_parts controllers
  have own : (a'.primary?.or ((Attribute.find? routeAttributes marks').bind (·.primary?))).map (List.map v.blanks) =
      (a.primary?.or ((Attribute.find? routeAttributes marks).bind (·.primary?))).map (List.map v.blanks) := by
    rw [Option.map_or, Option.map_or, route_seen marked, ← primary?_seen, verbMarks, primary?_seen]
  obtain ⟨template, tokens⟩ := Route.compose_seen h c.name signature.name base own
  have alike : ∀ tokens, Binding.Context.Alike ⟨verb.name, tokens, catalog, some l⟩ ⟨verb.name, tokens, catalog', some l'⟩ :=
    fun _ => ⟨rfl, rfl, catalogs⟩
  simp only [buildEndpoint, Traced.value_bind, Traced.value_pure, Endpoint.seen, name, template, tokens, required,
    authorized_seen marked, docs, places]
  obtain ⟨parameters, problems, warnings, warnings'⟩ := Binding.bindParameters_alike (alike _) _ _
  rw [parameters, warnings, warnings', List.map_map, List.map_map]
  have seen : ∀ problem, Warning.seen v ⟨problem, some l', some (c.name ++ "." ++ signature.name)⟩ =
      Warning.seen v ⟨problem, some l, some (c.name ++ "." ++ signature.name)⟩ := by
    intro problem
    simp only [Warning.seen, Option.bind_some, places]
  simp only [Function.comp_def, seen]

/-- Members seen as the same yield endpoints that are seen as the same, if they stand at places that count as one. -/
theorem endpointOf?_seen (h : BlankMap v.blanks) {document document' : Text} {catalog catalog' : Catalog}
    (catalogs : catalog.Alike catalog') {c c' : Controller} (controllers : c'.seen v = c.seen v) {m m' : MemberBlock}
    (places : v.place (locate document' m.start) = v.place (locate document m.start)) (same : m'.seen v = m.seen v) :
    (endpointOf? document' catalog' c' m').map (Endpoint.seen v) =
      (endpointOf? document catalog c m).map (Endpoint.seen v) := by
  have actions := action?_seen same
  simp only [MemberBlock.seen, SeenMember.mk.injEq] at same
  obtain ⟨-, doc, start, -⟩ := same
  unfold endpointOf?
  cases found : m.action? with
  | none =>
    rw [found, Option.map_none, Option.map_eq_none_iff] at actions
    rw [actions]
    rfl
  | some action =>
    rw [found, Option.map_some, Option.map_eq_some_iff] at actions
    obtain ⟨action', found', e⟩ := actions
    obtain ⟨marks, verbMark, verb, signature⟩ := action
    obtain ⟨marks', verbMark', verb', signature'⟩ := action'
    simp only [actionSeen, Prod.mk.injEq] at e
    obtain ⟨marked, verbMarks, rfl, rfl⟩ := e
    rw [found']
    refine congrArg some (buildEndpoint_seen h catalogs controllers doc ?_ marked verbMarks verb' signature')
    rw [start, places]

/-! ## Documents -/

/-- **Documents.** Texts whose declarations are seen as the same yield controllers, endpoints and types that are seen as
the same. -/
theorem readDocument_seen (h : BlankMap v.blanks) {t t' : Text}
    (same : (blocksOf t').map (TypeBlock.seen v) = (blocksOf t).map (TypeBlock.seen v))
    (places : ∀ n, v.place (locate t' n) = v.place (locate t n)) :
    (readDocument t').value.controllers.map (Controller.seen v) =
        (readDocument t).value.controllers.map (Controller.seen v) ∧
      (readDocument t').value.endpoints.map (Endpoint.seen v) =
        (readDocument t).value.endpoints.map (Endpoint.seen v) ∧
      (readDocument t').value.catalog.types.map (TypeDescriptor.seen v) =
        (readDocument t).value.catalog.types.map (TypeDescriptor.seen v) := by
  have catalogs : (readDocument t').value.catalog.seen v = (readDocument t).value.catalog.seen v := by
    rw [readDocument_catalog, readDocument_catalog, ofBlocks_seen h same]
  have blocks : List.Forall₂ (fun b' b => b'.seen v = b.seen v) (controllerBlocks t') (controllerBlocks t) := by
    refine List.rel_filter (fun b' b e => ?_) (image_eq_iff.1 same)
    show b'.isController = true ↔ b.isController = true
    rw [isController_seen h e]
  refine ⟨?_, ?_, ?_⟩
  · rw [readDocument_controllers, readDocument_controllers, List.map_map, List.map_map]
    exact image_eq_iff.2 (blocks.imp fun _ _ => controllerOf_seen)
  · rw [readDocument_endpoints, readDocument_endpoints, image_eq_iff]
    refine List.rel_flatMap blocks fun b' b e => ?_
    have members : b'.members.map (MemberBlock.seen v) = b.members.map (MemberBlock.seen v) :=
      congrArg SeenBlock.members e
    refine List.rel_filterMap (R := fun m' m => MemberBlock.seen v m' = MemberBlock.seen v m) (fun m' m em => ?_)
      (image_eq_iff.1 members)
    have actions := endpointOf?_seen h (Catalog.Alike.of_seen catalogs) (controllerOf_seen e) (places m.start) em
    revert actions
    cases endpointOf? t' _ (controllerOf b') m' <;> cases endpointOf? t _ (controllerOf b) m <;> intro actions
    · exact .none
    · cases actions
    · cases actions
    · exact .some (Option.some.inj actions)
  · rw [← Catalog.types_seen, ← Catalog.types_seen, catalogs]

end

/-- the controller without the offset at which its source starts, with the comments in front of it -/
def Controller.withoutStart (c : Controller) : Controller := { c with start := 0 }

def Endpoint.withoutSummary (e : Endpoint) : Endpoint := { e with summary := none }

def Property.withoutComment (p : Property) : Property := { p with comment := none }

def TypeDescriptor.withoutComments (d : TypeDescriptor) : TypeDescriptor :=
  { d with
    properties := d.properties.map Property.withoutComment
    comment := none }

/-- documentation does not count, places do, and blanks are told apart -/
def View.undocumented : View := ⟨id, false, true⟩

/-! ## What is seen without documentation -/

theorem Attribute.seen_id : Attribute.seen id = id := by
  funext a
  simp [Attribute.seen]

theorem controller_undocumented : Controller.seen View.undocumented = Controller.withoutStart := by
  funext c
  simp [Controller.seen, Controller.withoutStart, View.undocumented, Attribute.seen_id]

theorem endpoint_undocumented : Endpoint.seen View.undocumented = Endpoint.withoutSummary := by
  have warnings : Warning.seen View.undocumented = id := by
    funext w
    obtain ⟨problem, location, subject⟩ := w
    cases location <;> rfl
  funext e
  rw [Endpoint.seen, warnings, List.map_id]
  simp [Endpoint.withoutSummary, View.undocumented, View.place, View.doc]

theorem property_undocumented : Property.seen View.undocumented = Property.withoutComment := by
  funext p
  simp [Property.seen, Property.withoutComment, View.undocumented, View.doc]

theorem type_undocumented : TypeDescriptor.seen View.undocumented = TypeDescriptor.withoutComments := by
  funext d
  rw [TypeDescriptor.seen, property_undocumented]
  simp [TypeDescriptor.withoutComments, View.undocumented, View.doc]

/-! ## Places -/

/-- Places depend on the line feeds of a text alone. -/
theorem locate_of_feeds {t t' : Text} (h : t'.map (· == '\n') = t.map (· == '\n')) (n : Nat) :
    locate t' n = locate t n := by
  have before : (t'.take n).map (· == '\n') = (t.take n).map (· == '\n') := by
    rw [List.map_take, h, List.map_take]
  have width : (t'.take n).length = (t.take n).length := by
    simpa using congrArg List.length before
  have feeds : ∀ u : Text, u.count '\n' = (u.map (· == '\n')).count true := by
    intro u
    rw [List.count, List.count, List.countP_map]
    congr 1
    funext c
    simp
  have line : ∀ u : Text, (Text.takeEnd (· != '\n') u).length = ((u.map (· == '\n')).reverse.takeWhile (!·)).length := by
    intro u
    rw [Text.takeEnd, List.length_reverse, ← List.map_reverse, List.takeWhile_map, List.length_map]
    rfl
  unfold locate
  simp only [feeds, line, before, width]

/-- Blanking comments keeps every place. -/
theorem locate_mask (t : Text) (n : Nat) : locate (mask false t) n = locate t n := by
  refine locate_of_feeds ?_ n
  have blanked : ∀ b : Text, (Lexeme.blankOut b).map (· == '\n') = b.map (· == '\n') := by
    intro b
    rw [Lexeme.blankOut, List.map_map]
    refine List.map_congr_left fun c _ => ?_
    by_cases feed : c = '\n' <;> simp [feed]
  conv => rhs; rw [← lex_raw t]
  rw [mask, List.map_flatMap, List.map_flatMap]
  refine List.flatMap_congr fun l _ => ?_
  cases l with
  | code c => rfl
  | remark body => exact blanked body
  | literal o b cl => rfl

/-! ## Documents and their comments -/

/-- a comment in front of a controller -/
def leadingComment : Text := "// c\nclass AController \x7b\x7d"

/-- a comment in front of a `#` -/
def commentBeforeHash : Text := "class A \x7b\npublic\n/* c */ # int X \x7b get; set; \x7d\n\x7d"

/-- a comment inside an attribute group -/
def commentInGroup : Text := "[Route(/* c */ \"a\")] class AController \x7b\x7d"

/-- an action with comments around it -/
def commentedActions : Text :=
  "// \"[\nclass AController /* \x7d */ \x7b\n/// Gets it.\n[HttpGet(\"x\")] /* ] */ public int Get(int a /* , */) \x7b\x7d // \x7d\n\x7d"

/-- **Comments.** Let no comment stand inside an attribute group or a parameter list of a type, and no `#` in code. Then
a document and the one with its comments and directive lines blanked yield the same controllers, but for the offsets
where their sources start, the same endpoints but for their summaries, and the same types but for their comments. -/
theorem readDocument_comments (t : Text) (hash : Lexeme.code '#' ∉ lex t) (plain : ∀ b ∈ blocksOf t, b.Uncommented) :
    (readDocument (mask false t)).value.controllers.map Controller.withoutStart =
        (readDocument t).value.controllers.map Controller.withoutStart ∧
      (readDocument (mask false t)).value.endpoints.map Endpoint.withoutSummary =
        (readDocument t).value.endpoints.map Endpoint.withoutSummary ∧
      (readDocument (mask false t)).value.catalog.types.map TypeDescriptor.withoutComments =
        (readDocument t).value.catalog.types.map TypeDescriptor.withoutComments := by
  have clean : Lexeme.Clean id (lex t) := ⟨hash, Or.inl rfl⟩
  have code : mask true (mask false t) = mask true t := by
    rw [← fade_id, mask_fade blankMap_id clean, List.map_id]
  have blocks : (blocksOf (mask false t)).map (TypeBlock.seen View.undocumented) =
      (blocksOf t).map (TypeBlock.seen View.undocumented) := by
    refine blocksOf_seen blankMap_id (by rw [code]) (fun heading _ => by rw [code]) ?_
    intro heading mem kind declared
    rw [← fade_id]
    refine blockOf?_seen blankMap_id clean (Or.inl rfl) _ (headings_keywordAt _ heading mem) kind (fun b found => ?_) true
    refine plain b (List.mem_filterMap.2 ⟨heading, mem, ?_⟩)
    rw [Source.code_ofText, declared]
    exact found
  rw [← controller_undocumented, ← endpoint_undocumented, ← type_undocumented]
  exact readDocument_seen blankMap_id blocks fun n => by rw [locate_mask]

/-- Comments show where a controller starts, in front of a `#`, and inside attribute groups. -/
theorem comments_show :
    (readDocument (mask false leadingComment)).value.controllers ≠ (readDocument leadingComment).value.controllers ∧
      (readDocument (mask false commentBeforeHash)).value.catalog.types ≠
        (readDocument commentBeforeHash).value.catalog.types ∧
      (readDocument (mask false commentInGroup)).value.controllers.map Controller.withoutStart ≠
        (readDocument commentInGroup).value.controllers.map Controller.withoutStart := by
  decide +kernel

theorem readDocument_comments_users :
    Lexeme.code '#' ∉ lex commentedActions ∧ (∀ b ∈ blocksOf commentedActions, b.Uncommented) ∧
      (readDocument (mask false commentedActions)).value.endpoints.map Endpoint.withoutSummary =
        (readDocument commentedActions).value.endpoints.map Endpoint.withoutSummary := by
  have hash : Lexeme.code '#' ∉ lex commentedActions := by decide +kernel
  have plain : ∀ b ∈ blocksOf commentedActions, b.Uncommented := by decide +kernel
  exact ⟨hash, plain, (readDocument_comments commentedActions hash plain).2.1⟩

end EndpointSurvey
