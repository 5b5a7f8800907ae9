/-
What is reported of a rendered document: its controllers and actions as they are described, with what the survey takes
their literals for. The document is recovered wherever that is what was written.

Main statements: `File.readDocument_text` and `File.recovered_understood`.
-/
import EndpointSurvey.Proofs.Document.Values
import EndpointSurvey.Proofs.Rendered.Declarations

namespace EndpointSurvey

/-- A text without the first character of a piece does not have the piece. -/
theorem splitFirst?_none {c : Char} {piece t : Text} (free : c ∉ t) : Text.splitFirst? (c :: piece) t = none := by
  induction t with
  | nil => rfl
  | cons d ds ih =>
    rw [List.mem_cons, not_or] at free
    rw [Text.splitFirst?, Text.after?, if_neg free.1, ih free.2]
    rfl

namespace Rendered

/-! ## The controller -/

namespace Class

variable {c : Class} {b : TypeBlock}

theorem Reads.isController (r : c.Reads b) : b.isController = true := by
  refine b.isController_of_class_name r.kind ?_
  rw [r.name, Text.endsWith, List.isSuffixOf_iff_suffix]
  exact List.suffix_append ..

theorem Reads.outline_controllerOf (r : c.Reads b) : (controllerOf b).outline = c.outline Literal.reading := by
  have marks : attributesOf b.attributeText = [⟨"Route", [c.route.reading], [], content "Route" c.route.body⟩] := by
    rw [r.attributeText, mark, attributesOf_attributeForm markName_route]
  simp only [Controller.outline, controllerOf, marks, r.name]
  rfl

end Class

/-! ## The endpoint -/

theorem filter_parameters (context : Binding.Context) (holders : Binding.Holders) (ps : List Declared) :
    ((Binding.bindAll context holders (ps.map Declared.raw)).value.parameters.map fun p => (p.typeText, p.variableName)) =
      (ps.filter fun p => !Binding.injected [] p.raw).map fun p => (p.type.text, p.name.text) := by
  induction ps generalizing holders with
  | nil => rfl
  | cons p ps ih =>
    have marks : attributesOf p.raw.attributeText = [] := by
      rw [attributesOf, (groups_of_nil masks_nil.mask_eq).2]
      rfl
    rw [List.map_cons, Binding.bindAll, Traced.value_bind, value_attributes, marks]
    by_cases supplied : Binding.injected [] p.raw = true
    · rw [if_pos supplied, List.filter_cons_of_neg (by simp [supplied])]
      exact ih holders
    · rw [if_neg supplied, List.filter_cons_of_pos (by simp [supplied]), List.map_cons, ← ih]
      rfl

namespace Action

variable {a : Action} {m : MemberBlock}

theorem Reads.isMethod (r : a.Reads m) : m.isMethod = true := by
  have plain : '=' ∉ a.signature := fun hm => ne_of_test (a.all_signature _ hm) (d := '=') (by decide) rfl
  have arrow : Text.splitFirst? "=>" a.signature = none := splitFirst?_none plain
  have paren : a.signature.elem '(' = true := by rw [a.signature_eq]; simp
  have front : Text.beforeFirst '(' a.signature = a.opening := by
    rw [Text.beforeFirst, a.signature_eq, Text.takeWhile_append_stop (by decide),
      List.takeWhile_eq_self_iff.2 a.not_paren_opening]
  have words : nonMethodWords.any (fun w => Text.hasWord w a.opening) = false := by
    have without : Text.Without nonMethodWords a.opening :=
      a.without_opening (fun word member => by simp [keptWords, member]) (by decide)
    rw [List.any_eq_false]
    exact fun w member => by rw [Text.Without.iff_hasWord.1 without w member]; exact Bool.false_ne_true
  rw [MemberBlock.isMethod, r.signature]
  simp only [arrow, paren, front, words]
  rfl

/-- **An action is recognised** with its verb and its signature. -/
theorem Reads.action? (r : a.Reads m) : m.action? =
    some ([⟨a.verb.attributeName, [a.route.reading], [], content a.verb.attributeName a.route.body⟩],
      ⟨a.verb.attributeName, [a.route.reading], [], content a.verb.attributeName a.route.body⟩, a.verb,
      ⟨a.name.text, a.returnType.text, a.listText, ["public"]⟩) := by
  have marks := attributesOf_attributeForm (l := a.route) (markName_verb a.verb)
  have verb : Verb.ofAttribute? ⟨a.verb.attributeName, [a.route.reading], [],
      content a.verb.attributeName a.route.body⟩ = some a.verb := by
    cases a.verb <;> rfl
  have filled : m.attributeText.isEmpty = false := by rw [r.attributeText]; rfl
  have included : Attribute.has "NonAction" [⟨a.verb.attributeName, [a.route.reading], [],
      content a.verb.attributeName a.route.body⟩] = false := by
    cases a.verb <;> rfl
  rw [MemberBlock.action?, r.isMethod, filled, r.attributeText, mark, marks, r.signature, a.signature?_signature]
  simp only [included, Verb.find?, List.findSome?_cons, verb, Option.map_some]
  rfl

theorem Reads.outline_endpointOf (r : a.Reads m) {c : Class} {b : TypeBlock} (block : c.Reads b) (document : Text)
    (catalog : Catalog) : ∃ e, endpointOf? document catalog (controllerOf b) m = some e ∧
      e.outline = a.outline Literal.reading c := by
  have controller : (controllerOf b).outline = c.outline Literal.reading := block.outline_controllerOf
  simp only [Controller.outline, Class.outline, ControllerOutline.mk.injEq] at controller
  obtain ⟨name, base, auth⟩ := controller
  have marks : authorized [⟨a.verb.attributeName, [a.route.reading], [], content a.verb.attributeName a.route.body⟩]
      false = false := by
    cases a.verb <;> rfl
  refine ⟨_, by rw [endpointOf?, r.action?]; rfl, ?_⟩
  simp only [Endpoint.outline, buildEndpoint, bindParameters, Route.compose, Traced.value_bind, Traced.value_pure, name,
    base, auth, marks, listText, parameterList_parameters, filter_parameters]
  rfl

end Action

/-- The endpoints of a declaration are its actions. -/
theorem Class.Reads.outline_endpoints {c : Class} {b : TypeBlock} (block : c.Reads b) (document : Text)
    (catalog : Catalog) : (b.members.filterMap (endpointOf? document catalog (controllerOf b))).map Endpoint.outline =
      c.actions.map (Action.outline Literal.reading c) := by
  have each {actions : List Action} {ms : List MemberBlock} (h : List.Forall₂ Action.Reads actions ms) :
      (ms.filterMap (endpointOf? document catalog (controllerOf b))).map Endpoint.outline =
        actions.map (Action.outline Literal.reading c) := by
    induction h with
    | nil => rfl
    | cons r _ ih =>
      obtain ⟨e, found, outline⟩ := r.outline_endpointOf block document catalog
      rw [List.filterMap_cons_some found, List.map_cons, List.map_cons, outline, ih]
  exact each block.members

/-! ## A document with braces where none are expected -/

/-- a body from its lines and their code, without the last line feed of either -/
def Body.ofLines (t code : Text) (first : t.head? = some '\n') (masks : Masks true t code) (pairs : bracesPair code)
    (undeclaring : Text.Without declaringWords code) : Body :=
  have whole : mask true (t ++ ['\n']) = code ++ ['\n'] := (mask_lines masks []).trans (by rw [masks_nil.mask_eq])
  { text := t ++ ['\n']
    first := by rw [List.head?_append, first]; rfl
    last := List.getLast?_concat
    closed := fun rest => by rw [whole, List.append_assoc, List.append_assoc]; exact mask_lines masks rest
    pairs := by rw [whole]; exact Paired.append pairs (Paired.of_free (Text.forall_of_all (by decide)))
    undeclaring := by
      rw [whole]
      exact Text.Without.iff_hasWord.1 (undeclaring.append_marks (Text.forall_of_all (by decide))) }

/-- a body that returns a string with a brace in it -/
def braceBody : Body :=
  Body.ofLines "\n        return \"\x7d\";" "\n        return \" \";" rfl
    ((masks_plain (t := "\n        return ") (Text.forall_of_all (by decide)) true).append
      (masks_literal (d := ';') (t := []) (Literal.closedBody (Literal.write ['\x7d'])) (by decide)
        (masks_plain (t := [';']) (Text.forall_of_all (by decide)) true)))
    (by decide)
    (Text.Without.marks_append (s := "\n        ") (Text.forall_of_all (by decide))
      (Text.Without.append_marks (s := "return") (t := " \" \";")
        (Text.Without.single (by decide) (Text.forall_of_all (by decide)) (by decide)) (Text.forall_of_all (by decide))))

/-- a controller of this base route, with one action: its route has braces, brackets, a quote, a comma and a backslash -/
def orders (base : Literal) : File where
  classes :=
    [{ above := ⟨[], rfl⟩
       route := base
       below := ⟨[], rfl⟩
       margin := ⟨[], rfl⟩
       name := ⟨"Orders", by decide⟩
       gap := ⟨"\n", by decide⟩
       actions :=
        [{ above := ⟨"\n    ", by decide⟩
           verb := .get
           route := Literal.write "\x7bid:int\x7d,[\"\x7d\\"
           below := ⟨"\n    ", by decide⟩
           returnType := .generic ⟨"Dictionary", by decide⟩
            (.more (.name ⟨"string", by decide⟩) (.one (.array (.name ⟨"int", by decide⟩))))
           name := ⟨"Find", by decide⟩
           parameters := [⟨.nullable (.name ⟨"int", by decide⟩), ⟨"id", by decide⟩⟩]
           gap := ⟨"\n    ", by decide⟩
           body := braceBody }]
       bottom := ⟨"\n", by decide⟩ }]
  bottom := ⟨"\n", by decide⟩

/-- `caf\u00e9` -/
def cafe : Literal :=
  [.plain 'c' rfl, .plain 'a' rfl, .plain 'f' rfl, .point 'u' ['0', '0', 'e', '9'] 'é' (by decide) rfl]

/-! ## The document -/

section
variable {cs : List Class} {bs : List TypeBlock}

theorem isController_of_reads (h : List.Forall₂ Class.Reads cs bs) : ∀ b ∈ bs, b.isController = true := by
  induction h with
  | nil => simp
  | cons r _ ih => exact List.forall_mem_cons.2 ⟨r.isController, ih⟩

theorem controllers_of_reads (h : List.Forall₂ Class.Reads cs bs) :
    (bs.map controllerOf).map Controller.outline = cs.map (Class.outline Literal.reading) := by
  induction h with
  | nil => rfl
  | cons r _ ih => rw [List.map_cons, List.map_cons, List.map_cons, r.outline_controllerOf, ih]

theorem endpoints_of_reads (h : List.Forall₂ Class.Reads cs bs) (document : Text) (catalog : Catalog) :
    (bs.flatMap fun b => b.members.filterMap (endpointOf? document catalog (controllerOf b))).map Endpoint.outline =
      cs.flatMap fun c => c.actions.map (Action.outline Literal.reading c) := by
  induction h with
  | nil => rfl
  | cons r _ ih => rw [List.flatMap_cons, List.flatMap_cons, List.map_append, r.outline_endpoints, ih]

end

namespace File

variable (f : File)

theorem controllerBlocks_text : controllerBlocks f.text = blocksOf f.text :=
  List.filter_eq_self.2 (isController_of_reads f.blocksOf_text)

/-- **What is reported of a rendered document**: each controller and each of its actions in order, as they are described,
with what the survey takes their literals for. -/
theorem readDocument_text :
    (readDocument f.text).value.controllers.map Controller.outline = f.classes.map (Class.outline Literal.reading) ∧
      (readDocument f.text).value.endpoints.map Endpoint.outline =
        f.classes.flatMap fun c => c.actions.map (Action.outline Literal.reading c) := by
  rw [readDocument_controllers, readDocument_endpoints, f.controllerBlocks_text]
  exact ⟨controllers_of_reads f.blocksOf_text, endpoints_of_reads f.blocksOf_text _ _⟩

/-- the document is reported as it is described: its controllers and their actions in order, and no model types -/
structure Recovered : Prop where
  controllers : (readDocument f.text).value.controllers.map Controller.outline =
    f.classes.map (Class.outline Literal.value)
  endpoints : (readDocument f.text).value.endpoints.map Endpoint.outline =
    f.classes.flatMap fun c => c.actions.map (Action.outline Literal.value c)
  catalog : (readDocument f.text).value.catalog = Catalog.empty

theorem catalog_text : (readDocument f.text).value.catalog = Catalog.empty := by
  have none : (blocksOf f.text).filter (!·.isController) = [] :=
    List.filter_eq_nil_iff.2 fun b member => by simp [isController_of_reads f.blocksOf_text b member]
  rw [readDocument_catalog, Catalog.ofBlocks, none]
  rfl

theorem base_understood (h : f.Recovered) : ∀ c ∈ f.classes, c.route.Understood := by
  have same := f.readDocument_text.1.symm.trans h.controllers
  intro c member
  have routes := congrArg ControllerOutline.baseRoute (List.map_inj_left.1 same c member)
  exact c.route.reading_eq_value_iff.1 routes

/-- **A rendered document is recovered** if all its literals are understood, and only if those of its controllers are. -/
theorem recovered_understood : ((∀ l ∈ f.literals, l.Understood) → f.Recovered) ∧
    (f.Recovered → ∀ c ∈ f.classes, c.route.Understood) := by
  refine ⟨fun understood => ?_, f.base_understood⟩
  have read : ∀ l ∈ f.literals, l.reading = l.value := fun l member => l.reading_eq_value_iff.2 (understood l member)
  have base : ∀ c ∈ f.classes, c.route.reading = c.route.value := fun c member =>
    read c.route (List.mem_flatMap.2 ⟨c, member, List.mem_cons_self⟩)
  have own : ∀ c ∈ f.classes, ∀ a ∈ c.actions, a.route.reading = a.route.value := fun c member a inside =>
    read a.route (List.mem_flatMap.2 ⟨c, member, List.mem_cons_of_mem _ (List.mem_map_of_mem inside)⟩)
  obtain ⟨controllers, endpoints⟩ := f.readDocument_text
  refine ⟨controllers.trans (List.map_congr_left fun c member => ?_), endpoints.trans ?_, f.catalog_text⟩
  · rw [Class.outline, Class.outline, base c member]
  · refine List.flatMap_congr fun c member => List.map_congr_left fun a inside => ?_
    rw [Action.outline, Action.outline, base c member, own c member a inside]

theorem recovered_understood_orders :
    (orders (Literal.write "api/[controller]")).Recovered ∧ ¬ (orders cafe).Recovered :=
  ⟨(orders (Literal.write "api/[controller]")).recovered_understood.1 (by decide), fun h =>
    absurd ((orders cafe).recovered_understood.2 h) (by decide)⟩

end File

end Rendered

end EndpointSurvey
