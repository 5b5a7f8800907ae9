/-
What the catalog is told of a class that is rendered from members. Of the properties with accessors those are told that a
client can set, each with its canonical type, in the order of the members and of each name the first; of the other
members nothing is.

Main statements: `Declares.blockOf?` (the members are read in the body) and `describe_classBody`.
-/
import EndpointSurvey.Proofs.Rendered.ClassMembers
import EndpointSurvey.Proofs.Rendered.TypeHeaders
import Mathlib.Data.List.Sublists

namespace EndpointSurvey

/-! ## The first property of a name -/

theorem find?_foldl_addProperty (found properties : List Property) (name : Text) :
    (found.foldl addProperty properties).find? (·.name == name) = (properties ++ found).find? (·.name == name) := by
  induction found generalizing properties with
  | nil => rw [List.foldl_nil, List.append_nil]
  | cons p found ih =>
    rw [List.foldl_cons, ih]
    by_cases taken : p.name ∈ properties.map (·.name)
    · rw [addProperty_of_taken taken, List.find?_append, List.find?_append]
      by_cases same : p.name = name
      · obtain ⟨q, member, e⟩ := List.mem_map.1 taken
        obtain ⟨first, seen⟩ := Option.isSome_iff_exists.1
          (List.find?_isSome.2 ⟨q, member, beq_iff_eq.2 (e.trans same)⟩ : (properties.find? (·.name == name)).isSome = true)
        rw [seen, Option.some_or, Option.some_or]
      · rw [List.find?_cons_of_neg (by simpa using same)]
    · rw [addProperty_of_new taken, List.append_assoc]
      rfl

theorem sublist_foldl_addProperty (found properties : List Property) :
    (found.foldl addProperty properties).Sublist (properties ++ found) := by
  induction found generalizing properties with
  | nil => rw [List.foldl_nil, List.append_nil]
  | cons p found ih =>
    by_cases taken : p.name ∈ properties.map (·.name)
    · rw [List.foldl_cons, addProperty_of_taken taken]
      exact (ih properties).trans (List.Sublist.append_left (List.sublist_cons_self p found) properties)
    · have later := ih (properties ++ [p])
      rwa [List.append_assoc, ← addProperty_of_new taken] at later

/-! ## JSON names -/

/-- what the last attribute says that renames a property and has a positional argument -/
def lastRenaming (marks : List Attribute) : Option Text :=
  ((marks.filter fun a => renamingAttributes.contains a.name).filterMap Attribute.primary?).getLast?

/-- The JSON name is what the last attribute says, unless that is nothing: then an earlier attribute counts, or none. -/
theorem jsonNameOf_eq_lastRenaming_iff (marks : List Attribute) :
    jsonNameOf marks = lastRenaming marks ↔ lastRenaming marks ≠ some [] := by
  have filled : jsonNameOf marks = (((marks.filter fun a => renamingAttributes.contains a.name).filterMap
      Attribute.primary?).filter (!·.isEmpty)).getLast? := by
    rw [jsonNameOf, List.filter_filterMap]
    congr 1
    refine List.filterMap_congr fun a _ => ?_
    rcases a.primary? with _ | _ | ⟨c, cs⟩ <;> rfl
  rw [filled, lastRenaming]
  generalize (marks.filter fun a => renamingAttributes.contains a.name).filterMap Attribute.primary? = names
  rcases List.eq_nil_or_concat names with rfl | ⟨front, last, rfl⟩
  · simp
  · rw [List.concat_eq_append, List.getLast?_concat, List.filter_append]
    cases last with
    | nil =>
      refine iff_of_false (fun same => ?_) fun other => other rfl
      have member := List.mem_of_getLast? same
      simp at member
    | cons c cs =>
      refine iff_of_true ?_ nofun
      exact List.getLast?_concat

namespace Rendered

open Lexeme

/-! ## Declarations with a body -/

/-- At a heading, a document declares a type with this header and this body. -/
structure Declares (text : Text) (heading : Heading) (kind : DeclarationKind) (h : TypeHeader) (body : ClassBody) :
    Prop where
  listed : heading ∈ headings (mask true text)
  declares : declaredKind? (mask true text) heading = some kind
  written : ∃ front rest, text.drop heading.stop = front ++ '\x7b' :: (body.form ++ '\x7d' :: rest) ∧
    front.length = h.text.length
  code : ∃ rest, (mask true text).drop heading.stop = h.text ++ '\x7b' :: (body.code ++ '\x7d' :: rest)

section
variable {text : Text} {heading : Heading} {kind : DeclarationKind} {h : TypeHeader} {body : ClassBody}

/-- The declaration of a body has its members for members. -/
theorem Declares.blockOf? (declares : Declares text heading kind h body) (enumeration : kind ≠ .enumType) :
    ∃ b, EndpointSurvey.blockOf? (.ofText text) (namespaces (mask true text)) heading kind = some b ∧ b.kind = kind ∧
      b.name = heading.name ∧ b.positional = none ∧ b.members.filterMap MemberBlock.told = body.told := by
  obtain ⟨-, -, ⟨front, more, written, width⟩, rest, code⟩ := declares
  have here : (Source.ofText text).code.drop heading.stop = h.text ++ '\x7b' :: (body.code ++ '\x7d' :: rest) := code
  obtain ⟨stop, read, behind⟩ := h.headingTail_text ⟨_, rfl, .inl rfl⟩ here heading.name
  have place : stop = heading.stop + h.text.length := by
    have whole := congrArg List.length code
    have remains := congrArg List.length behind
    rw [Source.code_ofText] at remains
    simp only [List.length_drop, List.length_append, List.length_cons] at whole remains
    omega
  have raw : (Source.ofText text).raw.drop stop = '\x7b' :: (body.form ++ '\x7d' :: more) := by
    rw [place, ← List.drop_drop, ← width]
    exact (congrArg (List.drop front.length) written).trans List.drop_left
  have closing : closing? '\x7b' '\x7d' ((Source.ofText text).code.drop stop) = some (body.code.length + 1) := by
    rw [behind]
    exact (closing?_eq_some_iff (by decide)).2 ⟨_, rest, rfl, rfl, body.bracesPair_code⟩
  have size : body.form.length = body.code.length := body.masks.length_eq.symm
  rw [EndpointSurvey.blockOf?, read]
  dsimp only
  rw [if_pos (by rw [behind]; rfl), closing, Option.map_some]
  refine ⟨_, rfl, rfl, rfl, rfl, ?_⟩
  rw [if_neg enumeration]
  refine body.toldOf_eq ?_ ?_ _
  · rw [Source.raw_slice, Source.raw_drop, raw, List.drop_succ_cons, List.drop_zero, Nat.add_sub_cancel, ← size,
      List.take_left]
  · rw [Source.code_slice, Source.code_drop, behind, List.drop_succ_cons, List.drop_zero, Nat.add_sub_cancel,
      List.take_left]

theorem AutoProperty.kept_iff (p : AutoProperty) : p.kept = true ↔
    (∃ a ∈ p.accessors, a.mark = none ∧ a.kind ≠ .get) ∧ ("static" : Text) ∉ p.words ∧
      (("public" : Text) ∈ p.words ∨ ∀ word ∈ p.words, word ∉ hidingModifiers) := by
  simp only [AutoProperty.kept, Accessor.open?, Bool.and_eq_true, List.any_eq_true, Option.isNone_iff_eq_none, bne_iff_ne,
    Bool.not_eq_true', List.contains_eq_mem, decide_eq_false_iff_not, Bool.or_eq_true, decide_eq_true_eq, and_assoc,
    List.any_eq_false]

/-- **The catalog is told of the properties that can be set**, in the order of the members and of each name the first:
those of the properties with accessors that have an accessor to set without a modifier, are not static, and are public or
have no modifier that hides them. Each is told of with its canonical type; with the JSON name that the last attribute
says, unless that is nothing; and as required by its modifier or its attribute. -/
theorem describe_classBody (declares : Declares text heading kind h body) (enumeration : kind ≠ .enumType) :
    ∃ b properties, (readType (Source.ofText text) (namespaces (mask true text)) heading kind).value = some b ∧
      b ∈ (typeBlocks text).value ∧ b.kind = kind ∧ b.name = heading.name ∧
      (describe b).value.withoutComments.properties = properties ∧
      properties.Sublist body.told ∧ (properties.map (·.name)).Nodup ∧
      (∀ name, properties.find? (·.name == name) = body.told.find? (·.name == name)) ∧
      ∀ p, ClassMember.property p ∈ body.members →
        (p.kept = true ↔ (∃ a ∈ p.accessors, a.mark = none ∧ a.kind ≠ .get) ∧ ("static" : Text) ∉ p.words ∧
          (("public" : Text) ∈ p.words ∨ ∀ word ∈ p.words, word ∉ hidingModifiers)) ∧
        (p.property.jsonName = lastRenaming p.groups.marks ↔ lastRenaming p.groups.marks ≠ some []) ∧
        ∀ groups, p.groups = AttributeGroups.ofGroups groups →
          p.groups.marks = groups.flatMap fun (_, g) => g.attributes := by
  obtain ⟨b, found, sort, name, positional, told⟩ := declares.blockOf? enumeration
  have properties : (describe b).value.withoutComments.properties = body.told.foldl addProperty [] := by
    have none : (splitTop ',' true []).filterMap positionalProperty? = [] := rfl
    rw [TypeDescriptor.withoutComments, value_describe (sort ▸ enumeration), positional, Option.getD_none, none,
      foldl_addProperty_withoutComment, List.map_filterMap, ← told]
    rfl
  refine ⟨b, _, (value_readType ..).trans found, ?_, sort, name, properties, ?_, ?_, ?_, fun p _ => ⟨p.kept_iff, ?_, ?_⟩⟩
  · rw [value_typeBlocks, blocksOf]
    exact List.mem_filterMap.2 ⟨heading, declares.listed, by rw [Source.code_ofText, declares.declares]; exact found⟩
  · exact sublist_foldl_addProperty body.told []
  · exact nodup_foldl_addProperty body.told (by simp)
  · exact find?_foldl_addProperty body.told []
  · exact jsonNameOf_eq_lastRenaming_iff p.groups.marks
  · rintro groups e
    rw [e, marks_ofGroups]

end

/-- What follows a declaration does not change what it looks like. -/
theorem mask_declarationForm (kind : DeclarationKind) (name : Identifier) {tail code : Text} (h : Masks true tail code)
    (rest : Text) :
    ∃ more : Text, mask true (declarationForm kind name (tail ++ rest)) = declarationForm kind name (code ++ more) := by
  have shape (t more : Text) : declarationForm kind name (t ++ more) = declarationForm kind name t ++ more := by
    unfold declarationForm
    generalize "public ".toList = modifier
    simp only [List.append_assoc, List.cons_append]
  have masks : Masks true (declarationForm kind name tail) (declarationForm kind name code) := masks_declarationForm h
  obtain ⟨lineBlank, whole⟩ := masks true rest
  exact ⟨(lexFrom lineBlank rest).flatMap (masked true), by rw [shape, shape]; exact whole⟩

/-- Every rendered declaration with a body is one with its header and its members, whatever else the document has. -/
theorem declares_declarationForm {kind : DeclarationKind} {name : Identifier} (free : name.text ∉ nonTypeNames)
    (header : Closed '\x7b') (h : TypeHeader) (same : header.code = h.text) (body : ClassBody) (rest : Text) :
    Declares (declarationForm kind name (header.text ++ '\x7b' :: (body.form ++ '\x7d' :: rest))) (headingOf kind name) kind
      h body := by
  have closed : Masks true ['\x7d'] ['\x7d'] := masks_plain (by decide) true
  have shape (front t more : Text) : front ++ '\x7b' :: (t ++ '\x7d' :: more) =
      ((front ++ ['\x7b']) ++ (t ++ ['\x7d'])) ++ more := by
    simp only [List.append_assoc, List.cons_append, List.nil_append]
  obtain ⟨more, code⟩ := mask_declarationForm kind name
    (header.masks.append (body.masks.append closed)) rest
  rw [← shape, ← shape, same] at code
  obtain ⟨m, tail, behind, edge⟩ := h.exists_mark (c := '\x7b') (by decide) (body.code ++ '\x7d' :: more)
  have size : header.text.length = h.text.length := by rw [header.length_eq, same]
  refine ⟨?_, ?_, ⟨header.text, rest, drop_declarationForm _, size⟩, more, ?_⟩
  · rw [code, behind, headings_declarationForm_cons edge free]
    exact List.mem_cons_self
  · rw [code]
    exact declaredKind?_declarationForm free _
  · rw [code]
    exact drop_declarationForm _

/-! ## An example -/

/-- an array with a JSON name and an initializer, a property that only its class can set, members of the other kinds, and
another property of the first one's name -/
def shapeBody : ClassBody :=
  let corners : Identifier := ⟨"Corners", by decide, by decide⟩
  let long : Identifier := ⟨"long", by decide, by decide⟩
  let undeclared : Text.Without keptTypeWords long.text :=
    .single (by decide) (Text.forall_of_all (by decide)) (by decide)
  let isPublic : Modifier := ⟨"public", by decide, .single, Blanks.single_ne_nil⟩
  let get : Accessor := ⟨.single, none, .get, .empty⟩
  { members := [
      .property
        { groups := .ofGroups [(.single, ⟨⟨[], ⟨"JsonProperty", by decide, by decide⟩, false, fun _ => by decide,
            some [.positional (.regular "corners")]⟩, []⟩)]
          above := .single
          modifiers := [isPublic, ⟨"required", by decide, .single, Blanks.single_ne_nil⟩]
          written := "long[]"
          canonical := "long[]"
          type := .array false false (.name long [] (by decide))
          unreserved := undeclared.append_marks (t := "[]") (by decide)
          gap := .single
          apart := by decide
          name := corners
          named := by decide
          below := .single
          accessors := [get, ⟨.single, none, .init, .empty⟩]
          bottom := .single
          initializer := some ⟨.single, .ofCode " null" (by decide), by decide⟩ },
      .property
        { groups := []
          above := .single
          modifiers := [isPublic]
          written := "long"
          canonical := "long"
          type := .name long [] (by decide)
          unreserved := undeclared
          gap := .single
          apart := by decide
          name := ⟨"Area", by decide, by decide⟩
          named := by decide
          below := .single
          accessors := [get, ⟨.single, some ⟨"private", by decide, .single, Blanks.single_ne_nil⟩, .set, .empty⟩]
          bottom := .single
          initializer := none },
      .statement ⟨.ofCode " long sides" (by decide), by decide⟩,
      .arrow ⟨.ofCode " long Sides " (by decide), by decide, by decide, rfl, rfl, .ofCode " sides" (by decide),
        Plain.expression (by decide)⟩,
      .method
        { groups := []
          above := .single
          front := "void Draw"
          marks := by decide
          start := by rintro c ⟨⟩; decide
          undeclaring := Text.Without.append_mark (s := "void") (t := "Draw") (c := ' ') (by decide)
            (.single (by decide) (Text.forall_of_all (by decide)) (by decide))
            (.single (by decide) (Text.forall_of_all (by decide)) (by decide))
          list := .ofCode ") " (by decide)
          plain := by decide
          arrowless := by decide
          square := rfl
          round := rfl
          body := .ofCode " set(); " (by decide)
          pairs := rfl },
      .property
        { groups := []
          above := .single
          modifiers := []
          written := "long"
          canonical := "long"
          type := .name long [] (by decide)
          unreserved := undeclared
          gap := .single
          apart := by decide
          name := corners
          named := by decide
          below := .single
          accessors := [⟨.single, none, .set, .empty⟩]
          bottom := .single
          initializer := none }]
    bottom := .single }

/-- Of a class with members of all kinds the first property is told of, for the others of its kind cannot be set by
anyone or have its name. -/
theorem describe_classBody_shape :
    let name : Identifier := ⟨"Shape", by decide, by decide⟩
    let header : TypeHeader := ⟨.empty, [], .empty, [], by simp, [], .single⟩
    let text := declarationForm .classType name (" " ++ '\x7b' :: (shapeBody.form ++ ['\x7d']))
    text = "public class Shape \x7b [JsonProperty(\"corners\")] public required long[] Corners \x7b get; init; \x7d = null; " ++
      "public long Area \x7b get; private set; \x7d long sides; long Sides => sides; void Draw() \x7b set(); \x7d " ++
      "long Corners \x7b set; \x7d \x7d" ∧
    Declares text (headingOf .classType name) .classType header shapeBody ∧
    ∃ b ∈ (typeBlocks text).value, b.name = "Shape" ∧ (describe b).value.withoutComments.properties =
      [⟨"Corners", "long[]", none, some "corners", true⟩] := by
  intro name header text
  have declares : Declares text (headingOf .classType name) .classType header shapeBody :=
    declares_declarationForm (by decide) (.ofCode " " (by decide)) header (by decide) shapeBody []
  refine ⟨by decide +kernel, declares, ?_⟩
  obtain ⟨b, properties, -, member, -, named, same, kept, single, first, each⟩ := describe_classBody declares (by decide)
  refine ⟨b, member, named, same.trans ?_⟩
  let corners : Property := ⟨"Corners", "long[]", none, some "corners", true⟩
  let later : Property := ⟨"Corners", "long", none, none, false⟩
  have told : shapeBody.told = [corners, later] := by decide +kernel
  rw [told] at kept first
  have one : ∀ chosen ∈ [corners, later].sublists, (chosen.map (·.name)).Nodup →
      chosen.find? (·.name == corners.name) = some corners → chosen = [corners] := by decide +kernel
  exact one properties (List.mem_sublists.2 kept) single ((first corners.name).trans (by decide))

end Rendered

end EndpointSurvey
