/-
Declarations with a list of parameters, and records with the same properties in their body. The catalog is told of both,
but not the same: a parameter is told of without its attributes and its arrays, and the parameters of a class or a
struct are told of as those of a record are.

Main statements: `declaredProperties_parameters`, `declaredProperties_members` and `declaredProperties_records`.
-/
import EndpointSurvey.Proofs.Document.Seen
import EndpointSurvey.Proofs.Rendered.PropertyEntries

namespace EndpointSurvey

/-- the properties that the types of a document declare, type by type, without their documentation -/
def declaredProperties (text : Text) : List (List Property) :=
  (typeBlocks text).value.map fun b => (describe b).value.withoutComments.properties

/-! ## Properties of one name -/

theorem addProperty_of_taken {properties : List Property} {p : Property} (taken : p.name ∈ properties.map (·.name)) :
    addProperty properties p = properties := by
  obtain ⟨q, member, same⟩ := List.mem_map.1 taken
  rw [addProperty, if_pos]
  exact List.any_eq_true.2 ⟨q, member, beq_iff_eq.2 same⟩

theorem addProperty_of_new {properties : List Property} {p : Property} (new : p.name ∉ properties.map (·.name)) :
    addProperty properties p = properties ++ [p] := by
  rw [addProperty, if_neg]
  intro taken
  obtain ⟨q, member, same⟩ := List.any_eq_true.1 taken
  exact new (List.mem_map.2 ⟨q, member, beq_iff_eq.1 same⟩)

/-- No name is declared twice. -/
theorem nodup_foldl_addProperty (found : List Property) {properties : List Property}
    (h : (properties.map (·.name)).Nodup) : ((found.foldl addProperty properties).map (·.name)).Nodup := by
  induction found generalizing properties with
  | nil => exact h
  | cons p found ih =>
    apply ih
    by_cases taken : p.name ∈ properties.map (·.name)
    · rw [addProperty_of_taken taken]
      exact h
    · rw [addProperty_of_new taken, List.map_append, List.nodup_append]
      refine ⟨h, by simp, ?_⟩
      intro name given other same e
      rw [List.map_singleton, List.mem_singleton] at same
      exact taken (same ▸ e ▸ given)

/-- Properties of different names are all declared. -/
theorem foldl_addProperty_append {properties found : List Property}
    (h : ((properties ++ found).map (·.name)).Nodup) : found.foldl addProperty properties = properties ++ found := by
  induction found generalizing properties with
  | nil => simp
  | cons p found ih =>
    have new : p.name ∉ properties.map (·.name) := by
      intro taken
      rw [List.map_append, List.nodup_append] at h
      exact h.2.2 _ taken _ (by simp) rfl
    have shape : properties ++ p :: found = (properties ++ [p]) ++ found := by simp
    rw [List.foldl_cons, addProperty_of_new new, shape]
    apply ih
    rwa [← shape]

theorem value_describe {b : TypeBlock} (kind : b.kind ≠ .enumType) :
    (describe b).value.properties = (b.members.filterMap fun m => (propertyOf m).value).foldl addProperty
      ((splitTop ',' true (b.positional.getD [])).filterMap positionalProperty?) := by
  unfold describe
  split
  · next same => exact absurd same kind
  · simp only [Traced.value_bind, Traced.value_pure, Traced.value_filterMapList]

theorem value_describe_baseType {b : TypeBlock} (kind : b.kind ≠ .enumType) :
    (describe b).value.baseType = baseClass? b.baseTypes := by
  unfold describe
  split
  · next same => exact absurd same kind
  · simp only [Traced.value_bind, Traced.value_pure]

/-! ## Rendered declarations -/

namespace Rendered

open Lexeme

/-- a public declaration: its kind, its name and what follows -/
def declarationForm (kind : DeclarationKind) (name : Identifier) (tail : Text) : Text :=
  "public " ++ (kind.name ++ ' ' :: (name.text ++ tail))

/-- properties as a list of parameters -/
def parametersTail (literal : Text → Text) (entries : List PropertyEntry) : Text :=
  '(' :: (Text.join ", " (entries.map (PropertyEntry.parameter literal)) ++ [')', ';'])

/-- properties as the members of a body -/
def membersTail (literal : Text → Text) (entries : List PropertyEntry) : Text :=
  ' ' :: '\x7b' :: (entries.flatMap (PropertyEntry.member literal) ++ [' ', '\x7d'])

/-- a document with one declaration, of a list of parameters -/
def parametersText (kind : DeclarationKind) (name : Identifier) (entries : List PropertyEntry) : Text :=
  declarationForm kind name (parametersTail id entries)

/-- a document with one declaration, of properties in its body -/
def membersText (kind : DeclarationKind) (name : Identifier) (entries : List PropertyEntry) : Text :=
  declarationForm kind name (membersTail id entries)

section
variable (entries : List PropertyEntry)

theorem masks_parametersTail : Masks true (parametersTail id entries) (parametersTail blankOut entries) := by
  have opened : Masks true ['('] ['('] := masks_plain (Text.forall_of_all (by decide)) true
  have closed : Masks true [')', ';'] [')', ';'] := masks_plain (Text.forall_of_all (by decide)) true
  exact opened.append (masks_join (fun e _ _ _ _ _ h => e.masks_parameter.append h) (by decide) closed)

theorem masks_membersTail : Masks true (membersTail id entries) (membersTail blankOut entries) := by
  have opened : Masks true [' ', '\x7b'] [' ', '\x7b'] := masks_plain (Text.forall_of_all (by decide)) true
  have closed : Masks true [' ', '\x7d'] [' ', '\x7d'] := masks_plain (Text.forall_of_all (by decide)) true
  exact opened.append ((masks_flatMap fun e _ => e.masks_member).append closed)

theorem unheaded_parametersTail : Unheaded (parametersTail blankOut entries) := by
  have opened : Stops '(' := by constructor <;> decide
  have closed : Stops ')' := by constructor <;> decide
  have list : Unheaded (Text.join ", " (entries.map (PropertyEntry.parameter blankOut))) :=
    .join (List.forall_mem_map.2 fun e _ => e.unheaded_parameter)
  exact .cons opened (list.split closed (.marks (by decide)))

theorem unheaded_membersTail : Unheaded (membersTail blankOut entries) := by
  have opened : Stops '\x7b' := by constructor <;> decide
  have closed : Stops '\x7d' := by constructor <;> decide
  have body : Unheaded (entries.flatMap (PropertyEntry.member blankOut) ++ [' ', '\x7d']) := by
    induction entries with
    | nil => exact .marks (by decide)
    | cons e entries ih =>
      have last : (e.member blankOut).getLast? = some '\x7d' := by
        rw [PropertyEntry.member, List.getLast?_append_of_ne_nil _ (by decide)]
        decide
      rw [List.flatMap_cons, List.append_assoc]
      exact e.unheaded_member.append_of_last closed last ih
  exact .marks_append (g := [' ']) (by decide) (.cons opened body)

end

section
variable {kind : DeclarationKind} {name : Identifier}

theorem masks_declarationForm {tail code : Text} (h : Masks true tail code) :
    Masks true (declarationForm kind name tail) (declarationForm kind name code) := by
  have keyword : Masks true (kind.name ++ [' ']) (kind.name ++ [' ']) :=
    masks_plain (by cases kind <;> exact Text.forall_of_all (by decide)) true
  have whole := (masks_plain (t := "public ") (Text.forall_of_all (by decide)) true).append
    (keyword.append ((name.bare.masks true).append h))
  rwa [List.append_assoc, List.append_assoc] at whole

/-- the heading of a rendered declaration -/
def headingOf (kind : DeclarationKind) (name : Identifier) : Heading :=
  ⟨7, 7 + (kind.name.length + 1 + name.text.length), some kind, name.text⟩

/-- The heading is the first of those of the document. -/
theorem headings_declarationForm_cons {m : Char} {tail : Text} (mark : wordChar m = false)
    (free : name.text ∉ nonTypeNames) : headings (declarationForm kind name (m :: tail)) =
      headingOf kind name :: headingsFrom (headingOf kind name).stop name.text.getLast? (m :: tail) := by
  have modifier : Text.Without declaringWords ("public ".toList) :=
    (Text.Without.single (t := "public") (by decide) (Text.forall_of_all (by decide)) (by decide)).append_marks
      (t := [' ']) (by decide)
  have last : ("public ".toList).getLast? = some ' ' := List.getLast?_concat (l := "public") (a := ' ')
  have found : declaration? (kind.name ++ ' ' :: (name.text ++ m :: tail)) = some (some kind, name.text, m :: tail) :=
    declaration?_kind name.exists_start name.wordChars mark fun _ => free
  have edge : ∃ c cs, kind.name ++ ' ' :: (name.text ++ m :: tail) = c :: cs ∧ Text.wordEdge (some ' ') c = true := by
    cases kind <;> exact ⟨_, _, rfl, by decide⟩
  have width : (kind.name ++ ' ' :: (name.text ++ m :: tail)).length - (m :: tail).length =
      kind.name.length + 1 + name.text.length := by
    simp only [List.length_append, List.length_cons]
    omega
  obtain ⟨c, cs, shape, starts⟩ := edge
  have passed : headings (declarationForm kind name (m :: tail)) = headingsFrom 7 (some ' ') (c :: cs) := by
    rw [← shape]
    exact headingsFrom_without last (by decide) modifier 0 none _
  rw [shape] at found width
  rw [passed, headingsFrom_some starts found, width]
  rfl

theorem headings_declarationForm {m : Char} {tail : Text} (mark : wordChar m = false)
    (free : name.text ∉ nonTypeNames) (h : Unheaded (m :: tail)) :
    headings (declarationForm kind name (m :: tail)) = [headingOf kind name] := by
  rw [headings_declarationForm_cons mark free, h]

/-- Only a modifier stands in front of the heading. -/
theorem declaredKind?_declarationForm (free : name.text ∉ nonTypeNames) (tail : Text) :
    declaredKind? (declarationForm kind name tail) (headingOf kind name) = some kind := by
  have known : nonTypeNames.contains name.text = false := by simpa using free
  have front : (declarationForm kind name tail).take 7 = "public ".toList := List.take_left' rfl
  have starts : declarationStart (declarationForm kind name tail) 7 = true := by
    refine declarationStart_modifier (g := []) (by simp) ?_
    rw [front, Text.takeEnd_of_all (Text.forall_of_all (by decide))]
    rfl
  rw [declaredKind?, headingOf]
  simp only [known, starts]
  rfl

/-- The declarations of such a document are those of its one heading. -/
theorem blocksOf_declarationForm {tail : Text} {m : Char} {code : Text} (mark : wordChar m = false)
    (free : name.text ∉ nonTypeNames) (masks : Masks true tail (m :: code)) (h : Unheaded (m :: code)) :
    blocksOf (declarationForm kind name tail) =
      (blockOf? (Source.ofText (declarationForm kind name tail)) (namespaces (declarationForm kind name (m :: code)))
        (headingOf kind name) kind).toList := by
  have whole : mask true (declarationForm kind name tail) = declarationForm kind name (m :: code) :=
    (masks_declarationForm masks).mask_eq
  rw [blocksOf]
  simp only [Source.code_ofText, whole, headings_declarationForm mark free h]
  rw [List.filterMap_cons, declaredKind?_declarationForm free, Option.bind_some]
  cases blockOf? _ _ _ _ <;> rfl

/-- What follows the name of a rendered declaration. -/
theorem drop_declarationForm (tail : Text) :
    (declarationForm kind name tail).drop (headingOf kind name).stop = tail := by
  have keyword : (kind.name ++ ' ' :: (name.text ++ tail)).drop (kind.name.length + 1 + name.text.length) = tail := by
    rw [Nat.add_assoc, ← List.drop_drop, List.drop_left, Nat.add_comm, List.drop_succ_cons, List.drop_left]
  rw [headingOf, ← List.drop_drop]
  exact keyword

/-- Such a document has one declaration, of which holds what holds of every declaration with that rest. -/
theorem exists_typeBlocks {tail : Text} {m : Char} {code : Text} (mark : wordChar m = false)
    (free : name.text ∉ nonTypeNames) (masks : Masks true tail (m :: code)) (h : Unheaded (m :: code))
    {p : TypeBlock → Prop} (read : ∀ (document : Source) (spans : List NamespaceSpan) (heading : Heading),
      document.raw.drop heading.stop = tail → document.code.drop heading.stop = m :: code →
        ∃ b, blockOf? document spans heading kind = some b ∧ p b) :
    ∃ b, (typeBlocks (declarationForm kind name tail)).value = [b] ∧ p b := by
  have code' : (Source.ofText (declarationForm kind name tail)).code = declarationForm kind name (m :: code) := by
    rw [Source.code_ofText]
    exact (masks_declarationForm masks).mask_eq
  obtain ⟨b, found, holds⟩ := read (Source.ofText (declarationForm kind name tail))
    (namespaces (declarationForm kind name (m :: code))) (headingOf kind name) (drop_declarationForm tail)
    (by rw [code']; exact drop_declarationForm _)
  refine ⟨b, ?_, holds⟩
  rw [value_typeBlocks, blocksOf_declarationForm mark free masks h, found]
  rfl

end

/-! ### The rest of a heading -/

section
variable {document : Source} {offset : Nat} {name : Text}

theorem skipBlanks_solid {c : Char} {code : Text} (head : (code.drop offset).head? = some c) (solid : blank c = false) :
    skipBlanks code offset = offset := by
  obtain ⟨cs, e⟩ := List.head?_eq_some_iff.1 head
  rw [skipBlanks, e, Text.leadingBlanks, List.takeWhile_cons_of_neg (by simp [solid])]
  rfl

theorem bracketed_some {opener closer : Char} {code : Text} {i : Nat} (head : (code.drop offset).head? = some opener)
    (found : closing? opener closer (code.drop offset) = some i) :
    bracketed opener closer code offset = .ok (some (offset + 1, offset + i), offset + i + 1) := by
  simp [bracketed, head, found]

/-- A list of parameters is all that stands between a name and the semicolon that ends a heading. -/
theorem headingTail_parameters {list listCode : Text} (raw : document.raw.drop offset = '(' :: (list ++ [')', ';']))
    (code : document.code.drop offset = '(' :: (listCode ++ [')', ';'])) (size : list.length = listCode.length)
    (pairs : Paired '(' ')' listCode) :
    ∃ stop, headingTail document name offset = .ok ⟨[], some list, [], stop⟩ ∧ document.code.drop stop = [';'] := by
  have head : (document.code.drop offset).head? = some '(' := by rw [code]; rfl
  have found : closing? '(' ')' (document.code.drop offset) = some (listCode.length + 1) := by
    rw [code]
    exact (closing?_eq_some_iff (by decide)).2 ⟨listCode, [';'], rfl, rfl, pairs⟩
  have behind : document.code.drop (offset + (listCode.length + 1) + 1) = [';'] := by
    rw [Nat.add_assoc, ← List.drop_drop, code, List.drop_succ_cons, ← List.drop_drop, List.drop_left]
    rfl
  have long : ¬ document.code.length ≤ offset + (listCode.length + 1) + 1 := by
    intro short
    rw [List.drop_eq_nil_of_le short] at behind
    cases behind
  have inside : (document.slice (offset + 1) (offset + (listCode.length + 1))).raw = list := by
    have width : offset + (listCode.length + 1) - (offset + 1) = list.length := by omega
    rw [Source.raw_slice, width, ← List.drop_drop, raw, List.drop_succ_cons, List.drop_zero, List.take_left]
  simp only [headingTail, skipBlanks_solid head (by decide), bracketed_none head (show '(' ≠ '<' by decide),
    bracketed_some head found, Except.mapError, bind, Except.bind, Option.isSome_none, Bool.false_eq_true, if_false,
    behind, Option.map_some, inside]
  exact ⟨_, if_neg long, behind⟩

/-- Only a space stands between a name and the brace of a body. -/
theorem headingTail_brace {rest : Text} (code : document.code.drop offset = ' ' :: '\x7b' :: rest) :
    headingTail document name offset = .ok ⟨[], none, [], offset + 1⟩ := by
  have behind : document.code.drop (offset + 1) = '\x7b' :: rest := by
    rw [← List.drop_drop, code]
    rfl
  have head : (document.code.drop (offset + 1)).head? = some '\x7b' := by rw [behind]; rfl
  have skipped : skipBlanks document.code offset = offset + 1 := by
    rw [skipBlanks, code]
    exact congrArg (offset + ·) (Text.leadingBlanks_padded (s := [' ']) (Text.forall_of_all (by decide)) (by
      rintro _ ⟨⟩
      decide))
  have long : ¬ document.code.length ≤ offset + 1 := by
    intro short
    rw [List.drop_eq_nil_of_le short] at behind
    cases behind
  simp only [headingTail, skipped, bracketed_none head (show '\x7b' ≠ '<' by decide), Except.mapError, bind,
    Except.bind, Option.isSome_none, Bool.false_eq_true, if_false, bracketed_none head (show '\x7b' ≠ '(' by decide), behind]
  exact if_neg long

end

/-! ### The properties that are declared -/

section
variable {kind : DeclarationKind} {name : Identifier} (entries : List PropertyEntry)

/-- The declaration of a list of parameters has the list and no members. -/
theorem blockOf?_parameters (kind : DeclarationKind) (document : Source) (spans : List NamespaceSpan)
    (heading : Heading) (raw : document.raw.drop heading.stop = parametersTail id entries)
    (code : document.code.drop heading.stop = parametersTail blankOut entries) :
    ∃ b, blockOf? document spans heading kind = some b ∧ b.kind = kind ∧ b.members = [] ∧
      b.positional = some (Text.join ", " (entries.map (PropertyEntry.parameter id))) := by
  have size : (Text.join ", " (entries.map (PropertyEntry.parameter id))).length =
      (Text.join ", " (entries.map (PropertyEntry.parameter blankOut))).length := by
    have whole := (masks_parametersTail entries).length_eq
    simp only [parametersTail, List.length_cons, List.length_append] at whole
    omega
  have pairs : Paired '(' ')' (Text.join ", " (entries.map (PropertyEntry.parameter blankOut))) :=
    .join (Text.forall_of_all (by decide)) (List.forall_mem_map.2 fun e _ => e.pairs_parameter)
  obtain ⟨stop, read, ends⟩ := @headingTail_parameters document heading.stop heading.name _ _ raw code size pairs
  rw [blockOf?, read]
  simp only [ends]
  exact ⟨_, rfl, rfl, rfl, rfl⟩

/-- The declaration of a body has its entries for members. -/
theorem blockOf?_members (enumeration : kind ≠ .enumType) (document : Source) (spans : List NamespaceSpan)
    (heading : Heading) (raw : document.raw.drop heading.stop = membersTail id entries)
    (code : document.code.drop heading.stop = membersTail blankOut entries) :
    ∃ b, blockOf? document spans heading kind = some b ∧ b.kind = kind ∧ b.positional = none ∧
      List.Forall₂ PropertyEntry.Reads entries b.members := by
  have pairs : Paired '\x7b' '\x7d' (entries.flatMap (PropertyEntry.member blankOut) ++ [' ']) :=
    (Paired.flatMap fun e _ => e.pairs_member).append (.of_free (by decide))
  have size : (entries.flatMap (PropertyEntry.member id) ++ [' ']).length =
      (entries.flatMap (PropertyEntry.member blankOut) ++ [' ']).length := by
    have whole := (masks_membersTail entries).length_eq
    simp only [membersTail, List.length_cons, List.length_append, List.length_nil] at whole
    simp only [List.length_append, List.length_singleton]
    omega
  have opening : document.code.drop (heading.stop + 1) =
      '\x7b' :: ((entries.flatMap (PropertyEntry.member blankOut) ++ [' ']) ++ ['\x7d']) := by
    rw [← List.drop_drop, code, membersTail, List.append_assoc]
    rfl
  have openingRaw : document.raw.drop (heading.stop + 1) =
      '\x7b' :: ((entries.flatMap (PropertyEntry.member id) ++ [' ']) ++ ['\x7d']) := by
    rw [← List.drop_drop, raw, membersTail, List.append_assoc]
    rfl
  have closing : closing? '\x7b' '\x7d' (document.code.drop (heading.stop + 1)) =
      some ((entries.flatMap (PropertyEntry.member blankOut) ++ [' ']).length + 1) := by
    rw [opening]
    exact (closing?_eq_some_iff (by decide)).2 ⟨_, [], rfl, rfl, pairs⟩
  have head : (document.code.drop (heading.stop + 1)).head? = some '\x7b' := by rw [opening]; rfl
  have read := @headingTail_brace document heading.stop heading.name _ code
  refine ⟨_, blockOf?_withBody read head closing, rfl, rfl, ?_⟩
  rw [TypeBlock.members_withBody enumeration]
  refine membersOf_entries ?_ ?_ _
  · rw [Source.raw_slice, Source.raw_drop, openingRaw, List.drop_succ_cons, List.drop_zero, Nat.add_sub_cancel, ← size,
      List.take_left]
  · rw [Source.code_slice, Source.code_drop, opening, List.drop_succ_cons, List.drop_zero, Nat.add_sub_cancel,
      List.take_left]

theorem withoutComment_positional (part : Text) :
    (positionalProperty? part).map Property.withoutComment = positionalProperty? part := by
  unfold positionalProperty?
  dsimp only
  split <;> rfl

theorem foldl_addProperty_withoutComment (properties found : List Property) :
    (found.foldl addProperty properties).map Property.withoutComment =
      (found.map Property.withoutComment).foldl addProperty (properties.map Property.withoutComment) := by
  rw [← property_undocumented]
  exact foldl_addProperty_seen properties found

theorem properties_reads {found : List MemberBlock} (h : List.Forall₂ PropertyEntry.Reads entries found) :
    (found.filterMap fun m => (propertyOf m).value).map Property.withoutComment =
      entries.map PropertyEntry.property := by
  induction h with
  | nil => rfl
  | cons reads _ ih =>
    rw [List.filterMap_cons, reads.value_propertyOf, List.map_cons, List.map_cons, ih]
    rfl

variable (free : name.text ∉ nonTypeNames) (enumeration : kind ≠ .enumType)
include free enumeration

/-- **Each parameter is read by itself**, whatever is declared. -/
theorem declaredProperties_parameters : declaredProperties (parametersText kind name entries) =
    [entries.filterMap fun e => positionalProperty? (e.parameter id)] := by
  obtain ⟨b, blocks, rfl, members, positional⟩ := exists_typeBlocks (by decide) free (masks_parametersTail entries)
    (unheaded_parametersTail entries) (blockOf?_parameters entries kind)
  have pieces : splitTop ',' true (Text.join ", " (entries.map (PropertyEntry.parameter id))) =
      entries.map (PropertyEntry.parameter id) := by
    by_cases none : entries = []
    · rw [none]
      rfl
    · apply splitTop_join (by simpa using none)
      · exact List.forall_mem_map.2 fun e _ => ⟨e.onePiece_parameter, e.trim_parameter⟩
      · exact List.forall_mem_map.2 fun e _ => e.parameter_ne_nil
  rw [declaredProperties, parametersText, blocks, List.map_singleton, TypeDescriptor.withoutComments,
    value_describe enumeration, members, positional]
  simp only [List.filterMap_nil, List.foldl_nil, Option.getD_some, pieces, List.filterMap_map, List.map_filterMap,
    Function.comp_def, withoutComment_positional]

theorem declaredProperties_members : declaredProperties (membersText kind name entries) =
    [(entries.map PropertyEntry.property).foldl addProperty []] := by
  obtain ⟨b, blocks, rfl, positional, members⟩ := exists_typeBlocks (by decide) free (masks_membersTail entries)
    (unheaded_membersTail entries) (blockOf?_members entries enumeration)
  rw [declaredProperties, membersText, blocks, List.map_singleton, TypeDescriptor.withoutComments,
    value_describe enumeration, positional, foldl_addProperty_withoutComment, properties_reads entries members]
  rfl

end

/-- The reading of parameters keeps what there is of a property without arrays, JSON name and requirement. -/
theorem PropertyEntry.stripped_eq_iff (e : PropertyEntry) : e.stripped = e.property ↔
    '[' ∉ e.type.text ∧ jsonNameOf e.attributes = none ∧ Attribute.has "Required" e.attributes = false := by
  rw [stripped, property, Property.mk.injEq, ← e.type.withoutArrays_text_iff]
  constructor
  · rintro ⟨-, type, -, json, required⟩
    exact ⟨type, json.symm, required.symm⟩
  · rintro ⟨type, json, required⟩
    exact ⟨rfl, type, rfl, json.symm, required.symm⟩

/-- **What is told of parameters and of the same properties in a body.** A record with a body is told of with the types,
the JSON names and the requirements of its properties, of each name the first. Of parameters, none of whose attributes
holds a closing square bracket, the JSON names, the requirements and the arrays of their types are lost; so that a
positional record is told of as the one with a body just where no property has any of these and no name stands twice.
Parameters of a class and of a struct are told of as those of a record are, where nothing should be told of them. -/
theorem declaredProperties_records (name : Identifier) (free : name.text ∉ nonTypeNames)
    (entries : List PropertyEntry) :
    declaredProperties (membersText .recordType name entries) =
      [(entries.map PropertyEntry.property).foldl addProperty []] ∧
    ((∀ e ∈ entries, e.Legible) →
      (∀ kind, kind ≠ .enumType →
        declaredProperties (parametersText kind name entries) = [entries.map PropertyEntry.stripped]) ∧
      (declaredProperties (parametersText .recordType name entries) =
          declaredProperties (membersText .recordType name entries) ↔
        (entries.map (·.name.text)).Nodup ∧ ∀ e ∈ entries,
          '[' ∉ e.type.text ∧ jsonNameOf e.attributes = none ∧ Attribute.has "Required" e.attributes = false) ∧
      ∀ kind, kind = .classType ∨ kind = .structType →
        (declaredProperties (parametersText kind name entries) = [[]] ↔ entries = [])) := by
  have members : declaredProperties (membersText .recordType name entries) = _ :=
    declaredProperties_members entries free (by decide)
  refine ⟨members, ?_⟩
  intro legible
  have parameters : ∀ kind, kind ≠ .enumType →
      declaredProperties (parametersText kind name entries) = [entries.map PropertyEntry.stripped] := by
    intro kind enumeration
    rw [declaredProperties_parameters entries free enumeration, ← List.filterMap_eq_map]
    congr 1
    exact List.filterMap_congr fun e member => e.positionalProperty?_parameter (legible e member)
  refine ⟨parameters, ?_, ?_⟩
  · rw [parameters .recordType (by decide), members, List.singleton_inj]
    have names : (entries.map PropertyEntry.property).map (·.name) = entries.map (·.name.text) := by
      rw [List.map_map]
      rfl
    constructor
    · intro same
      have nodup := @nodup_foldl_addProperty (entries.map PropertyEntry.property) [] (by simp)
      rw [← same, List.map_map] at nodup
      have all : (entries.map PropertyEntry.property).foldl addProperty [] = entries.map PropertyEntry.property :=
        foldl_addProperty_append (by rw [List.nil_append, names]; exact nodup)
      rw [all] at same
      exact ⟨nodup, fun e member => e.stripped_eq_iff.1 (List.map_inj_left.1 same e member)⟩
    · rintro ⟨nodup, plain⟩
      rw [foldl_addProperty_append (by rw [List.nil_append, names]; exact nodup), List.nil_append]
      exact List.map_congr_left fun e member => e.stripped_eq_iff.2 (plain e member)
  · intro kind other
    rw [parameters kind (by rcases other with rfl | rfl <;> decide)]
    simp

/-- the lines of an order: an array with a name of its own in documents -/
def orderLines : PropertyEntry where
  groups := [⟨⟨[], ⟨"JsonPropertyName", by decide, by decide⟩, false, fun _ => by decide,
    some [.positional (.regular "lines")]⟩, []⟩]
  type := .array (.name ⟨[], ⟨"int", by decide, by decide⟩⟩)
  name := ⟨"Lines", by decide, by decide⟩
  unreserved := (Text.Without.single (t := "int") (by decide) (Text.forall_of_all (by decide)) (by decide)).append_marks
    (t := "[]") (by decide)

/-- The JSON name and the array of a parameter are lost, and a class has the parameter for a property. -/
theorem declaredProperties_records_order :
    let order : Identifier := ⟨"Order", by decide, by decide⟩
    membersText .recordType order [orderLines] =
        "public record Order \x7b [JsonPropertyName(\"lines\")] public int[] Lines \x7b get; init; \x7d \x7d" ∧
      parametersText .recordType order [orderLines] =
        "public record Order([property: JsonPropertyName(\"lines\")] int[] Lines);" ∧
      order.text ∉ nonTypeNames ∧ orderLines.Legible ∧
      declaredProperties (membersText .recordType order [orderLines]) =
        [[⟨"Lines", "int[]", none, some "lines", false⟩]] ∧
      declaredProperties (parametersText .recordType order [orderLines]) = [[⟨"Lines", "int", none, none, false⟩]] ∧
      declaredProperties (parametersText .recordType order [orderLines]) ≠
        declaredProperties (membersText .recordType order [orderLines]) ∧
      declaredProperties (parametersText .classType order [orderLines]) ≠ [[]] := by
  intro order
  have free : order.text ∉ nonTypeNames := by decide
  have legible : ∀ e ∈ [orderLines], e.Legible := List.forall_mem_singleton.2 (List.forall_mem_singleton.2 (by decide))
  obtain ⟨members, told⟩ := declaredProperties_records order free [orderLines]
  obtain ⟨parameters, agree, empty⟩ := told legible
  have json : jsonNameOf orderLines.attributes = some "lines" := by decide
  refine ⟨by decide, by decide, free, legible _ (by simp), ?_, ?_, ?_, ?_⟩
  · rw [members]
    decide
  · rw [parameters .recordType (by decide)]
    decide
  · intro same
    have plain := ((agree.1 same).2 orderLines (by simp)).2.1
    rw [json] at plain
    cases plain
  · intro none
    cases (empty .classType (.inl rfl)).1 none

end Rendered

end EndpointSurvey
