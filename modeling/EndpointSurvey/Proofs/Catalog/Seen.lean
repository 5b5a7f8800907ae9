/-
Declarations that are seen as the same tell a catalog the same.

Main statements: `Catalog.ofList_seen` (a catalog is seen as the one of its declarations as they are seen) and
`ofBlocks_seen` (declarations seen as the same make catalogs that are seen as the same).
-/
import EndpointSurvey.Proofs.Binding.Agreement
import EndpointSurvey.Proofs.Declaration.Fading
import Mathlib.Data.List.Forall2

namespace EndpointSurvey

def Property.seen (v : View) (p : Property) : Property :=
  { p with
    typeText := p.typeText.map v.blanks
    comment := v.doc p.comment
    jsonName := p.jsonName.map (List.map v.blanks) }

def TypeDescriptor.seen (v : View) (d : TypeDescriptor) : TypeDescriptor :=
  { d with
    properties := d.properties.map (Property.seen v)
    baseType := d.baseType.map (List.map v.blanks)
    typeParameters := d.typeParameters.map (List.map v.blanks)
    comment := v.doc d.comment }

/-- the entries of a catalog as they are seen -/
def entriesSeen (v : View) (entries : Entries TypeDescriptor) : Entries TypeDescriptor :=
  entries.map fun (name, d) => (name, d.seen v)

def Catalog.seen (v : View) (c : Catalog) : Catalog := ⟨entriesSeen v c.own, c.fallbacks.map (entriesSeen v)⟩

/-- Lists have the same image if and only if their elements do, one by one. -/
theorem image_eq_iff {α β : Type} {s : α → β} {l l' : List α} :
    l'.map s = l.map s ↔ List.Forall₂ (fun a' a => s a' = s a) l' l := by
  rw [← List.forall₂_eq_eq_eq, List.forall₂_map_left_iff, List.forall₂_map_right_iff]

/-! ## Attributes as they are seen -/

section
variable (φ : Char → Char)

theorem find?_seen (names : List Text) (marks : List Attribute) :
    Attribute.find? names (marks.map (Attribute.seen φ)) = (Attribute.find? names marks).map (Attribute.seen φ) := by
  unfold Attribute.find?
  rw [List.find?_map]
  rfl

theorem has_seen (name : Text) (marks : List Attribute) :
    Attribute.has name (marks.map (Attribute.seen φ)) = Attribute.has name marks := by
  unfold Attribute.has
  rw [find?_seen, Option.isSome_map]

theorem primary?_seen (a : Attribute) : (a.seen φ).primary? = a.primary?.map (List.map φ) := List.head?_map

theorem jsonNameOf_seen (marks : List Attribute) :
    jsonNameOf (marks.map (Attribute.seen φ)) = (jsonNameOf marks).map (List.map φ) := by
  unfold jsonNameOf
  rw [List.filter_map, List.filterMap_map, ← List.getLast?_map, List.map_filterMap]
  refine congrArg List.getLast? (List.filterMap_congr fun a _ => ?_)
  rw [Function.comp_apply, primary?_seen]
  rcases a.primary? with _ | _ | ⟨c, cs⟩ <;> rfl

end

namespace BlankMap

variable {φ : Char → Char}

/-! ## Positional parameters and bases -/

theorem closeUp_map (h : BlankMap φ) (afterMark : Bool) (t : Text) :
    closeUp afterMark (t.map φ) = (closeUp afterMark t).map φ := by
  induction t generalizing afterMark with
  | nil => rfl
  | cons c cs ih =>
    rw [List.map_cons, closeUp, closeUp, h.test (p := blank) (by decide), h.test (p := typeMark) (by decide),
      h.dropWhile_map (by decide), h.head?_any_map (by decide), ih, ih, ih]
    split
    · split <;> rfl
    · rfl

theorem tidyType_map (h : BlankMap φ) (t : Text) : tidyType (t.map φ) = (tidyType t).map φ := by
  unfold tidyType
  rw [h.closeUp_map, List.flatMap_map, List.map_flatMap]
  refine List.flatMap_congr fun c _ => ?_
  by_cases comma : c = ','
  · subst comma
    rw [h.fixes ',' (by decide), if_pos rfl]
    exact (h.map_eq_self (by decide)).symm
  · rw [if_neg comma, if_neg fun e => comma ((h.eq_iff (by decide) (by decide) c).1 e)]
    rfl

theorem positionalProperty?_map {v : View} (h : BlankMap v.blanks) (part : Text) :
    positionalProperty? (part.map v.blanks) = (positionalProperty? part).map (Property.seen v) := by
  have plain : v.doc none = none := by
    unfold View.doc
    split <;> rfl
  unfold positionalProperty?
  simp only [h.declared_map, h.takeEnd_map (p := fun c => !blank c) (by decide), List.length_map, ← List.map_take,
    h.trimRight_map, h.head?_any_map (p := identifierStart) (by decide), List.all_map,
    h.comp_test (p := wordChar) (by decide), List.isEmpty_map, h.tidyType_map]
  split
  · next given =>
    simp only [Bool.and_eq_true, List.all_eq_true] at given
    rw [h.map_of_all (p := wordChar) (by decide) given.1.2]
    simp only [Option.map_some, Property.seen, plain, Option.map_none]
  · rfl

/-- The properties of a parameter list do not see the kind of blanks, but for those inside types. -/
theorem positional_seen {v : View} (h : BlankMap v.blanks) {list list' : Option Text}
    (same : list'.map (List.map v.blanks) = list.map (List.map v.blanks)) :
    ((splitTop ',' true (list'.getD [])).filterMap positionalProperty?).map (Property.seen v) =
      ((splitTop ',' true (list.getD [])).filterMap positionalProperty?).map (Property.seen v) := by
  have image : ∀ list : Option Text,
      ((splitTop ',' true (list.getD [])).filterMap positionalProperty?).map (Property.seen v) =
        (splitTop ',' true ((list.map (List.map v.blanks)).getD [])).filterMap positionalProperty? := by
    intro list
    have given : (list.map (List.map v.blanks)).getD [] = (list.getD []).map v.blanks := by
      cases list <;> rfl
    rw [given, h.splitTop_map (by decide) (by decide), List.filterMap_map, List.map_filterMap]
    exact List.filterMap_congr fun part _ => (h.positionalProperty?_map part).symm
  rw [image, image, same]

theorem namesInterface_map (h : BlankMap φ) (t : Text) : namesInterface (t.map φ) = namesInterface t := by
  have eye : ∀ c, φ c = 'I' ↔ c = 'I' := h.eq_iff (by decide) (by decide)
  rcases t with _ | ⟨c, _ | ⟨d, rest⟩⟩
  · rfl
  · unfold namesInterface
    split <;> split <;> simp_all
  · by_cases first : c = 'I'
    · subst first
      rw [List.map_cons, List.map_cons, h.fixes 'I' (by decide)]
      exact h.test (p := Char.isUpper) (by decide) d
    · have other : ∀ c rest, c ≠ 'I' → namesInterface (c :: rest) = false := by
        intro c rest ne
        unfold namesInterface
        split
        · next e => exact absurd (List.cons.inj e).1 ne
        · rfl
      rw [List.map_cons, other _ _ first, other _ _ fun e => first ((eye c).1 e)]

theorem baseClass?_map (h : BlankMap φ) (bases : List Text) :
    baseClass? (bases.map (List.map φ)) = (baseClass? bases).map (List.map φ) := by
  have test : ∀ base : Text,
      namesInterface (unqualified ((base.map φ).takeWhile fun c => c != '<' && c != '(')) =
        namesInterface (unqualified (base.takeWhile fun c => c != '<' && c != '(')) := by
    intro base
    unfold unqualified
    rw [h.takeWhile_map (by decide), h.trim_map, h.afterLast_map (by decide) (by decide), h.namesInterface_map]
  unfold baseClass? Text.beforeFirst
  simp only [List.find?_map, Function.comp_def, test, Option.map_map]
  congr 1
  funext base
  rw [h.takeWhile_map (by decide), h.trim_map]

theorem namesController_map (h : BlankMap φ) (base : Text) : namesController (base.map φ) = namesController base := by
  unfold namesController
  rw [h.runs_map, List.any_map]
  rfl

end BlankMap

/-! ## Declarations -/

section
variable {v : View}

theorem isController_seen (h : BlankMap v.blanks) {b b' : TypeBlock} (same : b'.seen v = b.seen v) :
    b'.isController = b.isController := by
  simp only [TypeBlock.seen, SeenBlock.mk.injEq] at same
  obtain ⟨kind, name, -, -, -, marked, -, -, bases, -⟩ := same
  have controllers : ∀ bases : List Text,
      bases.any namesController = (bases.map (List.map v.blanks)).any namesController := by
    intro bases
    rw [List.any_map]
    congr 1
    funext base
    exact (h.namesController_map base).symm
  unfold TypeBlock.isController
  rw [marked, kind, name, controllers, bases, ← controllers]

/-- Members seen as the same declare the same property. -/
theorem propertyOf_seen {m m' : MemberBlock} (same : m'.seen v = m.seen v) :
    (propertyOf m').value.map (Property.seen v) = (propertyOf m).value.map (Property.seen v) := by
  simp only [MemberBlock.seen, SeenMember.mk.injEq] at same
  obtain ⟨signature, doc, -, terminator, -, settable, marks⟩ := same
  have isMethod : m'.isMethod = m.isMethod := by
    unfold MemberBlock.isMethod
    rw [signature]
  have names : (jsonNameOf (attributesOf m'.attributeText)).map (List.map v.blanks) =
      (jsonNameOf (attributesOf m.attributeText)).map (List.map v.blanks) := by
    rw [← jsonNameOf_seen, marks, jsonNameOf_seen]
  have required : Attribute.has "Required" (attributesOf m'.attributeText) =
      Attribute.has "Required" (attributesOf m.attributeText) := by
    rw [← has_seen v.blanks, marks, has_seen]
  unfold propertyOf
  simp only [isMethod, signature, terminator, settable]
  split
  · rfl
  · simp only [Traced.value_bind, Traced.value_pure, Traced.value_unreported, value_attributes, Option.map_some,
      Property.seen, doc, names, required]

theorem addProperty_seen (properties : List Property) (p : Property) :
    (addProperty properties p).map (Property.seen v) = addProperty (properties.map (Property.seen v)) (p.seen v) := by
  have taken : (properties.map (Property.seen v)).any (fun q => q.name == (p.seen v).name) =
      properties.any (fun q => q.name == p.name) := List.any_map
  unfold addProperty
  rw [taken]
  split
  · rfl
  · rw [List.map_append]
    rfl

theorem foldl_addProperty_seen (properties found : List Property) :
    (found.foldl addProperty properties).map (Property.seen v) =
      (found.map (Property.seen v)).foldl addProperty (properties.map (Property.seen v)) := by
  induction found generalizing properties with
  | nil => rfl
  | cons p rest ih => rw [List.foldl_cons, ih, List.map_cons, List.foldl_cons, addProperty_seen]

/-- Declarations seen as the same tell the catalog the same. -/
theorem describe_seen (h : BlankMap v.blanks) {b b' : TypeBlock} (same : b'.seen v = b.seen v) :
    (describe b').value.seen v = (describe b).value.seen v := by
  simp only [TypeBlock.seen, SeenBlock.mk.injEq] at same
  obtain ⟨kind, name, doc, -, -, -, -, parameters, bases, list, listed, members⟩ := same
  have found : (b'.members.filterMap fun m => (propertyOf m).value).map (Property.seen v) =
      (b.members.filterMap fun m => (propertyOf m).value).map (Property.seen v) := by
    have each : ∀ ms : List MemberBlock, (ms.filterMap fun m => (propertyOf m).value).map (Property.seen v) =
        (ms.map fun m => (propertyOf m).value.map (Property.seen v)).filterMap id := by
      intro ms
      rw [List.map_filterMap, List.filterMap_map]
      rfl
    rw [each, each, image_eq_iff.2 ((image_eq_iff.1 members).imp fun _ _ => propertyOf_seen)]
  have base : (baseClass? b'.baseTypes).map (List.map v.blanks) = (baseClass? b.baseTypes).map (List.map v.blanks) := by
    rw [← h.baseClass?_map, bases, h.baseClass?_map]
  unfold describe
  rw [kind]
  cases b.kind with
  | enumType => simp only [Traced.value_pure, TypeDescriptor.seen, name, listed, doc]
  | _ =>
    simp only [Traced.value_bind, Traced.value_pure, Traced.value_filterMapList, TypeDescriptor.seen, name, doc,
      parameters, base, foldl_addProperty_seen, found, h.positional_seen list]

end

/-! ## Catalogs -/

section
variable {v : View}

theorem lookup?_seen (name : Text) (entries : Entries TypeDescriptor) :
    Entries.lookup? name (entriesSeen v entries) = (Entries.lookup? name entries).map (TypeDescriptor.seen v) := by
  induction entries with
  | nil => rfl
  | cons entry rest ih =>
    unfold entriesSeen at ih ⊢
    rw [List.map_cons, Entries.lookup?, Entries.lookup?, ih]
    split <;> rfl

theorem insert_seen (name : Text) (d : TypeDescriptor) (entries : Entries TypeDescriptor) :
    entriesSeen v (Entries.insert name d entries) = Entries.insert name (d.seen v) (entriesSeen v entries) := by
  induction entries with
  | nil => rfl
  | cons entry rest ih =>
    unfold entriesSeen at ih ⊢
    rw [List.map_cons, Entries.insert, Entries.insert]
    split
    · rfl
    · rw [List.map_cons, ih]

theorem merge_seen (d part : TypeDescriptor) : (d.merge part).seen v = (d.seen v).merge (part.seen v) := by
  have bases : ∀ first second : Option Text, (firstGiven first second).map (List.map v.blanks) =
      firstGiven (first.map (List.map v.blanks)) (second.map (List.map v.blanks)) := by
    intro first second
    rcases first with _ | _ | ⟨c, cs⟩ <;> rfl
  have docs : v.doc (firstGiven d.comment part.comment) = firstGiven (v.doc d.comment) (v.doc part.comment) := by
    unfold View.doc
    split <;> rfl
  have names : (d.properties.map (Property.seen v)).map (·.name) = d.properties.map (·.name) := by
    rw [List.map_map]
    rfl
  unfold TypeDescriptor.merge TypeDescriptor.seen
  simp only [List.map_append, bases, docs, names, List.filter_map, List.isEmpty_map]
  congr 1
  split <;> rfl

namespace Catalog

theorem add_seen (c : Catalog) (d : TypeDescriptor) : (c.add d).seen v = (c.seen v).add (d.seen v) := by
  have known : Entries.lookup? (d.seen v).name (c.seen v).own =
      (Entries.lookup? d.name c.own).map (TypeDescriptor.seen v) := lookup?_seen d.name c.own
  unfold add
  rw [known]
  cases Entries.lookup? d.name c.own with
  | none =>
    unfold seen
    rw [insert_seen]
    rfl
  | some known =>
    simp only [Option.map_some]
    have kinds : ((known.seen v).kind = (d.seen v).kind) = (known.kind = d.kind) := rfl
    simp only [kinds]
    split
    · unfold seen
      rw [insert_seen, merge_seen]
      rfl
    · rfl

/-- A catalog is seen as the catalog of its declarations as they are seen. -/
theorem ofList_seen (ds : List TypeDescriptor) : (ofList ds).seen v = ofList (ds.map (TypeDescriptor.seen v)) := by
  have each : ∀ (ds : List TypeDescriptor) (c : Catalog),
      (ds.foldl add c).seen v = (ds.map (TypeDescriptor.seen v)).foldl add (c.seen v) := by
    intro ds
    induction ds with
    | nil => intro c; rfl
    | cons d rest ih => intro c; rw [List.foldl_cons, ih, List.map_cons, List.foldl_cons, add_seen]
  exact each ds empty

theorem types_seen (c : Catalog) : (c.seen v).types = c.types.map (TypeDescriptor.seen v) := by
  unfold types seen entriesSeen
  rw [List.map_map, List.map_map]
  rfl

theorem get?_seen (c : Catalog) (name : Text) : (c.seen v).get? name = (c.get? name).map (TypeDescriptor.seen v) := by
  have all : ∀ es : List (Entries TypeDescriptor), (es.map (entriesSeen v)).findSome? (Entries.lookup? name) =
      (es.findSome? (Entries.lookup? name)).map (TypeDescriptor.seen v) := by
    intro es
    rw [List.findSome?_map, List.map_findSome?]
    congr 1
    funext entries
    exact lookup?_seen name entries
  exact all (c.own :: c.fallbacks)

/-- Catalogs that are seen as the same declare types of the same kinds. -/
theorem Alike.of_seen {c c' : Catalog} (same : c'.seen v = c.seen v) : c.Alike c' := by
  intro name
  have kinds : ∀ d : Option TypeDescriptor, d.map (·.kind) = (d.map (TypeDescriptor.seen v)).map (·.kind) := by
    intro d
    cases d <;> rfl
  rw [kinds, kinds (c.get? name), ← get?_seen, ← get?_seen, same]

end Catalog

/-- **Catalogs.** Declarations that are seen as the same make catalogs that are seen as the same. -/
theorem ofBlocks_seen (h : BlankMap v.blanks) {bs bs' : List TypeBlock}
    (same : bs'.map (TypeBlock.seen v) = bs.map (TypeBlock.seen v)) :
    (Catalog.ofBlocks bs').value.seen v = (Catalog.ofBlocks bs).value.seen v := by
  have models : List.Forall₂ (fun b' b => b'.seen v = b.seen v) (bs'.filter (!·.isController))
      (bs.filter (!·.isController)) := by
    refine List.rel_filter (fun b' b e => ?_) (image_eq_iff.1 same)
    show (!b'.isController) = true ↔ (!b.isController) = true
    rw [isController_seen h e]
  have described : ((bs'.filter (!·.isController)).map fun b => (describe b).value).map (TypeDescriptor.seen v) =
      ((bs.filter (!·.isController)).map fun b => (describe b).value).map (TypeDescriptor.seen v) := by
    rw [List.map_map, List.map_map]
    exact image_eq_iff.2 (models.imp fun _ _ => describe_seen h)
  simp only [Catalog.ofBlocks, Traced.value_bind, Traced.value_pure, Traced.value_mapList, Catalog.ofList_seen]
  rw [described]

end

end EndpointSurvey
