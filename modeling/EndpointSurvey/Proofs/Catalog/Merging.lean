/-
Types that are declared in parts. A name keeps the place of its first declaration and holds all its parts merged in
order, so the parts of each file may be merged first and the types of the files then. When a type is declared once more,
its properties are known, and what was not given stays as the first declaration left it; only the members of an
enumeration are appended each time, whether they are known or not.

Main statements: `merge_assoc`, `lookup?_foldl_add` (what a name holds after further declarations), `foldl_add_types`
(the types of a catalog add what its declarations would) and `projectCatalog_spread`; `TypeDescriptor.merge_merge` (a part
merged again adds its members and nothing else), `Catalog.add_add_eq_iff` (when the second time changes nothing) and
`Catalog.declared_twice`.
-/
import EndpointSurvey.Catalog.Description
import EndpointSurvey.Proofs.Diagnostic.TracedValue
import EndpointSurvey.Proofs.Entries
import EndpointSurvey.Report.Summary

namespace EndpointSurvey

/-! ## Merging parts -/

theorem firstGiven_assoc (a b c : Option Text) : firstGiven (firstGiven a b) c = firstGiven a (firstGiven b c) := by
  rcases a with _ | _ | ⟨_, _⟩ <;> rfl

namespace TypeDescriptor

theorem mem_names_merge (d part : TypeDescriptor) (name : Text) :
    name ∈ (d.merge part).properties.map Property.name ↔
      name ∈ d.properties.map Property.name ∨ name ∈ part.properties.map Property.name := by
  rw [merge, List.map_append, List.mem_append]
  constructor
  · rintro (old | new)
    · exact .inl old
    · obtain ⟨p, hp, same⟩ := List.mem_map.1 new
      exact .inr (List.mem_map.2 ⟨p, (List.mem_filter.1 hp).1, same⟩)
  · rintro (old | new)
    · exact .inl old
    · obtain ⟨p, hp, same⟩ := List.mem_map.1 new
      by_cases old : name ∈ d.properties.map Property.name
      · exact .inl old
      · refine .inr (List.mem_map.2 ⟨p, List.mem_filter.2 ⟨hp, ?_⟩, same⟩)
        simpa [same] using old

/-- **Merging is associative**: of two properties of one name the first counts, whichever parts are merged first. -/
theorem merge_assoc (a b c : TypeDescriptor) : (a.merge b).merge c = a.merge (b.merge c) := by
  have properties : ((a.merge b).merge c).properties = (a.merge (b.merge c)).properties := by
    have new : ∀ p : Property, (!((a.merge b).properties.map Property.name).contains p.name) =
        (!(a.properties.map Property.name).contains p.name && !(b.properties.map Property.name).contains p.name) := by
      intro p
      rw [← Bool.not_or, List.contains_eq_mem, List.contains_eq_mem, List.contains_eq_mem, ← Bool.decide_or]
      exact congrArg _ (decide_eq_decide.2 (mem_names_merge a b p.name))
    show (a.merge b).properties ++ c.properties.filter _ = a.properties ++ (b.merge c).properties.filter _
    rw [List.filter_congr fun p _ => new p]
    simp only [merge, List.filter_append, List.filter_filter, List.append_assoc]
  have parameters : ((a.merge b).merge c).typeParameters = (a.merge (b.merge c)).typeParameters := by
    unfold merge
    cases a.typeParameters <;> rfl
  have merged : ∀ d part : TypeDescriptor, d.merge part = ⟨d.name, d.kind, (d.merge part).properties,
      firstGiven d.baseType part.baseType, (d.merge part).typeParameters, d.enumMembers ++ part.enumMembers,
      firstGiven d.comment part.comment⟩ := fun _ _ => rfl
  rw [merged (a.merge b) c, merged a (b.merge c), properties, parameters]
  congr 1
  · exact firstGiven_assoc a.baseType b.baseType c.baseType
  · exact List.append_assoc a.enumMembers b.enumMembers c.enumMembers
  · exact firstGiven_assoc a.comment b.comment c.comment

/-- A part that was itself merged adds what its parts add one after another. -/
theorem merge_foldl_merge (known part : TypeDescriptor) (more : List TypeDescriptor) :
    known.merge (more.foldl merge part) = more.foldl merge (known.merge part) := by
  induction more generalizing part with
  | nil => rfl
  | cons next rest ih => rw [List.foldl_cons, ih, ← merge_assoc, List.foldl_cons]

/-- what a name holds after a part of its type, given what it held -/
def added (held : Option TypeDescriptor) (part : TypeDescriptor) : Option TypeDescriptor :=
  some (held.elim part (·.merge part))

theorem foldl_added_some (held : TypeDescriptor) (parts : List TypeDescriptor) :
    parts.foldl added (some held) = some (parts.foldl merge held) := by
  induction parts generalizing held with
  | nil => rfl
  | cons part rest ih => exact ih (held.merge part)

/-- Parts add the same to what a name holds whether or not they have been merged before. -/
theorem foldl_added_merged (held : Option TypeDescriptor) (parts : List TypeDescriptor) :
    (parts.foldl added none).toList.foldl added held = parts.foldl added held := by
  cases parts with
  | nil => rfl
  | cons part rest =>
    have merged : (part :: rest).foldl added none = some (rest.foldl merge part) := foldl_added_some part rest
    rw [merged, Option.toList_some, List.foldl_cons, List.foldl_nil]
    cases held with
    | none => exact merged.symm
    | some known =>
      rw [foldl_added_some, List.foldl_cons, ← merge_foldl_merge]
      rfl

end TypeDescriptor

/-! ## The order of names -/

namespace Catalog

section
variable (c : Catalog) (ds : List TypeDescriptor)

theorem keys_add (d : TypeDescriptor) : Entries.keys (c.add d).own = Entries.addKeys (Entries.keys c.own) [d.name] := by
  unfold add
  cases held : Entries.lookup? d.name c.own with
  | none => exact Entries.keys_insert d.name d c.own
  | some known =>
    have member : d.name ∈ Entries.keys c.own := (Entries.isSome_lookup?_iff d.name c.own).1 (by rw [held]; rfl)
    simp only
    split
    · exact Entries.keys_insert d.name _ c.own
    · exact (if_pos member).symm

/-- **A name keeps the place of its first declaration.** -/
theorem keys_foldl_add :
    Entries.keys (ds.foldl Catalog.add c).own = Entries.addKeys (Entries.keys c.own) (ds.map (·.name)) := by
  induction ds generalizing c with
  | nil => rfl
  | cons d rest ih => rw [List.foldl_cons, ih, keys_add]; rfl

theorem fallbacks_foldl_add : (ds.foldl Catalog.add c).fallbacks = c.fallbacks := by
  induction ds generalizing c with
  | nil => rfl
  | cons d rest ih =>
    rw [List.foldl_cons, ih]
    unfold add
    split
    · rfl
    · split <;> rfl

end

/-! ## What names hold -/

/-- each name is listed once and holds a type of this name, of the kind that goes with it -/
structure Fits (kindOf : Text → DeclarationKind) (c : Catalog) : Prop where
  distinct : (Entries.keys c.own).Nodup
  named : ∀ {name held}, Entries.lookup? name c.own = some held → held.name = name
  kind : ∀ {name held}, Entries.lookup? name c.own = some held → held.kind = kindOf name

section
variable {kindOf : Text → DeclarationKind} {c : Catalog} {ds : List TypeDescriptor}

theorem fits_empty : Fits kindOf empty := ⟨List.nodup_nil, nofun, nofun⟩

/-- A declaration of the kind that goes with its name is never passed over. -/
theorem Fits.lookup?_add (h : Fits kindOf c) {d : TypeDescriptor} (kind : d.kind = kindOf d.name) (name : Text) :
    Entries.lookup? name (c.add d).own = if d.name = name then TypeDescriptor.added (Entries.lookup? d.name c.own) d
      else Entries.lookup? name c.own := by
  rw [Catalog.lookup?_add]
  cases held : Entries.lookup? d.name c.own with
  | none => rfl
  | some known => simp only [if_pos ((h.kind held).trans kind.symm)]; rfl

theorem Fits.add (h : Fits kindOf c) {d : TypeDescriptor} (kind : d.kind = kindOf d.name) : Fits kindOf (c.add d) := by
  have fits : ∀ {name held}, Entries.lookup? name (c.add d).own = some held →
      held.name = name ∧ held.kind = kindOf name := by
    intro name held found
    rw [h.lookup?_add kind] at found
    split at found
    · next same =>
      subst same
      cases known : Entries.lookup? d.name c.own with
      | none => rw [known] at found; cases found; exact ⟨rfl, kind⟩
      | some before =>
        have merged : before.merge d = held := by rw [known] at found; exact Option.some.inj found
        rw [← merged, TypeDescriptor.merge_name, TypeDescriptor.merge_kind]
        exact ⟨h.named known, h.kind known⟩
    · exact ⟨h.named found, h.kind found⟩
  refine ⟨?_, fun found => (fits found).1, fun found => (fits found).2⟩
  rw [keys_add]
  exact Entries.nodup_addKeys h.distinct _

theorem Fits.foldl_add (h : Fits kindOf c) (kinds : ∀ d ∈ ds, d.kind = kindOf d.name) :
    Fits kindOf (ds.foldl Catalog.add c) := by
  induction ds generalizing c with
  | nil => exact h
  | cons d rest ih =>
    exact ih (h.add (kinds d List.mem_cons_self)) fun e he => kinds e (List.mem_cons_of_mem d he)

/-- **What a name holds** after declarations: its parts among them, added in order to what it held before. -/
theorem Fits.lookup?_foldl_add (h : Fits kindOf c) (kinds : ∀ d ∈ ds, d.kind = kindOf d.name) (name : Text) :
    Entries.lookup? name (ds.foldl Catalog.add c).own =
      (ds.filter (·.name = name)).foldl TypeDescriptor.added (Entries.lookup? name c.own) := by
  induction ds generalizing c with
  | nil => rfl
  | cons d rest ih =>
    have kind := kinds d List.mem_cons_self
    rw [List.foldl_cons, ih (h.add kind) fun e he => kinds e (List.mem_cons_of_mem d he), h.lookup?_add kind,
      List.filter_cons]
    by_cases same : d.name = name
    · rw [if_pos same, if_pos (decide_eq_true same), List.foldl_cons, same]
    · rw [if_neg same, if_neg (by simpa using same)]

/-! ## The types of a catalog as declarations -/

/-- Each type of a catalog stands under its name. -/
theorem Fits.name_eq (h : Fits kindOf c) : ∀ entry ∈ c.own, entry.2.name = entry.1 := fun _ member =>
  h.named (Entries.lookup?_of_mem h.distinct member)

theorem Fits.names_eq (h : Fits kindOf c) : c.types.map (·.name) = Entries.keys c.own := by
  rw [types, List.map_map]
  exact List.map_congr_left h.name_eq

theorem Fits.kind_eq (h : Fits kindOf c) : ∀ d ∈ c.types, d.kind = kindOf d.name := by
  intro d hd
  obtain ⟨entry, member, rfl⟩ := List.mem_map.1 hd
  rw [h.name_eq entry member]
  exact h.kind (Entries.lookup?_of_mem h.distinct member)

/-- **The types of a catalog add what its declarations would**, to any catalog of types of the same kinds. -/
theorem foldl_add_types (h : Fits kindOf c) (kinds : ∀ d ∈ ds, d.kind = kindOf d.name) :
    (ofList ds).types.foldl Catalog.add c = ds.foldl Catalog.add c := by
  have part : Fits kindOf (ofList ds) := fits_empty.foldl_add kinds
  have order : Entries.keys ((ofList ds).types.foldl Catalog.add c).own = Entries.keys (ds.foldl Catalog.add c).own := by
    rw [keys_foldl_add, keys_foldl_add, part.names_eq, ofList, keys_foldl_add, Entries.addKeys_addKeys]
    rfl
  have held : ∀ name, Entries.lookup? name ((ofList ds).types.foldl Catalog.add c).own =
      Entries.lookup? name (ds.foldl Catalog.add c).own := by
    intro name
    have own : (ofList ds).types.filter (·.name = name) = (Entries.lookup? name (ofList ds).own).toList :=
      Entries.filter_values part.distinct part.name_eq name
    rw [h.lookup?_foldl_add part.kind_eq, h.lookup?_foldl_add kinds, own, ofList, fits_empty.lookup?_foldl_add kinds]
    exact TypeDescriptor.foldl_added_merged _ _
  have own := Entries.ext_of_nodup (h.foldl_add part.kind_eq).distinct order held
  calc (ofList ds).types.foldl Catalog.add c
      = ⟨((ofList ds).types.foldl Catalog.add c).own, c.fallbacks⟩ := by rw [← fallbacks_foldl_add c (ofList ds).types]
    _ = ⟨(ds.foldl Catalog.add c).own, c.fallbacks⟩ := by rw [own]
    _ = ds.foldl Catalog.add c := by rw [← fallbacks_foldl_add c ds]

/-- Types may be declared file by file, each file's merged before. -/
theorem foldl_add_files {files : List (List TypeDescriptor)} (h : Fits kindOf c)
    (kinds : ∀ d ∈ files.flatten, d.kind = kindOf d.name) :
    (files.flatMap fun ds => (ofList ds).types).foldl Catalog.add c = files.flatten.foldl Catalog.add c := by
  induction files generalizing c with
  | nil => rfl
  | cons ds rest ih =>
    rw [List.flatten_cons] at kinds
    obtain ⟨here, later⟩ := List.forall_mem_append.1 kinds
    rw [List.flatMap_cons, List.flatten_cons, List.foldl_append, List.foldl_append, foldl_add_types h here,
      ih (h.foldl_add here) later]

end

end Catalog

/-- Declarations of one name agree on their kind. -/
def OneKind (ds : List TypeDescriptor) : Prop := ∀ d ∈ ds, ∀ e ∈ ds, d.name = e.name → d.kind = e.kind

instance (ds : List TypeDescriptor) : Decidable (OneKind ds) :=
  inferInstanceAs (Decidable (∀ d ∈ ds, ∀ e ∈ ds, d.name = e.name → d.kind = e.kind))

theorem OneKind.exists_kindOf {ds : List TypeDescriptor} (h : OneKind ds) :
    ∃ kindOf : Text → DeclarationKind, ∀ d ∈ ds, d.kind = kindOf d.name := by
  refine ⟨fun name => ((ds.find? (·.name = name)).map (·.kind)).getD .classType, fun d hd => ?_⟩
  cases found : ds.find? (·.name = d.name) with
  | none => simpa using List.find?_eq_none.1 found d hd
  | some e =>
    have same : e.name = d.name := by simpa using List.find?_some found
    show d.kind = ((ds.find? (·.name = d.name)).map (·.kind)).getD .classType
    rw [found]
    exact h d hd e (List.mem_of_find?_eq_some found) same.symm

/-- **It does not matter how declarations are spread over files**: where those of one name are of one kind, the types of
a whole project are those of one catalog of all its declarations, name by name and in order. -/
theorem Survey.projectCatalog_spread {s : Survey} {files : List (List TypeDescriptor)}
    (read : s.reports.map (·.document.catalog) = files.map Catalog.ofList) (kinds : OneKind files.flatten) :
    s.projectCatalog = Catalog.ofList files.flatten := by
  obtain ⟨kindOf, kinds⟩ := kinds.exists_kindOf
  have declared : s.reports.flatMap (·.document.catalog.types) = files.flatMap fun ds => (Catalog.ofList ds).types := by
    have := congrArg (List.flatMap Catalog.types) read
    rwa [List.flatMap_map, List.flatMap_map] at this
  rw [projectCatalog, declared]
  exact Catalog.foldl_add_files Catalog.fits_empty kinds

/-- a survey that has found two files, each of which declares a part of one type -/
def twoParts : Survey :=
  { settings := Settings.initial.completed
    target := ['.']
    cache := .unbounded
    counts := ⟨2, 0, 0⟩
    reports :=
      [⟨"A.cs", (readDocument
          "partial class User \x7b public int Id \x7b get; set; \x7d \x7d\nclass Team \x7b \x7d").value⟩,
        ⟨"B.cs", (readDocument ("class Role \x7b \x7d\npartial class User : Person \x7b ".toList ++
          "public int Id \x7b get; set; \x7d public int Age \x7b get; set; \x7d \x7d".toList)).value⟩] }

/-- the declarations of the two files: of a class or part, its name, its base and its properties of type `int` -/
def partsOfTwo : List (List TypeDescriptor) :=
  let part (name : Text) (base : Option Text) (properties : List Text) : TypeDescriptor :=
    ⟨name, .classType, properties.map fun p => ⟨p, "int", none, none, false⟩, base, [], [], none⟩
  [[part "User" none ["Id"], part "Team" none []],
    [part "Role" none [], part "User" (some "Person") ["Id", "Age"]]]

theorem Survey.projectCatalog_spread_twoParts :
    (twoParts.reports.map (·.document.catalog) = partsOfTwo.map Catalog.ofList ∧ OneKind partsOfTwo.flatten) ∧
      twoParts.projectCatalog = Catalog.ofList partsOfTwo.flatten ∧
      (Catalog.ofList partsOfTwo.flatten).types.map (fun d => (d.name, d.properties.map (·.name), d.baseType)) =
        ([("User", ["Id", "Age"], some "Person"), ("Team", [], none), ("Role", [], none)] :
          List (Text × List Text × Option Text)) := by
  have read : twoParts.reports.map (·.document.catalog) = partsOfTwo.map Catalog.ofList := by decide +kernel
  have kinds : OneKind partsOfTwo.flatten := by decide
  exact ⟨⟨read, kinds⟩, Survey.projectCatalog_spread read kinds, by decide⟩

/-! ## A type declared once more -/

namespace Entries

/-- Writing what is held already changes nothing. -/
theorem insert_of_lookup? {α : Type} {key : Text} {value : α} {entries : Entries α}
    (h : lookup? key entries = some value) : insert key value entries = entries := by
  induction entries with
  | nil => cases h
  | cons entry rest ih =>
    obtain ⟨k, v⟩ := entry
    by_cases same : k = key
    · subst same
      have held : v = value := by simpa [lookup?] using h
      rw [insert, if_pos rfl, held]
    · rw [lookup?, if_neg same] at h
      rw [insert, if_neg same, ih h]

end Entries

theorem firstGiven_self (a : Option Text) : firstGiven a a = a := by
  rcases a with _ | _ | ⟨_, _⟩ <;> rfl

namespace TypeDescriptor

/-- the type with further members behind its own -/
def withMembers (d : TypeDescriptor) (more : List Text) : TypeDescriptor :=
  { d with enumMembers := d.enumMembers ++ more }

theorem withMembers_eq_self_iff {d : TypeDescriptor} {more : List Text} : d.withMembers more = d ↔ more = [] := by
  constructor
  · intro same
    have members : d.enumMembers ++ more = d.enumMembers := congrArg enumMembers same
    exact List.append_right_eq_self.1 members
  · rintro rfl
    simp [withMembers]

/-- Merged with itself, a type has its members twice and is the same else. -/
theorem merge_self (d : TypeDescriptor) : d.merge d = d.withMembers d.enumMembers := by
  have known : d.properties.filter (fun p => !(d.properties.map (·.name)).contains p.name) = [] := by
    refine List.filter_eq_nil_iff.2 fun p member => ?_
    simpa using ⟨p, member, rfl⟩
  have parameters : (if d.typeParameters.isEmpty then d.typeParameters else d.typeParameters) = d.typeParameters :=
    ite_self _
  simp only [merge, withMembers, known, List.append_nil, firstGiven_self, parameters]

theorem merge_withMembers (d part : TypeDescriptor) (more : List Text) :
    d.merge (part.withMembers more) = (d.merge part).withMembers more := by
  simp only [merge, withMembers, List.append_assoc]

/-- **A part that is merged again adds its members and nothing else.** -/
theorem merge_merge (d part : TypeDescriptor) :
    (d.merge part).merge part = (d.merge part).withMembers part.enumMembers := by
  rw [merge_assoc, merge_self, merge_withMembers]

end TypeDescriptor

namespace Catalog

variable {c : Catalog} {d : TypeDescriptor}

/-- the declaration is passed over: its name is known for another kind of type -/
def PassesOver (c : Catalog) (d : TypeDescriptor) : Prop :=
  ∃ known ∈ Entries.lookup? d.name c.own, known.kind ≠ d.kind

instance (c : Catalog) (d : TypeDescriptor) : Decidable (c.PassesOver d) :=
  inferInstanceAs (Decidable (∃ known ∈ Entries.lookup? d.name c.own, known.kind ≠ d.kind))

theorem add_of_passesOver (h : c.PassesOver d) : c.add d = c := by
  obtain ⟨known, held, other⟩ := h
  unfold add
  rw [Option.mem_def.1 held]
  exact if_neg other

/-- A declaration that is not passed over leaves a type of its kind, which takes nothing from it but members. -/
theorem held_of_not_passesOver (h : ¬ c.PassesOver d) :
    ∃ held, Entries.lookup? d.name (c.add d).own = some held ∧ held.kind = d.kind ∧
      held.merge d = held.withMembers d.enumMembers := by
  rw [lookup?_add, if_pos rfl]
  cases found : Entries.lookup? d.name c.own with
  | none => exact ⟨d, rfl, rfl, d.merge_self⟩
  | some known =>
    have kind : known.kind = d.kind := Decidable.byContradiction fun other => h ⟨known, found, other⟩
    exact ⟨known.merge d, congrArg some (if_pos kind), kind, known.merge_merge d⟩

theorem add_add_of_not_passesOver (h : ¬ c.PassesOver d) :
    ∃ held, Entries.lookup? d.name (c.add d).own = some held ∧
      (c.add d).add d =
        { c.add d with own := Entries.insert d.name (held.withMembers d.enumMembers) (c.add d).own } := by
  obtain ⟨held, found, kind, merged⟩ := held_of_not_passesOver h
  refine ⟨held, found, ?_⟩
  rw [add.eq_def (c.add d), found]
  simp only [kind, merged, if_true]

/-- The second time changes nothing exactly if the type has no members or is passed over. -/
theorem add_add_eq_iff (c : Catalog) (d : TypeDescriptor) :
    (c.add d).add d = c.add d ↔ d.enumMembers = [] ∨ c.PassesOver d := by
  by_cases passed : c.PassesOver d
  · exact iff_of_true (add_of_passesOver (by rwa [add_of_passesOver passed])) (.inr passed)
  · obtain ⟨held, found, again⟩ := add_add_of_not_passesOver passed
    rw [or_iff_left passed, ← TypeDescriptor.withMembers_eq_self_iff (d := held), again]
    constructor
    · intro same
      have own : Entries.insert d.name (held.withMembers d.enumMembers) (c.add d).own = (c.add d).own :=
        congrArg Catalog.own same
      have written := Entries.lookup?_insert d.name d.name (held.withMembers d.enumMembers) (c.add d).own
      rw [own, found, if_pos rfl] at written
      exact (Option.some.inj written).symm
    · intro same
      rw [same, Entries.insert_of_lookup? found]

theorem lookup?_add_add (c : Catalog) (d : TypeDescriptor) (name : Text) :
    Entries.lookup? name ((c.add d).add d).own = (Entries.lookup? name (c.add d).own).map fun held =>
      if name = d.name ∧ ¬ c.PassesOver d then held.withMembers d.enumMembers else held := by
  by_cases passed : c.PassesOver d
  · rw [add_of_passesOver passed, add_of_passesOver passed]
    simp [passed]
  · obtain ⟨held, found, again⟩ := add_add_of_not_passesOver passed
    rw [again, Entries.lookup?_insert]
    by_cases same : d.name = name
    · subst same
      simp [found, passed]
    · simp [same, Ne.symm same]

theorem keys_add_add (c : Catalog) (d : TypeDescriptor) :
    Entries.keys ((c.add d).add d).own = Entries.keys (c.add d).own := by
  have known : d.name ∈ Entries.keys (c.add d).own := by
    rw [keys_add]
    exact (Entries.mem_addKeys ..).2 (.inr List.mem_cons_self)
  rw [keys_add]
  exact if_pos known

theorem enumMembers_describe_eq_nil_iff (b : TypeBlock) :
    (describe b).value.enumMembers = [] ↔ b.kind ≠ .enumType ∨ enumMembersOf b.body = [] := by
  unfold describe
  split
  · next enumeration =>
    rw [Traced.value_pure]
    exact (or_iff_right fun other => other enumeration).symm
  · next other =>
    rw [Traced.value_bind, Traced.value_pure]
    exact iff_of_true rfl (.inl other)

/-- **What declaring a type twice in a row does.** The names stay as they are. Under its own name the second time
appends the members of the type to what is held by then, unless the declaration is passed over, and it leaves all else
as it is. So the second time changes nothing exactly if the type has no members or its name is known for another kind;
of the declarations of a document, those that change a catalog again are the enumerations with members. -/
theorem declared_twice (c : Catalog) :
    (∀ d : TypeDescriptor,
      Entries.keys ((c.add d).add d).own = Entries.keys (c.add d).own ∧
      (∀ name, Entries.lookup? name ((c.add d).add d).own = (Entries.lookup? name (c.add d).own).map fun held =>
        if name = d.name ∧ ¬ c.PassesOver d then held.withMembers d.enumMembers else held) ∧
      ((c.add d).add d = c.add d ↔ d.enumMembers = [] ∨ c.PassesOver d)) ∧
    ∀ b : TypeBlock, (c.add (describe b).value).add (describe b).value = c.add (describe b).value ↔
      b.kind ≠ .enumType ∨ enumMembersOf b.body = [] ∨ c.PassesOver (describe b).value := by
  refine ⟨fun d => ⟨keys_add_add c d, lookup?_add_add c d, add_add_eq_iff c d⟩, fun b => ?_⟩
  rw [add_add_eq_iff, enumMembers_describe_eq_nil_iff, or_assoc]

/-- a type of two members -/
def shade : TypeDescriptor := ⟨"Shade", .enumType, [], none, [], ["Light", "Dark"], none⟩

example : (((empty.add shade).add shade).types.map (·.enumMembers)) =
    ([["Light", "Dark", "Light", "Dark"]] : List (List Text)) := by decide

end Catalog

end EndpointSurvey
