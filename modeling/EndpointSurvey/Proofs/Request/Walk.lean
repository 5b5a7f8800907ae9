/-
The walk that writes out a type: which object types it enters, when it can write out all of them, and which values it
ends with. It enters an object type unless the type is among those that enclose it already, or too many do.

Main statements:
- `Sample.valueFor_fits`: a sample value has the form that its scalar asks for;
- `Skeleton.writes_ofType`: a value of a type is written out exactly if the properties of every object type entered on the
  way are, and then it conforms to the type;
- `Skeleton.ends_ofTextType` and `Skeleton.ends_ofParameter`: single texts and the entries of a query or a form enter the
  same types.
-/
import EndpointSurvey.Proofs.Entries
import EndpointSurvey.Proofs.Request.Outcome

namespace EndpointSurvey

/-! ## Scalars -/

/-- the form of a value of a scalar -/
def Scalar.Admits : Scalar → Json → Prop
  | .integer, v => ∃ n, v = .int n
  | .number, v => (∃ n, v = .int n) ∨ ∃ x, v = .float x
  | .boolean, v => ∃ b, v = .bool b
  | _, v => ∃ t, v = .string t

namespace Sample

theorem fallback_fits (now : Instant) (scalar : Scalar) :
    ∀ v ∈ Skeleton.slotValues (fallback now scalar), scalar.Admits v := by
  cases scalar <;> simp [fallback, Skeleton.slotValues, texts, Scalar.Admits, hundredths]

theorem ofRule_fits (now : Instant) {scalar : Scalar} {value : RuleValue} (h : value.suits scalar = true) :
    scalar.Admits (ofRule now scalar value) := by
  cases value <;> cases scalar <;> simp [RuleValue.suits] at h <;> simp [ofRule, Scalar.Admits]

/-- A sample value has the form that its scalar asks for, whatever rule or pool it comes from. -/
theorem valueFor_fits (now : Instant) (name : Text) (scalar : Scalar) :
    ∀ v ∈ Skeleton.slotValues (valueFor now name scalar), scalar.Admits v := by
  unfold valueFor
  split
  · next rule found =>
    intro v member
    rw [List.mem_singleton.1 member]
    exact ofRule_fits now (NameRule.find?_suits found).2
  · exact fallback_fits now scalar

end Sample

/-! ## The object types that are entered -/

/-- an object type that is not entered inside these object types -/
def ResolvedType.CutOff (enclosing : List Text) : ResolvedType → Prop
  | .object _ _ d _ => d.name ∈ enclosing ∨ Skeleton.depthLimit ≤ enclosing.length
  | _ => False

namespace Catalog

/-- `Entered c enclosing r o`: writing out `r` inside the enclosing object types enters the object type `o` -/
inductive Entered (c : Catalog) : List Text → ResolvedType → ResolvedType → Prop where
  | item {enclosing : List Text} {name : Text} {nullable : Bool} {element o : ResolvedType}
      (h : Entered c enclosing element o) : Entered c enclosing (.collection name nullable element) o
  | entry {enclosing : List Text} {name : Text} {nullable : Bool} {element o : ResolvedType} {arguments : List Text}
      (h : Entered c enclosing element o) : Entered c enclosing (.dictionary name nullable element arguments) o
  | here {enclosing : List Text} {name : Text} {nullable : Bool} {d : TypeDescriptor} {arguments : List Text}
      (open_ : ¬ (ResolvedType.object name nullable d arguments).CutOff enclosing) :
      Entered c enclosing (.object name nullable d arguments) (.object name nullable d arguments)
  | property {enclosing : List Text} {name : Text} {nullable : Bool} {d : TypeDescriptor} {arguments : List Text}
      {properties : List Property} {p : Property} {o : ResolvedType}
      (open_ : ¬ (ResolvedType.object name nullable d arguments).CutOff enclosing)
      (found : c.propertiesOf (.object name nullable d arguments) = .ok properties) (member : p ∈ properties)
      (h : Entered c (enclosing ++ [d.name]) (c.resolve p.typeText) o) :
      Entered c enclosing (.object name nullable d arguments) o

/-- the properties of every object type entered on the way can be written out -/
def Writable (c : Catalog) (enclosing : List Text) (r : ResolvedType) : Prop :=
  ∀ o, c.Entered enclosing r o → ∃ properties, c.propertiesOf o = .ok properties

/-- no object type entered on the way has two properties of one name on the wire -/
def Distinct (c : Catalog) (enclosing : List Text) (r : ResolvedType) : Prop :=
  ∀ o properties, c.Entered enclosing r o → c.propertiesOf o = .ok properties → (properties.map Property.wireName).Nodup

/-- the error of an object type entered on the way -/
def Blocked (c : Catalog) (enclosing : List Text) (r : ResolvedType) (e : RequestError) : Prop :=
  ∃ o cause, c.Entered enclosing r o ∧ c.propertiesOf o = .error cause ∧ e = .template cause

/-- the values of a type inside the enclosing object types -/
inductive Conforms (c : Catalog) : List Text → ResolvedType → Json → Prop where
  | primitive {enclosing : List Text} {name : Text} {nullable : Bool} {scalar : Scalar} {v : Json}
      (h : scalar.Admits v) : Conforms c enclosing (.primitive name nullable scalar) v
  | firstMember {enclosing : List Text} {name first : Text} {nullable : Bool} {d : TypeDescriptor} {rest : List Text}
      (h : d.enumMembers = first :: rest) : Conforms c enclosing (.enumeration name nullable d) (.string first)
  | noMember {enclosing : List Text} {name placeholder : Text} {nullable : Bool} {d : TypeDescriptor}
      (h : d.enumMembers = []) : Conforms c enclosing (.enumeration name nullable d) (.string placeholder)
  | file {enclosing : List Text} {name : Text} {nullable : Bool} :
      Conforms c enclosing (.file name nullable) (.string Skeleton.fileMark)
  | untyped {enclosing : List Text} {name : Text} {nullable known : Bool} {arguments : List Text} :
      Conforms c enclosing (.untyped name nullable arguments known) (.object [])
  | dictionary {enclosing : List Text} {name : Text} {nullable : Bool} {element : ResolvedType} {arguments : List Text}
      {v : Json} (h : Conforms c enclosing element v) :
      Conforms c enclosing (.dictionary name nullable element arguments) (.object [("key", v)])
  | noItem {enclosing : List Text} {name : Text} {nullable : Bool} {element : ResolvedType}
      (cut : element.CutOff enclosing) : Conforms c enclosing (.collection name nullable element) (.array [])
  | item {enclosing : List Text} {name : Text} {nullable : Bool} {element : ResolvedType} {v : Json}
      (open_ : ¬ element.CutOff enclosing) (h : Conforms c enclosing element v) :
      Conforms c enclosing (.collection name nullable element) (.array [v])
  | cut {enclosing : List Text} {name : Text} {nullable : Bool} {d : TypeDescriptor} {arguments : List Text}
      (h : (ResolvedType.object name nullable d arguments).CutOff enclosing) :
      Conforms c enclosing (.object name nullable d arguments) .null
  | members {enclosing : List Text} {name : Text} {nullable : Bool} {d : TypeDescriptor} {arguments : List Text}
      {properties : List Property} {members : List (Text × Json)}
      (open_ : ¬ (ResolvedType.object name nullable d arguments).CutOff enclosing)
      (found : c.propertiesOf (.object name nullable d arguments) = .ok properties)
      (keys : members.map Prod.fst = properties.map Property.wireName)
      (values : ∀ pair ∈ properties.zip members,
        Conforms c (enclosing ++ [d.name]) (c.resolve pair.1.typeText) pair.2.2) :
      Conforms c enclosing (.object name nullable d arguments) (.object members)

variable {c : Catalog} {enclosing : List Text} {name : Text} {nullable : Bool} {d : TypeDescriptor}
  {arguments : List Text} {element r : ResolvedType} {properties : List Property} {e : RequestError}

/-! ## What a type enters -/

theorem entered_collection_iff {o : ResolvedType} :
    c.Entered enclosing (.collection name nullable element) o ↔ c.Entered enclosing element o :=
  ⟨fun | .item h => h, .item⟩

theorem entered_dictionary_iff {o : ResolvedType} :
    c.Entered enclosing (.dictionary name nullable element arguments) o ↔ c.Entered enclosing element o :=
  ⟨fun | .entry h => h, .entry⟩

theorem not_entered_cut {o : ResolvedType} (cut : (ResolvedType.object name nullable d arguments).CutOff enclosing) :
    ¬ c.Entered enclosing (.object name nullable d arguments) o
  | .here open_ => open_ cut
  | .property open_ .. => open_ cut

theorem writable_of_none (none : ∀ o, ¬ c.Entered enclosing r o) : c.Writable enclosing r :=
  fun o entered => (none o entered).elim

theorem not_entered_scalar (scalar : r.scalar?.isSome) (o : ResolvedType) : ¬ c.Entered enclosing r o := by
  intro entered
  cases entered <;> cases scalar

theorem writable_collection_iff :
    c.Writable enclosing (.collection name nullable element) ↔ c.Writable enclosing element := by
  simp only [Writable, entered_collection_iff]

theorem writable_dictionary_iff :
    c.Writable enclosing (.dictionary name nullable element arguments) ↔ c.Writable enclosing element := by
  simp only [Writable, entered_dictionary_iff]

theorem Blocked.item (h : c.Blocked enclosing element e) : c.Blocked enclosing (.collection name nullable element) e :=
  let ⟨o, cause, entered, failed, same⟩ := h
  ⟨o, cause, .item entered, failed, same⟩

theorem Blocked.entry (h : c.Blocked enclosing element e) :
    c.Blocked enclosing (.dictionary name nullable element arguments) e :=
  let ⟨o, cause, entered, failed, same⟩ := h
  ⟨o, cause, .entry entered, failed, same⟩

section Object

variable (open_ : ¬ (ResolvedType.object name nullable d arguments).CutOff enclosing)
  (found : c.propertiesOf (.object name nullable d arguments) = .ok properties)
include open_ found

theorem writable_object_iff :
    c.Writable enclosing (.object name nullable d arguments) ↔
      ∀ p ∈ properties, c.Writable (enclosing ++ [d.name]) (c.resolve p.typeText) := by
  constructor
  · intro writable p member o entered
    exact writable o (.property open_ found member entered)
  · intro writable o entered
    cases entered with
    | here => exact ⟨properties, found⟩
    | property _ found' member entered =>
      rw [found] at found'
      cases found'
      exact writable _ member o entered

theorem Distinct.property (distinct : c.Distinct enclosing (.object name nullable d arguments)) {p : Property}
    (member : p ∈ properties) : c.Distinct (enclosing ++ [d.name]) (c.resolve p.typeText) :=
  fun o _ entered => distinct o _ (.property open_ found member entered)

theorem Blocked.property {p : Property} (member : p ∈ properties)
    (h : c.Blocked (enclosing ++ [d.name]) (c.resolve p.typeText) e) :
    c.Blocked enclosing (.object name nullable d arguments) e :=
  let ⟨o, cause, entered, failed, same⟩ := h
  ⟨o, cause, .property open_ found member entered, failed, same⟩

end Object

end Catalog

namespace Skeleton

open Filling Catalog

variable {setting : Setting} {picker : Picker} {enclosing : List Text}

/-! ## Values -/

theorem ofItem_cut {element : ResolvedType} (name : Text) (cut : element.CutOff enclosing) :
    ofItem element (ofType setting enclosing name element) = .items [] := by
  cases element with
  | object typeName nullable d arguments => rw [ofType_object_cut _ _ _ _ _ _ _ cut, ofItem]
  | _ => cases cut

theorem ofItem_open {element : ResolvedType} (name : Text) (open_ : ¬ element.CutOff enclosing) :
    ofItem element (ofType setting enclosing name element) = .items [ofType setting enclosing name element] := by
  cases element with
  | object typeName nullable d arguments =>
    have entered : ¬ (enclosing.contains d.name || decide (depthLimit ≤ enclosing.length)) = true := by
      simpa [ResolvedType.CutOff] using open_
    rw [ofType, dif_neg entered]
    split <;> rfl
  | _ => rfl

/-- filling the skeleton writes out a value of the type, or fails with the error of an object type entered -/
def Writes (setting : Setting) (picker : Picker) (enclosing : List Text) (r : ResolvedType) (s : Skeleton) : Prop :=
  (fill picker s).Ends (setting.catalog.Writable enclosing r)
    (fun v => setting.catalog.Distinct enclosing r → setting.catalog.Conforms enclosing r v)
    (setting.catalog.Blocked enclosing r)

/-- a skeleton of a type that enters nothing -/
theorem writes_of_none {r : ResolvedType} {s : Skeleton} (good : Json → Prop)
    (none : ∀ o, ¬ setting.catalog.Entered enclosing r o)
    (h : (fill picker s).Ends True good (setting.catalog.Blocked enclosing r))
    (conforms : ∀ v, good v → setting.catalog.Conforms enclosing r v) : Writes setting picker enclosing r s :=
  h.imp (iff_of_true trivial (writable_of_none none)) (fun v hv _ => conforms v hv) fun _ => id

theorem writes_collection {typeName name : Text} {nullable : Bool} {element : ResolvedType}
    (h : Writes setting picker enclosing element (ofType setting enclosing name element)) :
    Writes setting picker enclosing (.collection typeName nullable element)
      (ofItem element (ofType setting enclosing name element)) := by
  by_cases cut : element.CutOff enclosing
  · rw [ofItem_cut name cut]
    refine writes_of_none (· = .array []) ?_ ?_ ?_
    · intro o entered
      cases element with
      | object => exact not_entered_cut cut (entered_collection_iff.1 entered)
      | _ => cases cut
    · rw [fill, fillItems]
      exact (Ends.pure rfl).map fun _ same => by rw [same]
    · rintro v rfl
      exact .noItem cut
  · rw [ofItem_open name cut, Writes, fill_item]
    refine (h.map fun v conforms distinct => ?_).imp writable_collection_iff.symm (fun _ => id) fun _ => Blocked.item
    exact .item cut (conforms fun o _ entered => distinct o _ (.item entered))

theorem writes_dictionary {typeName name : Text} {nullable : Bool} {element : ResolvedType} {arguments : List Text}
    (h : Writes setting picker enclosing element (ofType setting enclosing name element)) :
    Writes setting picker enclosing (.dictionary typeName nullable element arguments)
      (.members [("key", ofType setting enclosing name element)]) := by
  rw [Writes, fill_member]
  refine (h.map fun v conforms distinct => ?_).imp writable_dictionary_iff.symm (fun _ => id) fun _ => Blocked.entry
  exact .dictionary (conforms fun o _ entered => distinct o _ (.entry entered))

theorem writes_failed {typeName : Text} {nullable : Bool} {d : TypeDescriptor} {arguments : List Text}
    {cause : Template.Error} (open_ : ¬ (ResolvedType.object typeName nullable d arguments).CutOff enclosing)
    (failed : setting.catalog.propertiesOf (.object typeName nullable d arguments) = .error cause) :
    Writes setting picker enclosing (.object typeName nullable d arguments) (.failed cause) := by
  have blocked : setting.catalog.Blocked enclosing (.object typeName nullable d arguments) (.template cause) :=
    ⟨_, cause, .here open_, failed, rfl⟩
  rw [Writes, fill]
  refine (Ends.throw blocked).imp ?_ (fun _ => id) fun _ => id
  refine iff_of_false id fun writable => ?_
  obtain ⟨properties, found⟩ := writable _ (.here open_)
  rw [failed] at found
  cases found

theorem writes_members {typeName : Text} {nullable : Bool} {d : TypeDescriptor} {arguments : List Text}
    {properties : List Property} (open_ : ¬ (ResolvedType.object typeName nullable d arguments).CutOff enclosing)
    (found : setting.catalog.propertiesOf (.object typeName nullable d arguments) = .ok properties)
    (h : ∀ p ∈ properties, Writes setting picker (enclosing ++ [d.name]) (setting.catalog.resolve p.typeText)
      (ofType setting (enclosing ++ [d.name]) p.name (setting.catalog.resolve p.typeText))) :
    Writes setting picker enclosing (.object typeName nullable d arguments) (.members (properties.map fun p =>
      (p.wireName, ofType setting (enclosing ++ [d.name]) p.name (setting.catalog.resolve p.typeText)))) := by
  rw [Writes, fill]
  have within := fun p member => (h p member).imp Iff.rfl (fun _ => id) fun _ => Blocked.property open_ found member
  refine ((ends_members within).map fun members same => ?_).imp (writable_object_iff open_ found).symm
    (fun _ => id) fun _ => id
  intro distinct
  have keys : members.map Prod.fst = properties.map Property.wireName := keys_of_members same
  rw [Entries.ofList_of_nodup (by rw [Entries.keys, keys]; exact distinct _ _ (.here open_) found)]
  refine .members open_ found keys fun pair member => ?_
  have written := (List.forall₂_iff_zip.1 same).2 member
  exact written.2 (distinct.property open_ found (List.of_mem_zip member).1)

theorem cutOff_iff {typeName : Text} {nullable : Bool} {d : TypeDescriptor} {arguments : List Text} :
    (ResolvedType.object typeName nullable d arguments).CutOff enclosing ↔
      (enclosing.contains d.name || decide (depthLimit ≤ enclosing.length)) = true := by
  simp [ResolvedType.CutOff]

theorem ends_ofUntyped {typeName name : Text} {known : Bool} {s : Skeleton} {ok : Prop} {good : Json → Prop}
    {bad : RequestError → Prop} (h : (fill picker s).Ends ok good bad) :
    (fill picker (ofUntyped typeName name known s)).Ends ok good bad := by
  unfold ofUntyped
  split
  · exact h
  · exact ends_noted h

/-- **A value of a type is written out** exactly if the properties of every object type entered on the way are, and then
it conforms to the type; the error is that of a type entered. -/
theorem writes_ofType (setting : Setting) (picker : Picker) (enclosing : List Text) (name : Text) (r : ResolvedType) :
    Writes setting picker enclosing r (ofType setting enclosing name r) := by
  fun_induction ofType setting enclosing name r with
  | case1 enclosing name typeName nullable scalar =>
    exact writes_of_none _ nofun (ends_slot (Sample.valueFor_fits setting.now name scalar)) fun _ => .primitive
  | case2 enclosing name typeName nullable d first rest members =>
    refine writes_of_none (· = .string first) nofun (ends_slot (by simp [slotValues])) ?_
    rintro _ rfl
    exact .firstMember members
  | case3 enclosing name typeName nullable d none =>
    refine writes_of_none _ nofun (ends_noted (ends_slot (Sample.valueFor_fits setting.now name .string))) ?_
    rintro _ ⟨placeholder, rfl⟩
    exact .noMember none
  | case4 enclosing name typeName nullable =>
    refine writes_of_none (· = .string fileMark) nofun (ends_slot (by simp [slotValues])) ?_
    rintro _ rfl
    exact .file
  | case5 enclosing name typeName nullable element ih => exact writes_collection ih
  | case6 enclosing name typeName nullable element arguments ih => exact writes_dictionary ih
  | case7 enclosing name typeName nullable arguments known =>
    refine writes_of_none (· = .object []) nofun (ends_ofUntyped ?_) ?_
    · rw [fill, fillMembers, pure_bind]
      exact Ends.pure rfl
    · rintro _ rfl
      exact .untyped
  | case8 enclosing name typeName nullable d arguments cut =>
    refine writes_of_none (· = .null) (fun _ => not_entered_cut (cutOff_iff.2 cut)) ?_ ?_
    · rw [fill]
      exact Ends.pure rfl
    · rintro _ rfl
      exact .cut (cutOff_iff.2 cut)
  | case9 enclosing name typeName nullable d arguments open_ cause failed =>
    rw [failed]
    exact writes_failed (mt cutOff_iff.1 open_) failed
  | case10 enclosing name typeName nullable d arguments open_ properties found ih =>
    rw [found]
    exact writes_members (mt cutOff_iff.1 open_) found fun p _ => ih p

/-! ## Texts and entries -/

theorem ends_none {α : Type} {x : Filling α} {r : ResolvedType} {good : α → Prop}
    (none : ∀ o, ¬ setting.catalog.Entered enclosing r o)
    (h : x.Ends True good (setting.catalog.Blocked enclosing r)) :
    x.Ends (setting.catalog.Writable enclosing r) good (setting.catalog.Blocked enclosing r) :=
  h.imp (iff_of_true trivial (writable_of_none none)) (fun _ => id) fun _ => id

/-- A single text enters the types that a value would. -/
theorem ends_ofTextType (setting : Setting) (picker : Picker) (enclosing : List Text) (name : Text) (r : ResolvedType) :
    (fill picker (ofTextType setting enclosing name r)).Ends (setting.catalog.Writable enclosing r) (fun _ => True)
      (setting.catalog.Blocked enclosing r) := by
  unfold ofTextType
  split
  · exact ends_none nofun (ends_ofUntyped (ends_slot fun _ _ => trivial))
  · exact (writes_ofType setting picker enclosing name r).imp Iff.rfl (fun _ _ => trivial) fun _ => id

theorem entered_throughCollection_iff {c : Catalog} {r o : ResolvedType} :
    c.Entered enclosing (throughCollection r) o ↔ c.Entered enclosing r o := by
  cases r with
  | collection => exact entered_collection_iff.symm
  | _ => rfl

theorem ends_throughCollection {α : Type} {x : Filling α} {r : ResolvedType} {good : α → Prop}
    (h : x.Ends (setting.catalog.Writable enclosing (throughCollection r)) good
      (setting.catalog.Blocked enclosing (throughCollection r))) :
    x.Ends (setting.catalog.Writable enclosing r) good (setting.catalog.Blocked enclosing r) := by
  refine h.imp ?_ (fun _ => id) ?_
  · simp only [Writable, entered_throughCollection_iff]
  · rintro e ⟨o, cause, entered, failed⟩
    exact ⟨o, cause, entered_throughCollection_iff.1 entered, failed⟩

theorem not_entered_file {c : Catalog} {r o : ResolvedType} (file : r.isFile = true) : ¬ c.Entered enclosing r o := by
  intro entered
  induction entered with
  | item _ ih => exact ih file
  | _ => cases file

/-- The entries of a value enter the types that the value itself would. -/
theorem ends_flatten (setting : Setting) (picker : Picker) (enclosing : List Text) (key : Text) (r : ResolvedType) :
    (fillEntries picker (flatten setting enclosing key r)).Ends (setting.catalog.Writable enclosing r) (fun _ => True)
      (setting.catalog.Blocked enclosing r) := by
  fun_induction flatten setting enclosing key r with
  | case1 enclosing key r file =>
    exact ends_none (fun _ => not_entered_file file) (ends_entry (ends_slot fun _ _ => trivial))
  | case2 enclosing key r _ typeName nullable d arguments target cut =>
    refine ends_throughCollection (ends_none ?_ ?_)
    · rw [target]
      exact fun _ => not_entered_cut (cutOff_iff.2 cut)
    · rw [fillEntries]
      exact Ends.pure trivial
  | case3 enclosing key r _ typeName nullable d arguments target open_ cause failed =>
    refine ends_throughCollection ?_
    rw [target]
    exact ends_entry (writes_failed (mt cutOff_iff.1 open_) failed)
  | case4 enclosing key r _ typeName nullable d arguments target open_ properties found ih =>
    refine ends_throughCollection ?_
    rw [target]
    have within := fun p (member : p ∈ properties) => (ih p).imp Iff.rfl (fun _ => id) fun _ =>
      Blocked.property (mt cutOff_iff.1 open_) found member
    exact (ends_entries within).imp (writable_object_iff (mt cutOff_iff.1 open_) found).symm (fun _ => id) fun _ => id
  | case5 enclosing key r _ _ => exact ends_throughCollection (ends_entry (ends_ofTextType ..))

/-- The entries of a parameter enter the types that its value would. -/
theorem ends_ofParameter (setting : Setting) (picker : Picker) (p : Parameter) :
    (fillEntries picker (ofParameter setting p)).Ends (setting.catalog.Writable [] (setting.catalog.resolve p.typeText))
      (fun _ => True) (setting.catalog.Blocked [] (setting.catalog.resolve p.typeText)) := by
  have flattened := ends_flatten setting picker [] p.name (setting.catalog.resolve p.typeText)
  unfold ofParameter
  split
  · next nothing =>
    rw [nothing, fillEntries] at flattened
    have writable : setting.catalog.Writable [] (setting.catalog.resolve p.typeText) := by
      by_contra blocked
      obtain ⟨e, s, run, _⟩ := flattened.fails blocked ⟨0, []⟩
      cases run
    exact (ends_entry (ends_noted (ends_slot fun _ _ => trivial))).imp (iff_of_true trivial writable)
      (fun _ => id) fun _ => id
  · exact flattened

end Skeleton

end EndpointSurvey
