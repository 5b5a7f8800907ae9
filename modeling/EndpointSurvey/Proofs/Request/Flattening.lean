/-
What a query or a form makes of a parameter: a model is written as one entry for each path of property names that leads
down from it to a value that is no model itself. A list is looked through by one layer at each step, no object type
stands twice on a path, and no path is longer than the limit.

Main statements:
- `Skeleton.mem_flatten_iff` (by induction over the walk: which keys there are) and `Skeleton.nodup_flatten` (none of
  them twice);
- `Skeleton.flattens` (what a parameter contributes, and that it can be filled in);
- `parameters_flatten` (so no parameter is lost from a request).
-/
import EndpointSurvey.Proofs.Catalog.Lineage
import EndpointSurvey.Proofs.Request.Outline
import EndpointSurvey.Proofs.Text.Spacing

namespace EndpointSurvey

open Skeleton

/-- the object type that a query or form looks into: the type itself, or that of the elements of a list -/
def ResolvedType.model? (r : ResolvedType) : Option ResolvedType :=
  match throughCollection r with
  | .object name nullable d arguments => some (.object name nullable d arguments)
  | _ => none

namespace Catalog

/-- `Descends c r steps s`: the steps lead from `r` down to `s`; each is the name of an object type and that of one of its
properties -/
inductive Descends (c : Catalog) : ResolvedType → List (Text × Text) → ResolvedType → Prop
  | here (r : ResolvedType) : Descends c r [] r
  | into {r s : ResolvedType} {typeName : Text} {nullable : Bool} {d : TypeDescriptor} {arguments : List Text}
      {properties : List Property} {p : Property} {steps : List (Text × Text)}
      (model : r.model? = some (.object typeName nullable d arguments))
      (found : c.propertiesOf (.object typeName nullable d arguments) = .ok properties) (member : p ∈ properties)
      (rest : Descends c (c.resolve p.typeText) steps s) : Descends c r ((d.name, p.name) :: steps) s

/-- Inside the enclosing object types the steps lead down to a value that is no model; no object type stands twice on
the way, and there are no more of them than the limit. -/
structure Leads (c : Catalog) (enclosing : List Text) (r : ResolvedType) (steps : List (Text × Text)) : Prop where
  leaf : ∃ s, c.Descends r steps s ∧ s.model? = none
  short : enclosing.length + steps.length ≤ depthLimit
  distinct : (enclosing ++ steps.map Prod.fst).Nodup

/-- no property of the catalog or its fallbacks has a dot in its name -/
def Dotless (c : Catalog) : Prop := ∀ d ∈ c.reachable, ∀ p ∈ d.properties, '.' ∉ p.name

/-- the object type behind a type, if any, is declared in the catalog or its fallbacks -/
def Declares (c : Catalog) (r : ResolvedType) : Prop := ∀ d, (throughCollection r).descriptor? = some d → d ∈ c.reachable

end Catalog

namespace Skeleton

/-- what a query or form makes of a parameter -/
structure Flattens (setting : Setting) (p : Parameter) : Prop where
  distinct : ((ofParameter setting p).map Entry.key).Nodup
  /-- the keys of a model are its paths -/
  model : (setting.catalog.resolve p.typeText).model?.isSome → ∀ key,
    key ∈ (flatten setting [] p.name (setting.catalog.resolve p.typeText)).map Entry.key ↔
      ∃ steps, setting.catalog.Leads [] (setting.catalog.resolve p.typeText) steps ∧
        key = Text.join "." (steps.map Prod.snd)
  /-- any other value goes by the name of the parameter -/
  single : (setting.catalog.resolve p.typeText).model? = none →
    (flatten setting [] p.name (setting.catalog.resolve p.typeText)).map Entry.key = [p.name]
  /-- filling the entries in cannot fail, and keeps their keys -/
  filled : ∀ picker s, ∃ fields s', (fillEntries picker (ofParameter setting p)).run.run s = (.ok fields, s') ∧
    fields.map (fun f => (f.name, f.isFile)) = (ofParameter setting p).map fun entry => (entry.key, entry.isFile)

end Skeleton

namespace Catalog

variable {c : Catalog} {r : ResolvedType} {d : TypeDescriptor}

/-! ## The types on the way -/

theorem asNullable_element? (r : ResolvedType) : r.asNullable.element? = r.element? := by cases r <;> rfl

/-- The elements of a list or dictionary were resolved themselves. -/
theorem exists_element {layers : Nat} {t : Text} {element : ResolvedType}
    (h : (c.resolveWithin layers t).element? = some element) :
    ∃ (inner : Nat) (u : Text), element = c.resolveWithin inner u := by
  have name (name : Text) (nullable : Bool) : (c.resolveName name nullable).element? = none := by
    unfold resolveName
    dsimp only
    repeat' split
    all_goals rfl
  have generic (name : Text) (nullable : Bool) (arguments : List Text) :
      (c.resolveGeneric name nullable arguments).element? = none := by
    unfold resolveGeneric
    split <;> rfl
  induction layers generalizing t with
  | zero => cases h
  | succ layers ih =>
    unfold resolveWithin at h
    dsimp only at h
    split at h
    · cases h
    · split at h <;> cases h
      exact ⟨_, _, rfl⟩
    · split at h
      · rw [generic] at h
        cases h
      · split at h
        · split at h
          · rw [asNullable_element?] at h
            exact ih h
          · exact ih h
        · split at h
          · cases h
            exact ⟨_, _, rfl⟩
          · split at h
            · cases h
              exact ⟨_, _, rfl⟩
            · rw [generic] at h
              cases h
    · rw [name] at h
      cases h

theorem declares_resolve (c : Catalog) (t : Text) : c.Declares (c.resolve t) := by
  intro d declared
  cases shape : c.resolve t with
  | collection name nullable element =>
    rw [shape] at declared
    obtain ⟨inner, u, rfl⟩ := @exists_element c layerLimit t _ (congrArg ResolvedType.element? shape)
    exact resolveWithin_descriptor_mem declared
  | _ =>
    refine resolve_descriptor_mem (c := c) (t := t) ?_
    rw [shape] at declared ⊢
    exact declared

/-- Names of properties come from declarations, and each name comes once. -/
theorem names_of_propertiesOf {properties : List Property} (dotless : c.Dotless) (declared : r.descriptor? = some d)
    (reach : d ∈ c.reachable) (found : c.propertiesOf r = .ok properties) :
    (properties.map (·.name)).Nodup ∧ ∀ p ∈ properties, '.' ∉ p.name := by
  obtain ⟨way, up, ⟨ps, same, _, inherits⟩ | ⟨e, failed, _⟩⟩ := propertiesOf_outcome c declared
  · rw [found] at same
    cases same
    refine ⟨inherits.distinct, fun p member => ?_⟩
    obtain ⟨a, onWay, declares⟩ := (inherits.declared p.name).1 (List.mem_map_of_mem member)
    obtain ⟨q, listed, name⟩ := List.mem_map.1 declares
    have known : a.descriptor ∈ c.reachable := by
      obtain ⟨rest, rfl⟩ := List.head?_eq_some_iff.1 up.starts
      rcases List.mem_cons.1 onWay with rfl | above
      · exact reach
      · exact mem_reachable_of_climbs up.climbs a above
    rw [← name]
    exact dotless a.descriptor known q listed
  · rw [found] at failed
    cases failed

/-! ## Paths -/

variable {enclosing : List Text} {steps : List (Text × Text)} {typeName : Text} {nullable : Bool}
  {arguments : List Text} {properties : List Property}

/-- A value that is no model is the end of the way. -/
theorem leads_leaf (none : r.model? = none) (distinct : enclosing.Nodup) (within : enclosing.length ≤ depthLimit) :
    c.Leads enclosing r steps ↔ steps = [] := by
  constructor
  · rintro ⟨⟨s, way, _⟩, _, _⟩
    cases way with
    | here => rfl
    | into model => cases none.symm.trans model
  · rintro rfl
    exact ⟨⟨r, .here r, none⟩, within, by simpa using distinct⟩

section Model

variable (model : r.model? = some (.object typeName nullable d arguments))
include model

theorem exists_step (leads : c.Leads enclosing r steps) : ∃ properties p rest,
    c.propertiesOf (.object typeName nullable d arguments) = .ok properties ∧ p ∈ properties ∧
      steps = (d.name, p.name) :: rest ∧ c.Leads (enclosing ++ [d.name]) (c.resolve p.typeText) rest := by
  obtain ⟨⟨s, way, leaf⟩, short, distinct⟩ := leads
  cases way with
  | here => cases leaf.symm.trans model
  | into model' found member rest =>
    cases model'.symm.trans model
    refine ⟨_, _, _, found, member, rfl, ⟨s, rest, leaf⟩, ?_, ?_⟩
    · simp only [List.length_append, List.length_cons, List.length_nil] at short ⊢
      omega
    · simpa using distinct

/-- The way into a model leads through one of its properties. -/
theorem leads_model (found : c.propertiesOf (.object typeName nullable d arguments) = .ok properties) :
    c.Leads enclosing r steps ↔ ∃ p ∈ properties, ∃ rest, steps = (d.name, p.name) :: rest ∧
      c.Leads (enclosing ++ [d.name]) (c.resolve p.typeText) rest := by
  constructor
  · intro leads
    obtain ⟨ps, p, rest, found', member, rfl, later⟩ := exists_step model leads
    rw [found] at found'
    cases found'
    exact ⟨p, member, rest, rfl, later⟩
  · rintro ⟨p, member, rest, rfl, ⟨s, way, leaf⟩, short, distinct⟩
    refine ⟨⟨s, .into model found member way, leaf⟩, ?_, ?_⟩
    · simp only [List.length_append, List.length_cons, List.length_nil] at short ⊢
      omega
    · simpa using distinct

/-- No way leads into a model that is cut off. -/
theorem not_leads_cut (cut : (ResolvedType.object typeName nullable d arguments).CutOff enclosing) :
    ¬ c.Leads enclosing r steps := by
  intro leads
  obtain ⟨properties, p, rest, _, _, rfl, later⟩ := exists_step model leads
  rcases cut with old | deep
  · have distinct := leads.distinct
    rw [List.nodup_append] at distinct
    exact distinct.2.2 d.name old d.name List.mem_cons_self rfl
  · have short := leads.short
    rw [List.length_cons] at short
    omega

end Model

end Catalog

/-! ## The entries of a value -/

namespace Skeleton

variable {setting : Setting} {enclosing : List Text} {key : Text} {r : ResolvedType}

/-- the texts that the keys of a value start with: the outermost model's properties go by their own names -/
def keyStart (enclosing : List Text) (key : Text) : List Text := if enclosing.isEmpty then [] else [key]

theorem keyStart_concat (enclosing : List Text) (name key : Text) : keyStart (enclosing ++ [name]) key = [key] :=
  if_neg (by simp)

/-- The key of a property and what stands behind it. -/
theorem join_keyStart (enclosing : List Text) (key name : Text) (names : List Text) :
    Text.join "." ((if enclosing.isEmpty then name else key ++ '.' :: name) :: names) =
      Text.join "." (keyStart enclosing key ++ name :: names) := by
  unfold keyStart
  split
  · rfl
  · cases names with
    | nil => simp [Text.join]
    | cons next rest => simp [Text.join_cons]

theorem model?_of_target {typeName : Text} {nullable : Bool} {d : TypeDescriptor} {arguments : List Text}
    (target : throughCollection r = .object typeName nullable d arguments) :
    r.model? = some (.object typeName nullable d arguments) := by
  rw [ResolvedType.model?, target]

theorem model?_of_isFile (file : r.isFile = true) : r.model? = none := by
  cases r with
  | collection _ _ element =>
    cases element with
    | object => cases file
    | _ => rfl
  | object => cases file
  | _ => rfl

theorem model?_of_other (other : ∀ typeName nullable d arguments,
    throughCollection r = .object typeName nullable d arguments → False) : r.model? = none := by
  unfold ResolvedType.model?
  split
  · next target => exact (other _ _ _ _ target).elim
  · rfl

theorem mem_leaf_iff (none : r.model? = none) (distinct : enclosing.Nodup) (within : enclosing.length ≤ depthLimit)
    (inside : enclosing ≠ []) {k : Text} : k = key ↔ ∃ steps, setting.catalog.Leads enclosing r steps ∧
      k = Text.join "." (keyStart enclosing key ++ steps.map Prod.snd) := by
  have start : keyStart enclosing key = [key] := if_neg (by simpa using inside)
  simp only [Catalog.leads_leaf none distinct within, exists_eq_left, List.map_nil, start]
  simp [Text.join]

/-- What holds where a model is entered holds for its properties. -/
theorem entered_below {typeName : Text} {nullable : Bool} {d : TypeDescriptor} {arguments : List Text}
    {properties : List Property} (target : throughCollection r = .object typeName nullable d arguments)
    (open_ : ¬ (ResolvedType.object typeName nullable d arguments).CutOff enclosing)
    (found : setting.catalog.propertiesOf (.object typeName nullable d arguments) = .ok properties)
    (writable : setting.catalog.Writable enclosing r) (distinct : enclosing.Nodup) :
    (∀ p ∈ properties, setting.catalog.Writable (enclosing ++ [d.name]) (setting.catalog.resolve p.typeText)) ∧
      (enclosing ++ [d.name]).Nodup ∧ (enclosing ++ [d.name]).length ≤ depthLimit := by
  obtain ⟨new, room⟩ := not_or.1 open_
  refine ⟨(Catalog.writable_object_iff open_ found).1 fun o below => ?_, ?_, ?_⟩
  · rw [← target] at below
    exact writable o (entered_throughCollection_iff.1 below)
  · rw [List.nodup_append]
    exact ⟨distinct, List.nodup_singleton _, fun a old b last same => new (List.mem_singleton.1 last ▸ same ▸ old)⟩
  · rw [List.length_append]
    exact Nat.lt_of_not_le room

/-- **The keys of a value are the paths into it**: those that lead down to a value that is no model. -/
theorem mem_flatten_iff (writable : setting.catalog.Writable enclosing r) (distinct : enclosing.Nodup)
    (within : enclosing.length ≤ depthLimit) (named : r.model? = none → enclosing ≠ []) {k : Text} :
    k ∈ (flatten setting enclosing key r).map Entry.key ↔
      ∃ steps, setting.catalog.Leads enclosing r steps ∧
        k = Text.join "." (keyStart enclosing key ++ steps.map Prod.snd) := by
  fun_induction flatten setting enclosing key r with
  | case1 enclosing key r file =>
    have none := model?_of_isFile file
    rw [List.map_singleton, List.mem_singleton]
    exact mem_leaf_iff none distinct within (named none)
  | case2 enclosing key r _ typeName nullable d arguments target cut =>
    refine iff_of_false List.not_mem_nil ?_
    rintro ⟨steps, leads, _⟩
    exact Catalog.not_leads_cut (model?_of_target target) (cutOff_iff.2 cut) leads
  | case3 enclosing key r _ typeName nullable d arguments target open_ cause failed =>
    have here : setting.catalog.Entered enclosing (throughCollection r) (.object typeName nullable d arguments) := by
      rw [target]
      exact .here (mt cutOff_iff.1 open_)
    obtain ⟨properties, found⟩ := writable _ (entered_throughCollection_iff.1 here)
    rw [failed] at found
    cases found
  | case4 enclosing key r _ typeName nullable d arguments target open_ properties found ih =>
    obtain ⟨writable, distinct, within⟩ := entered_below target (mt cutOff_iff.1 open_) found writable distinct
    have below := fun p member => ih p (writable p member) distinct within fun _ => by simp
    rw [List.map_flatMap, List.mem_flatMap]
    simp only [Catalog.leads_model (model?_of_target target) found]
    constructor
    · rintro ⟨p, member, inside⟩
      obtain ⟨rest, leads, rfl⟩ := (below p member).1 inside
      refine ⟨(d.name, p.name) :: rest, ⟨p, member, rest, rfl, leads⟩, ?_⟩
      rw [keyStart_concat, List.map_cons]
      exact join_keyStart enclosing key p.name (rest.map Prod.snd)
    · rintro ⟨_, ⟨p, member, rest, rfl, leads⟩, rfl⟩
      refine ⟨p, member, (below p member).2 ⟨rest, leads, ?_⟩⟩
      rw [keyStart_concat, List.map_cons]
      exact (join_keyStart enclosing key p.name (rest.map Prod.snd)).symm
  | case5 enclosing key r _ other =>
    have none := model?_of_other other
    rw [List.map_singleton, List.mem_singleton]
    exact mem_leaf_iff none distinct within (named none)

/-- The first name of a path can be told from its text. -/
theorem takeWhile_join_dot {name : Text} (dotless : '.' ∉ name) (names : List Text) :
    (Text.join "." (name :: names)).takeWhile (· != '.') = name := by
  have clear : ∀ c ∈ name, (c != '.') = true := fun c hc => bne_iff_ne.2 fun dot => dotless (dot ▸ hc)
  cases names with
  | nil => simpa [Text.join] using clear
  | cons next rest =>
    rw [Text.join_cons]
    exact Text.takeWhile_padded clear (by rintro c ⟨⟩; decide)

/-- Keys of different properties differ, whatever stands behind them. -/
theorem name_eq_of_join_eq {p q : Text} {names others : List Text} (dotless : '.' ∉ p) (dotless' : '.' ∉ q)
    (same : Text.join "." ((if enclosing.isEmpty then p else key ++ '.' :: p) :: names) =
      Text.join "." ((if enclosing.isEmpty then q else key ++ '.' :: q) :: others)) : p = q := by
  rw [join_keyStart, join_keyStart] at same
  have tails : Text.join "." (p :: names) = Text.join "." (q :: others) := by
    unfold keyStart at same
    split at same
    · exact same
    · rw [List.singleton_append, List.singleton_append, Text.join_cons, Text.join_cons] at same
      exact List.append_cancel_left (List.append_cancel_left same)
  rw [← takeWhile_join_dot dotless names, tails, takeWhile_join_dot dotless' others]

/-- **No key comes twice**, where no name of a property has a dot in it. -/
theorem nodup_flatten (dotless : setting.catalog.Dotless) (declared : setting.catalog.Declares r)
    (writable : setting.catalog.Writable enclosing r) (distinct : enclosing.Nodup) :
    ((flatten setting enclosing key r).map Entry.key).Nodup := by
  fun_induction flatten setting enclosing key r with
  | case1 => exact List.nodup_singleton _
  | case2 => exact List.nodup_nil
  | case3 => exact List.nodup_singleton _
  | case5 => exact List.nodup_singleton _
  | case4 enclosing key r _ typeName nullable d arguments target open_ properties found ih =>
    have reach : d ∈ setting.catalog.reachable := declared d (by rw [target]; rfl)
    obtain ⟨unlike, clear⟩ := Catalog.names_of_propertiesOf dotless rfl reach found
    obtain ⟨writable, distinct, within⟩ := entered_below target (mt cutOff_iff.1 open_) found writable distinct
    rw [List.map_flatMap, List.nodup_flatMap]
    refine ⟨fun p member => ih p (setting.catalog.declares_resolve _) (writable p member) distinct, ?_⟩
    have apart : properties.Pairwise fun p q => p.name ≠ q.name := List.pairwise_map.1 unlike
    refine apart.imp_of_mem fun {p q} here there other => ?_
    refine List.disjoint_left.2 fun k first second => ?_
    obtain ⟨steps, _, rfl⟩ := (mem_flatten_iff (writable p here) distinct within fun _ => by simp).1 first
    obtain ⟨steps', _, same⟩ := (mem_flatten_iff (writable q there) distinct within fun _ => by simp).1 second
    rw [keyStart_concat, keyStart_concat] at same
    exact other (name_eq_of_join_eq (clear p here) (clear q there) same)

/-! ## Parameters -/

variable {p : Parameter}

/-- A parameter contributes the entries of its value, or one that is noted. -/
theorem ofParameter_eq (setting : Setting) (p : Parameter) :
    ofParameter setting p =
      if flatten setting [] p.name (setting.catalog.resolve p.typeText) = [] then
        [⟨p.name, .noted (.nothingToBind p.name p.typeText) (named setting p.name), false⟩]
      else flatten setting [] p.name (setting.catalog.resolve p.typeText) := by
  unfold ofParameter
  split
  · next nothing => rw [if_pos nothing]
  · next some => rw [if_neg some]

theorem flatten_single (none : r.model? = none) :
    (flatten setting enclosing key r).map Entry.key = [key] := by
  unfold flatten
  split
  · rfl
  · split
    · next target => cases none.symm.trans (model?_of_target target)
    · rfl

/-- **What a query or form makes of a parameter** whose type can be written out. -/
theorem flattens (dotless : setting.catalog.Dotless) (writable : setting.CanWrite p) : Flattens setting p where
  distinct := by
    rw [ofParameter_eq]
    split
    · exact List.nodup_singleton _
    · exact nodup_flatten dotless (setting.catalog.declares_resolve _) writable List.nodup_nil
  model isModel key := by
    have named : (setting.catalog.resolve p.typeText).model? = none → ([] : List Text) ≠ [] := by
      intro none
      rw [none] at isModel
      cases isModel
    exact mem_flatten_iff writable List.nodup_nil (Nat.zero_le _) named
  single := flatten_single
  filled picker s := by
    obtain ⟨fields, s', run, _⟩ := (ends_ofParameter setting picker p).succeeds writable s
    exact ⟨fields, s', run, (adds_entries (ofParameter_settles setting p) s fields s' run).2⟩

end Skeleton

namespace Request

variable {setting : Setting} {picker : Picker} {draws : Nat} {environment : Option EnvironmentDraft} {e : Endpoint}
  {request : Request} {p : Parameter}

/-- what a request holds of its query and form parameters -/
structure Carries (setting : Setting) (e : Endpoint) (request : Request) : Prop where
  query : ∀ p ∈ e.parametersFrom .query, ∀ entry ∈ ofParameter setting p, entry.key ∈ Entries.keys request.query
  form : ∀ p ∈ e.parametersFrom .form, p.isFile = false → ∀ entry ∈ ofParameter setting p,
    (entry.key, entry.isFile) ∈ request.formFields.map fun f => (f.name, f.isFile)
  file : ∀ p ∈ e.parametersFrom .form, p.isFile = true →
    (p.name, true) ∈ request.formFields.map fun f => (f.name, f.isFile)
  noted : ∀ p, p ∈ e.parametersFrom .query ∨ p ∈ e.parametersFrom .form ∧ p.isFile = false →
    flatten setting [] p.name (setting.catalog.resolve p.typeText) = [] →
      ⟨.nothingToBind p.name p.typeText, none, some e.subject⟩ ∈ request.warnings ∧
        (Problem.nothingToBind p.name p.typeText).kind = .ambiguousSample

/-- A model without anything to bind is noted. -/
theorem noted_ofParameter (nothing : flatten setting [] p.name (setting.catalog.resolve p.typeText) = []) :
    ∃ entry ∈ ofParameter setting p, .nothingToBind p.name p.typeText ∈ entry.value.effort.problems := by
  refine ⟨_, by rw [ofParameter_eq, if_pos nothing]; exact List.mem_singleton_self _, ?_⟩
  rw [Skeleton.effort, Progress.problems_add]
  exact List.mem_append_left _ (List.mem_singleton_self _)

theorem problem_of_entry {entry : Skeleton.Entry} {entries : List Skeleton.Entry} {problem : Problem}
    (inside : entry ∈ entries) (noted : problem ∈ entry.value.effort.problems) :
    problem ∈ (entries.map fun entry : Skeleton.Entry => entry.value.effort).sum.problems := by
  rw [Progress.problems_sum, List.flatMap_map, List.mem_flatMap]
  exact ⟨entry, inside, noted⟩

/-- A request that is made carries all entries of its parameters. -/
theorem carries (made : (synthesize setting picker draws environment e).1.value = .ok request) :
    Carries setting e request := by
  obtain ⟨planned, warned, _⟩ := planned_of_synthesize made
  have query : Entries.keys request.query = Entries.addKeys [] ((querySkeletons setting e).map Entry.key) :=
    congrArg Outline.query planned
  have form : request.formFields.map (fun f => (f.name, f.isFile)) =
      (formSkeletons setting e).map fun entry => (entry.key, entry.isFile) := congrArg Outline.formFields planned
  have formed : ∀ p ∈ e.parametersFrom .form, p.isFile = false → ∀ entry ∈ ofParameter setting p,
      entry ∈ formSkeletons setting e := by
    intro p member noFile entry inside
    refine List.mem_flatMap.2 ⟨p, member, ?_⟩
    rw [if_neg (by rw [noFile]; exact Bool.false_ne_true)]
    exact inside
  refine ⟨?_, ?_, ?_, ?_⟩
  · intro p member entry inside
    rw [query, Entries.mem_addKeys]
    exact .inr (List.mem_map_of_mem (List.mem_flatMap.2 ⟨p, member, inside⟩))
  · intro p member noFile entry inside
    rw [form]
    exact List.mem_map.2 ⟨entry, formed p member noFile entry inside, rfl⟩
  · intro p member file
    rw [form]
    refine List.mem_map.2 ⟨⟨p.name, .text fileMark, true⟩, List.mem_flatMap.2 ⟨p, member, ?_⟩, rfl⟩
    rw [if_pos file]
    exact List.mem_singleton_self _
  · intro p member nothing
    obtain ⟨entry, inside, noted⟩ := noted_ofParameter nothing
    rw [warned]
    refine ⟨List.mem_map.2 ⟨_, ?_, rfl⟩, rfl⟩
    unfold effort
    simp only [Progress.problems_add, List.mem_append]
    rcases member with member | ⟨member, noFile⟩
    · exact .inr (.inl (problem_of_entry (List.mem_flatMap.2 ⟨p, member, inside⟩) noted))
    · exact .inr (.inr (.inr (.inl (problem_of_entry (formed p member noFile entry inside) noted))))

end Request

/-- **Flattening loses no parameter and repeats no key.** Let no property of the catalog have a dot in its name. Then
the entries of every parameter whose type can be written out have distinct keys: those of a model are the paths of
property names, with dots between them, that lead down from it to a value that is no model, through distinct object types
and no more than the limit; any other value has one entry under the parameter's own name; and filling them in succeeds.
Every parameter has an entry, where nothing else is found one that is noted. If the environment is valid and the types of
all parameters can be written out, a request is made, and every request that is made carries all entries of its query and
form parameters. -/
theorem parameters_flatten (setting : Setting) (dotless : setting.catalog.Dotless) :
    (∀ p, setting.CanWrite p → Flattens setting p) ∧
    (∀ p, ofParameter setting p ≠ [] ∧ ofParameter setting p =
      if flatten setting [] p.name (setting.catalog.resolve p.typeText) = [] then
        [⟨p.name, .noted (.nothingToBind p.name p.typeText) (named setting p.name), false⟩]
      else flatten setting [] p.name (setting.catalog.resolve p.typeText)) ∧
    ∀ picker draws environment e,
      ((∀ draft ∈ environment, ∃ given, draft.validate = .ok given) → (∀ p ∈ Request.walked e, setting.CanWrite p) →
        ∃ request, (synthesize setting picker draws environment e).1.value = .ok request) ∧
      ∀ request, (synthesize setting picker draws environment e).1.value = .ok request →
        Request.Carries setting e request := by
  refine ⟨fun p writable => flattens dotless writable, fun p => ⟨?_, ofParameter_eq setting p⟩, ?_⟩
  · rw [ofParameter_eq]
    split
    · exact List.cons_ne_nil _ _
    · assumption
  · intro picker draws environment e
    exact ⟨fun valid writable => Request.isMade_iff.2 ⟨valid, writable⟩, fun request made => Request.carries made⟩

/-- a node asked for in a query -/
def nodeQuery : Parameter := ⟨"node", "List<Node>", .query, true, none, true, false, "node", false⟩

/-- The theorem at nodes that hold further nodes: only their numbers are bound. -/
theorem parameters_flatten_node :
    Request.nodeSetting.catalog.Dotless ∧ Request.nodeSetting.CanWrite nodeQuery ∧
      Flattens Request.nodeSetting nodeQuery ∧
      (ofParameter Request.nodeSetting nodeQuery).map Entry.key = ["Id"] := by
  have dotless : Request.nodeSetting.catalog.Dotless := by
    have names : ∀ d ∈ Request.nodeSetting.catalog.reachable, ∀ p ∈ d.properties, '.' ∉ p.name := by decide +kernel
    exact names
  have start : Request.nodeSetting.catalog.resolve nodeQuery.typeText ∈ Request.nodeTypes := by decide +kernel
  have good : ∀ o ∈ Request.nodeTypes, (Request.nodeSetting.catalog.propertiesOf o).toOption.isSome := by
    decide +kernel
  have writable : Request.nodeSetting.CanWrite nodeQuery := by
    intro o entered
    have found := good o (Request.entered_node entered start)
    cases outcome : Request.nodeSetting.catalog.propertiesOf o with
    | ok properties => exact ⟨properties, rfl⟩
    | error cause =>
      rw [outcome] at found
      cases found
  refine ⟨dotless, writable, (parameters_flatten Request.nodeSetting dotless).1 nodeQuery writable, ?_⟩
  decide +kernel

end EndpointSurvey
