/-
How the request of an endpoint ends: it is built exactly if its environment is valid and the types of all parameters in
it can be written out. With every type on the way written out under distinct names, each body parameter gets a value of
its type, cut exactly where an object type repeats or lies too deep.

Main statements: `Request.ends_bodySkeleton` (bodies have the form that their parameters ask for),
`Request.ends_build` and `Request.value_synthesize` (what is built, and what is raised otherwise), and
`Request.bodies_conform`.
-/
import EndpointSurvey.Proofs.Request.Walk

namespace EndpointSurvey

open Filling

namespace Skeleton.Setting

/-- the type of a parameter can be written out -/
def CanWrite (setting : Setting) (p : Parameter) : Prop := setting.catalog.Writable [] (setting.catalog.resolve p.typeText)

/-- the error of a type entered for a parameter -/
def Stops (setting : Setting) (p : Parameter) (e : RequestError) : Prop :=
  setting.catalog.Blocked [] (setting.catalog.resolve p.typeText) e

/-- the form of a body: nothing, the value of one parameter, or an object with the values of several -/
def AdmitsBody (setting : Setting) : List Parameter → Json → Prop
  | [], body => body = .null
  | [p], body => setting.catalog.Conforms [] (setting.catalog.resolve p.typeText) body
  | ps, body => ∃ values,
      List.Forall₂ (fun p v => setting.catalog.Conforms [] (setting.catalog.resolve p.typeText) v) ps values ∧
        body = .object (Entries.ofList ((ps.map Parameter.name).zip values))

end Skeleton.Setting

namespace Request

open Skeleton

variable {setting : Setting} {picker : Picker} {e : Endpoint} {bad : RequestError → Prop}

/-- the parameters that a request needs values of: those of the tokens, and those of query, headers, form and body that
are not files themselves -/
def walked (e : Endpoint) : List Parameter :=
  (tokensToFill e).filterMap (byName (e.parametersFrom .path)) ++ e.parametersFrom .query ++
    e.parametersFrom .header ++ (e.parametersFrom .form).filter (!·.isFile) ++ e.parametersFrom .body

/-- what is raised instead of a request: the fault of the environment, or that of a type entered for a parameter -/
def Raised (setting : Setting) (environment : Option EnvironmentDraft) (e : Endpoint) (raised : RequestError) : Prop :=
  (∃ draft ∈ environment, ∃ fault, draft.validate = .error fault ∧ raised = .environment fault) ∨
    ∃ p ∈ walked e, setting.Stops p raised

/-! ## The parts of a request -/

variable {environment : Option EnvironmentDraft}

theorem ends_parameter {α : Type} {x : Filling α} {p : Parameter} {good : α → Prop} (member : p ∈ walked e)
    (h : x.Ends (setting.CanWrite p) good (setting.Stops p)) :
    x.Ends (setting.CanWrite p) good (Raised setting environment e) :=
  h.imp Iff.rfl (fun _ => id) fun _ stopped => .inr ⟨p, member, stopped⟩

theorem ends_pathSkeletons : (fillTexts picker (pathSkeletons setting e)).Ends
    (∀ token ∈ tokensToFill e, ∀ p ∈ byName (e.parametersFrom .path) token, setting.CanWrite p) (fun _ => True)
    (Raised setting environment e) := by
  refine ends_texts fun token member => ?_
  unfold tokenSkeleton
  cases found : byName (e.parametersFrom .path) token with
  | none => exact (ends_noted (ends_slot fun _ _ => trivial)).imp (by simp) (fun _ => id) fun _ => id
  | some p =>
    have walks : p ∈ walked e := by
      simp only [walked, List.mem_append]
      exact .inl (.inl (.inl (.inl (List.mem_filterMap.2 ⟨token, member, found⟩))))
    refine (ends_parameter walks (ends_ofTextType ..)).imp ?_ (fun _ => id) fun _ => id
    simp only [Option.mem_some_iff, forall_eq']

theorem ends_querySkeletons : (fillEntries picker (querySkeletons setting e)).Ends
    (∀ p ∈ e.parametersFrom .query, setting.CanWrite p) (fun _ => True) (Raised setting environment e) := by
  refine ends_entries fun p member => ends_parameter ?_ (ends_ofParameter setting picker p)
  simp only [walked, List.mem_append]
  exact .inl (.inl (.inl (.inr member)))

theorem ends_headerSkeletons : (fillTexts picker (headerSkeletons setting e)).Ends
    (∀ p ∈ e.parametersFrom .header, setting.CanWrite p) (fun _ => True) (Raised setting environment e) := by
  refine ends_texts fun p member => ends_parameter ?_ (ends_ofTextType ..)
  simp only [walked, List.mem_append]
  exact .inl (.inl (.inr member))

theorem ends_formSkeletons : (fillEntries picker (formSkeletons setting e)).Ends
    (∀ p ∈ e.parametersFrom .form, p.isFile = false → setting.CanWrite p) (fun _ => True)
    (Raised setting environment e) := by
  refine ends_entries fun p member => ?_
  split
  · next file => exact (ends_entry (ends_slot fun _ _ => trivial)).imp (by simp [file]) (fun _ => id) fun _ => id
  · next noFile =>
    have walks : p ∈ walked e := by
      simp only [walked, List.mem_append, List.mem_filter]
      exact .inl (.inr ⟨member, by simpa using noFile⟩)
    refine (ends_parameter walks (ends_ofParameter setting picker p)).imp ?_ (fun _ => id) fun _ => id
    simp [noFile]

/-- A body has the form that its parameters ask for. -/
theorem ends_bodySkeleton (setting : Setting) (picker : Picker) (environment : Option EnvironmentDraft) (e : Endpoint) :
    (fill picker (bodySkeleton setting e)).Ends (∀ p ∈ e.parametersFrom .body, setting.CanWrite p)
      (fun body => (∀ p ∈ e.parametersFrom .body, setting.catalog.Distinct [] (setting.catalog.resolve p.typeText)) →
        setting.AdmitsBody (e.parametersFrom .body) body)
      (Raised setting environment e) := by
  have value : ∀ p ∈ e.parametersFrom .body, Ends (fill picker
      (ofType setting [] p.name (setting.catalog.resolve p.typeText))) (setting.CanWrite p) _ (Raised setting environment e) :=
    fun p member => ends_parameter (List.mem_append_right _ member) (writes_ofType ..)
  unfold bodySkeleton
  generalize e.parametersFrom .body = ps at value ⊢
  match ps with
  | [] =>
    rw [fill]
    exact (Ends.pure fun _ => rfl).imp (by simp) (fun _ => id) fun _ => id
  | [p] =>
    refine (value p List.mem_cons_self).imp (by simp) (fun v conforms distinct => ?_) fun _ => id
    exact conforms (distinct p List.mem_cons_self)
  | p :: q :: rest =>
    simp only [fill]
    refine (ends_members value).map fun members same distinct => ⟨members.map Prod.snd, ?_, ?_⟩
    · rw [List.forall₂_map_right_iff]
      refine List.forall₂_iff_zip.2 ⟨same.length_eq, fun {q pair} member => ?_⟩
      exact (List.forall₂_zip same member).2 (distinct _ (List.of_mem_zip member).1)
    · rw [← List.zip_of_prod (keys_of_members same) rfl]

/-! ## The whole request -/

/-- the environment that a valid draft gives -/
def valid? (environment : Option EnvironmentDraft) : Option Environment :=
  environment.bind fun draft => draft.validate.toOption

theorem ends_checked : (checked environment).Ends (∀ draft ∈ environment, ∃ given, draft.validate = .ok given)
    (· = valid? environment) (Raised setting environment e) := by
  unfold checked
  split
  · exact ⟨fun _ s => ⟨none, s, rfl, rfl⟩, fun fault => absurd nofun fault⟩
  · next draft =>
    cases checks : draft.validate with
    | ok given =>
      have same : some given = valid? (some draft) := by simp [valid?, checks, Except.toOption]
      exact ⟨fun _ s => ⟨some given, s, rfl, same⟩, fun fault => absurd (by simp [checks]) fault⟩
    | error fault =>
      refine ⟨fun valid => ?_, fun _ s => ⟨_, s, rfl, .inl ⟨draft, rfl, fault, checks, rfl⟩⟩⟩
      obtain ⟨given, ok⟩ := valid draft rfl
      rw [checks] at ok
      cases ok

/-- what a built request looks like -/
structure IsBuilt (setting : Setting) (environment : Option EnvironmentDraft) (e : Endpoint) (request : Request) :
    Prop where
  url : ∃ (value : Text → Text) (query : Entries Text),
    request.url = address (valid? environment) (Route.fill (fun token => Url.percentEncode (value token)) e.route) query
  body : (∀ p ∈ e.parametersFrom .body, setting.catalog.Distinct [] (setting.catalog.resolve p.typeText)) →
    setting.AdmitsBody (e.parametersFrom .body) request.body

theorem ends_build (setting : Setting) (picker : Picker) (environment : Option EnvironmentDraft) (e : Endpoint) :
    (build setting picker environment e).Ends
      ((∀ draft ∈ environment, ∃ given, draft.validate = .ok given) ∧ ∀ p ∈ walked e, setting.CanWrite p)
      (IsBuilt setting environment e) (Raised setting environment e) := by
  unfold build
  refine (ends_pathSkeletons.bind fun tokens _ => ends_querySkeletons.bind fun fields _ =>
    ends_checked.bind fun given valid => ends_headerSkeletons.bind fun headers _ =>
    ends_formSkeletons.bind fun form _ => (ends_bodySkeleton setting picker environment e).map fun body hasForm => ?_).imp
    ?_ (fun _ => id) fun _ => id
  · subst valid
    exact ⟨⟨_, _, rfl⟩, hasForm⟩
  · simp only [walked, List.mem_append, List.mem_filterMap, List.mem_filter, Option.mem_def]
    constructor
    · rintro ⟨path, query, valid, header, form, body⟩
      refine ⟨valid, ?_⟩
      rintro p ((((⟨token, member, found⟩ | member) | member) | ⟨member, noFile⟩) | member)
      · exact path token member p found
      · exact query p member
      · exact header p member
      · exact form p member (by simpa using noFile)
      · exact body p member
    · rintro ⟨valid, all⟩
      refine ⟨?_, ?_, valid, ?_, ?_, ?_⟩
      · exact fun token member p found => all p (.inl (.inl (.inl (.inl ⟨token, member, found⟩))))
      · exact fun p member => all p (.inl (.inl (.inl (.inr member))))
      · exact fun p member => all p (.inl (.inl (.inr member)))
      · exact fun p member noFile => all p (.inl (.inr ⟨member, by simpa using noFile⟩))
      · exact fun p member => all p (.inr member)

/-- A request is made exactly if its environment is valid and the types of its parameters can be written out. -/
theorem value_synthesize (setting : Setting) (picker : Picker) (draws : Nat) (environment : Option EnvironmentDraft)
    (e : Endpoint) :
    let valid := (∀ draft ∈ environment, ∃ given, draft.validate = .ok given) ∧ ∀ p ∈ walked e, setting.CanWrite p
    let outcome := (synthesize setting picker draws environment e).1.value
    (valid ∧ ∃ request, outcome = .ok request ∧ IsBuilt setting environment e request) ∨
      (¬ valid ∧ ∃ raised, outcome = .error raised ∧ Raised setting environment e raised) := by
  intro valid outcome
  have ends := ends_build setting picker environment e
  by_cases h : valid
  · obtain ⟨request, progress, run, built⟩ := ends.succeeds h ⟨draws, []⟩
    refine .inl ⟨h, { request with warnings := progress.problems.map fun problem => ⟨problem, none, some e.subject⟩ },
      ?_, built.url, built.body⟩
    show (synthesize setting picker draws environment e).1.value = _
    unfold synthesize
    rw [run]
  · obtain ⟨raised, progress, run, fault⟩ := ends.fails h ⟨draws, []⟩
    refine .inr ⟨h, raised, ?_, fault⟩
    show (synthesize setting picker draws environment e).1.value = _
    unfold synthesize
    rw [run]
    rfl

/-- whether a request is made does not depend on what is picked -/
theorem isMade_iff {draws : Nat} :
    (∃ request, (synthesize setting picker draws environment e).1.value = .ok request) ↔
      (∀ draft ∈ environment, ∃ given, draft.validate = .ok given) ∧ ∀ p ∈ walked e, setting.CanWrite p := by
  rcases value_synthesize setting picker draws environment e with ⟨valid, request, made, _⟩ | ⟨invalid, _, failed, _⟩
  · exact iff_of_true ⟨request, made⟩ valid
  · refine iff_of_false ?_ invalid
    rintro ⟨request, made⟩
    rw [made] at failed
    cases failed

theorem isBuilt_of_synthesize {draws : Nat} {request : Request}
    (made : (synthesize setting picker draws environment e).1.value = .ok request) :
    IsBuilt setting environment e request := by
  rcases value_synthesize setting picker draws environment e with ⟨_, _, same, isBuilt⟩ | ⟨_, raised, failed, _⟩
  · rw [made] at same
    cases same
    exact isBuilt
  · rw [made] at failed
    cases failed

end Request

/-! ## Bodies -/

namespace Request

open Skeleton

/-- **Bodies are well typed.** In any catalog, let the properties of every object type that is entered for a body
parameter be written out, with distinct names on the wire. Then the walk of each body parameter ends with a value that
conforms to its type, the body is made of these values, and so is the body of every request. -/
theorem bodies_conform (setting : Setting) (picker : Picker) (e : Endpoint)
    (clean : ∀ p ∈ e.parametersFrom .body, ∀ o,
      setting.catalog.Entered [] (setting.catalog.resolve p.typeText) o → ∃ properties,
        setting.catalog.propertiesOf o = .ok properties ∧ (properties.map Property.wireName).Nodup) :
    (∀ p ∈ e.parametersFrom .body, ∀ s, ∃ v s',
      (fill picker (ofType setting [] p.name (setting.catalog.resolve p.typeText))).run.run s = (.ok v, s') ∧
        setting.catalog.Conforms [] (setting.catalog.resolve p.typeText) v) ∧
    (∀ s, ∃ body s', (fill picker (bodySkeleton setting e)).run.run s = (.ok body, s') ∧
      setting.AdmitsBody (e.parametersFrom .body) body) ∧
    ∀ draws environment request, (synthesize setting picker draws environment e).1.value = .ok request →
      setting.AdmitsBody (e.parametersFrom .body) request.body := by
  have writable : ∀ p ∈ e.parametersFrom .body, setting.CanWrite p := by
    intro p member o entered
    obtain ⟨properties, found, _⟩ := clean p member o entered
    exact ⟨properties, found⟩
  have distinct : ∀ p ∈ e.parametersFrom .body,
      setting.catalog.Distinct [] (setting.catalog.resolve p.typeText) := by
    intro p member o properties entered found
    obtain ⟨same, found', nodup⟩ := clean p member o entered
    rw [found] at found'
    cases found'
    exact nodup
  refine ⟨fun p member s => ?_, fun s => ?_, fun draws environment request built => ?_⟩
  · obtain ⟨v, s', run, conforms⟩ := (writes_ofType setting picker [] p.name _).succeeds (writable p member) s
    exact ⟨v, s', run, conforms (distinct p member)⟩
  · obtain ⟨body, s', run, form⟩ := (ends_bodySkeleton setting picker none e).succeeds writable s
    exact ⟨body, s', run, form distinct⟩
  · exact (isBuilt_of_synthesize built).body distinct

/-! ## A cyclic type -/

/-- a type whose values hold further values of it -/
def nodeType : TypeDescriptor :=
  { name := "Node"
    kind := .classType
    properties := [⟨"Id", "int", none, none, false⟩, ⟨"Next", "Node?", none, none, false⟩,
      ⟨"Children", "List<Node>", none, none, false⟩]
    baseType := none
    typeParameters := []
    enumMembers := []
    comment := none }

def nodeSetting : Setting := ⟨Catalog.ofList [nodeType], ⟨0⟩⟩

/-- an action that takes a node -/
def postNode : Endpoint :=
  { method := "POST"
    route := "/nodes"
    parameters := [⟨"node", "Node", .body, true, none, false, false, "node", false⟩]
    returnType := "void"
    action := "Post"
    controller := "NodesController"
    location := ⟨1, 1⟩
    summary := none
    authRequired := false
    pathTokens := []
    warnings := [] }

/-- the types met on the way through a node -/
def nodeTypes : List ResolvedType := ["Node", "Node?", "List<Node>", "int"].map (nodeSetting.catalog.resolve ·)

theorem entered_node {enclosing : List Text} {r o : ResolvedType} (h : nodeSetting.catalog.Entered enclosing r o)
    (met : r ∈ nodeTypes) : o ∈ nodeTypes := by
  have elements : ∀ r ∈ nodeTypes, ∀ element ∈ r.element?, element ∈ nodeTypes := by decide +kernel
  have properties : ∀ r ∈ nodeTypes, ∀ ps ∈ (nodeSetting.catalog.propertiesOf r).toOption,
      ∀ p ∈ ps, nodeSetting.catalog.resolve p.typeText ∈ nodeTypes := by decide +kernel
  induction h with
  | item _ ih => exact ih (elements _ met _ rfl)
  | entry _ ih => exact ih (elements _ met _ rfl)
  | here _ => exact met
  | property _ found member _ ih => exact ih (properties _ met _ (by rw [found]; rfl) _ member)

/-- The theorem at a type that holds itself. -/
theorem bodies_conform_node :
    (∀ p ∈ postNode.parametersFrom .body, ∀ o,
      nodeSetting.catalog.Entered [] (nodeSetting.catalog.resolve p.typeText) o → ∃ properties,
        nodeSetting.catalog.propertiesOf o = .ok properties ∧ (properties.map Property.wireName).Nodup) ∧
      ∀ s, ∃ body s', (fill none (bodySkeleton nodeSetting postNode)).run.run s = (.ok body, s') ∧
        nodeSetting.AdmitsBody (postNode.parametersFrom .body) body := by
  have start : ∀ p ∈ postNode.parametersFrom .body, nodeSetting.catalog.resolve p.typeText ∈ nodeTypes := by
    decide +kernel
  have good : ∀ o ∈ nodeTypes, ∃ properties ∈ (nodeSetting.catalog.propertiesOf o).toOption,
      (properties.map Property.wireName).Nodup := by decide +kernel
  have clean : ∀ p ∈ postNode.parametersFrom .body, ∀ o,
      nodeSetting.catalog.Entered [] (nodeSetting.catalog.resolve p.typeText) o → ∃ properties,
        nodeSetting.catalog.propertiesOf o = .ok properties ∧ (properties.map Property.wireName).Nodup := by
    intro p member o entered
    obtain ⟨properties, found, distinct⟩ := good o (entered_node entered (start p member))
    refine ⟨properties, ?_, distinct⟩
    cases made : nodeSetting.catalog.propertiesOf o with
    | ok ps => rw [made] at found; cases found; rfl
    | error cause => rw [made] at found; cases found
  exact ⟨clean, (bodies_conform nodeSetting none postNode clean).2.1⟩

end Request

end EndpointSurvey
