/-
The outline of a request: everything in it but scalar values. It is decided by the endpoint, the types and the
environment before anything is picked.

Main statements:
- `Skeleton.ofType_settles` and `Skeleton.flatten_settles`: the slots that types ask for are even, and the problems noted
  on the way concern no token;
- `Request.adds_build`: a request is put together from its parts, which are filled with the efforts of their skeletons;
- `Request.planned_of_synthesize`: so it has the outline planned for it, whatever is picked;
- `picks_keep_outline`: two ways of picking give requests of one outline, with the same warnings and as many draws.
-/
import EndpointSurvey.Proofs.Request.Building
import EndpointSurvey.Proofs.Request.Effort

namespace EndpointSurvey

/-! ## What types ask for -/

namespace Sample

/-- The entries of a pool are of one kind. -/
theorem even_valueFor (now : Instant) (name : Text) (scalar : Scalar) : (valueFor now name scalar).Even := by
  unfold valueFor
  split
  · exact trivial
  · cases scalar <;> simp [fallback, texts, Slot.Even, Json.shape, hundredths]

end Sample

namespace Skeleton

/-- whatever is picked, the value has one shape, and no token is noted -/
def Settles (s : Skeleton) : Prop := s.Each Slot.Even (·.kind ≠ .routeMismatch)

variable {setting : Setting} {enclosing : List Text} {entries : List Entry}

theorem named_settles (setting : Setting) (name : Text) : (named setting name).Settles :=
  .slot (Sample.even_valueFor ..)

theorem text_settles (t : Text) : (text t).Settles := .slot trivial

theorem ofUntyped_settles {typeName name : Text} {known : Bool} {s : Skeleton} (h : s.Settles) :
    (ofUntyped typeName name known s).Settles := by
  cases known with
  | true => exact h
  | false => exact .noted (by simp [Problem.kind]) h

theorem ofItem_settles {element : ResolvedType} {item : Skeleton} (h : item.Settles) :
    (ofItem element item).Settles := by
  unfold ofItem
  split
  · exact .items (List.forall_mem_nil _)
  · exact .items (List.forall_mem_singleton.2 h)

/-- The skeleton of a type settles. -/
theorem ofType_settles (setting : Setting) (enclosing : List Text) (name : Text) (r : ResolvedType) :
    (ofType setting enclosing name r).Settles := by
  fun_induction ofType setting enclosing name r with
  | case1 => exact .slot (Sample.even_valueFor ..)
  | case2 => exact text_settles _
  | case3 => exact .noted (by simp [Problem.kind]) (named_settles ..)
  | case4 => exact text_settles _
  | case5 _ _ _ _ _ ih => exact ofItem_settles ih
  | case6 _ _ _ _ _ _ ih => exact .members (List.forall_mem_singleton.2 ih)
  | case7 => exact ofUntyped_settles (.members (List.forall_mem_nil _))
  | case8 => exact .cut
  | case9 _ _ _ _ _ _ _ _ failed =>
    rw [failed]
    exact .failed
  | case10 _ _ _ _ _ _ _ properties found ih =>
    rw [found]
    refine .members fun member inside => ?_
    obtain ⟨p, _, rfl⟩ := List.mem_map.1 inside
    exact ih p

theorem ofTextType_settles (setting : Setting) (enclosing : List Text) (name : Text) (r : ResolvedType) :
    (ofTextType setting enclosing name r).Settles := by
  unfold ofTextType
  split
  · exact ofUntyped_settles (named_settles ..)
  · exact ofType_settles ..

/-- The entries of a value settle. -/
theorem flatten_settles (setting : Setting) (enclosing : List Text) (key : Text) (r : ResolvedType) :
    ∀ entry ∈ flatten setting enclosing key r, entry.value.Settles := by
  fun_induction flatten setting enclosing key r with
  | case1 => exact List.forall_mem_singleton.2 (text_settles _)
  | case2 => exact List.forall_mem_nil _
  | case3 => exact List.forall_mem_singleton.2 .failed
  | case4 _ _ _ _ _ _ _ _ _ _ properties _ ih =>
    intro entry inside
    obtain ⟨p, _, inside⟩ := List.mem_flatMap.1 inside
    exact ih p entry inside
  | case5 => exact List.forall_mem_singleton.2 (ofTextType_settles ..)

theorem ofParameter_settles (setting : Setting) (p : Parameter) :
    ∀ entry ∈ ofParameter setting p, entry.value.Settles := by
  unfold ofParameter
  split
  · exact List.forall_mem_singleton.2 (.noted (by simp [Problem.kind]) (named_settles ..))
  · exact flatten_settles setting [] p.name _

end Skeleton

namespace Request

open Skeleton Filling

variable {setting : Setting} {picker : Picker} {environment : Option EnvironmentDraft} {e : Endpoint}

/-! ## The parts of a request -/

theorem tokenSkeleton_even (setting : Setting) (parameters : List Parameter) (token : Text) :
    (tokenSkeleton setting parameters token).Each Slot.Even (fun _ => True) := by
  unfold tokenSkeleton
  split
  · exact (ofTextType_settles ..).imp fun _ => trivial
  · exact .noted trivial ((named_settles ..).imp fun _ => trivial)

theorem pathSkeletons_even (setting : Setting) (e : Endpoint) :
    ∀ member ∈ pathSkeletons setting e, member.2.Each Slot.Even (fun _ => True) := by
  intro member inside
  obtain ⟨token, _, rfl⟩ := List.mem_map.1 inside
  exact tokenSkeleton_even ..

theorem querySkeletons_settle (setting : Setting) (e : Endpoint) :
    ∀ entry ∈ querySkeletons setting e, entry.value.Settles := by
  intro entry inside
  obtain ⟨p, _, inside⟩ := List.mem_flatMap.1 inside
  exact ofParameter_settles setting p entry inside

theorem headerSkeletons_settle (setting : Setting) (e : Endpoint) :
    ∀ member ∈ headerSkeletons setting e, member.2.Settles := by
  intro member inside
  obtain ⟨p, _, rfl⟩ := List.mem_map.1 inside
  exact ofTextType_settles ..

theorem formSkeletons_settle (setting : Setting) (e : Endpoint) :
    ∀ entry ∈ formSkeletons setting e, entry.value.Settles := by
  intro entry inside
  obtain ⟨p, _, inside⟩ := List.mem_flatMap.1 inside
  split at inside
  · rw [List.mem_singleton.1 inside]
    exact text_settles _
  · exact ofParameter_settles setting p entry inside

theorem bodySkeleton_settles (setting : Setting) (e : Endpoint) : (bodySkeleton setting e).Settles := by
  unfold bodySkeleton
  split
  · exact .cut
  · exact ofType_settles ..
  · refine .members fun member inside => ?_
    obtain ⟨p, _, rfl⟩ := List.mem_map.1 inside
    exact ofType_settles ..

/-! ## The outline -/

/-- everything in a request but scalar values and its warnings: the names of its parts, which form fields are files,
and the shape of its body -/
structure Outline where
  method : Text
  headers : List Text
  query : List Text
  pathParameters : List Text
  formFields : List (Text × Bool)
  body : Json

def outline (r : Request) : Outline where
  method := r.method
  headers := Entries.keys r.headers
  query := Entries.keys r.query
  pathParameters := Entries.keys r.pathParameters
  formFields := r.formFields.map fun f => (f.name, f.isFile)
  body := r.body.shape

/-- the names of the header that says what the content is -/
def contentNames (setting : Setting) (e : Endpoint) : List Text :=
  if (formSkeletons setting e).isEmpty && (e.parametersFrom .body).isEmpty then [] else [contentTypeHeader]

/-- the outline that a request of the endpoint has -/
def plan (setting : Setting) (environment : Option EnvironmentDraft) (e : Endpoint) : Outline where
  method := e.method
  headers := Entries.addKeys (Entries.addKeys (Entries.addKeys [acceptHeader]
    (((valid? environment).map fun given => Entries.keys given.headers).getD []))
    ((e.parametersFrom .header).map Parameter.name)) (contentNames setting e)
  query := Entries.addKeys [] ((querySkeletons setting e).map Entry.key)
  pathParameters := Entries.addKeys [] e.pathTokens
  formFields := (formSkeletons setting e).map fun entry => (entry.key, entry.isFile)
  body := (bodySkeleton setting e).shape

/-- what making a request of the endpoint adds: the efforts of its parts -/
def effort (setting : Setting) (e : Endpoint) : Progress :=
  ((pathSkeletons setting e).map fun member => member.2.effort).sum +
    (((querySkeletons setting e).map fun entry => entry.value.effort).sum +
      (((headerSkeletons setting e).map fun member => member.2.effort).sum +
        (((formSkeletons setting e).map fun entry => entry.value.effort).sum + (bodySkeleton setting e).effort)))

theorem adds_checked : (checked environment).Adds 0 (· = valid? environment) := by
  unfold checked
  split
  · exact Adds.pure rfl
  · next draft =>
    cases checks : draft.validate with
    | ok given => exact Adds.pure (by simp [valid?, checks, Except.toOption])
    | error fault => exact Adds.throw

theorem keys_withHeaders (headers : Entries Text) (entries : List (Text × Text)) :
    Entries.keys (withHeaders headers entries) = Entries.addKeys (Entries.keys headers) (entries.map Prod.fst) :=
  Entries.keys_foldl (fun headers entry => Entries.keys_insert entry.1 entry.2 headers) entries headers

theorem keys_ofList {α : Type} (pairs : List (Text × α)) :
    Entries.keys (Entries.ofList pairs) = Entries.addKeys [] (pairs.map Prod.fst) :=
  Entries.keys_foldl (fun entries pair => Entries.keys_insert pair.1 pair.2 entries) pairs []

theorem keys_contentHeaders {form : List FormField} (marked : form.map (fun f => (f.name, f.isFile)) =
    (formSkeletons setting e).map fun entry => (entry.key, entry.isFile)) :
    (contentHeaders form (e.parametersFrom .body)).map Prod.fst = contentNames setting e := by
  have same : form.isEmpty = (formSkeletons setting e).isEmpty := by
    rw [← List.isEmpty_map (f := fun f : FormField => (f.name, f.isFile)), marked, List.isEmpty_map]
  unfold contentHeaders contentNames
  rw [same]
  cases (formSkeletons setting e).isEmpty <;> cases (e.parametersFrom .body).isEmpty <;> rfl

/-! ## The parts that are filled -/

/-- what the parts of a request are filled with, in the order in which they are filled -/
structure Filled where
  tokens : List (Text × Text)
  query : List FormField
  headers : List (Text × Text)
  form : List FormField
  body : Json

namespace Filled

/-- the values of the tokens by their small-letter names -/
def values (f : Filled) : Entries Text := Entries.ofList f.tokens

/-- everything that is written into the headers, one entry after another -/
def headersWritten (f : Filled) (environment : Option Environment) (e : Endpoint) : List (Text × Text) :=
  (acceptHeader, jsonContent) :: ((environment.map (·.headers)).getD [] ++ f.headers ++
    contentHeaders f.form (e.parametersFrom .body))

/-- the request that the parts are put together to -/
def request (f : Filled) (environment : Option Environment) (e : Endpoint) : Request :=
  let query := f.query.foldl (fun query field => Entries.insertIfAbsent field.name field.value query) []
  { method := e.method
    url := address environment
      (Route.fill (fun token => Url.percentEncode ((Entries.lookup? token.lower f.values).getD token)) e.route) query
    headers := Entries.ofList (f.headersWritten environment e)
    query := query
    pathParameters := Entries.ofList (e.pathTokens.map fun token =>
      (token, (Entries.lookup? token.lower f.values).getD token))
    body := f.body
    formFields := f.form
    warnings := [] }

/-- the parts have the names, the marks and the shape of the skeletons that they are filled from -/
structure Fits (f : Filled) (setting : Setting) (e : Endpoint) : Prop where
  tokens : f.tokens.map Prod.fst = (pathSkeletons setting e).map Prod.fst
  query : f.query.map (fun field => (field.name, field.isFile)) =
    (querySkeletons setting e).map fun entry => (entry.key, entry.isFile)
  headers : f.headers.map Prod.fst = (e.parametersFrom .header).map Parameter.name
  form : f.form.map (fun field => (field.name, field.isFile)) =
    (formSkeletons setting e).map fun entry => (entry.key, entry.isFile)
  body : f.body.shape = (bodySkeleton setting e).shape

end Filled

theorem withHeaders_written (f : Filled) (environment : Option Environment) (e : Endpoint) :
    withHeaders (withHeaders (withHeaders [(acceptHeader, jsonContent)] ((environment.map (·.headers)).getD []))
      f.headers) (contentHeaders f.form (e.parametersFrom .body)) =
      Entries.ofList (f.headersWritten environment e) := by
  simp only [withHeaders, ← List.foldl_append]
  rw [Filled.headersWritten, Entries.ofList, List.foldl_cons, List.append_assoc]
  rfl

/-- **A request is put together from its parts**, which are filled with the efforts of their skeletons. -/
theorem adds_build (setting : Setting) (picker : Picker) (environment : Option EnvironmentDraft) (e : Endpoint) :
    (build setting picker environment e).Adds (effort setting e)
      (fun r => ∃ f : Filled, f.Fits setting e ∧ r = f.request (valid? environment) e) := by
  unfold build
  refine (adds_texts (pathSkeletons_even setting e)).bind fun tokens settled =>
    (adds_entries (querySkeletons_settle setting e)).bind fun fields asked => ?_
  -- checking the environment adds nothing, so it is not among the efforts
  rw [← Progress.zero_add (_ + _)]
  refine adds_checked.bind fun given valid => (adds_texts (headerSkeletons_settle setting e)).bind fun texts named =>
    (adds_entries (formSkeletons_settle setting e)).bind fun forms marked =>
    (adds_fill (bodySkeleton_settles setting e)).map fun body shaped => ?_
  subst valid
  have names : texts.map Prod.fst = (e.parametersFrom .header).map Parameter.name := by
    rw [named, headerSkeletons, List.map_map]
    rfl
  refine ⟨⟨tokens, fields, texts, forms, body⟩, ⟨settled, asked, names, marked, shaped⟩, ?_⟩
  rw [Filled.request, ← withHeaders_written]
  rfl

/-- A request that is made is put together from parts that fit, its warnings and draws are those of its effort. -/
theorem filled_of_synthesize {draws : Nat} {r : Request}
    (made : (synthesize setting picker draws environment e).1.value = .ok r) :
    (∃ f : Filled, f.Fits setting e ∧ r = { f.request (valid? environment) e with warnings := r.warnings }) ∧
      r.warnings = (effort setting e).problems.map (⟨·, none, some e.subject⟩) ∧
      (synthesize setting picker draws environment e).2 = draws + (effort setting e).draws := by
  unfold synthesize at made ⊢
  cases run : (build setting picker environment e).run.run ⟨draws, []⟩ with
  | mk outcome progress =>
    rw [run] at made
    cases outcome with
    | error raised => cases made
    | ok built =>
      obtain ⟨rfl, f, fits, same⟩ := adds_build setting picker environment e ⟨draws, []⟩ built progress run
      cases made
      exact ⟨⟨f, fits, by rw [same]⟩, rfl, rfl⟩

theorem Filled.Fits.keys_headers {f : Filled} (fits : f.Fits setting e) (environment : Option EnvironmentDraft) :
    Entries.keys (Entries.ofList (f.headersWritten (valid? environment) e)) = (plan setting environment e).headers := by
  have common : Entries.keys (((valid? environment).map (·.headers)).getD []) =
      ((valid? environment).map fun given => Entries.keys given.headers).getD [] := by
    cases valid? environment <;> rfl
  rw [← withHeaders_written, keys_withHeaders, keys_withHeaders, keys_withHeaders, keys_contentHeaders fits.form,
    fits.headers, plan, ← common]
  rfl

/-- **A request has the outline that is planned for it.** -/
theorem Filled.Fits.outline_request {f : Filled} (fits : f.Fits setting e) (environment : Option EnvironmentDraft) :
    (f.request (valid? environment) e).outline = plan setting environment e := by
  have keys : f.query.map FormField.name = (querySkeletons setting e).map Entry.key := by
    have := congrArg (List.map Prod.fst) fits.query
    rwa [List.map_map, List.map_map] at this
  unfold outline plan
  congr 1
  · exact fits.keys_headers environment
  · rw [← keys]
    exact Entries.keys_foldl (fun entries f => Entries.keys_insertIfAbsent f.name f.value entries) f.query []
  · rw [Filled.request, keys_ofList, List.map_map]
    exact congrArg _ (List.map_id _)
  · exact fits.form
  · exact fits.body

/-- A request that is made has the outline planned for it, and its warnings and draws are those of its effort. -/
theorem planned_of_synthesize {draws : Nat} {r : Request}
    (made : (synthesize setting picker draws environment e).1.value = .ok r) :
    r.outline = plan setting environment e ∧
      r.warnings = (effort setting e).problems.map (⟨·, none, some e.subject⟩) ∧
      (synthesize setting picker draws environment e).2 = draws + (effort setting e).draws := by
  obtain ⟨⟨f, fits, same⟩, warned, drawn⟩ := filled_of_synthesize made
  refine ⟨?_, warned, drawn⟩
  rw [same]
  exact fits.outline_request environment

end Request

/-- **Random choice never changes structure.** If a request is made, one is made whatever else is picked: with the same
method, the same names of headers, query and path parameters in the same order, the same form fields and file marks, the
same warnings, a body of the same shape, and after as many draws. -/
theorem picks_keep_outline (setting : Skeleton.Setting) (environment : Option EnvironmentDraft) (e : Endpoint)
    {picker : Picker} {draws : Nat} {r : Request}
    (made : (synthesize setting picker draws environment e).1.value = .ok r) :
    ∃ n, (synthesize setting picker draws environment e).2 = draws + n ∧
      ∀ (picker' : Picker) (draws' : Nat), ∃ r',
        (synthesize setting picker' draws' environment e).1.value = .ok r' ∧
        r'.method = r.method ∧ Entries.keys r'.headers = Entries.keys r.headers ∧
        Entries.keys r'.query = Entries.keys r.query ∧
        Entries.keys r'.pathParameters = Entries.keys r.pathParameters ∧
        r'.formFields.map (fun f => (f.name, f.isFile)) = r.formFields.map (fun f => (f.name, f.isFile)) ∧
        r'.body.shape = r.body.shape ∧ r'.warnings = r.warnings ∧
        (synthesize setting picker' draws' environment e).2 = draws' + n := by
  obtain ⟨planned, warned, drawn⟩ := Request.planned_of_synthesize made
  refine ⟨_, drawn, fun picker' draws' => ?_⟩
  obtain ⟨r', made'⟩ := Request.isMade_iff.2 (Request.isMade_iff.1 ⟨r, made⟩)
  obtain ⟨planned', warned', drawn'⟩ := Request.planned_of_synthesize made'
  have same : r'.outline = r.outline := planned'.trans planned.symm
  refine ⟨r', made', ?_, ?_, ?_, ?_, ?_, ?_, warned'.trans warned.symm, drawn'⟩
  · exact congrArg Request.Outline.method same
  · exact congrArg Request.Outline.headers same
  · exact congrArg Request.Outline.query same
  · exact congrArg Request.Outline.pathParameters same
  · exact congrArg Request.Outline.formFields same
  · exact congrArg Request.Outline.body same

/-- an action that takes a note for a row of a shelf; no parameter has the name of its token -/
def postNote : Endpoint :=
  { method := "POST"
    route := "/notes/\x7bshelf\x7d"
    parameters := [⟨"row", "int", .query, false, none, false, false, "row", false⟩,
      ⟨"note", "string", .body, true, none, false, false, "note", true⟩]
    returnType := "void"
    action := "Post"
    controller := "NotesController"
    location := ⟨1, 1⟩
    summary := none
    authRequired := false
    pathTokens := ["shelf"]
    warnings := [] }

/-- no type is declared -/
def noteSetting : Skeleton.Setting := ⟨Catalog.ofList [], ⟨0⟩⟩

/-- The theorem at an action with values from three pools. -/
theorem picks_keep_outline_note :
    ∃ r n, (synthesize noteSetting none 0 none postNote).1.value = .ok r ∧ ∀ picker draws, ∃ r',
      (synthesize noteSetting picker draws none postNote).1.value = .ok r' ∧
        Entries.keys r'.query = Entries.keys r.query ∧ r'.body.shape = r.body.shape ∧ r'.warnings = r.warnings ∧
        (synthesize noteSetting picker draws none postNote).2 = draws + n := by
  have scalars : ∀ p ∈ Request.walked postNote, (noteSetting.catalog.resolve p.typeText).scalar?.isSome := by
    decide +kernel
  obtain ⟨r, made⟩ : ∃ r, (synthesize noteSetting none 0 none postNote).1.value = .ok r :=
    Request.isMade_iff.2 ⟨nofun, fun p walks =>
      Catalog.writable_of_none (Catalog.not_entered_scalar (scalars p walks))⟩
  obtain ⟨n, _, others⟩ := picks_keep_outline noteSetting none postNote made
  refine ⟨r, n, made, fun picker draws => ?_⟩
  obtain ⟨r', made', _, _, query, _, _, body, warnings, drawn⟩ := others picker draws
  exact ⟨r', made', query, body, warnings, drawn⟩

end EndpointSurvey
