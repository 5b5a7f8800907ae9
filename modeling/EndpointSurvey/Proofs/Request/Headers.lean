/-
The headers of a request: the default, those of the environment, those of header parameters and the type of the content
are written one after another under their names as they are spelled. Two spellings of one name are two headers.

Main statements: `Entries.lookup?_ofList` (of entries written under one key the last counts),
`Request.unambiguous_ofList_iff` (no two entries have one name exactly if each name is spelled in one way) and
`headers_unambiguous_iff`.
-/
import EndpointSurvey.Proofs.Request.Outline
import Mathlib.Data.List.Nodup

namespace EndpointSurvey

namespace Entries

variable {α : Type}

/-- Of entries that are written under one key the last counts. -/
theorem lookup?_ofList (pairs : List (Text × α)) (key : Text) :
    lookup? key (ofList pairs) = lookup? key pairs.reverse := by
  have written : ∀ before : Entries α,
      lookup? key (pairs.foldl (fun acc pair => insert pair.1 pair.2 acc) before) =
        (lookup? key pairs.reverse).or (lookup? key before) := by
    induction pairs with
    | nil => exact fun before => rfl
    | cons pair rest ih =>
      intro before
      rw [List.foldl_cons, ih, List.reverse_cons, lookup?_append, lookup?_insert]
      by_cases same : pair.1 = key <;> simp [lookup?, same]
  exact (written []).trans (Option.or_none)

theorem lookup?_reverse_concat (pairs : List (Text × α)) (key : Text) (value : α) :
    lookup? key (pairs ++ [(key, value)]).reverse = some value := by
  rw [List.reverse_append, List.reverse_singleton, List.singleton_append, lookup?, if_pos rfl]

end Entries

namespace Request

open Skeleton

/-- a name without regard to the case of ASCII letters, as headers are told apart by -/
def foldCase (name : Text) : Text := name.map Char.toLower

/-- no two headers have one name -/
def Unambiguous (headers : Entries Text) : Prop := ((Entries.keys headers).map foldCase).Nodup

/-- each name is spelled in one way -/
def SpelledAlike (names : List Text) : Prop := ∀ a ∈ names, ∀ b ∈ names, foldCase a = foldCase b → a = b

instance (headers : Entries Text) : Decidable (Unambiguous headers) :=
  inferInstanceAs (Decidable ((Entries.keys headers).map foldCase).Nodup)

instance (names : List Text) : Decidable (SpelledAlike names) :=
  inferInstanceAs (Decidable (∀ a ∈ names, ∀ b ∈ names, foldCase a = foldCase b → a = b))

/-- **No two entries have one name exactly if each name is spelled in one way.** -/
theorem unambiguous_ofList_iff (pairs : List (Text × Text)) :
    Unambiguous (Entries.ofList pairs) ↔ SpelledAlike (pairs.map Prod.fst) := by
  have distinct : (Entries.keys (Entries.ofList pairs)).Nodup := by
    rw [keys_ofList]
    exact Entries.nodup_addKeys List.nodup_nil _
  have names : ∀ name, name ∈ Entries.keys (Entries.ofList pairs) ↔ name ∈ pairs.map Prod.fst := by
    intro name
    rw [keys_ofList, Entries.mem_addKeys, or_iff_right List.not_mem_nil]
  unfold Unambiguous SpelledAlike
  rw [List.nodup_map_iff_inj_on distinct]
  simp only [names]

variable {e : Endpoint} {environment : Option Environment} {f : Filled}

/-- The type of the content is written last, so no other entry of its spelling counts. -/
theorem lookup?_contentType_of_form (form : f.form ≠ []) :
    Entries.lookup? contentTypeHeader (f.headersWritten environment e).reverse = some formContent := by
  have last : contentHeaders f.form (e.parametersFrom .body) = [(contentTypeHeader, formContent)] := by
    rw [contentHeaders, if_pos (by simpa using form)]
  rw [Filled.headersWritten, last, ← List.cons_append]
  exact Entries.lookup?_reverse_concat ..

theorem lookup?_contentType_of_body (form : f.form = []) (body : e.parametersFrom .body ≠ []) :
    Entries.lookup? contentTypeHeader (f.headersWritten environment e).reverse = some jsonContent := by
  have last : contentHeaders f.form (e.parametersFrom .body) = [(contentTypeHeader, jsonContent)] := by
    rw [contentHeaders, if_neg (by simp [form]), if_pos (by simpa using body)]
  rw [Filled.headersWritten, last, ← List.cons_append]
  exact Entries.lookup?_reverse_concat ..

end Request

open Request in
/-- **The headers of a request.** Whatever the endpoint, the types and the environment: the default, the headers of the
environment, one for each header parameter and the type of the content are written in this order, and of those spelled
alike the last counts. The type of the content is that of a form if there are form fields, else that of a JSON body if
there are body parameters. But what is spelled in another way is kept beside it: no two headers have one name, which
disregards the case of letters, exactly if no name is written in two spellings. -/
theorem headers_unambiguous_iff (setting : Skeleton.Setting) (picker : Picker) (draws : Nat)
    (environment : Option EnvironmentDraft) (e : Endpoint) {r : Request}
    (made : (synthesize setting picker draws environment e).1.value = .ok r) :
    ∃ given : List (Text × Text), given.map Prod.fst = (e.parametersFrom .header).map Parameter.name ∧
      let written := (acceptHeader, jsonContent) :: (((valid? environment).map (·.headers)).getD [] ++ given ++
        contentHeaders r.formFields (e.parametersFrom .body))
      (∀ name, Entries.lookup? name r.headers = Entries.lookup? name written.reverse) ∧
      (Unambiguous r.headers ↔ SpelledAlike (written.map Prod.fst)) ∧
      (r.formFields ≠ [] → Entries.lookup? contentTypeHeader r.headers = some formContent) ∧
      (r.formFields = [] → e.parametersFrom .body ≠ [] →
        Entries.lookup? contentTypeHeader r.headers = some jsonContent) := by
  obtain ⟨⟨f, fits, same⟩, -, -⟩ := filled_of_synthesize made
  have headers : r.headers = Entries.ofList (f.headersWritten (valid? environment) e) := by rw [same]; rfl
  have fields : r.formFields = f.form := by rw [same]; rfl
  have read : ∀ name, Entries.lookup? name r.headers =
      Entries.lookup? name (f.headersWritten (valid? environment) e).reverse := fun name => by
    rw [headers, Entries.lookup?_ofList]
  refine ⟨f.headers, fits.headers, ?_, ?_, ?_, ?_⟩
  · rw [fields]
    exact read
  · rw [fields, headers]
    exact unambiguous_ofList_iff _
  · rw [fields, read]
    exact lookup?_contentType_of_form
  · rw [fields, read]
    exact lookup?_contentType_of_body

/-- an environment that names the type of the content in small letters -/
def plainTextDraft : EnvironmentDraft :=
  ⟨"Staging", "https://staging.example.com", [], [("content-type", .string "text/plain")]⟩

/-- The theorem at an action with a body: the type that the environment names stays beside that of the body. -/
theorem headers_unambiguous_iff_plainText :
    ∃ r, (synthesize noteSetting none 0 (some plainTextDraft) postNote).1.value = .ok r ∧
      Entries.lookup? "content-type" r.headers = some "text/plain" ∧
      Entries.lookup? "Content-Type" r.headers = some "application/json" ∧ ¬ Request.Unambiguous r.headers := by
  have scalars : ∀ p ∈ Request.walked postNote, (noteSetting.catalog.resolve p.typeText).scalar?.isSome := by
    decide +kernel
  have valid : plainTextDraft.validate =
      .ok ⟨"Staging", "https://staging.example.com", [], [("content-type", "text/plain")]⟩ := by decide +kernel
  obtain ⟨r, made⟩ : ∃ r, (synthesize noteSetting none 0 (some plainTextDraft) postNote).1.value = .ok r :=
    Request.isMade_iff.2 ⟨fun draft same => ⟨_, (Option.some.inj same) ▸ valid⟩, fun p walks =>
      Catalog.writable_of_none (Catalog.not_entered_scalar (scalars p walks))⟩
  have environment : Request.valid? (some plainTextDraft) =
      some ⟨"Staging", "https://staging.example.com", [], [("content-type", "text/plain")]⟩ := by
    rw [Request.valid?, Option.bind_some, valid]
    rfl
  have fields : r.formFields = [] := by
    have planned := congrArg Request.Outline.formFields (Request.planned_of_synthesize made).1
    exact List.map_eq_nil_iff.1 (planned.trans rfl)
  obtain ⟨given, names, read, unambiguous, -, json⟩ := headers_unambiguous_iff _ _ _ _ _ made
  have none_given : given = [] := List.map_eq_nil_iff.1 (names.trans rfl)
  simp only [environment, none_given, fields] at read unambiguous
  exact ⟨r, made, (read _).trans rfl, json fields (by decide), unambiguous.not.2 (by decide)⟩

end EndpointSurvey
