/-
The tokens of a route that a request fills from their names, and those that reading the document reports.

Main statements: `Request.problem_token_iff` (a request fills a token from its name if no parameter has that name) and
`unmatched_tokens_agree` (for the endpoints of a document, these are the tokens reported without a parameter).
-/
import EndpointSurvey.Proofs.Binding.Holders
import EndpointSurvey.Proofs.Request.Outline

namespace EndpointSurvey

theorem Skeleton.Settles.no_token {s : Skeleton} (h : s.Settles) (token : Text) :
    .tokenFilledFromName token ∉ s.effort.problems :=
  fun member => h.problems _ member rfl

namespace Request

open Skeleton

variable {setting : Setting} {e : Endpoint}

theorem byName_eq_none_iff (e : Endpoint) (token : Text) :
    byName (e.parametersFrom .path) token = none ↔ ∀ p ∈ e.parameters, ¬ Binding.Takes p token.lower := by
  rw [byName, List.find?_eq_none]
  simp only [List.mem_reverse, Endpoint.parametersFrom, List.mem_filter, beq_iff_eq, Binding.Takes, and_imp, not_and]

/-! ## The problems of a request -/

theorem no_token_of_sum {ι : Type} {list : List ι} {value : ι → Skeleton} (settle : ∀ a ∈ list, (value a).Settles)
    (token : Text) : .tokenFilledFromName token ∉ (list.map fun a => (value a).effort).sum.problems := by
  rw [Progress.problems_sum, List.flatMap_map, List.mem_flatMap]
  rintro ⟨a, inside, member⟩
  exact (settle a inside).no_token token member

theorem problem_tokenSkeleton_iff (setting : Setting) (parameters : List Parameter) (token other : Text) :
    .tokenFilledFromName token ∈ (tokenSkeleton setting parameters other).effort.problems ↔
      other = token ∧ byName parameters other = none := by
  unfold tokenSkeleton
  cases found : byName parameters other with
  | some p => simp [(ofTextType_settles setting [] p.name _).no_token token]
  | none =>
    have plain := (named_settles setting other).no_token token
    rw [Skeleton.effort, Progress.problems_add, List.mem_append, or_iff_left plain, List.mem_singleton]
    simp [eq_comm]

/-- **Tokens filled from their names.** Making a request notes a token of those it fills if and only if no parameter from
the path has the token's name, in any case. -/
theorem problem_token_iff (setting : Setting) (e : Endpoint) (token : Text) :
    .tokenFilledFromName token ∈ (effort setting e).problems ↔
      token ∈ tokensToFill e ∧ ∀ p ∈ e.parameters, ¬ Binding.Takes p token.lower := by
  have query := no_token_of_sum (querySkeletons_settle setting e) token
  have header := no_token_of_sum (headerSkeletons_settle setting e) token
  have form := no_token_of_sum (formSkeletons_settle setting e) token
  have body := (bodySkeleton_settles setting e).no_token token
  simp only [effort, Progress.problems_add, List.mem_append, query, header, form, body, or_false]
  rw [Progress.problems_sum, List.flatMap_map, pathSkeletons, List.flatMap_map, List.mem_flatMap]
  simp only [problem_tokenSkeleton_iff, byName_eq_none_iff]
  constructor
  · rintro ⟨_, listed, rfl, free⟩
    exact ⟨listed, free⟩
  · exact fun ⟨listed, free⟩ => ⟨token, listed, rfl, free⟩

end Request

/-- **Parser and synthesizer agree on unmatched tokens.** Take an endpoint of any document, and a request made for it
with any catalog and any environment. A token of the endpoint's route is noted to be filled from its name if and only if
the endpoint's warnings report that it has no matching parameter; and the request has a path parameter for each of these
tokens, in their order. -/
theorem unmatched_tokens_agree (text : Text) {e : Endpoint} (h : e ∈ (readDocument text).value.endpoints)
    (setting : Skeleton.Setting) (picker : Picker) (draws : Nat) (environment : Option EnvironmentDraft) {r : Request}
    (made : (synthesize setting picker draws environment e).1.value = .ok r) :
    (∀ token ∈ e.pathTokens, (∃ w ∈ r.warnings, w.problem = .tokenFilledFromName token) ↔
      ∃ w ∈ e.warnings, w.problem = .unboundToken token) ∧ Entries.keys r.pathParameters = e.pathTokens := by
  obtain ⟨distinct, unbound_iff⟩ := tokensBound_of_mem h
  obtain ⟨planned, warned, _⟩ := Request.planned_of_synthesize made
  constructor
  · intro token listed
    have noted : (∃ w ∈ r.warnings, w.problem = .tokenFilledFromName token) ↔
        .tokenFilledFromName token ∈ (Request.effort setting e).problems := by
      rw [warned]
      constructor
      · rintro ⟨w, member, same⟩
        obtain ⟨problem, member, rfl⟩ := List.mem_map.1 member
        rwa [← same]
      · exact fun member => ⟨_, List.mem_map.2 ⟨_, member, rfl⟩, rfl⟩
    rw [noted, Request.problem_token_iff, unbound_iff, and_iff_right listed, and_iff_right]
    exact subset_addNames e.pathTokens _ listed
  · calc Entries.keys r.pathParameters
      _ = Entries.addKeys [] e.pathTokens := congrArg Request.Outline.pathParameters planned
      _ = e.pathTokens := Entries.addKeys_of_nodup (List.Nodup.of_map _ distinct)

/-- an action with a parameter for one of its two tokens -/
def shelvesAction : Text :=
  "[Route(\"shelves\")]\npublic class ShelvesController : ControllerBase\n\x7b\n" ++
    "    [HttpGet(\"\x7bshelf\x7d/items/\x7bId\x7d\")]\n" ++
    "    public string Get(int id) \x7b return null; \x7d\n\x7d\n"

/-- The theorem at an action with a token of each sort. -/
theorem unmatched_tokens_agree_shelves :
    ∃ e ∈ (readDocument shelvesAction).value.endpoints, ∃ r,
      (synthesize ⟨(readDocument shelvesAction).value.catalog, ⟨0⟩⟩ none 0 none e).1.value = .ok r ∧
        (∃ w ∈ r.warnings, w.problem = .tokenFilledFromName "shelf") ∧
        (¬ ∃ w ∈ r.warnings, w.problem = .tokenFilledFromName "Id") ∧
        Entries.keys r.pathParameters = ["shelf", "Id"] := by
  have some_endpoint : (readDocument shelvesAction).value.endpoints ≠ [] := by decide +kernel
  have read : ∀ e ∈ (readDocument shelvesAction).value.endpoints,
      (∀ p ∈ Request.walked e, ((readDocument shelvesAction).value.catalog.resolve p.typeText).scalar?.isSome) ∧
        e.pathTokens = ["shelf", "Id"] ∧ e.warnings.map (·.problem) = [.unboundToken "shelf"] := by decide +kernel
  obtain ⟨e, member⟩ := List.exists_mem_of_ne_nil _ some_endpoint
  obtain ⟨scalars, tokens, problems⟩ := read e member
  have reported : ∀ token, (∃ w ∈ e.warnings, w.problem = .unboundToken token) ↔ token = "shelf" := by
    intro token
    rw [← List.mem_map (f := Warning.problem), problems, List.mem_singleton, Problem.unboundToken.injEq]
  obtain ⟨r, made⟩ : ∃ r, (synthesize ⟨(readDocument shelvesAction).value.catalog, ⟨0⟩⟩ none 0 none e).1.value = .ok r :=
    Request.isMade_iff.2 ⟨nofun, fun p walks =>
      Catalog.writable_of_none (Catalog.not_entered_scalar (scalars p walks))⟩
  obtain ⟨agree, keys⟩ := unmatched_tokens_agree shelvesAction member _ _ _ _ made
  rw [tokens] at agree keys
  refine ⟨e, member, r, made, ?_, ?_, keys⟩
  · rw [agree "shelf" (by simp), reported]
  · rw [agree "Id" (by simp), reported]
    decide

end EndpointSurvey
