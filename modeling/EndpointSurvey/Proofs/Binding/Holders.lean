/-
Which tokens of a route are held when all parameters are bound, and which are reported for want of a parameter.

Main statements:
- `tokensByName_eq`: the tokens of a route, which differ in more than case, are all listed by their names;
- `held_hold` and `held_bindAll`: what one parameter, and what a whole list of them, holds;
- `bindParameters_unbound_iff`: a token is reported if and only if no parameter from the path has its name;
- `tokensBound_of_mem`: so it is for the endpoints of a document.
-/
import EndpointSurvey.Proofs.Document.Values
import EndpointSurvey.Proofs.Entries
import EndpointSurvey.Proofs.Route.Parameters

namespace EndpointSurvey

namespace Binding

theorem tokensByName_eq {tokens : List Text} (distinct : (tokens.map Text.lower).Nodup) :
    tokensByName tokens = tokens.map fun t => (t.lower, t) := by
  apply Entries.ofList_of_nodup
  rwa [Entries.keys, List.map_map]

/-! ## What parameters hold -/

variable {context : Context} {holders : Holders} {subject : Option Text} {raws : List RawParameter}

/-- the parameter comes from the path under this small-letter name -/
def Takes (p : Parameter) (key : Text) : Prop := p.source = .path ∧ p.name.lower = key

/-- A parameter from the path holds the token of its name, if there is one. -/
theorem held_hold (context : Context) (holders : Holders) (p : Parameter) (key : Text) :
    key ∈ Entries.keys (hold context holders p).1 ↔
      key ∈ Entries.keys holders ∨ (key ∈ Entries.keys context.tokens ∧ Takes p key) := by
  unfold hold
  by_cases path : p.source = .path
  · rw [if_pos path]
    have known := Entries.isSome_lookup?_iff p.name.lower context.tokens
    have held := Entries.isSome_lookup?_iff p.name.lower holders
    rw [Takes, and_iff_right path]
    split
    · next token =>
      rw [token] at known
      refine (or_iff_left ?_).symm
      rintro ⟨member, rfl⟩
      exact nomatch known.2 member
    · next first =>
      rw [first] at held
      refine (or_iff_left_of_imp ?_).symm
      rintro ⟨_, rfl⟩
      exact held.1 rfl
    · next token _ =>
      rw [token] at known
      rw [Entries.mem_keys_insert]
      refine or_congr_right (and_iff_right_of_imp ?_).symm
      rintro rfl
      exact known.1 rfl
  · rw [if_neg path]
    exact (or_iff_left fun taken => path taken.2.1).symm

/-- What parameters hold in the end is what was held before, and the tokens that some of them take. -/
theorem held_bindAll (context : Context) (holders : Holders) (raws : List RawParameter) (key : Text) :
    key ∈ Entries.keys (bindAll context holders raws).value.holders ↔ key ∈ Entries.keys holders ∨
      (key ∈ Entries.keys context.tokens ∧ ∃ p ∈ (bindAll context holders raws).value.parameters, Takes p key) := by
  induction raws generalizing holders with
  | nil => simp [bindAll]
  | cons raw rest ih =>
    simp only [bindAll, Traced.value_bind, value_attributes]
    split
    · simp only [Traced.value_bind]
      exact ih holders
    · simp only [Traced.value_bind, Traced.value_pure]
      rw [ih, held_hold, or_assoc, ← and_or_left]
      simp only [List.mem_cons, exists_eq_or_imp]

/-! ## What is reported -/

/-- While parameters are bound, no token is reported for want of one. -/
theorem problems_bindAll (context : Context) (holders : Holders) (raws : List RawParameter) (token : Text) :
    .unboundToken token ∉ (bindAll context holders raws).value.problems := by
  have step : ∀ holders p, .unboundToken token ∉ (hold context holders p).2.toList := by
    intro holders p
    unfold hold
    by_cases path : p.source = .path
    · rw [if_pos path]
      split <;> simp
    · rw [if_neg path]
      exact nofun
  induction raws generalizing holders with
  | nil => exact nofun
  | cons raw rest ih =>
    simp only [bindAll, Traced.value_bind, value_attributes]
    split
    · simp only [Traced.value_bind]
      exact ih holders
    · simp only [Traced.value_bind, Traced.value_pure]
      exact fun member => (List.mem_append.1 member).elim (step _ _) (ih _)

theorem unheld_iff {tokens : List Text} (distinct : (tokens.map Text.lower).Nodup)
    (same : context.tokens = tokensByName tokens) (token : Text) :
    .unboundToken token ∈ unheld context holders ↔ token ∈ tokens ∧ token.lower ∉ Entries.keys holders := by
  have free : ∀ key, (Entries.lookup? key holders).isNone = true ↔ key ∉ Entries.keys holders := by
    intro key
    rw [← Entries.isSome_lookup?_iff, Option.isNone_iff_eq_none, Option.not_isSome_iff_eq_none]
  rw [unheld, same, tokensByName_eq distinct, List.filter_map, List.map_map, List.mem_map]
  simp only [List.mem_filter, Function.comp_apply, free]
  constructor
  · rintro ⟨_, listed, same⟩
    cases same
    exact listed
  · exact fun listed => ⟨token, listed, rfl⟩

/-- **Tokens without a parameter.** Binding the parameters of an action reports a token of its route if and only if no
parameter from the path has the token's name, in any case. -/
theorem bindParameters_unbound_iff {tokens : List Text} (distinct : (tokens.map Text.lower).Nodup)
    (same : context.tokens = tokensByName tokens) (token : Text) :
    (∃ w ∈ (bindParameters context subject raws).value.warnings, w.problem = .unboundToken token) ↔
      token ∈ tokens ∧ ∀ p ∈ (bindParameters context subject raws).value.parameters, ¬ Takes p token.lower := by
  have reported : (∃ w ∈ (bindParameters context subject raws).value.warnings, w.problem = .unboundToken token) ↔
      .unboundToken token ∈ (bindAll context [] raws).value.problems ++
        unheld context (bindAll context [] raws).value.holders := by
    simp only [bindParameters, Traced.value_bind, Traced.value_pure, List.mem_map]
    constructor
    · rintro ⟨w, ⟨problem, member, rfl⟩, rfl⟩
      exact member
    · exact fun member => ⟨_, ⟨_, member, rfl⟩, rfl⟩
  have parameters : (bindParameters context subject raws).value.parameters =
      (bindAll context [] raws).value.parameters := by
    simp only [bindParameters, Traced.value_bind, Traced.value_pure]
  rw [reported, parameters, List.mem_append, or_iff_right (problems_bindAll context [] raws token),
    unheld_iff distinct same]
  refine and_congr_right fun listed => ?_
  have known : token.lower ∈ Entries.keys context.tokens := by
    rw [same, tokensByName_eq distinct, Entries.keys, List.map_map]
    exact List.mem_map_of_mem listed
  rw [held_bindAll, or_iff_right (by exact List.not_mem_nil), and_iff_right known]
  simp only [not_exists, not_and]

end Binding

/-! ## Endpoints -/

namespace Endpoint

/-- What reading a document leaves of its routes' tokens: they differ in more than case, and one is reported if and only
if no parameter from the path has its name. -/
structure TokensBound (e : Endpoint) : Prop where
  distinct : (e.pathTokens.map Text.lower).Nodup
  unbound_iff : ∀ token, (∃ w ∈ e.warnings, w.problem = .unboundToken token) ↔
    token ∈ e.pathTokens ∧ ∀ p ∈ e.parameters, ¬ Binding.Takes p token.lower

end Endpoint

theorem buildEndpoint_tokensBound (catalog : Catalog) (controller : Controller) (m : MemberBlock) (location : Location)
    (marks : List Attribute) (verbMark : Attribute) (verb : Verb) (signature : Signature) :
    (buildEndpoint catalog controller m location marks verbMark verb signature).value.TokensBound := by
  simp only [buildEndpoint, Route.compose, Traced.value_bind, Traced.value_pure]
  exact ⟨nodup_distinctNames _, Binding.bindParameters_unbound_iff (nodup_distinctNames _) rfl⟩

/-- The endpoints of a document have their tokens bound. -/
theorem tokensBound_of_mem {text : Text} {e : Endpoint} (h : e ∈ (readDocument text).value.endpoints) :
    e.TokensBound := by
  rw [readDocument_endpoints] at h
  obtain ⟨b, _, he⟩ := List.mem_flatMap.1 h
  obtain ⟨m, _, found⟩ := List.mem_filterMap.1 he
  obtain ⟨⟨marks, verbMark, verb, signature⟩, _, rfl⟩ := Option.map_eq_some_iff.1 found
  exact buildEndpoint_tokensBound ..

end EndpointSurvey
