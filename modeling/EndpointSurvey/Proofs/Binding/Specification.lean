/-
What binding the parameters of an action gives, told without the table of held tokens that is kept while they are
bound: the source of each parameter, and what is wrong with it, depend on the parameters before it alone.

Main statements:
- `Held.hold`, `Held.bindOne` and `Held.problem`: one parameter, given a table that holds what the ones before it took;
- `Held.bindAll`: a whole list of them;
- `paths_account` and `unbound_account`: the parameters from the path, the tokens and the problems add up;
- `bindParameters_specified`: all of it for the parameters of an action.
-/
import EndpointSurvey.Proofs.Binding.Holders

namespace EndpointSurvey.Binding

instance (p : Parameter) (key : Text) : Decidable (Takes p key) := by unfold Takes; infer_instance

/-! ## The specification -/

/-- the framework supplies the parameter: an attribute or its type says so -/
def Supplied (raw : RawParameter) : Prop :=
  (∃ a ∈ attributesOf raw.attributeText, a.name = "FromServices") ∨
    (unqualified (Text.dropEnd (· == '?') raw.typeText)).lower ∈ serviceTypes

theorem injected_iff (raw : RawParameter) : injected (attributesOf raw.attributeText) raw = true ↔ Supplied raw := by
  simp only [injected, Attribute.has, Attribute.find?, Supplied, Bool.or_eq_true, List.contains_iff_mem,
    List.find?_isSome, List.mem_singleton]

instance (raw : RawParameter) : Decidable (Supplied raw) := decidable_of_iff _ (injected_iff raw)

/-- the parameters that the framework does not supply -/
def kept (raws : List RawParameter) : List RawParameter := raws.filter (¬ Supplied ·)

/-- the token of this small-letter name -/
def tokenOf? (tokens : List Text) (key : Text) : Option Text := tokens.find? (·.lower = key)

/-- the first parameter that takes the token of this name -/
def taker? (parameters : List Parameter) (key : Text) : Option Parameter := parameters.find? (Takes · key)

/-- the source of a parameter of this name and type behind earlier parameters -/
def sourceBehind (method : Text) (tokens : List Text) (earlier : List Parameter)
    (mark : Option (Attribute × BindingSource)) (name : Text) (resolved : ResolvedType) : BindingSource :=
  match mark with
  | some (_, source) => source
  | none =>
    if resolved.isFile then .form
    else if (∃ t ∈ tokens, t.lower = name.lower) ∧ ∀ p ∈ earlier, ¬ Takes p name.lower then .path
    else if resolved.isSimple then (ruleFor method).simple
    else (ruleFor method).complex

/-- a parameter as it is bound behind earlier ones -/
def boundBehind (method : Text) (catalog : Catalog) (tokens : List Text) (earlier : List Parameter)
    (raw : RawParameter) : Parameter :=
  let mark := sourceAttribute? (attributesOf raw.attributeText)
  let name := bindingName mark raw
  let resolved := catalog.resolve raw.typeText
  { name := name
    typeText := raw.typeText
    source := sourceBehind method tokens earlier mark name resolved
    required := raw.default.isNone && !isNullable raw.typeText
    default := raw.default
    isCollection := resolved.isCollection
    isFile := resolved.isFile
    variableName := raw.name
    explicitSource := mark.isSome }

/-- what is wrong with a parameter behind earlier ones: it comes from the path, but its name is no token, or one that an
earlier parameter takes -/
def problemBehind (tokens : List Text) (earlier : List Parameter) (p : Parameter) : Option Problem :=
  if p.source = .path then
    match tokenOf? tokens p.name.lower with
    | none => some (.missingToken p.name)
    | some token => (taker? earlier p.name.lower).map fun first => .tokenTakenTwice token first.name p.name
  else none

/-- what is wrong with parameters behind earlier ones, in order -/
def problemsBehind (tokens : List Text) (earlier parameters : List Parameter) : List Problem :=
  parameters.zipIdx.filterMap fun (p, i) => problemBehind tokens (earlier ++ parameters.take i) p

/-- the tokens that no parameter takes, in order -/
def unboundOf (tokens : List Text) (parameters : List Parameter) : List Problem :=
  (tokens.filter fun t => ∀ p ∈ parameters, ¬ Takes p t.lower).map .unboundToken

/-! ## Tokens and their takers -/

variable {context : Context} {tokens : List Text} {before : List Parameter} {holders : Holders}

theorem lookup?_tokensByName (distinct : (tokens.map Text.lower).Nodup) (key : Text) :
    Entries.lookup? key (tokensByName tokens) = tokenOf? tokens key := by
  rw [tokensByName_eq distinct, tokenOf?]
  clear distinct
  induction tokens with
  | nil => rfl
  | cons t ts ih =>
    rw [List.map_cons, Entries.lookup?, List.find?_cons, ih]
    by_cases same : t.lower = key <;> simp [same]

theorem tokenOf?_eq_none_iff {key : Text} : tokenOf? tokens key = none ↔ ¬ ∃ t ∈ tokens, t.lower = key := by
  simp [tokenOf?, List.find?_eq_none]

theorem tokenOf?_some {key token : Text} (h : tokenOf? tokens key = some token) : token ∈ tokens ∧ token.lower = key :=
  ⟨List.mem_of_find?_eq_some h, by simpa using List.find?_some h⟩

theorem taker?_eq_none_iff {key : Text} : taker? before key = none ↔ ∀ p ∈ before, ¬ Takes p key := by
  simp [taker?, List.find?_eq_none]

theorem taker?_concat (before : List Parameter) (p : Parameter) (key : Text) :
    taker? (before ++ [p]) key = (taker? before key).or (if Takes p key then some p else none) := by
  rw [taker?, List.find?_append, taker?]
  congr 1
  by_cases takes : Takes p key <;> simp [takes]

/-! ## One parameter -/

/-- the table holds, for each token, the name of the first parameter that takes it -/
def Held (tokens : List Text) (before : List Parameter) (holders : Holders) : Prop :=
  ∀ t ∈ tokens, Entries.lookup? t.lower holders = (taker? before t.lower).map (·.name)

theorem Held.nil (tokens : List Text) : Held tokens [] [] := fun _ _ => rfl

section
variable (distinct : (tokens.map Text.lower).Nodup) (same : context.tokens = tokensByName tokens)
include distinct same

/-- A parameter is bound as the ones before it say. -/
theorem Held.bindOne (h : Held tokens before holders) (raw : RawParameter) :
    bindOne context holders (attributesOf raw.attributeText) raw =
      boundBehind context.method context.catalog tokens before raw := by
  have free : ∀ name : Text, ((Entries.lookup? name.lower context.tokens).isSome &&
      (Entries.lookup? name.lower holders).isNone) = true ↔
        (∃ t ∈ tokens, t.lower = name.lower) ∧ ∀ p ∈ before, ¬ Takes p name.lower := by
    intro name
    rw [same, lookup?_tokensByName distinct]
    cases found : tokenOf? tokens name.lower with
    | none =>
      have absent : ¬ ∃ t ∈ tokens, t.lower = name.lower := tokenOf?_eq_none_iff.1 found
      simp only [absent, Option.isSome_none, Bool.false_and, false_and, Bool.false_eq_true]
    | some token =>
      obtain ⟨member, key⟩ := tokenOf?_some found
      rw [← key, h token member, ← taker?_eq_none_iff, and_iff_right ⟨token, member, rfl⟩]
      simp only [Option.isSome_some, Bool.true_and, Option.isNone_map, Option.isNone_iff_eq_none]
  have source : ∀ mark name resolved, sourceOf context holders mark name resolved =
      sourceBehind context.method tokens before mark name resolved := by
    intro mark name resolved
    cases mark with
    | some _ => rfl
    | none => exact if_congr Iff.rfl rfl (if_congr (free name) rfl rfl)
  unfold Binding.bindOne boundBehind
  simp only [source]

/-- What is wrong with it is what the ones before it say. -/
theorem Held.problem (h : Held tokens before holders) (p : Parameter) :
    (hold context holders p).2 = problemBehind tokens before p := by
  unfold Binding.hold problemBehind
  simp only [same, lookup?_tokensByName distinct]
  split
  · cases found : tokenOf? tokens p.name.lower with
    | none => rfl
    | some token =>
      obtain ⟨member, key⟩ := tokenOf?_some found
      rw [← key, h token member]
      cases taker? before token.lower <;> rfl
  · rfl

/-- After it the table holds what the ones before it and itself take. -/
theorem Held.hold (h : Held tokens before holders) (p : Parameter) :
    Held tokens (before ++ [p]) (hold context holders p).1 := by
  intro t member
  rw [taker?_concat]
  unfold Binding.hold
  simp only [same, lookup?_tokensByName distinct]
  split
  · next path =>
    cases found : tokenOf? tokens p.name.lower with
    | none =>
      have other : ¬ Takes p t.lower := fun takes =>
        tokenOf?_eq_none_iff.1 found ⟨t, member, takes.2.symm⟩
      rw [if_neg other, Option.or_none]
      exact h t member
    | some token =>
      obtain ⟨listed, key⟩ := tokenOf?_some found
      have first := h token listed
      rw [key] at first
      rw [first]
      cases taken : taker? before p.name.lower with
      | some earlier =>
        -- the token is held already, and stays with its first parameter
        have kept : (taker? before t.lower).or (if Takes p t.lower then some p else none) = taker? before t.lower := by
          by_cases takes : Takes p t.lower
          · rw [← takes.2, taken, Option.some_or]
          · rw [if_neg takes, Option.or_none]
        rw [kept]
        exact h t member
      | none =>
        show Entries.lookup? t.lower (Entries.insert p.name.lower p.name holders) = _
        rw [Entries.lookup?_insert]
        by_cases takes : p.name.lower = t.lower
        · rw [if_pos takes, ← takes, taken, Option.none_or, if_pos ⟨path, rfl⟩, Option.map_some]
        · rw [if_neg takes, if_neg fun t => takes t.2, Option.or_none]
          exact h t member
  · next other =>
    rw [if_neg fun takes => other takes.1, Option.or_none]
    exact h t member

/-- In the end, what the table does not hold is what nobody takes. -/
theorem Held.unheld (h : Held tokens before holders) : unheld context holders = unboundOf tokens before := by
  rw [Binding.unheld, same, tokensByName_eq distinct, List.filter_map, List.map_map, unboundOf]
  refine congrArg _ (List.filter_congr fun t member => ?_)
  show (Entries.lookup? t.lower holders).isNone = _
  rw [Bool.eq_iff_iff, h t member, Option.isNone_map, Option.isNone_iff_eq_none, taker?_eq_none_iff,
    decide_eq_true_iff]

end

/-! ## All parameters -/

theorem problemsBehind_cons (tokens : List Text) (earlier : List Parameter) (p : Parameter) (rest : List Parameter) :
    problemsBehind tokens earlier (p :: rest) =
      (problemBehind tokens earlier p).toList ++ problemsBehind tokens (earlier ++ [p]) rest := by
  have later : ∀ i, earlier ++ (p :: rest).take (i + 1) = earlier ++ [p] ++ rest.take i := fun i => by
    rw [List.take_succ_cons, List.append_assoc, List.singleton_append]
  unfold problemsBehind
  rw [List.zipIdx_cons, List.zipIdx_succ, List.filterMap_cons, List.filterMap_map]
  simp only [Function.comp_def, later, List.take_zero, List.append_nil]
  cases problemBehind tokens earlier p <;> rfl

/-- parameters bound as the ones before them say, and the table that they leave -/
structure BoundAll (context : Context) (tokens : List Text) (before : List Parameter) (raws : List RawParameter)
    (outcome : Outcome) : Prop where
  parameters : ∀ i : ℕ, outcome.parameters[i]? = (kept raws)[i]?.map
    (boundBehind context.method context.catalog tokens (before ++ outcome.parameters.take i))
  problems : outcome.problems = problemsBehind tokens before outcome.parameters
  held : Held tokens (before ++ outcome.parameters) outcome.holders

/-- A list of parameters is bound as the ones before each of them say. -/
theorem Held.bindAll (distinct : (tokens.map Text.lower).Nodup) (same : context.tokens = tokensByName tokens)
    (h : Held tokens before holders) (raws : List RawParameter) :
    BoundAll context tokens before raws (bindAll context holders raws).value := by
  induction raws generalizing before holders with
  | nil =>
    refine ⟨fun _ => rfl, rfl, ?_⟩
    rw [Binding.bindAll, Traced.value_pure, List.append_nil]
    exact h
  | cons raw rest ih =>
    simp only [Binding.bindAll, Traced.value_bind, value_attributes, injected_iff]
    split
    · next supplied =>
      have skipped : kept (raw :: rest) = kept rest := List.filter_cons_of_neg (by simpa using supplied)
      obtain ⟨parameters, problems, held⟩ := ih h
      exact ⟨skipped ▸ parameters, problems, held⟩
    · next own =>
      have first : kept (raw :: rest) = raw :: kept rest := List.filter_cons_of_pos (by simpa using own)
      simp only [Traced.value_bind, Traced.value_pure, h.bindOne distinct same, h.problem distinct same]
      generalize bound : boundBehind context.method context.catalog tokens before raw = p
      obtain ⟨parameters, problems, held⟩ := ih (h.hold distinct same p)
      refine ⟨fun i => ?_, ?_, ?_⟩
      · rw [first]
        cases i with
        | zero =>
          rw [List.take_zero, List.append_nil, List.getElem?_cons_zero, List.getElem?_cons_zero, Option.map_some, bound]
        | succ i =>
          rw [List.getElem?_cons_succ, List.getElem?_cons_succ, parameters, List.take_succ_cons, List.append_assoc,
            List.singleton_append]
      · rw [problemsBehind_cons, problems]
      · rwa [List.append_assoc, List.singleton_append] at held

/-! ## The account -/

/-- the number of the tokens that some of the parameters take -/
def takenCount (tokens : List Text) (parameters : List Parameter) : ℕ :=
  tokens.countP fun t => ∃ p ∈ parameters, Takes p t.lower

theorem filter_lower (distinct : (tokens.map Text.lower).Nodup) (key : Text) :
    tokens.filter (·.lower = key) = (tokenOf? tokens key).toList := by
  have keys : (Entries.keys (tokens.map fun t => (t.lower, t))).Nodup := by rwa [Entries.keys, List.map_map]
  have named : ∀ entry ∈ tokens.map fun t => (t.lower, t), entry.2.lower = entry.1 := by simp
  have values := Entries.filter_values keys named key
  rw [List.map_map, ← tokensByName_eq distinct, lookup?_tokensByName distinct] at values
  rw [← values]
  exact congrArg _ (List.map_id tokens).symm

/-- A parameter adds the tokens that it is the first to take. -/
theorem takenCount_concat (tokens : List Text) (before : List Parameter) (p : Parameter) :
    takenCount tokens (before ++ [p]) = takenCount tokens before +
      tokens.countP fun t => Takes p t.lower ∧ ∀ q ∈ before, ¬ Takes q t.lower := by
  unfold takenCount
  rw [List.countP_eq_countP_filter_add _ _ fun t => ∃ q ∈ before, Takes q t.lower, List.countP_filter,
    List.countP_filter]
  congr 1
  · refine List.countP_congr fun t _ => ?_
    simp only [Bool.and_eq_true, decide_eq_true_eq]
    exact and_iff_right_of_imp fun ⟨q, earlier, takes⟩ => ⟨q, List.mem_append_left _ earlier, takes⟩
  · refine List.countP_congr fun t _ => ?_
    simp only [List.mem_append, List.mem_singleton, Bool.and_eq_true, Bool.not_eq_true', decide_eq_true_eq,
      decide_eq_false_iff_not]
    grind

/-- One parameter from the path is the first to take a token, or there is a problem with it. -/
theorem problem_account (distinct : (tokens.map Text.lower).Nodup) (before : List Parameter) (p : Parameter) :
    (if p.source = .path then 1 else 0) =
      (problemBehind tokens before p).toList.length +
        tokens.countP fun t => Takes p t.lower ∧ ∀ q ∈ before, ¬ Takes q t.lower := by
  unfold problemBehind
  split
  · next path =>
    have own : ∀ t ∈ tokens, decide (Takes p t.lower ∧ ∀ q ∈ before, ¬ Takes q t.lower) =
        (decide (∀ q ∈ before, ¬ Takes q t.lower) && decide (t.lower = p.name.lower)) := by
      intro t _
      rw [Bool.eq_iff_iff, Bool.and_eq_true, decide_eq_true_eq, decide_eq_true_eq, decide_eq_true_eq, Takes,
        and_iff_right path, and_comm, eq_comm]
    rw [List.countP_congr fun t member => by rw [own t member], ← List.countP_filter, filter_lower distinct]
    cases found : tokenOf? tokens p.name.lower with
    | none => rfl
    | some token =>
      rw [Option.toList_some, List.countP_singleton, (tokenOf?_some found).2]
      simp only [← taker?_eq_none_iff]
      cases taker? before p.name.lower <;> rfl
  · next other =>
    have nobody : tokens.countP (fun t => Takes p t.lower ∧ ∀ q ∈ before, ¬ Takes q t.lower) = 0 :=
      List.countP_eq_zero.2 fun t _ takes => other (of_decide_eq_true takes).1.1
    rw [nobody]
    rfl

/-- **The account.** The parameters from the path are the tokens that they are the first to take and the problems. -/
theorem paths_account (distinct : (tokens.map Text.lower).Nodup) (before parameters : List Parameter) :
    parameters.countP (·.source = .path) + takenCount tokens before =
      (problemsBehind tokens before parameters).length + takenCount tokens (before ++ parameters) := by
  induction parameters generalizing before with
  | nil => rw [List.append_nil]; rfl
  | cons p rest ih =>
    have here := problem_account distinct before p
    have later := ih (before ++ [p])
    have first := takenCount_concat tokens before p
    rw [List.append_assoc, List.singleton_append] at later
    rw [List.countP_cons, problemsBehind_cons, List.length_append]
    simp only [decide_eq_true_eq]
    omega

theorem unbound_account (tokens : List Text) (parameters : List Parameter) :
    tokens.length = takenCount tokens parameters + (unboundOf tokens parameters).length := by
  rw [unboundOf, List.length_map, ← List.countP_eq_length_filter, takenCount,
    List.length_eq_countP_add_countP fun t => ∃ p ∈ parameters, Takes p t.lower]
  simp

/-! ## The parameters of an action -/

theorem warnings_bindAll (context : Context) (holders : Holders) (raws : List RawParameter) :
    (bindAll context holders raws).warnings =
      raws.flatMap fun raw => (attributes context.location raw.attributeText).warnings := by
  induction raws generalizing holders with
  | nil => rfl
  | cons raw rest ih =>
    rw [Binding.bindAll, Traced.warnings_bind, List.flatMap_cons]
    congr 1
    split
    · rw [Traced.warnings_bind, ih]
      rfl
    · rw [Traced.warnings_bind, Traced.warnings_pure, List.append_nil, ih]

theorem warnings_reported (warnings : List Warning) :
    (Traced.mapList (fun w => Traced.emit (.reported w)) warnings).warnings = warnings := by
  have events : (Traced.mapList (fun w => Traced.emit (.reported w)) warnings).events = warnings.map .reported := by
    rw [Traced.events_mapList, List.map_eq_flatMap]
    rfl
  rw [Traced.warnings, events, List.filterMap_map]
  exact List.filterMap_some

/-- **Binding meets its specification.** For route tokens that differ in more than case, the parameters that the
framework does not supply are bound in order, each as the ones before it say. The warnings are what is wrong with each
of them and then the tokens that none of them takes; they reach the caller behind those of the attributes. The
parameters from the path and the tokens are as many as the warnings and twice the tokens that are taken. -/
theorem bindParameters_specified (distinct : (tokens.map Text.lower).Nodup) (method : Text) (catalog : Catalog)
    (location : Option Location) (subject : Option Text) (raws : List RawParameter) :
    let bound := bindParameters ⟨method, tokensByName tokens, catalog, location⟩ subject raws
    let parameters := bound.value.parameters
    (∀ i : ℕ, parameters[i]? = (kept raws)[i]?.map (boundBehind method catalog tokens (parameters.take i))) ∧
      bound.value.warnings = (problemsBehind tokens [] parameters ++ unboundOf tokens parameters).map
        (⟨·, location, subject⟩) ∧
      bound.warnings = raws.flatMap (fun raw => (attributes location raw.attributeText).warnings) ++
        bound.value.warnings ∧
      parameters.countP (·.source = .path) + tokens.length =
        bound.value.warnings.length + 2 * takenCount tokens parameters := by
  intro bound parameters
  let context : Context := ⟨method, tokensByName tokens, catalog, location⟩
  have same : context.tokens = tokensByName tokens := rfl
  obtain ⟨each, problems, held⟩ := (Held.nil tokens).bindAll distinct same raws
  have warnings : bound.value.warnings =
      (problemsBehind tokens [] parameters ++ unboundOf tokens parameters).map (⟨·, location, subject⟩) := by
    rw [← show unheld context _ = unboundOf tokens parameters from held.unheld distinct same,
      ← show _ = problemsBehind tokens [] parameters from problems]
    rfl
  refine ⟨each, warnings, ?_, ?_⟩
  · show Traced.warnings (bindParameters _ _ _) = _
    rw [bindParameters, Traced.warnings_bind, warnings_bindAll, Traced.warnings_bind, warnings_reported,
      Traced.warnings_pure, List.append_nil]
    rfl
  · have paths := paths_account distinct [] parameters
    have unbound := unbound_account tokens parameters
    have none : takenCount tokens [] = 0 := List.countP_eq_zero.2 fun _ _ => by simp
    rw [List.nil_append] at paths
    rw [warnings, List.length_map, List.length_append]
    omega

/-- Of two tokens, one is taken twice and the other not at all. -/
theorem bindParameters_specified_twice :
    let raws : List RawParameter := [⟨[], "int", "ID", none⟩, ⟨"[FromRoute]", "int", "id", none⟩]
    let bound := (bindParameters ⟨"get", tokensByName ["id", "page"], Catalog.empty, none⟩ none raws).value
    (["id", "page"].map Text.lower).Nodup ∧
      bound.warnings.map (·.problem) = [.tokenTakenTwice "id" "ID" "id", .unboundToken "page"] ∧
      bound.parameters.countP (·.source = .path) + 2 =
        bound.warnings.length + 2 * takenCount ["id", "page"] bound.parameters :=
  ⟨by decide, by decide +kernel, (bindParameters_specified (by decide) ..).2.2.2⟩

end EndpointSurvey.Binding
