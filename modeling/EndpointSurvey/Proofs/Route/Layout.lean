/-
Routes do not depend on the kind of blanks, but for the blanks of their plain text.

Main statements: `normalize_map` (a route and its image have the same tokens) and `Route.compose_seen`.
-/
import EndpointSurvey.Proofs.Attribute.Layout
import EndpointSurvey.Proofs.Diagnostic.TracedValue
import EndpointSurvey.Proofs.Route.Slashes
import EndpointSurvey.Route.Composition

namespace EndpointSurvey

open Route

namespace BlankMap

variable {φ : Char → Char}

/-! ## Pieces -/

theorem afterStars_map (h : BlankMap φ) (t : Text) : afterStars (t.map φ) = (afterStars t).map φ := by
  have star := fun c => h.eq_iff (show '*' ≠ '\n' by decide) (show '*' ≠ ' ' by decide) c
  cases t with
  | nil => rfl
  | cons c cs =>
    by_cases first : c = '*'
    · subst first
      cases cs with
      | nil =>
        rw [List.map_cons, h.fixes '*' (by decide)]
        rfl
      | cons d ds =>
        by_cases second : d = '*'
        · subst second
          rw [List.map_cons, List.map_cons, h.fixes '*' (by decide)]
          rfl
        · have second' : φ d ≠ '*' := by rwa [Ne, star]
          rw [List.map_cons, List.map_cons, h.fixes '*' (by decide)]
          simp [afterStars, second, second']
    · have first' : φ c ≠ '*' := by rwa [Ne, star]
      simp [afterStars, first, first']

theorem parameter?_map (h : BlankMap φ) (t : Text) :
    parameter? (t.map φ) = (parameter? t).map fun (name, rest) => (name, rest.map φ) := by
  cases t with
  | nil => rfl
  | cons c cs =>
    by_cases brace : c = '\x7b'
    · subst brace
      rw [List.map_cons, h.fixes '\x7b' (by decide)]
      unfold parameter?
      simp only [h.afterStars_map, h.head?_any_map (p := identifierStart) (by decide),
        h.dropWhile_map (p := wordChar) (by decide), h.dropWhile_map (p := inBraces) (by decide),
        h.takeWhile_map (p := wordChar) (by decide)]
      generalize afterStars cs = inside
      have name : (inside.takeWhile wordChar).map φ = inside.takeWhile wordChar :=
        h.map_of_all (p := wordChar) (by decide) fun d hd => List.mem_takeWhile_imp hd
      rw [name]
      split
      · cases (inside.dropWhile wordChar).dropWhile inBraces with
        | nil => rfl
        | cons d ds =>
          by_cases closes : d = '\x7d'
          · subst closes
            rw [List.map_cons, h.fixes '\x7d' (by decide)]
            rfl
          · have closes' : φ d ≠ '\x7d' := by rwa [Ne, h.eq_iff (by decide) (by decide)]
            simp [closes, closes']
      · rfl
    · have brace' : φ c ≠ '\x7b' := by rwa [Ne, h.eq_iff (by decide) (by decide)]
      simp [parameter?, brace, brace']

/-- a piece of the image of a route -/
def piece (φ : Char → Char) : Piece → Piece
  | .plain c => .plain (φ c)
  | .parameter name => .parameter name

theorem pieces_map (h : BlankMap φ) (t : Text) : pieces (t.map φ) = (pieces t).map (piece φ) := by
  fun_induction pieces t with
  | case1 => rw [List.map_nil, pieces]; rfl
  | case2 c cs name rest found ih =>
    have found' := h.parameter?_map (c :: cs)
    rw [found, Option.map_some, List.map_cons] at found'
    rw [List.map_cons, pieces]
    split
    · next name' rest' e =>
      cases Option.some.inj (found'.symm.trans e)
      rw [ih]
      rfl
    · next e =>
      rw [found'] at e
      cases e
  | case3 c cs none ih =>
    have none' := h.parameter?_map (c :: cs)
    rw [none, Option.map_none, List.map_cons] at none'
    rw [List.map_cons, pieces]
    split
    · next e =>
      rw [none'] at e
      cases e
    · rw [ih]
      rfl

theorem parameter?_name (h : BlankMap φ) {t name rest : Text} (found : parameter? t = some (name, rest)) :
    name.map φ = name := by
  unfold parameter? at found
  split at found
  · simp only at found
    split at found
    · split at found
      · cases found
        exact h.map_of_all (p := wordChar) (by decide) fun d hd => List.mem_takeWhile_imp hd
      · cases found
    · cases found
  · cases found

theorem pieces_names (h : BlankMap φ) (t : Text) : ∀ name, .parameter name ∈ pieces t → name.map φ = name := by
  fun_induction pieces t with
  | case1 => simp
  | case2 c cs name rest found ih =>
    intro other ho
    rcases List.mem_cons.1 ho with e | ho
    · cases e
      exact h.parameter?_name found
    · exact ih other ho
  | case3 c cs none ih =>
    intro other ho
    rcases List.mem_cons.1 ho with e | ho
    · cases e
    · exact ih other ho

/-! ## Normal form -/

theorem squeeze_map (h : BlankMap φ) (t : Text) : squeeze (t.map φ) = (squeeze t).map φ := by
  fun_induction squeeze t with
  | case1 cs ih =>
    rw [List.map_cons, List.map_cons, h.fixes '/' (by decide), squeeze, ← ih, List.map_cons, h.fixes '/' (by decide)]
  | case2 c cs single ih =>
    have slash := fun c => h.eq_iff (show '/' ≠ '\n' by decide) (show '/' ≠ ' ' by decide) c
    have single' : ∀ ds, φ c = '/' → cs.map φ = '/' :: ds → False := by
      intro ds e e'
      obtain ⟨d, ds', rfl, hd, -⟩ := List.map_eq_cons_iff.1 e'
      rw [slash] at e hd
      exact single ds' e (by rw [hd])
    rw [List.map_cons, squeeze.eq_2 _ _ single', ih]
    rfl
  | case3 => rfl

theorem tidy_map (h : BlankMap φ) (t : Text) : tidy (t.map φ) = (tidy t).map φ := by
  have rooted : squeeze ('/' :: (t.map φ).dropWhile slash) = (squeeze ('/' :: t.dropWhile slash)).map φ := by
    rw [← h.squeeze_map, List.map_cons, h.fixes '/' (by decide), h.dropWhile_map (by decide)]
  unfold tidy
  simp only [rooted, List.length_map]
  split
  · rw [h.dropEnd_map (by decide)]
  · rfl

/-- A route and its image have the same tokens, and templates that differ in blanks alone. -/
theorem normalize_map (h : BlankMap φ) (route : Text) :
    Route.normalize (route.map φ) = ⟨(Route.normalize route).template.map φ, (Route.normalize route).tokens⟩ := by
  have names := h.pieces_names route.trim
  unfold Route.normalize
  simp only [h.trim_map, h.pieces_map, ← h.tidy_map]
  generalize pieces route.trim = found at names
  congr 2
  · induction found with
    | nil => rfl
    | cons p ps ih =>
      rw [List.map_cons, List.flatMap_cons, List.flatMap_cons, List.map_append,
        ih fun name hn => names name (List.mem_cons_of_mem p hn)]
      congr 1
      cases p with
      | plain c => rfl
      | parameter name =>
        rw [piece, Piece.text, List.map_append, List.map_cons, names name List.mem_cons_self,
          h.fixes '\x7b' (by decide),
          List.map_cons, h.fixes '\x7d' (by decide)]
        rfl
  · rw [List.filterMap_map]
    congr 1
    funext p
    cases p <;> rfl

/-! ## Joining -/

theorem stripBoth_map (h : BlankMap φ) (t : Text) :
    Text.stripBoth slash (t.map φ) = (Text.stripBoth slash t).map φ := by
  unfold Text.stripBoth
  rw [h.dropWhile_map (by decide), h.dropEnd_map (by decide)]

theorem joinParts_map (h : BlankMap φ) (base method : Text) :
    joinParts (base.map φ) (method.map φ) = (joinParts base method).map φ := by
  have slashes := h.fixes '/' (by decide)
  cases base <;> cases method <;> simp [joinParts, slashes]

theorem combine_map (h : BlankMap φ) (base : Text) (method : Option Text) :
    combine (base.map φ) (method.map (List.map φ)) = (combine base method).map φ := by
  have slashes := h.fixes '/' (by decide)
  have root_iff := fun c => h.eq_iff (show '/' ≠ '\n' by decide) (show '/' ≠ ' ' by decide) c
  have tilde_iff := fun c => h.eq_iff (show '~' ≠ '\n' by decide) (show '~' ≠ ' ' by decide) c
  cases method with
  | none =>
    have := h.joinParts_map (Text.stripBoth slash base) []
    rw [Option.map_none, combine_none, combine_none, h.stripBoth_map, ← this]
    rfl
  | some m =>
    rw [Option.map_some]
    by_cases root : ∃ rest, m = '/' :: rest
    · obtain ⟨rest, rfl⟩ := root
      rw [List.map_cons, slashes, combine_absolute, combine_absolute, List.map_cons, slashes]
    · by_cases tilde : ∃ rest, m = '~' :: '/' :: rest
      · obtain ⟨rest, rfl⟩ := tilde
        rw [List.map_cons, List.map_cons, slashes, h.fixes '~' (by decide)]
        show '/' :: (rest.map φ).dropWhile slash = ('/' :: rest.dropWhile slash).map φ
        rw [h.dropWhile_map (by decide), List.map_cons, slashes]
      · rw [combine_relative base (fun rest e => root ⟨rest, e⟩) fun rest e => tilde ⟨rest, e⟩, combine_relative,
          h.stripBoth_map, h.stripBoth_map, h.joinParts_map]
        · intro rest e
          obtain ⟨c, cs, rfl, hc, -⟩ := List.map_eq_cons_iff.1 e
          exact root ⟨cs, by rw [(root_iff c).1 hc]⟩
        · intro rest e
          obtain ⟨c, cs, rfl, hc, e⟩ := List.map_eq_cons_iff.1 e
          obtain ⟨d, ds, rfl, hd, -⟩ := List.map_eq_cons_iff.1 e
          exact tilde ⟨ds, by rw [(tilde_iff c).1 hc, (root_iff d).1 hd]⟩

/-! ## Placeholders -/

theorem sameLetter_map (h : BlankMap φ) {letter : Char}
    (clear : sameLetter letter '\n' = sameLetter letter ' ') (c : Char) :
    sameLetter letter (φ c) = sameLetter letter c := h.test clear c

theorem placeholder_after?_map (h : BlankMap φ) {word : Text}
    (clear : ∀ letter ∈ word, sameLetter letter '\n' = sameLetter letter ' ') (t : Text) :
    Placeholder.after? word (t.map φ) = (Placeholder.after? word t).map (List.map φ) := by
  fun_induction Placeholder.after? word t with
  | case1 => rw [Placeholder.after?]; rfl
  | case2 => rfl
  | case3 letter word c cs same ih =>
    rw [List.map_cons, Placeholder.after?, if_pos (by rwa [h.sameLetter_map (clear letter List.mem_cons_self)])]
    exact ih fun l hl => clear l (List.mem_cons_of_mem letter hl)
  | case4 letter word c cs other =>
    rw [List.map_cons, Placeholder.after?, if_neg (by rwa [h.sameLetter_map (clear letter List.mem_cons_self)])]
    rfl

/-- A name put in for a placeholder is put in at the same places of the image. -/
theorem substitute_map (h : BlankMap φ) (p : Placeholder) (name t : Text) :
    (p.substitute (Template.plain name) (t.map φ)).map φ = (p.substitute (Template.plain name) t).map φ := by
  have clear : ∀ letter ∈ p.text, sameLetter letter '\n' = sameLetter letter ' ' := by
    intro letter he
    exact beq_iff_eq.1 (List.all_eq_true.1 (by cases p <;> rfl : p.text.all fun letter =>
      sameLetter letter '\n' == sameLetter letter ' ') letter he)
  fun_induction Placeholder.substitute p (Template.plain name) t with
  | case1 => rw [List.map_nil, Placeholder.substitute]; rfl
  | case2 c cs rest found ih =>
    have found' := h.placeholder_after?_map clear (c :: cs)
    rw [found, Option.map_some, List.map_cons] at found'
    rw [List.map_cons, Placeholder.substitute]
    split
    · next rest' e =>
      obtain rfl : rest.map φ = rest' := Option.some.inj (found'.symm.trans e)
      rw [Template.expand_plain, Template.expand_plain, List.map_append, List.map_append, ih]
    · next e =>
      rw [found'] at e
      cases e
  | case3 c cs none ih =>
    have none' := h.placeholder_after?_map clear (c :: cs)
    rw [none, Option.map_none, List.map_cons] at none'
    rw [List.map_cons, Placeholder.substitute]
    split
    · next e =>
      rw [none'] at e
      cases e
    · have once := h.idem [c]
      rw [List.map_cons, List.map_cons, ih]
      congr 1
      simpa using once

/-! ## The route of an action -/

theorem substitute_seen (h : BlankMap φ) (p : Placeholder) (name : Text) {t t' : Text} (same : t'.map φ = t.map φ) :
    (p.substitute (Template.plain name) t').map φ = (p.substitute (Template.plain name) t).map φ := by
  rw [← h.substitute_map, same, h.substitute_map]

theorem combine_seen (h : BlankMap φ) {base base' : Text} {method method' : Option Text}
    (bases : base'.map φ = base.map φ) (methods : method'.map (List.map φ) = method.map (List.map φ)) :
    (combine base' method').map φ = (combine base method).map φ := by
  rw [← h.combine_map, bases, methods, h.combine_map]

theorem joined_seen (h : BlankMap φ) (controller action : Text) {base base' : Text} {method method' : Option Text}
    (bases : base'.map φ = base.map φ) (methods : method'.map (List.map φ) = method.map (List.map φ)) :
    (joined (RouteNames.plain controller action) base' method').map φ =
      (joined (RouteNames.plain controller action) base method).map φ := by
  have empty : base'.isEmpty = base.isEmpty := by
    rw [← List.isEmpty_map (f := φ), bases, List.isEmpty_map]
  have filled : ∀ {t t' : Text}, t'.map φ = t.map φ →
      (resolveBase (RouteNames.plain controller action) t').map φ =
        (resolveBase (RouteNames.plain controller action) t).map φ := by
    intro t t' same
    have empty : t'.isEmpty = t.isEmpty := by
      rw [← List.isEmpty_map (f := φ), same, List.isEmpty_map]
    unfold resolveBase
    rw [empty]
    split
    · rfl
    · exact h.substitute_seen _ _ same
  unfold joined
  simp only [empty]
  refine h.combine_seen (h.substitute_seen _ _ (filled ?_)) ?_
  · split
    · rfl
    · exact bases
  · have own : (method'.or (if base.isEmpty then some Placeholder.action.text else none)).map (List.map φ) =
        (method.or (if base.isEmpty then some Placeholder.action.text else none)).map (List.map φ) := by
      cases method <;> cases method' <;> simp_all
    generalize method'.or _ = m' at own
    generalize method.or _ = m at own
    cases m with
    | none =>
      cases m' with
      | none => rfl
      | some x' => cases own
    | some x =>
      cases m' with
      | none => cases own
      | some x' =>
        have same : x'.map φ = x.map φ := Option.some.inj own
        exact congrArg some (h.substitute_seen _ _ (h.substitute_seen _ _ same))

end BlankMap

/-- **Routes.** Routes that differ in blanks alone give the same tokens, and templates that differ in blanks alone. -/
theorem Route.compose_seen {φ : Char → Char} (h : BlankMap φ) (controller action : Text) {base base' : Text}
    {method method' : Option Text} (bases : base'.map φ = base.map φ)
    (methods : method'.map (List.map φ) = method.map (List.map φ)) :
    (Route.compose (RouteNames.plain controller action) controller base' method' action).value.template.map φ =
        (Route.compose (RouteNames.plain controller action) controller base method action).value.template.map φ ∧
      (Route.compose (RouteNames.plain controller action) controller base' method' action).value.tokens =
        (Route.compose (RouteNames.plain controller action) controller base method action).value.tokens := by
  have value : ∀ (b : Text) (m : Option Text),
      (Route.compose (RouteNames.plain controller action) controller b m action).value =
        normalize (joined (RouteNames.plain controller action) b m) := fun _ _ => rfl
  have same := h.joined_seen controller action bases methods
  have template := congrArg (fun r => (normalize r).template) same
  have tokens := congrArg (fun r => (normalize r).tokens) same
  simp only [h.normalize_map] at template tokens
  rw [value, value]
  exact ⟨template, tokens⟩

end EndpointSurvey
