/-
Stretches of a composed route. One without slashes, blanks and braces stands in the template only if it stood in the
filled route of the action or, where that is put behind it, in the filled route of its controller; and if those have no
braces, it stands in the template whenever it stood there.

Main statements: `infix_combine_iff`, `infix_of_infix_reduced`, `infix_normalize_iff` and `compose_controllerMark` (when
the placeholder of a controller is left in a composed route).
-/
import EndpointSurvey.Proofs.Route.NormalForm
import EndpointSurvey.Proofs.Route.Placeholders

namespace EndpointSurvey

open Route

namespace Route

variable {s : Text}

/-! ## Stretches of a tidy template -/

theorem infix_flatMap_slash_iff (h : '/' ∉ s) (segments : List Text) (a : Text) :
    s <:+: a ++ segments.flatMap ('/' :: ·) ↔ s <:+: a ∨ ∃ segment ∈ segments, s <:+: segment := by
  induction segments generalizing a with
  | nil => simp
  | cons segment rest ih =>
    rw [List.flatMap_cons, List.cons_append, Text.infix_append_cons_iff h, ih,
      List.exists_mem_cons_iff (s <:+: ·) segment rest]

theorem infix_rooted_iff (h : '/' ∉ s) (filled : s ≠ []) (segments : List Text) :
    s <:+: rooted segments ↔ ∃ segment ∈ segments, s <:+: segment := by
  have slash : ¬ s <:+: ['/'] := by
    rw [← List.nil_append ['/'], Text.infix_append_cons_iff h, or_self, List.infix_nil]
    exact filled
  rw [rooted]
  split
  · next none =>
    rw [none]
    exact iff_of_false slash (by simp)
  · rw [← List.nil_append (segments.flatMap _), infix_flatMap_slash_iff h, List.infix_nil]
    exact or_iff_right filled

/-- Tidying slashes keeps every stretch between them. -/
theorem infix_tidy_iff (h : '/' ∉ s) (filled : s ≠ []) (t : Text) : s <:+: tidy t ↔ s <:+: t := by
  rw [tidy_eq, infix_rooted_iff h filled]
  conv => rhs; rw [← Text.intercalate_splitOn '/' t, Text.infix_join_iff h (Text.splitOn_ne_nil '/' t)]
  refine exists_congr fun part => and_congr_left fun inside => ?_
  have nonempty : part ≠ [] := by
    rintro rfl
    exact filled (List.infix_nil.1 inside)
  rw [pathSegments, filledParts, List.mem_filter]
  exact and_iff_left (by simpa using nonempty)

/-! ## Stretches of a normal template -/

theorem prefix_reduced_iff (free : BraceFree s) (t : Text) : s <+: reduced t ↔ s <+: t := by
  have upTo : ∀ t : Text, s <+: t ↔ s <+: t.takeWhile inBraces := by
    intro t
    refine ⟨fun front => ?_, fun front => front.trans (List.takeWhile_prefix inBraces)⟩
    obtain ⟨rest, rfl⟩ := front
    rw [List.takeWhile_append_of_pos free]
    exact List.prefix_append ..
  rw [upTo, (upToBrace_reduced t).1, ← upTo]

theorem infix_of_infix_reduced (free : BraceFree s) {t : Text} (inside : s <:+: reduced t) : s <:+: t := by
  have opening : '\x7b' ∉ s := fun member => absurd (free _ member) (by decide)
  have closing : '\x7d' ∉ s := fun member => absurd (free _ member) (by decide)
  induction t using pieces_induction with
  | nil => rwa [reduced_nil] at inside
  | parameter name inner rest inner_free named ih =>
    rw [reduced_parameter inner_free named, ← List.nil_append ('\x7b' :: _), Text.infix_append_cons_iff opening,
      Text.infix_append_cons_iff closing] at inside
    rw [← List.nil_append ('\x7b' :: _), Text.infix_append_cons_iff opening, Text.infix_append_cons_iff closing]
    refine inside.imp_right (Or.imp (fun inName => ?_) ih)
    obtain ⟨_, same, _, stars, _, more, rfl, _⟩ := (nameOf?_eq_some_iff inner_free).1 named
    rw [List.append_cancel_right (List.cons.inj same).2]
    exact inName.trans (List.infix_append' stars name more)
  | plain c cs misses ih =>
    rw [reduced_cons misses, List.infix_cons_iff] at inside
    rcases inside with front | inside
    · rw [← reduced_cons misses, prefix_reduced_iff free] at front
      exact front.isInfix
    · exact (ih inside).trans (List.infix_cons List.infix_rfl)

/-- a stretch that no step of normalization cuts through -/
structure Solid (s : Text) : Prop where
  filled : s ≠ []
  slashless : '/' ∉ s
  solid : ∀ c ∈ s, blank c = false
  free : BraceFree s

theorem infix_normalize_iff (h : Solid s) (route : Text) :
    s <:+: (normalize route).template ↔ s <:+: reduced route := by
  rw [normalize_template, infix_tidy_iff h.slashless h.filled, reduced_trim, Text.infix_trim_iff h.solid]

/-! ## Stretches of a joined route -/

/-- a route that stands alone: it starts at the root -/
def Absolute (m : Text) : Prop := ['/'] <+: m ∨ ['~', '/'] <+: m

theorem Solid.not_infix_nil (h : Solid s) : ¬ s <:+: [] := fun empty => h.filled (List.infix_nil.1 empty)

theorem Solid.infix_slash_iff (h : Solid s) (t : Text) : s <:+: '/' :: t ↔ s <:+: t := by
  rw [← List.nil_append ('/' :: t), Text.infix_append_cons_iff h.slashless]
  exact or_iff_right h.not_infix_nil

theorem infix_joinParts_iff (h : Solid s) (a b : Text) : s <:+: joinParts a b ↔ s <:+: a ∨ s <:+: b := by
  unfold joinParts
  split
  · rw [h.infix_slash_iff, or_self]
  · rw [h.infix_slash_iff]
    exact (or_iff_right h.not_infix_nil).symm
  · rw [h.infix_slash_iff]
    exact (or_iff_left h.not_infix_nil).symm
  · rw [List.cons_append, h.infix_slash_iff, Text.infix_append_cons_iff h.slashless]

/-- What stands in a joined route stood in the action's or, where that is put behind it, in the controller's. -/
theorem infix_combine_iff (h : Solid s) (tilde : '~' ∉ s) (base : Text) (method : Option Text) :
    s <:+: combine base method ↔
      (∃ m ∈ method, s <:+: m) ∨ ((∀ m ∈ method, ¬ Absolute m) ∧ s <:+: base) := by
  have between : ∀ c ∈ s, slash c = false := by
    intro c hc
    have other : c ≠ '/' := fun same => h.slashless (same ▸ hc)
    simpa [slash] using other
  have stripped : ∀ t, s <:+: Text.stripBoth slash t ↔ s <:+: t := Text.infix_stripBoth_iff between
  cases method with
  | none =>
    rw [combine_none, infix_joinParts_iff h, stripped]
    simp [h.filled]
  | some m =>
    have only : ∀ p : Text → Prop, (∃ m' ∈ some m, p m') ↔ p m := fun p => by simp
    have each : ∀ p : Text → Prop, (∀ m' ∈ some m, p m') ↔ p m := fun p => by simp
    rw [only, each]
    by_cases root : ∃ rest, m = '/' :: rest
    · obtain ⟨rest, rfl⟩ := root
      have absolute : Absolute ('/' :: rest) := .inl ⟨rest, rfl⟩
      rw [combine_absolute]
      exact (or_iff_left fun both => both.1 absolute).symm
    · by_cases home : ∃ rest, m = '~' :: '/' :: rest
      · obtain ⟨rest, rfl⟩ := home
        have absolute : Absolute ('~' :: '/' :: rest) := .inr ⟨rest, rfl⟩
        have shape : combine base (some ('~' :: '/' :: rest)) = '/' :: rest.dropWhile slash := rfl
        rw [shape, h.infix_slash_iff, Text.infix_dropWhile_iff between, ← List.nil_append ('~' :: _),
          Text.infix_append_cons_iff tilde, h.infix_slash_iff]
        simp [h.filled, absolute]
      · have relative : ¬ Absolute m := by
          rintro (⟨rest, rfl⟩ | ⟨rest, rfl⟩)
          · exact root ⟨rest, rfl⟩
          · exact home ⟨rest, rfl⟩
        rw [combine_relative base (fun rest e => root ⟨rest, e⟩) fun rest e => home ⟨rest, e⟩, infix_joinParts_iff h,
          stripped, stripped, and_iff_right relative, or_comm]

end Route

/-! ## Names -/

/-- a name such as identifiers are: without square brackets and without a backslash -/
structure PlainName (t : Text) : Prop where
  square : SquareFree t
  backslash : '\\' ∉ t

theorem plainName_of_word {t : Text} (h : ∀ c ∈ t, wordChar c = true) : PlainName t :=
  have other : ∀ d, wordChar d = false → d ∉ t := fun d mark member => by
    rw [h d member] at mark
    cases mark
  ⟨⟨other _ (by decide), other _ (by decide)⟩, other _ (by decide)⟩

namespace PlainName

variable {t : Text}

theorem lower (h : PlainName t) : PlainName t.lower :=
  ⟨⟨not_mem_lower (by decide) h.square.opening, not_mem_lower (by decide) h.square.closing⟩,
    not_mem_lower (by decide) h.backslash⟩

theorem shortName (h : PlainName t) : PlainName (controllerShortName t) := by
  rw [controllerShortName]
  split
  · have part := fun (c : Char) (other : c ∉ t) (member : c ∈ t.take (t.length - controllerSuffix.length)) =>
      other (List.mem_of_mem_take member)
    exact ⟨⟨part _ h.square.opening, part _ h.square.closing⟩, part _ h.backslash⟩
  · exact h

theorem names {controller action : Text} (hc : PlainName controller) (ha : PlainName action) :
    RouteNames.ofNames? controller action = .ok (RouteNames.plain controller action) := by
  rw [RouteNames.ofNames?, Template.ofText?_plain _ hc.shortName.lower.backslash,
    Template.ofText?_plain _ ha.lower.backslash]
  rfl

end PlainName

/-! ## The placeholder of a controller in a composed route -/

namespace RouteNames

/-- what becomes of the route of a controller -/
def fillBase (names : RouteNames) (t : Text) : Text :=
  Placeholder.action.substitute names.action (Placeholder.controller.substitute names.controller t)

/-- what becomes of the route of an action -/
def fillMethod (names : RouteNames) (t : Text) : Text :=
  Placeholder.controller.substitute names.controller (Placeholder.action.substitute names.action t)

/-- The placeholder of a controller is made up from the route of the action or, where that is put behind it, from the
route of its controller. -/
def MakesMark (names : RouteNames) (base : Text) (method : Option Text) : Prop :=
  (∃ m ∈ method, MakesController names.fillMethod m) ∨
    ((∀ m ∈ method, ¬ Absolute (names.fillMethod m)) ∧ MakesController names.fillBase base)

end RouteNames

theorem joined_of_base (names : RouteNames) {base : Text} (given : base ≠ []) (method : Option Text) :
    joined names base method = combine (names.fillBase base) (method.map names.fillMethod) := by
  obtain ⟨c, cs, rfl⟩ := List.exists_cons_of_ne_nil given
  cases method <;> rfl

theorem joined_conventional (names : RouteNames) (method : Option Text) :
    joined names [] method = combine (names.fillBase Placeholder.controller.text)
      ((method.or (some Placeholder.action.text)).map names.fillMethod) := by
  cases method <;> rfl

theorem IsControllerMark.solid {s : Text} (h : IsControllerMark s) : Solid s ∧ '~' ∉ s := by
  have letters : ∀ c ∈ s, c.toLower ∈ Placeholder.controller.text := fun c hc => h ▸ List.mem_map_of_mem hc
  have other : ∀ c : Char, c.toLower ∉ Placeholder.controller.text → c ∉ s := fun c none hc => none (letters c hc)
  have blanks : ∀ n ∈ blankPoints, (Char.ofNat n).toLower ∉ Placeholder.controller.text := by decide +kernel
  refine ⟨⟨?_, other _ (by decide), fun c hc => ?_, fun c hc => ?_⟩, other _ (by decide)⟩
  · rintro rfl
    cases h
  · by_contra space
    rw [Bool.not_eq_false] at space
    refine blanks c.toNat (toNat_mem_blankPoints space) ?_
    rw [Char.ofNat_toNat]
    exact letters c hc
  · rw [inBraces, Bool.and_eq_true, bne_iff_ne, bne_iff_ne]
    constructor
    · rintro rfl
      exact other _ (by decide) hc
    · rintro rfl
      exact other _ (by decide) hc

theorem shows_combine_iff (base : Text) (method : Option Text) :
    ShowsController (combine base method) ↔
      (∃ m ∈ method, ShowsController m) ∨ ((∀ m ∈ method, ¬ Absolute m) ∧ ShowsController base) := by
  constructor
  · rintro ⟨s, inside, mark⟩
    obtain ⟨solid, tilde⟩ := mark.solid
    rcases (infix_combine_iff solid tilde base method).1 inside with ⟨m, hm, here⟩ | ⟨relative, here⟩
    · exact .inl ⟨m, hm, s, here, mark⟩
    · exact .inr ⟨relative, s, here, mark⟩
  · rintro (⟨m, hm, s, here, mark⟩ | ⟨relative, s, here, mark⟩)
    · obtain ⟨solid, tilde⟩ := mark.solid
      exact ⟨s, (infix_combine_iff solid tilde base method).2 (.inl ⟨m, hm, here⟩), mark⟩
    · obtain ⟨solid, tilde⟩ := mark.solid
      exact ⟨s, (infix_combine_iff solid tilde base method).2 (.inr ⟨relative, here⟩), mark⟩

theorem shows_normalize_iff (route : Text) :
    ShowsController (normalize route).template ↔ ShowsController (reduced route) :=
  exists_congr fun _ => and_congr_left fun mark => infix_normalize_iff mark.solid.1 route

theorem Placeholder.unnested_text (p : Placeholder) : Unnested p.text := by
  intro x inside
  have one : p.text.count '[' = 1 := by cases p <;> rfl
  have two := inside.sublist.count_le '['
  rw [one, List.count_cons_self, List.count_append, List.count_singleton_self] at two
  omega

section
variable {controller action : Text} (hc : PlainName controller) (ha : PlainName action)
include hc ha

theorem fillsBrackets_base : FillsBrackets (RouteNames.plain controller action).fillBase :=
  (FillsBrackets.put .action ha.lower.square).comp (.put .controller hc.shortName.lower.square)

theorem fillsBrackets_method : FillsBrackets (RouteNames.plain controller action).fillMethod :=
  (FillsBrackets.put .controller hc.shortName.lower.square).comp (.put .action ha.lower.square)

theorem Unnested.not_shows_fillBase {t : Text} (un : Unnested t) :
    ¬ ShowsController ((RouteNames.plain controller action).fillBase t) := fun shows =>
  un.not_shows_put_controller hc.shortName.lower.square
    ((un.put hc.shortName.lower.square).shows_of_put ha.lower.square shows)

theorem Unnested.not_shows_fillMethod {t : Text} (un : Unnested t) :
    ¬ ShowsController ((RouteNames.plain controller action).fillMethod t) :=
  (un.put ha.lower.square).not_shows_put_controller hc.shortName.lower.square

/-- The joined route of an action shows the placeholder of a controller exactly if one is made up. -/
theorem shows_joined_iff (base : Text) (method : Option Text) :
    ShowsController (joined (RouteNames.plain controller action) base method) ↔
      (RouteNames.plain controller action).MakesMark base method := by
  have inBase := (fillsBrackets_base hc ha).shows_iff
  have inMethod := (fillsBrackets_method hc ha).shows_iff
  by_cases conventional : base = []
  · -- neither `[controller]` nor `[action]` is left where they stand in for a route
    subst conventional
    have noBase : ¬ MakesController (RouteNames.plain controller action).fillBase [] := by
      rintro ⟨v, inside, _⟩
      cases List.infix_nil.1 inside
    have noController := (Placeholder.unnested_text .controller).not_shows_fillBase hc ha
    have noAction := (Placeholder.unnested_text .action).not_shows_fillMethod hc ha
    rw [joined_conventional, shows_combine_iff, RouteNames.MakesMark]
    cases method with
    | none => simp [noController, noAction, noBase]
    | some m => simp [noController, noBase, ← inMethod]
  · rw [joined_of_base _ conventional, shows_combine_iff, RouteNames.MakesMark]
    cases method with
    | none => simp [← inBase]
    | some m => simp [← inBase, ← inMethod]

end

/-- **The placeholder of a controller in a composed route** is left only if the names make it up from something in
brackets, and in a route without braces it is left whenever they do. Where no bracket opens inside others, it never
is. -/
theorem compose_controllerMark {controller action : Text} (hc : PlainName controller) (ha : PlainName action)
    (base : Text) (method : Option Text) :
    let names := RouteNames.plain controller action
    let template := (compose names controller base method action).value.template
    RouteNames.ofNames? controller action = .ok names ∧
      (ShowsController template → names.MakesMark base method) ∧
      (BraceFree (joined names base method) → names.MakesMark base method → ShowsController template) ∧
      (Unnested base → (∀ m ∈ method, Unnested m) → ¬ ShowsController template) := by
  intro names template
  have composed : ShowsController template ↔ ShowsController (reduced (joined names base method)) :=
    shows_normalize_iff _
  have left : ShowsController template → names.MakesMark base method := by
    rw [composed, ← shows_joined_iff hc ha]
    rintro ⟨s, inside, mark⟩
    exact ⟨s, infix_of_infix_reduced mark.solid.1.free inside, mark⟩
  refine ⟨hc.names ha, left, fun free made => ?_, fun un_base un_method shows => ?_⟩
  · rw [composed, reduced_free free, shows_joined_iff hc ha]
    exact made
  · rcases left shows with ⟨m, hm, made⟩ | ⟨_, made⟩
    · exact (un_method m hm).not_shows_fillMethod hc ha (((fillsBrackets_method hc ha).shows_iff m).2 made)
    · exact un_base.not_shows_fillBase hc ha (((fillsBrackets_base hc ha).shows_iff base).2 made)

/-- The route `[[action]]` of a controller becomes `[controller]` for an action of that name. -/
theorem compose_controllerMark_doubled :
    ShowsController (compose (RouteNames.plain "UsersController" "Controller") "UsersController" "[[action]]" none
      "Controller").value.template := by
  have filled : (RouteNames.plain "UsersController" "Controller").fillBase "[[action]]" = ("[controller]" : Text) := by
    decide +kernel
  have mark : IsControllerMark "[controller]" := rfl
  have route : joined (RouteNames.plain "UsersController" "Controller") "[[action]]" none =
      ("/[controller]" : Text) := by
    decide +kernel
  have free : BraceFree (joined (RouteNames.plain "UsersController" "Controller") "[[action]]" none) := by
    rw [route]
    exact List.all_eq_true.1 rfl
  have made : (RouteNames.plain "UsersController" "Controller").MakesMark "[[action]]" none :=
    .inr ⟨nofun, "[action]", List.infix_rfl, filled ▸ mark⟩
  have controller : PlainName "UsersController" := plainName_of_word (List.all_eq_true.1 rfl)
  have action : PlainName "Controller" := plainName_of_word (List.all_eq_true.1 rfl)
  exact (compose_controllerMark controller action _ _).2.2.1 free made

end EndpointSurvey
