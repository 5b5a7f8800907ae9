/-
The normal form of a route. Reducing its parameters to their names, keeping one slash of each run and dropping those at
the ends neither make a parameter nor lose one: what stands in braces stays in braces, one after another.

Main statements:
- `insides_reduced` and `insides_tidy`: what stands in braces after each step;
- `names_of_pieces`: reducing the parameters of a route to their names finds all of them;
- `braces_normalize`: the braces of a route stay, one for one;
- `normalize_wellFormed`: the normal form of any text is well-formed.
-/
import EndpointSurvey.Proofs.Route.Parameters
import EndpointSurvey.Proofs.Route.Slashes

namespace EndpointSurvey

open Route

namespace Route

/-! ## Reducing parameters -/

/-- a route whose parameters are reduced to their names -/
def reduced (t : Text) : Text := (pieces t).flatMap Piece.text

theorem normalize_template (route : Text) : (normalize route).template = tidy (reduced route.trim) := rfl

/-- A route is taken apart into parameters and characters that no parameter starts at. -/
@[elab_as_elim]
theorem pieces_induction {motive : Text → Prop} (nil : motive [])
    (parameter : ∀ name inner rest, BraceFree inner → nameOf? inner = some name → motive rest →
      motive ('\x7b' :: (inner ++ '\x7d' :: rest)))
    (plain : ∀ c cs, parameter? (c :: cs) = none → motive cs → motive (c :: cs)) (t : Text) : motive t := by
  induction t using pieces.induct with
  | case1 => exact nil
  | case2 c cs name rest found ih =>
    obtain ⟨s, shape, h⟩ := parameter?_eq_some_iff.1 found
    obtain ⟨inner, rfl, free, named⟩ := h.shape
    rw [shape, List.cons_append, List.append_assoc, List.singleton_append]
    exact parameter name inner rest free named ih
  | case3 c cs none ih => exact plain c cs none ih

theorem pieces_nil : pieces [] = [] := by rw [pieces]

theorem pieces_parameter {name inner : Text} (free : BraceFree inner) (named : nameOf? inner = some name)
    (rest : Text) : pieces ('\x7b' :: (inner ++ '\x7d' :: rest)) = .parameter name :: pieces rest := by
  have found := parameter?_append ((nameOf?_eq_some_iff free).1 named) rest
  rw [List.cons_append, List.append_assoc, List.singleton_append] at found
  rw [pieces, found]

theorem pieces_plain {c : Char} {cs : Text} (none : parameter? (c :: cs) = none) :
    pieces (c :: cs) = .plain c :: pieces cs := by
  rw [pieces, none]

theorem reduced_nil : reduced [] = [] := by rw [reduced, pieces_nil, List.flatMap_nil]

theorem reduced_parameter {name inner : Text} (free : BraceFree inner) (named : nameOf? inner = some name)
    (rest : Text) : reduced ('\x7b' :: (inner ++ '\x7d' :: rest)) = '\x7b' :: (name ++ '\x7d' :: reduced rest) := by
  rw [reduced, pieces_parameter free named, List.flatMap_cons, Piece.text, List.append_assoc]
  rfl

theorem reduced_cons {c : Char} {cs : Text} (none : parameter? (c :: cs) = none) :
    reduced (c :: cs) = c :: reduced cs := by
  rw [reduced, pieces_plain none]
  rfl

/-- Up to its first brace a route stays as it is. -/
theorem upToBrace_reduced (t : Text) :
    (reduced t).takeWhile inBraces = t.takeWhile inBraces ∧ nextBrace? (reduced t) = nextBrace? t := by
  induction t using pieces_induction with
  | nil => rw [reduced_nil]; exact ⟨rfl, rfl⟩
  | parameter name inner rest free named _ => rw [reduced_parameter free named]; exact ⟨rfl, rfl⟩
  | plain c cs none ih =>
    rw [reduced_cons none]
    by_cases free : inBraces c = true
    · rw [nextBrace?, nextBrace?, List.takeWhile_cons_of_pos free, List.takeWhile_cons_of_pos free,
        List.dropWhile_cons_of_pos free, List.dropWhile_cons_of_pos free, ih.1]
      exact ⟨rfl, ih.2⟩
    · rw [nextBrace?, nextBrace?, List.takeWhile_cons_of_neg free, List.takeWhile_cons_of_neg free,
        List.dropWhile_cons_of_neg free, List.dropWhile_cons_of_neg free]
      exact ⟨rfl, rfl⟩

/-- Of what stands in braces a parameter leaves its name; everything else stays. -/
theorem insides_reduced (t : Text) : insides (reduced t) = (insides t).map fun inner => (nameOf? inner).getD inner := by
  induction t using pieces_induction with
  | nil =>
    rw [reduced_nil]
    rfl
  | parameter name inner rest free named ih =>
    rw [reduced_parameter free named, insides_brace (braceFree_of_nameOf? free named), ih, insides_brace free,
      List.map_cons, named, Option.getD_some]
  | plain c cs none ih =>
    obtain ⟨same, next⟩ := upToBrace_reduced cs
    rw [reduced_cons none, insides, insides, next, same, ih]
    split
    · next braces =>
      obtain ⟨rfl, closing⟩ := braces
      rw [parameter?_none_iff, nameAt?_brace, if_pos closing] at none
      rw [List.map_cons, none, Option.getD_none]
    · rfl

/-- The parameters of a route are the pieces read as such. -/
theorem names_of_pieces (t : Text) : (pieces t).filterMap Piece.name? = parameterNames t := by
  rw [parameterNames_eq]
  induction t using pieces_induction with
  | nil => rw [pieces_nil]; rfl
  | parameter name inner rest free named ih =>
    rw [pieces_parameter free named, insides_brace free, List.filterMap_cons_some named, ← ih]
    rfl
  | plain c cs none ih =>
    have plain : (Piece.plain c :: pieces cs).filterMap Piece.name? = (pieces cs).filterMap Piece.name? := rfl
    rw [pieces_plain none, plain, insides, ih]
    split
    · next braces =>
      obtain ⟨rfl, closing⟩ := braces
      rw [parameter?_none_iff, nameAt?_brace, if_pos closing] at none
      rw [List.filterMap_cons_none none]
    · rfl

/-! ## Text around the parameters -/

theorem reduced_free_append {s : Text} (free : BraceFree s) (t : Text) : reduced (s ++ t) = s ++ reduced t := by
  induction s with
  | nil => rfl
  | cons c cs ih =>
    obtain ⟨first, others⟩ := List.forall_mem_cons.1 free
    have none : parameter? (c :: (cs ++ t)) = none := by
      rw [parameter?]
      rintro _ ⟨⟩
      exact absurd first (by decide)
    rw [List.cons_append, reduced_cons none, ih others, List.cons_append]

theorem reduced_free {t : Text} (free : BraceFree t) : reduced t = t := by
  have := reduced_free_append free []
  rwa [List.append_nil, reduced_nil, List.append_nil] at this

/-- Text without braces completes no parameter in front of it. -/
theorem parameter?_append_free {s t : Text} (free : BraceFree t) (plain : parameter? s = none) :
    parameter? (s ++ t) = none := by
  by_contra found
  obtain ⟨⟨name, rest⟩, found⟩ := Option.ne_none_iff_exists'.1 found
  obtain ⟨unit, shape, h⟩ := parameter?_eq_some_iff.1 found
  rcases List.append_eq_append_iff.1 shape with ⟨more, whole, tail⟩ | ⟨more, rfl, _⟩
  · rcases List.eq_nil_or_concat more with rfl | ⟨front, last, rfl⟩
    · rw [List.append_nil] at whole
      rw [← whole, ← List.append_nil unit, parameter?_append h] at plain
      cases plain
    · -- the closing brace would stand in `t`
      obtain ⟨inner, rfl, _⟩ := h
      rw [List.concat_eq_append, ← List.append_assoc, ← List.cons_append] at whole
      obtain ⟨_, same⟩ := List.append_inj' whole rfl
      obtain rfl := (List.cons.inj same).1
      exact absurd (free '\x7d' (by simp [tail])) (by decide)
  · rw [parameter?_append h] at plain
    cases plain

theorem reduced_append_free {t : Text} (free : BraceFree t) (s : Text) : reduced (s ++ t) = reduced s ++ t := by
  induction s using pieces_induction with
  | nil => rw [reduced_nil, List.nil_append, reduced_free free]
  | parameter name inner rest inner_free named ih =>
    rw [reduced_parameter inner_free named, List.cons_append, List.append_assoc, List.cons_append,
      reduced_parameter inner_free named, ih, List.cons_append, List.append_assoc, List.cons_append]
  | plain c cs none ih =>
    have none' := parameter?_append_free free none
    rw [List.cons_append] at none' ⊢
    rw [reduced_cons none, reduced_cons none', ih, List.cons_append]

theorem head?_reduced (t : Text) : (reduced t).head? = t.head? := by
  induction t using pieces_induction with
  | nil => rw [reduced_nil]
  | parameter name inner rest free named _ => rw [reduced_parameter free named, List.head?_cons, List.head?_cons]
  | plain c cs none _ => rw [reduced_cons none, List.head?_cons, List.head?_cons]

theorem getLast?_reduced (t : Text) : (reduced t).getLast? = t.getLast? := by
  induction t using pieces_induction with
  | nil => rw [reduced_nil]
  | parameter name inner rest free named ih =>
    rw [reduced_parameter free named]
    simp [List.getLast?_cons, List.getLast?_append, ih]
  | plain c cs none ih => rw [reduced_cons none, List.getLast?_cons, List.getLast?_cons, ih]

/-- Whether the blanks around a route are dropped before or after its parameters are reduced makes no difference. -/
theorem reduced_trim (t : Text) : reduced t.trim = (reduced t).trim := by
  obtain ⟨before, after, shape, left, right, first, last⟩ := Text.exists_trim t
  have whole : reduced t = before ++ (reduced t.trim ++ after) := by
    conv => lhs; rw [shape]
    rw [reduced_free_append fun c hc => blank_free (left c hc), reduced_append_free fun c hc => blank_free (right c hc)]
  rw [whole, Text.trim_padded left right]
  · rwa [head?_reduced]
  · rwa [getLast?_reduced]

/-! ## Slashes in front of, in and behind parameters -/

theorem starRuns_slashless {stars : Text} (h : stars ∈ starRuns) : '/' ∉ stars := by
  have all : ∀ stars ∈ starRuns, '/' ∉ stars := by decide
  exact all stars h

theorem slash_not_mem {name : Text} (word : ∀ c ∈ name, wordChar c = true) : '/' ∉ name :=
  fun member => absurd (word _ member) (by decide)

/-- Squeezing slashes changes no parameter's name. -/
theorem namedInside_squeeze_iff (name inner : Text) : NamedInside name (squeeze inner) ↔ NamedInside name inner := by
  constructor
  · rintro ⟨stars, run, more, eq, start, word, stop⟩
    rw [← List.append_assoc, squeeze_eq_append] at eq
    · obtain ⟨more, rfl, rfl⟩ := eq
      rw [head?_squeeze] at stop
      exact ⟨stars, run, more, List.append_assoc .., start, word, stop⟩
    · exact List.not_mem_append (starRuns_slashless run) (slash_not_mem word)
  · rintro ⟨stars, run, more, rfl, start, word, stop⟩
    refine ⟨stars, run, squeeze more, ?_, start, word, by rwa [head?_squeeze]⟩
    rw [squeeze_append (starRuns_slashless run), squeeze_append (slash_not_mem word)]

theorem upToBrace_squeeze (t : Text) :
    (squeeze t).takeWhile inBraces = squeeze (t.takeWhile inBraces) ∧ nextBrace? (squeeze t) = nextBrace? t := by
  fun_induction squeeze t with
  | case1 cs ih => exact ih
  | case2 c cs single ih =>
    by_cases free : inBraces c = true
    · rw [nextBrace?, nextBrace?, List.takeWhile_cons_of_pos free, List.takeWhile_cons_of_pos free,
        List.dropWhile_cons_of_pos free, List.dropWhile_cons_of_pos free, ih.1]
      refine ⟨?_, ih.2⟩
      rw [squeeze]
      rintro ds rfl start
      have first : cs.head? = some '/' := by
        have kept : (cs.takeWhile inBraces).head? = some '/' := by rw [start]; rfl
        rw [List.head?_takeWhile] at kept
        exact (Option.mem_filter_iff.1 kept).1
      obtain ⟨ds', rfl⟩ := List.head?_eq_some_iff.1 first
      exact single ds' rfl rfl
    · rw [nextBrace?, nextBrace?, List.takeWhile_cons_of_neg free, List.takeWhile_cons_of_neg free,
        List.dropWhile_cons_of_neg free, List.dropWhile_cons_of_neg free]
      exact ⟨rfl, rfl⟩
  | case3 => exact ⟨rfl, rfl⟩

theorem braceFree_squeeze {t : Text} (free : BraceFree t) : BraceFree (squeeze t) := by
  rw [BraceFree, ← List.takeWhile_eq_self_iff, (upToBrace_squeeze t).1, List.takeWhile_eq_self_iff.2 free]

theorem insides_squeeze (t : Text) : insides (squeeze t) = (insides t).map squeeze := by
  fun_induction squeeze t with
  | case1 cs ih => exact ih
  | case2 c cs single ih =>
    obtain ⟨upTo, next⟩ := upToBrace_squeeze cs
    rw [insides, insides, next, upTo, ih]
    split <;> rfl
  | case3 => rfl

theorem nameOf?_squeeze {inner : Text} (free : BraceFree inner) : nameOf? (squeeze inner) = nameOf? inner := by
  refine Option.ext fun name => ?_
  rw [nameOf?_eq_some_iff free, nameOf?_eq_some_iff (braceFree_squeeze free)]
  have inside : ∀ {inner}, BraceFree inner →
      (IsParameter name ('\x7b' :: (inner ++ ['\x7d'])) ↔ NamedInside name inner) := by
    intro inner free
    constructor
    · rintro ⟨_, eq, _, named⟩
      rwa [List.append_cancel_right (List.cons.inj eq).2]
    · exact fun named => ⟨inner, rfl, free, named⟩
  rw [inside free, inside (braceFree_squeeze free), namedInside_squeeze_iff]

/-! ## Braces -/

/-- the braces of a text, in order -/
def braces (t : Text) : Text := t.filter (!inBraces ·)

theorem braces_eq_nil_iff {t : Text} : braces t = [] ↔ BraceFree t := by
  simp [braces, BraceFree, List.filter_eq_nil_iff]

theorem braces_append (s t : Text) : braces (s ++ t) = braces s ++ braces t := List.filter_append ..

theorem braces_cons (c : Char) (t : Text) : braces (c :: t) = braces [c] ++ braces t := braces_append [c] t

theorem braces_parameter {inner : Text} (free : BraceFree inner) (t : Text) :
    braces ('\x7b' :: (inner ++ '\x7d' :: t)) = '\x7b' :: '\x7d' :: braces t := by
  have cons : ∀ {c : Char}, inBraces c = false → ∀ t, braces (c :: t) = c :: braces t :=
    fun {c} brace t => List.filter_cons_of_pos (by rw [brace]; rfl)
  rw [cons (by decide), braces_append, braces_eq_nil_iff.2 free, cons (by decide), List.nil_append]

theorem braces_reduced (t : Text) : braces (reduced t) = braces t := by
  induction t using pieces_induction with
  | nil => rw [reduced_nil]
  | parameter name inner rest free named ih =>
    rw [reduced_parameter free named, braces_parameter (braceFree_of_nameOf? free named), braces_parameter free, ih]
  | plain c cs none ih => rw [reduced_cons none, braces_cons, ih, ← braces_cons]

theorem braces_squeeze (t : Text) : braces (squeeze t) = braces t := by
  fun_induction squeeze t with
  | case1 cs ih => exact ih
  | case2 c cs _ ih => rw [braces_cons, ih, ← braces_cons]
  | case3 => rfl

theorem braces_dropWhile {k : Char → Bool} (free : ∀ c, k c = true → inBraces c = true) (t : Text) :
    braces (t.dropWhile k) = braces t := by
  have front : BraceFree (t.takeWhile k) := fun c hc => free c (List.mem_takeWhile_imp hc)
  conv => rhs; rw [← List.takeWhile_append_dropWhile (p := k) (l := t), braces_append, braces_eq_nil_iff.2 front]
  rfl

theorem braces_dropEnd {k : Char → Bool} (free : ∀ c, k c = true → inBraces c = true) (t : Text) :
    braces (Text.dropEnd k t) = braces t := by
  have back : BraceFree (Text.takeEnd k t) := fun c hc => free c (Text.of_mem_takeEnd hc)
  conv => rhs; rw [← Text.dropEnd_append_takeEnd k t, braces_append, braces_eq_nil_iff.2 back, List.append_nil]

theorem braces_trim (t : Text) : braces t.trim = braces t := by
  rw [Text.trim, Text.trimRight, Text.trimLeft, braces_dropEnd fun _ => blank_free,
    braces_dropWhile fun _ => blank_free]

theorem braces_tidy (t : Text) : braces (tidy t) = braces t := by
  have front : braces (squeeze ('/' :: t.dropWhile slash)) = braces t := by
    rw [braces_squeeze]
    exact braces_dropWhile (fun _ => slash_free) t
  rw [tidy]
  split
  · rw [braces_dropEnd fun _ => slash_free, front]
  · exact front

/-- The normal form of a route keeps its braces, one for one. -/
theorem braces_normalize (route : Text) : braces (normalize route).template = braces route := by
  rw [normalize_template, braces_tidy, braces_reduced, braces_trim]

/-! ## Well-formed templates -/

/-- Tidying a route keeps what stands in braces, but for slashes. -/
theorem insides_tidy (t : Text) : insides (tidy t) = (insides t).map squeeze := by
  have front : insides (squeeze ('/' :: t.dropWhile slash)) = (insides t).map squeeze := by
    have slashes : BraceFree (t.takeWhile slash) := fun c hc => slash_free (List.mem_takeWhile_imp hc)
    have behind := insides_free_append slashes (t.dropWhile slash)
    rw [List.takeWhile_append_dropWhile] at behind
    have root : BraceFree ['/'] := by simp [BraceFree, inBraces]
    rw [insides_squeeze, behind]
    exact congrArg _ (insides_free_append root _)
  rw [tidy]
  split
  · have slashes : BraceFree (Text.takeEnd slash (squeeze ('/' :: t.dropWhile slash))) :=
      fun c hc => slash_free (Text.of_mem_takeEnd hc)
    rw [← insides_append_free slashes, Text.dropEnd_append_takeEnd, front]
  · exact front

/-- What stands in the braces of a normal template, given what stood in those of the route. -/
theorem insides_normalize (route : Text) :
    insides (normalize route).template =
      (insides route.trim).map fun inner => squeeze ((nameOf? inner).getD inner) := by
  rw [normalize_template, insides_tidy, insides_reduced, List.map_map]
  rfl

theorem squeeze_word {name : Text} (word : ∀ c ∈ name, wordChar c = true) : squeeze name = name := by
  have := squeeze_append (slash_not_mem word) []
  rwa [List.append_nil, squeeze, List.append_nil] at this

theorem braceFree_of_mem_insides {t inner : Text} (h : inner ∈ insides t) : BraceFree inner := (mem_insides_iff.1 h).1

/-- What stands in braces is a parameter of the same name after normalization, and then nothing but this name. -/
theorem nameOf?_normal {inner : Text} (free : BraceFree inner) :
    nameOf? (squeeze ((nameOf? inner).getD inner)) = nameOf? inner ∧
      ∀ name, nameOf? inner = some name → squeeze ((nameOf? inner).getD inner) = name := by
  cases found : nameOf? inner with
  | none =>
    rw [Option.getD_none, nameOf?_squeeze free, found]
    exact ⟨rfl, nofun⟩
  | some name =>
    have h := (nameOf?_eq_some_iff free).1 found
    rw [Option.getD_some, squeeze_word h.name_word, nameOf?_eq_some_iff h.name_free]
    exact ⟨h.bare, fun _ same => Option.some.inj same⟩

/-- The parameters of a route are those of its normal template. -/
theorem parameterNames_normalize (route : Text) :
    parameterNames (normalize route).template = parameterNames route := by
  rw [← parameterNames_trim route, parameterNames_eq, parameterNames_eq, insides_normalize, List.filterMap_map]
  exact List.filterMap_congr fun inner member => (nameOf?_normal (braceFree_of_mem_insides member)).1

theorem tokens_normalize (route : Text) :
    (normalize route).tokens = (parameterNames route).eraseDupsBy Text.sameFolded := by
  have tokens : (normalize route).tokens = distinctNames ((pieces route.trim).filterMap Piece.name?) := rfl
  rw [tokens, distinctNames_eq, names_of_pieces, parameterNames_trim]

/-- A parameter of a normal template is a name in braces. -/
theorem bare_of_normalize {route s name : Text} (inside : s <:+: (normalize route).template) (h : IsParameter name s) :
    s = '\x7b' :: (name ++ ['\x7d']) := by
  obtain ⟨inner, rfl, free, named⟩ := h.shape
  have found := mem_insides_iff.2 ⟨free, inside⟩
  rw [insides_normalize] at found
  obtain ⟨before, member, rfl⟩ := List.mem_map.1 found
  obtain ⟨same, shape⟩ := nameOf?_normal (braceFree_of_mem_insides member)
  rw [shape name (same ▸ named)]

end Route

/-- a template in normal form with its tokens -/
structure RouteTemplate.WellFormed (r : RouteTemplate) : Prop where
  /-- the template starts with a slash -/
  rooted : r.template.head? = some '/'
  /-- no two slashes stand side by side -/
  single : ¬ ['/', '/'] <:+: r.template
  /-- no slash stands at the end, but for that of the root -/
  closed : r.template.getLast? = some '/' → r.template = ['/']
  /-- wherever something reads as a parameter, it is its name in braces -/
  bare : ∀ s name, s <:+: r.template → IsParameter name s → s = '\x7b' :: (name ++ ['\x7d'])
  /-- the tokens differ in more than case -/
  distinct : (r.tokens.map Text.lower).Nodup
  /-- the tokens are the first spelling of each name that stands in braces, in order -/
  listed : r.tokens = (parameterNames r.template).eraseDupsBy Text.sameFolded

/-- **The normal form of any text is a well-formed template.** -/
theorem normalize_wellFormed (route : Text) : (normalize route).WellFormed where
  rooted := by rw [normalize_template, tidy_eq, head?_rooted]
  single := tidy_single _
  closed := tidy_closed
  bare _ _ := bare_of_normalize
  distinct := nodup_distinctNames _
  listed := by rw [tokens_normalize, parameterNames_normalize]

end EndpointSurvey
