/-
The parameters of a route as its pattern reads them: braces around up to two stars, a name, and anything without braces.
No parameter holds a brace, so they are found among the texts that stand in braces with no brace in between. Of names that
differ in case only, the first spelling is kept.

Main statements:
- `parameter?_eq_some_iff`: what is read as a parameter;
- `mem_insides_iff` and `parameterNames_eq`: where the parameters of a text stand;
- `insides_append_free` and `parameterNames_trim`: text without braces around a text adds no parameter to it;
- `nodup_distinctNames` (the names kept differ in more than case) and `distinctNames_eq` (they are the first of their
  kind, in order).
-/
import EndpointSurvey.Proofs.Text.Spacing
import EndpointSurvey.Route.Basic
import Mathlib.Data.List.Infix
import Mathlib.Data.List.Nodup

namespace EndpointSurvey.Route

/-! ## What is read as a parameter -/

/-- a text without braces -/
def BraceFree (t : Text) : Prop := ∀ c ∈ t, inBraces c = true

/-- A character of a kind that no brace is of is no brace. -/
theorem inBraces_of {p : Char → Bool} (opening : p '\x7b' = false) (closing : p '\x7d' = false) {c : Char}
    (h : p c = true) : inBraces c = true := by
  rw [inBraces, Bool.and_eq_true, bne_iff_ne, bne_iff_ne]
  constructor
  · rintro rfl
    rw [opening] at h
    cases h
  · rintro rfl
    rw [closing] at h
    cases h

theorem wordChar_free {c : Char} : wordChar c = true → inBraces c = true := inBraces_of (by decide) (by decide)

theorem slash_free {c : Char} : slash c = true → inBraces c = true := inBraces_of (by decide) (by decide)

theorem blank_free {c : Char} : blank c = true → inBraces c = true := inBraces_of (by decide) (by decide)

/-- what may stand in front of a parameter's name -/
def starRuns : List Text := [[], ['*'], ['*', '*']]

/-- the inside of a parameter of this name: up to two stars, the name as far as it goes, and anything else -/
def NamedInside (name inner : Text) : Prop :=
  ∃ stars ∈ starRuns, ∃ more, inner = stars ++ (name ++ more) ∧ name.head?.any identifierStart = true ∧
    (∀ c ∈ name, wordChar c = true) ∧ ∀ c ∈ more.head?, wordChar c = false

/-- a text that is one parameter of this name -/
def IsParameter (name s : Text) : Prop :=
  ∃ inner, s = '\x7b' :: (inner ++ ['\x7d']) ∧ BraceFree inner ∧ NamedInside name inner

theorem starRuns_free {stars : Text} (h : stars ∈ starRuns) : BraceFree stars := by
  -- along the lists: deciding the statement as it stands would go through all characters
  have all : starRuns.all (·.all inBraces) = true := rfl
  exact List.all_eq_true.1 (List.all_eq_true.1 all stars h)

/-- Up to two stars in front of something else are passed over. -/
theorem afterStars_append {stars t : Text} (h : stars ∈ starRuns) (first : ∀ c ∈ t.head?, c ≠ '*') :
    afterStars (stars ++ t) = t := by
  have stop : ∀ ds, t ≠ '*' :: ds := by
    rintro ds rfl
    exact first '*' rfl rfl
  simp only [starRuns, List.mem_cons, List.not_mem_nil, or_false] at h
  rcases h with rfl | rfl | rfl
  · exact afterStars.eq_3 t (fun _ => stop _) stop
  · exact afterStars.eq_2 t stop
  · exact afterStars.eq_1 t

theorem exists_stars (t : Text) : ∃ stars ∈ starRuns, t = stars ++ afterStars t := by
  unfold afterStars
  split
  · exact ⟨['*', '*'], by simp [starRuns], rfl⟩
  · exact ⟨['*'], by simp [starRuns], rfl⟩
  · exact ⟨[], by simp [starRuns], rfl⟩

theorem exists_isParameter {t name rest : Text} (h : parameter? t = some (name, rest)) :
    ∃ s, t = s ++ rest ∧ IsParameter name s := by
  unfold parameter? at h
  split at h
  · next cs =>
    obtain ⟨stars, run, shape⟩ := exists_stars cs
    simp only at h
    generalize afterStars cs = inside at h shape
    split at h
    · next starts =>
      split at h
      · next rest' ends =>
        cases h
        have name_free : BraceFree (inside.takeWhile wordChar) :=
          fun c hc => wordChar_free (List.mem_takeWhile_imp hc)
        have more_free : BraceFree ((inside.dropWhile wordChar).takeWhile inBraces) :=
          fun c hc => List.mem_takeWhile_imp hc
        refine ⟨_, ?_, stars ++ (inside.takeWhile wordChar ++ (inside.dropWhile wordChar).takeWhile inBraces), rfl,
          ?_, stars, run, _, rfl, ?_, fun c hc => List.mem_takeWhile_imp hc, ?_⟩
        · rw [shape, List.cons_append, List.append_assoc, List.append_assoc, List.append_assoc, List.singleton_append,
            ← ends, List.takeWhile_append_dropWhile, List.takeWhile_append_dropWhile]
        · exact List.forall_mem_append.2 ⟨starRuns_free run, List.forall_mem_append.2 ⟨name_free, more_free⟩⟩
        · cases inside with
          | nil => cases starts
          | cons c cs => rwa [List.takeWhile_cons_of_pos (identifierStart_wordChar starts)]
        · intro c hc
          rw [List.head?_takeWhile] at hc
          exact Text.first_dropWhile wordChar inside c (Option.mem_filter_iff.1 hc).1
      · cases h
    · cases h
  · cases h

theorem parameter?_append {name s : Text} (h : IsParameter name s) (rest : Text) :
    parameter? (s ++ rest) = some (name, rest) := by
  obtain ⟨inner, rfl, free, stars, run, more, rfl, start, word, stop⟩ := h
  have starts : ((name ++ more) ++ '\x7d' :: rest).head? = name.head? := by
    cases name with
    | nil => cases start
    | cons c cs => rfl
  have named : afterStars (stars ++ ((name ++ more) ++ '\x7d' :: rest)) = (name ++ more) ++ '\x7d' :: rest := by
    refine afterStars_append run fun c hc => ?_
    rintro rfl
    rw [starts] at hc
    rw [hc] at start
    exact absurd start (by decide)
  have next : ∀ c ∈ (more ++ '\x7d' :: rest).head?, wordChar c = false := by
    cases more with
    | nil =>
      rintro _ ⟨⟩
      decide
    | cons c cs => exact stop
  have more_free : BraceFree more := (List.forall_mem_append.1 (List.forall_mem_append.1 free).2).2
  rw [List.cons_append, List.append_assoc, List.append_assoc, List.singleton_append, parameter?]
  simp only [named, starts, start, if_true]
  rw [List.append_assoc, Text.dropWhile_padded word next, Text.takeWhile_padded word next,
    Text.dropWhile_padded more_free (by rintro _ ⟨⟩; decide)]
  rfl

/-- **What is read as a parameter** is one that the text starts with. -/
theorem parameter?_eq_some_iff {t name rest : Text} :
    parameter? t = some (name, rest) ↔ ∃ s, t = s ++ rest ∧ IsParameter name s := by
  refine ⟨exists_isParameter, ?_⟩
  rintro ⟨s, rfl, h⟩
  exact parameter?_append h rest

/-! ## Where parameters stand -/

/-- the name of the parameter that a text starts with -/
def nameAt? (t : Text) : Option Text := (parameter? t).map (·.1)

/-- the names of the parameters of a text, wherever one starts -/
def parameterNames (t : Text) : List Text := t.tails.filterMap nameAt?

/-- the first brace of a text -/
def nextBrace? (t : Text) : Option Char := (t.dropWhile inBraces).head?

/-- what stands in braces with no brace in between -/
def insides : Text → List Text
  | [] => []
  | c :: cs =>
    if c = '\x7b' ∧ nextBrace? cs = some '\x7d' then cs.takeWhile inBraces :: insides cs else insides cs

/-- the name of the parameter that something in braces is -/
def nameOf? (inner : Text) : Option Text := nameAt? ('\x7b' :: (inner ++ ['\x7d']))

theorem nameAt?_eq_some_iff {t name : Text} : nameAt? t = some name ↔ ∃ s rest, t = s ++ rest ∧ IsParameter name s := by
  rw [nameAt?, Option.map_eq_some_iff]
  constructor
  · rintro ⟨⟨_, rest⟩, found, rfl⟩
    obtain ⟨s, h⟩ := exists_isParameter found
    exact ⟨s, rest, h⟩
  · rintro ⟨s, rest, rfl, h⟩
    exact ⟨(name, rest), parameter?_append h rest, rfl⟩

theorem takeWhile_closed {inner : Text} (free : BraceFree inner) (rest : Text) :
    (inner ++ '\x7d' :: rest).takeWhile inBraces = inner :=
  Text.takeWhile_padded free (by rintro _ ⟨⟩; decide)

theorem nextBrace?_closed {inner : Text} (free : BraceFree inner) (rest : Text) :
    nextBrace? (inner ++ '\x7d' :: rest) = some '\x7d' := by
  rw [nextBrace?, Text.dropWhile_padded free (by rintro _ ⟨⟩; decide)]
  rfl

theorem eq_of_nextBrace? {cs : Text} (h : nextBrace? cs = some '\x7d') :
    ∃ rest, cs = cs.takeWhile inBraces ++ '\x7d' :: rest := by
  rw [nextBrace?, List.head?_eq_some_iff] at h
  obtain ⟨rest, behind⟩ := h
  exact ⟨rest, by rw [← behind, List.takeWhile_append_dropWhile]⟩

/-- A parameter behind an opening brace ends at the next brace. -/
theorem nameAt?_brace_iff (cs name : Text) :
    nameAt? ('\x7b' :: cs) = some name ↔
      nextBrace? cs = some '\x7d' ∧ IsParameter name ('\x7b' :: (cs.takeWhile inBraces ++ ['\x7d'])) := by
  rw [nameAt?_eq_some_iff]
  constructor
  · rintro ⟨_, rest, shape, inner, rfl, free, named⟩
    rw [List.cons_append, List.append_assoc, List.singleton_append] at shape
    obtain rfl := (List.cons.inj shape).2
    rw [takeWhile_closed free]
    exact ⟨nextBrace?_closed free rest, inner, rfl, free, named⟩
  · rintro ⟨closing, h⟩
    obtain ⟨rest, shape⟩ := eq_of_nextBrace? closing
    refine ⟨_, rest, ?_, h⟩
    rw [List.cons_append, List.append_assoc, List.singleton_append, ← shape]

theorem nameOf?_eq_some_iff {inner name : Text} (free : BraceFree inner) :
    nameOf? inner = some name ↔ IsParameter name ('\x7b' :: (inner ++ ['\x7d'])) := by
  rw [nameOf?, nameAt?_brace_iff, takeWhile_closed free, and_iff_right (nextBrace?_closed free [])]

theorem nameAt?_brace (cs : Text) :
    nameAt? ('\x7b' :: cs) = if nextBrace? cs = some '\x7d' then nameOf? (cs.takeWhile inBraces) else none := by
  refine Option.ext fun name => ?_
  rw [nameAt?_brace_iff, ← nameOf?_eq_some_iff fun c hc => List.mem_takeWhile_imp hc]
  split
  · next closing => exact and_iff_right closing
  · next other => exact iff_of_false (fun h => other h.1) nofun

theorem nameAt?_of_ne_brace {c : Char} (h : c ≠ '\x7b') (cs : Text) : nameAt? (c :: cs) = none := by
  rw [nameAt?, parameter?]
  · rfl
  · rintro cs' ⟨⟩
    exact h rfl

theorem parameterNames_nil : parameterNames [] = [] := rfl

/-- The parameters of a text are among what stands in braces. -/
theorem parameterNames_eq (t : Text) : parameterNames t = (insides t).filterMap nameOf? := by
  rw [parameterNames]
  induction t with
  | nil => rfl
  | cons c cs ih =>
    rw [List.tails, insides, List.filterMap_cons, ih]
    by_cases opening : c = '\x7b'
    · subst opening
      rw [nameAt?_brace]
      by_cases closing : nextBrace? cs = some '\x7d'
      · rw [if_pos closing, if_pos ⟨rfl, closing⟩, List.filterMap_cons]
      · rw [if_neg closing, if_neg fun h => closing h.2]
    · rw [nameAt?_of_ne_brace opening, if_neg fun h => opening h.1]

/-- What stands in braces is found wherever a brace-free text stands between two. -/
theorem mem_insides_iff {t inner : Text} :
    inner ∈ insides t ↔ BraceFree inner ∧ '\x7b' :: (inner ++ ['\x7d']) <:+: t := by
  induction t with
  | nil => simp [insides]
  | cons c cs ih =>
    have here : (c = '\x7b' ∧ nextBrace? cs = some '\x7d') ∧ inner = cs.takeWhile inBraces ↔
        BraceFree inner ∧ '\x7b' :: (inner ++ ['\x7d']) <+: c :: cs := by
      constructor
      · rintro ⟨⟨rfl, closing⟩, rfl⟩
        obtain ⟨rest, shape⟩ := eq_of_nextBrace? closing
        refine ⟨fun c hc => List.mem_takeWhile_imp hc, rest, ?_⟩
        rw [List.cons_append, List.append_assoc, List.singleton_append, ← shape]
      · rintro ⟨free, rest, shape⟩
        rw [List.cons_append, List.append_assoc, List.singleton_append] at shape
        obtain ⟨rfl, rfl⟩ := List.cons.inj shape
        exact ⟨⟨rfl, nextBrace?_closed free rest⟩, (takeWhile_closed free rest).symm⟩
    rw [List.infix_cons_iff, and_or_left, ← here, ← ih, insides]
    split
    · next braces => rw [List.mem_cons, and_iff_right braces]
    · next other => exact (or_iff_right fun h => other h.1).symm

theorem parameter?_none_iff (t : Text) : parameter? t = none ↔ nameAt? t = none := by
  rw [nameAt?, Option.map_eq_none_iff]

theorem IsParameter.shape {name s : Text} (h : IsParameter name s) :
    ∃ inner, s = '\x7b' :: (inner ++ ['\x7d']) ∧ BraceFree inner ∧ nameOf? inner = some name := by
  obtain ⟨inner, rfl, free, named⟩ := h
  exact ⟨inner, rfl, free, (nameOf?_eq_some_iff free).2 ⟨inner, rfl, free, named⟩⟩

/-- A name alone in braces is a parameter of this name. -/
theorem isParameter_bare {name : Text} (start : name.head?.any identifierStart = true)
    (word : ∀ c ∈ name, wordChar c = true) : IsParameter name ('\x7b' :: (name ++ ['\x7d'])) :=
  ⟨name, rfl, fun c hc => wordChar_free (word c hc), [], by simp [starRuns], [], by simp, start, word, by simp⟩

theorem IsParameter.bare {name s : Text} (h : IsParameter name s) :
    IsParameter name ('\x7b' :: (name ++ ['\x7d'])) := by
  obtain ⟨_, _, _, _, _, _, _, start, word, _⟩ := h
  exact isParameter_bare start word

theorem IsParameter.name_word {name s : Text} (h : IsParameter name s) : ∀ c ∈ name, wordChar c = true := by
  obtain ⟨_, _, _, _, _, _, _, _, word, _⟩ := h
  exact word

theorem IsParameter.name_free {name s : Text} (h : IsParameter name s) : BraceFree name :=
  fun c hc => wordChar_free (h.name_word c hc)

theorem braceFree_of_nameOf? {inner name : Text} (free : BraceFree inner) (named : nameOf? inner = some name) :
    BraceFree name := ((nameOf?_eq_some_iff free).1 named).name_free

/-! ## Text around parameters -/

theorem insides_free_append {s : Text} (free : BraceFree s) (t : Text) : insides (s ++ t) = insides t := by
  induction s with
  | nil => rfl
  | cons c cs ih =>
    obtain ⟨first, others⟩ := List.forall_mem_cons.1 free
    rw [List.cons_append, insides, ih others, if_neg]
    rintro ⟨rfl, _⟩
    exact absurd first (by decide)

/-- What stands in the first braces of a text, and in those behind them. -/
theorem insides_brace {inner : Text} (free : BraceFree inner) (rest : Text) :
    insides ('\x7b' :: (inner ++ '\x7d' :: rest)) = inner :: insides rest := by
  have behind : insides ('\x7d' :: rest) = insides rest := by
    rw [insides, if_neg]
    exact fun h => absurd h.1 (by decide)
  rw [insides, if_pos ⟨rfl, nextBrace?_closed free rest⟩, takeWhile_closed free, insides_free_append free, behind]

theorem upToBrace_append {s : Text} {brace : Char} (h : nextBrace? s = some brace) (t : Text) :
    (s ++ t).takeWhile inBraces = s.takeWhile inBraces ∧ nextBrace? (s ++ t) = some brace := by
  obtain ⟨rest, behind⟩ := List.head?_eq_some_iff.1 h
  have stop : ∀ c ∈ (brace :: (rest ++ t)).head?, inBraces c = false := by
    rintro _ ⟨⟩
    exact Text.first_dropWhile inBraces s brace h
  have free : BraceFree (s.takeWhile inBraces) := fun c hc => List.mem_takeWhile_imp hc
  have whole : s ++ t = s.takeWhile inBraces ++ brace :: (rest ++ t) := by
    rw [← List.cons_append, ← behind, ← List.append_assoc, List.takeWhile_append_dropWhile]
  rw [nextBrace?, whole, Text.takeWhile_padded free stop, Text.dropWhile_padded free stop]
  exact ⟨rfl, rfl⟩

theorem insides_append_free {t : Text} (free : BraceFree t) (s : Text) : insides (s ++ t) = insides s := by
  induction s with
  | nil =>
    have := insides_free_append free []
    rwa [List.append_nil] at this
  | cons c cs ih =>
    rw [List.cons_append, insides, insides, ih]
    cases next : nextBrace? cs with
    | none =>
      have all : BraceFree cs := by
        rwa [nextBrace?, List.head?_eq_none_iff, List.dropWhile_eq_nil_iff] at next
      have none' : nextBrace? (cs ++ t) = none := by
        rw [nextBrace?, List.dropWhile_eq_nil_iff.2 (List.forall_mem_append.2 ⟨all, free⟩)]
        rfl
      rw [none', if_neg fun h => Option.some_ne_none _ h.2.symm, if_neg fun h => Option.some_ne_none _ h.2.symm]
    | some brace =>
      obtain ⟨same, next'⟩ := upToBrace_append next t
      rw [next', same]

theorem parameterNames_trim (t : Text) : parameterNames t.trim = parameterNames t := by
  obtain ⟨before, after, shape, left, right, _⟩ := Text.exists_trim t
  conv => rhs; rw [shape]
  rw [parameterNames_eq, parameterNames_eq, insides_free_append fun c hc => blank_free (left c hc),
    insides_append_free fun c hc => blank_free (right c hc)]

end EndpointSurvey.Route

namespace EndpointSurvey

/-! ## Names that differ in case -/

theorem listed_iff (name : Text) (names : List Text) :
    listed name names = true ↔ name.lower ∈ names.map Text.lower := by
  rw [listed, List.any_eq_true, List.mem_map]
  refine exists_congr fun other => and_congr_right fun _ => ?_
  rw [Text.sameFolded, beq_iff_eq, eq_comm]

theorem addNames_cons (found : List Text) (name : Text) (rest : List Text) :
    addNames found (name :: rest) = addNames (if listed name found then found else found ++ [name]) rest := rfl

theorem subset_addNames (found names : List Text) : found ⊆ addNames found names := by
  induction names generalizing found with
  | nil => exact List.Subset.refl found
  | cons name rest ih =>
    rw [addNames_cons]
    refine List.Subset.trans ?_ (ih _)
    split
    · exact List.Subset.refl found
    · exact List.subset_append_left found [name]

theorem nodup_addNames {found : List Text} (distinct : (found.map Text.lower).Nodup) (names : List Text) :
    ((addNames found names).map Text.lower).Nodup := by
  induction names generalizing found with
  | nil => exact distinct
  | cons name rest ih =>
    rw [addNames_cons]
    apply ih
    split
    · exact distinct
    · next new =>
      rw [listed_iff] at new
      rw [List.map_append, List.map_singleton, List.nodup_append]
      refine ⟨distinct, List.nodup_singleton _, fun a member b single same => new ?_⟩
      rwa [← List.mem_singleton.1 single, ← same]

/-- The names kept of a list differ in more than case. -/
theorem nodup_distinctNames (names : List Text) : ((distinctNames names).map Text.lower).Nodup :=
  have none : (([] : List Text).map Text.lower).Nodup := List.nodup_nil
  nodup_addNames none names

/-- The names kept are the first spelling of each name, in order. -/
theorem distinctNames_eq (names : List Text) : distinctNames names = names.eraseDupsBy Text.sameFolded := by
  have go : ∀ (names found : List Text),
      addNames found names = List.eraseDupsBy.loop Text.sameFolded names found.reverse := by
    intro names
    induction names with
    | nil => exact fun found => (List.reverse_reverse found).symm
    | cons name rest ih =>
      intro found
      rw [addNames_cons, List.eraseDupsBy.loop, List.any_reverse, ih]
      cases old : listed name found with
      | true =>
        rw [listed] at old
        rw [if_pos rfl, old]
      | false =>
        rw [listed] at old
        rw [if_neg Bool.false_ne_true, old, List.reverse_concat]
  exact go names []

end EndpointSurvey
