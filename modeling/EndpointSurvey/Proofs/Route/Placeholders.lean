/-
Placeholders of routes and the names put in for them. A name has no square bracket, and a placeholder has none but the
two at its ends: so the brackets of a filled text are brackets of the text, and what stands between two of them comes
from what stood between them.

Main statements:
- `Placeholder.exists_of_infix_put` and `put_inSquares_infix`: what stands in brackets of a filled text, and where it
  comes from;
- `FillsBrackets.shows_iff`: when filling makes up the placeholder of a controller;
- `Unnested.put` and `Unnested.infix_of_put`: where no bracket opens inside others, filling brings nothing into
  brackets.
-/
import EndpointSurvey.Proofs.Text.LowerCase
import EndpointSurvey.Proofs.Text.Spacing
import EndpointSurvey.Route.Composition

namespace EndpointSurvey

/-! ## What matches a placeholder -/

/-- a text in square brackets -/
def inSquares (inner : Text) : Text := '[' :: (inner ++ [']'])

/-- a text without square brackets -/
structure SquareFree (t : Text) : Prop where
  opening : '[' ∉ t
  closing : ']' ∉ t

namespace Placeholder

theorem after?_append_word (u v t : Text) : after? (u ++ v) t = (after? u t).bind (after? v) := by
  fun_induction after? u t with
  | case1 => rfl
  | case2 letter word => cases v <;> rfl
  | case3 letter word c cs same ih => rw [List.cons_append, after?, if_pos same, ih]
  | case4 letter word c cs other => rw [List.cons_append, after?, if_neg other]; rfl

theorem after?_eq_some_iff {word t rest : Text} :
    after? word t = some rest ↔ ∃ s, t = s ++ rest ∧ after? word s = some [] := by
  fun_induction after? word t with
  | case1 t =>
    constructor
    · rintro ⟨⟩
      exact ⟨[], rfl, rfl⟩
    · rintro ⟨s, rfl, h⟩
      cases h
      rfl
  | case2 letter word =>
    refine iff_of_false (Option.some_ne_none rest).symm ?_
    rintro ⟨s, shape, h⟩
    obtain ⟨rfl, _⟩ := List.append_eq_nil_iff.1 shape.symm
    cases h
  | case3 letter word c cs same ih =>
    rw [ih]
    constructor
    · rintro ⟨s, rfl, h⟩
      exact ⟨c :: s, rfl, by rwa [after?, if_pos same]⟩
    · rintro ⟨s, shape, h⟩
      cases s with
      | nil => cases h
      | cons d ds =>
        obtain ⟨rfl, rfl⟩ := List.cons.inj shape
        rw [after?, if_pos same] at h
        exact ⟨ds, rfl, h⟩
  | case4 letter word c cs other =>
    refine iff_of_false (Option.some_ne_none rest).symm ?_
    rintro ⟨s, shape, h⟩
    cases s with
    | nil => cases h
    | cons d ds =>
      obtain ⟨rfl, _⟩ := List.cons.inj shape
      rw [after?, if_neg other] at h
      cases h

/-- the text is the placeholder, in any case -/
def Matches (p : Placeholder) (s : Text) : Prop := after? p.text s = some []

theorem not_mem_of_after? {word s : Text} {d : Char} (h : after? word s = some [])
    (other : ∀ letter ∈ word, sameLetter letter d = false) : d ∉ s := by
  fun_induction after? word s with
  | case1 => cases h; exact List.not_mem_nil
  | case2 => cases h
  | case3 letter word c cs same ih =>
    obtain ⟨first, others⟩ := List.forall_mem_cons.1 other
    rw [List.mem_cons, not_or]
    refine ⟨?_, ih h others⟩
    rintro rfl
    rw [first] at same
    cases same
  | case4 => cases h

theorem toLower_of_sameLetter {d c : Char} (other : d ∉ ['i', 's', 'k']) (h : sameLetter d c = true) :
    c.toLower = d := by
  simp only [List.mem_cons, List.not_mem_nil, or_false, not_or] at other
  simpa [sameLetter, other] using h

/-- A mark between the cases matches itself alone. -/
theorem eq_of_sameLetter {d c : Char} (mark : betweenCases d = true) (h : sameLetter d c = true) : c = d := by
  refine eq_of_toLower mark (toLower_of_sameLetter ?_ h)
  simp only [List.mem_cons, List.not_mem_nil, or_false]
  rintro (rfl | rfl | rfl) <;> revert mark <;> decide

/-- A placeholder has brackets at its ends and nowhere else. -/
theorem Matches.shape {p : Placeholder} {s : Text} (h : p.Matches s) : ∃ w, s = inSquares w ∧ SquareFree w := by
  have all : p.word.all (fun letter => !sameLetter letter '[' && !sameLetter letter ']') = true := by cases p <;> rfl
  have letters : ∀ letter ∈ p.word, sameLetter letter '[' = false ∧ sameLetter letter ']' = false := by
    simpa using List.all_eq_true.1 all
  rw [Matches, text] at h
  cases s with
  | nil => cases h
  | cons c cs =>
    rw [List.cons_append, after?] at h
    split at h
    · next opening =>
      rw [after?_append_word] at h
      obtain ⟨rest, inside, closing⟩ := Option.bind_eq_some_iff.1 h
      obtain ⟨w, rfl, same⟩ := after?_eq_some_iff.1 inside
      refine ⟨w, ?_, not_mem_of_after? same fun letter hl => (letters letter hl).1,
        not_mem_of_after? same fun letter hl => (letters letter hl).2⟩
      obtain rfl := eq_of_sameLetter (by decide) opening
      cases rest with
      | nil => cases closing
      | cons d ds =>
        rw [after?] at closing
        split at closing
        · next same =>
          cases closing
          rw [eq_of_sameLetter (by decide) same, inSquares]
        · cases closing
    · cases h

/-- No bracket opens inside a placeholder. -/
theorem Matches.opening {p : Placeholder} {s t : Text} (h : p.Matches (s ++ '[' :: t)) : s = [] := by
  obtain ⟨w, shape, free⟩ := h.shape
  cases s with
  | nil => rfl
  | cons c cs =>
    have inner := (List.cons.inj shape).2
    have member : '[' ∈ w ++ [']'] := inner ▸ (by simp)
    exact absurd (by simpa using member) free.opening

/-- No bracket closes inside a placeholder. -/
theorem Matches.closing {p : Placeholder} {s t : Text} (h : p.Matches (s ++ ']' :: t)) : t = [] := by
  obtain ⟨w, shape, free⟩ := h.shape
  cases s with
  | nil => cases (List.cons.inj shape).1
  | cons c cs =>
    have inner : cs ++ ']' :: t = w ++ [']'] := (List.cons.inj shape).2
    rcases List.eq_nil_or_concat t with rfl | ⟨front, last, rfl⟩
    · rfl
    · rw [List.concat_eq_append, ← List.cons_append, ← List.append_assoc] at inner
      obtain ⟨rfl, _⟩ := List.append_inj' inner rfl
      exact absurd (by simp) free.closing

/-- A placeholder that starts in a text, but is none of its own, goes on behind it. -/
theorem exists_straddling {p : Placeholder} {s t : Text} (misses : after? p.text s = none)
    (found : after? p.text (s ++ t) ≠ none) : ∃ c more, p.Matches (s ++ c :: more) ∧ t.head? = some c := by
  obtain ⟨rest, found⟩ := Option.ne_none_iff_exists'.1 found
  obtain ⟨unit, shape, h⟩ := after?_eq_some_iff.1 found
  rcases List.append_eq_append_iff.1 shape with ⟨more, rfl, rfl⟩ | ⟨more, rfl, rfl⟩
  · cases more with
    | nil =>
      rw [List.append_nil] at h
      rw [h] at misses
      cases misses
    | cons c more => exact ⟨c, more, h, rfl⟩
  · rw [after?_eq_some_iff.2 ⟨unit, rfl, h⟩] at misses
    cases misses

/-- A text is taken apart into places of a placeholder and characters that none starts at. -/
@[elab_as_elim]
theorem place_induction (p : Placeholder) {motive : Text → Prop} (nil : motive [])
    (place : ∀ s rest, p.Matches s → motive rest → motive (s ++ rest))
    (plain : ∀ c cs, after? p.text (c :: cs) = none → motive cs → motive (c :: cs)) (t : Text) : motive t := by
  induction t using substitute.induct p with
  | case1 => exact nil
  | case2 c cs rest found ih =>
    obtain ⟨s, shape, h⟩ := after?_eq_some_iff.1 found
    rw [shape]
    exact place s rest h ih
  | case3 c cs misses ih => exact plain c cs misses ih

/-! ## Putting names in -/

/-- puts a name in for every place of a placeholder -/
def put (p : Placeholder) (name t : Text) : Text := p.substitute (Template.plain name) t

variable {p : Placeholder} {name : Text}

theorem put_nil : p.put name [] = [] := by rw [put, substitute]

theorem put_match {s : Text} (h : p.Matches s) (t : Text) : p.put name (s ++ t) = name ++ p.put name t := by
  have found : after? p.text (s ++ t) = some t := after?_eq_some_iff.2 ⟨s, rfl, h⟩
  obtain ⟨w, rfl, _⟩ := h.shape
  rw [inSquares, List.cons_append] at found ⊢
  rw [put, substitute]
  split
  · next rest found' =>
    rw [found] at found'
    cases found'
    rw [Template.expand_plain, put]
  · next none =>
    rw [found] at none
    cases none

theorem put_cons {c : Char} {cs : Text} (misses : after? p.text (c :: cs) = none) :
    p.put name (c :: cs) = c :: p.put name cs := by
  rw [put, substitute]
  split
  · next rest found =>
    rw [misses] at found
    cases found
  · rfl

theorem misses_of_front {s t : Text} (front : s <+: t) (misses : after? p.text t = none) : after? p.text s = none := by
  by_contra found
  obtain ⟨rest, found⟩ := Option.ne_none_iff_exists'.1 found
  obtain ⟨unit, rfl, h⟩ := after?_eq_some_iff.1 found
  obtain ⟨more, rfl⟩ := front
  rw [List.append_assoc, after?_eq_some_iff.2 ⟨unit, rfl, h⟩] at misses
  cases misses

/-- A text without brackets has no place for a name. -/
theorem put_free {t : Text} (h : '[' ∉ t) : p.put name t = t := substitute_no_bracket p _ t h

/-- Up to a bracket, a filled text comes from the text up to that bracket. -/
theorem exists_of_prefix_put (free : SquareFree name) {d : Char} (square : d = '[' ∨ d = ']') {u t : Text}
    (front : u ++ [d] <+: p.put name t) :
    ∃ v, v ++ [d] <+: t ∧ p.put name v = u ∧ p.put name (v ++ [d]) = u ++ [d] := by
  have apart : d ∉ name := by
    rcases square with rfl | rfl
    · exact free.opening
    · exact free.closing
  induction t using place_induction p generalizing u with
  | nil =>
    rw [put_nil, List.prefix_nil] at front
    exact absurd front (by simp)
  | place s rest h ih =>
    rw [put_match h] at front
    obtain ⟨u, rfl, behind⟩ := Text.prefix_behind apart front
    obtain ⟨v, inside, filled, filled'⟩ := ih behind
    refine ⟨s ++ v, ?_, ?_, ?_⟩
    · rw [List.append_assoc, List.prefix_append_right_inj]
      exact inside
    · rw [put_match h, filled]
    · rw [List.append_assoc, put_match h, filled', List.append_assoc]
  | plain c cs misses ih =>
    rw [put_cons misses] at front
    cases u with
    | nil =>
      obtain rfl : d = c := (List.cons_prefix_cons.1 front).1
      have alone : [d] <+: d :: cs := ⟨cs, rfl⟩
      exact ⟨[], alone, put_nil, by rw [List.nil_append, put_cons (misses_of_front alone misses), put_nil]⟩
    | cons e u =>
      rw [List.cons_append, List.cons_prefix_cons] at front
      obtain ⟨rfl, behind⟩ := front
      obtain ⟨v, inside, filled, filled'⟩ := ih behind
      have whole : e :: (v ++ [d]) <+: e :: cs := List.cons_prefix_cons.2 ⟨rfl, inside⟩
      have part : e :: v <+: e :: cs := List.cons_prefix_cons.2 ⟨rfl, (List.prefix_append v [d]).trans inside⟩
      refine ⟨e :: v, whole, ?_, ?_⟩
      · rw [put_cons (misses_of_front part misses), filled]
      · rw [List.cons_append, put_cons (misses_of_front whole misses), filled', List.cons_append]

/-- What stands between two brackets of a filled text comes from what stands between two of the text. -/
theorem exists_of_infix_put (free : SquareFree name) {d : Char} (square : d = '[' ∨ d = ']') {x t : Text}
    (inside : '[' :: (x ++ [d]) <:+: p.put name t) :
    ∃ v, '[' :: (v ++ [d]) <:+: t ∧ p.put name v = x ∧ p.put name ('[' :: (v ++ [d])) = '[' :: (x ++ [d]) := by
  induction t using place_induction p with
  | nil =>
    rw [put_nil, List.infix_nil] at inside
    cases inside
  | place s rest h ih =>
    rw [put_match h, Text.cons_infix_append_iff free.opening] at inside
    obtain ⟨v, here, filled⟩ := ih inside
    exact ⟨v, here.trans (List.suffix_append s rest).isInfix, filled⟩
  | plain c cs misses ih =>
    rw [put_cons misses, List.infix_cons_iff, List.cons_prefix_cons] at inside
    rcases inside with ⟨rfl, front⟩ | inside
    · obtain ⟨v, here, filled, filled'⟩ := exists_of_prefix_put free square front
      have whole : '[' :: (v ++ [d]) <+: '[' :: cs := List.cons_prefix_cons.2 ⟨rfl, here⟩
      exact ⟨v, whole.isInfix, filled, by rw [put_cons (misses_of_front whole misses), filled']⟩
    · obtain ⟨v, here, filled⟩ := ih inside
      exact ⟨v, here.trans (List.infix_cons List.infix_rfl), filled⟩

/-- A place for a name does not reach over an opening bracket. -/
theorem put_append_opening (s t : Text) : p.put name (s ++ '[' :: t) = p.put name s ++ p.put name ('[' :: t) := by
  induction s using place_induction p with
  | nil => rw [put_nil, List.nil_append, List.nil_append]
  | place s rest h ih => rw [List.append_assoc, put_match h, put_match h, ih, List.append_assoc]
  | plain c cs misses ih =>
    have misses' : after? p.text (c :: cs ++ '[' :: t) = none := by
      by_contra found
      obtain ⟨d, more, h, first⟩ := exists_straddling misses found
      cases first
      exact List.cons_ne_nil c cs h.opening
    rw [List.cons_append] at misses' ⊢
    rw [put_cons misses', put_cons misses, ih, List.cons_append]

/-- A place for a name does not reach over a closing bracket that is none of its own. -/
theorem put_append_closing {s : Text} (closed : ∀ c ∈ s.getLast?, c = ']') (t : Text) :
    p.put name (s ++ t) = p.put name s ++ p.put name t := by
  induction s using place_induction p with
  | nil => rw [put_nil, List.nil_append, List.nil_append]
  | place s rest h ih =>
    have closed' : ∀ c ∈ rest.getLast?, c = ']' := by
      intro d hd
      apply closed
      rw [List.getLast?_append, Option.mem_def.1 hd]
      rfl
    rw [List.append_assoc, put_match h, put_match h, ih closed', List.append_assoc]
  | plain c cs misses ih =>
    have closed' : ∀ d ∈ cs.getLast?, d = ']' := by
      intro d hd
      apply closed
      rw [List.getLast?_cons, Option.mem_def.1 hd]
      rfl
    have misses' : after? p.text (c :: cs ++ t) = none := by
      by_contra found
      obtain ⟨d, more, h, _⟩ := exists_straddling misses found
      obtain ⟨front, last, whole⟩ := (List.eq_nil_or_concat (c :: cs)).resolve_left (List.cons_ne_nil c cs)
      rw [whole, List.concat_eq_append] at closed h
      obtain rfl : last = ']' := closed last (List.getLast?_concat ..)
      rw [List.append_assoc, List.singleton_append] at h
      exact List.cons_ne_nil d more h.closing
    rw [List.cons_append] at misses' ⊢
    rw [put_cons misses', put_cons misses, ih closed', List.cons_append]

/-- What stands in brackets is filled in place. -/
theorem put_inSquares_infix {v t : Text} (inside : inSquares v <:+: t) :
    p.put name (inSquares v) <:+: p.put name t := by
  obtain ⟨before, after, rfl⟩ := inside
  have closed : ∀ c ∈ (inSquares v).getLast?, c = ']' := by
    rw [inSquares, ← List.cons_append, List.getLast?_concat]
    rintro _ ⟨⟩
    rfl
  have behind : p.put name (inSquares v ++ after) = p.put name (inSquares v) ++ p.put name after :=
    put_append_closing closed after
  have whole : p.put name (before ++ (inSquares v ++ after)) = p.put name before ++ p.put name (inSquares v ++ after) :=
    put_append_opening before (v ++ [']'] ++ after)
  rw [List.append_assoc, whole, behind, ← List.append_assoc]
  exact List.infix_append ..

end Placeholder

/-! ## Filling what stands in brackets -/

/-- What stands in brackets of the filled text is what became of something in brackets, and the other way round. -/
structure FillsBrackets (fill : Text → Text) : Prop where
  back : ∀ {t x}, inSquares x <:+: fill t →
    ∃ v, inSquares v <:+: t ∧ fill v = x ∧ fill (inSquares v) = inSquares x
  forth : ∀ {t v x}, inSquares v <:+: t → fill (inSquares v) = inSquares x → inSquares x <:+: fill t

namespace FillsBrackets

theorem put (p : Placeholder) {name : Text} (free : SquareFree name) : FillsBrackets (p.put name) where
  back := Placeholder.exists_of_infix_put free (.inr rfl)
  forth inside filled := filled ▸ Placeholder.put_inSquares_infix inside

variable {f g : Text → Text}

theorem comp (hg : FillsBrackets g) (hf : FillsBrackets f) : FillsBrackets (g ∘ f) where
  back inside := by
    obtain ⟨u, inner, filled, filled'⟩ := hg.back inside
    obtain ⟨v, inner', became, became'⟩ := hf.back inner
    refine ⟨v, inner', ?_, ?_⟩
    · rw [Function.comp_apply, became, filled]
    · rw [Function.comp_apply, became', filled']
  forth {t v x} inside filled := by
    -- only something in brackets between the two steps is filled in place by the second
    obtain ⟨u, inner, _, filled'⟩ := hg.back (t := f (inSquares v)) (x := x) (filled ▸ List.infix_rfl)
    obtain ⟨w, inner', _, became⟩ := hf.back inner
    exact hg.forth (hf.forth (inner'.trans inside) became) filled'

end FillsBrackets

/-! ## The placeholder of a controller -/

/-- the text is the placeholder of a controller, in any case -/
def IsControllerMark (s : Text) : Prop := s.map Char.toLower = Placeholder.controller.text

/-- the placeholder of a controller stands somewhere in the text -/
def ShowsController (t : Text) : Prop := ∃ s, s <:+: t ∧ IsControllerMark s

/-- something in brackets becomes the placeholder of a controller when it is filled -/
def MakesController (fill : Text → Text) (t : Text) : Prop :=
  ∃ v, inSquares v <:+: t ∧ IsControllerMark (fill (inSquares v))

/-- Letters without further forms match exactly what is made of them by case. -/
theorem Placeholder.after?_iff_toLower {word : Text} (plain : ∀ letter ∈ word, letter ∉ ['i', 's', 'k']) (s : Text) :
    after? word s = some [] ↔ s.map Char.toLower = word := by
  induction word generalizing s with
  | nil => cases s <;> simp [after?]
  | cons letter word ih =>
    obtain ⟨first, others⟩ := List.forall_mem_cons.1 plain
    cases s with
    | nil => simp [after?]
    | cons c cs =>
      have same : sameLetter letter c = true ↔ c.toLower = letter :=
        ⟨toLower_of_sameLetter first, fun h => by simp [sameLetter, h]⟩
      rw [after?, List.map_cons, List.cons.injEq, ← ih others, ← same]
      split
      · next h => rw [and_iff_right h]
      · next h => exact iff_of_false (Option.some_ne_none []).symm fun both => h both.1

theorem isControllerMark_iff {s : Text} : IsControllerMark s ↔ Placeholder.controller.Matches s := by
  have all : Placeholder.controller.text.all (fun letter => letter ∉ ['i', 's', 'k']) = true := rfl
  refine (Placeholder.after?_iff_toLower (fun letter member => ?_) s).symm
  exact of_decide_eq_true (List.all_eq_true.1 all letter member)

theorem IsControllerMark.shape {s : Text} (h : IsControllerMark s) : ∃ w, s = inSquares w ∧ SquareFree w :=
  (isControllerMark_iff.1 h).shape

/-- Filling shows the placeholder of a controller exactly if it makes one of something in brackets. -/
theorem FillsBrackets.shows_iff {fill : Text → Text} (h : FillsBrackets fill) (t : Text) :
    ShowsController (fill t) ↔ MakesController fill t := by
  constructor
  · rintro ⟨s, inside, mark⟩
    obtain ⟨w, rfl, _⟩ := mark.shape
    obtain ⟨v, here, _, filled⟩ := h.back inside
    exact ⟨v, here, filled ▸ mark⟩
  · rintro ⟨v, here, mark⟩
    obtain ⟨w, filled, _⟩ := mark.shape
    exact ⟨inSquares w, h.forth here filled, filled ▸ mark⟩

/-! ## Texts without brackets in brackets -/

/-- no bracket opens before the one in front of it is closed -/
def Unnested (t : Text) : Prop := ∀ x, '[' :: (x ++ ['[']) <:+: t → ']' ∈ x

section
variable {p : Placeholder} {name t : Text}

/-- Where a bracket opens behind another one, a closing bracket stays between them. -/
theorem Unnested.closing_mem (un : Unnested t) {v rest : Text} (inside : '[' :: (v ++ rest) <:+: t)
    (opening : '[' ∈ v) : ']' ∈ p.put name v := by
  obtain ⟨front, back, rfl, first⟩ := List.eq_append_cons_of_mem opening
  have closed : ']' ∈ front := by
    refine un front (List.IsInfix.trans ⟨[], back ++ rest, ?_⟩ inside)
    simp
  rw [Placeholder.put_append_opening, Placeholder.put_free first]
  exact List.mem_append_left _ closed

/-- Putting names in opens no bracket inside others. -/
theorem Unnested.put (un : Unnested t) (free : SquareFree name) : Unnested (p.put name t) := by
  intro x inside
  obtain ⟨v, here, rfl, _⟩ := Placeholder.exists_of_infix_put free (.inl rfl) inside
  by_cases opening : '[' ∈ v
  · exact un.closing_mem here opening
  · rw [Placeholder.put_free opening]
    exact un v here

/-- Text alone in brackets stood there before names were put in. -/
theorem Unnested.infix_of_put (un : Unnested t) (free : SquareFree name) {x : Text} (alone : SquareFree x)
    (inside : inSquares x <:+: p.put name t) : inSquares x <:+: t ∧ p.put name (inSquares x) = inSquares x := by
  obtain ⟨v, here, rfl, filled⟩ := Placeholder.exists_of_infix_put free (.inr rfl) inside
  by_cases opening : '[' ∈ v
  · exact absurd (un.closing_mem here opening) alone.closing
  · rw [Placeholder.put_free opening] at filled ⊢
    exact ⟨here, filled⟩

theorem Unnested.shows_of_put (un : Unnested t) (free : SquareFree name) (shows : ShowsController (p.put name t)) :
    ShowsController t := by
  obtain ⟨s, inside, mark⟩ := shows
  obtain ⟨w, rfl, alone⟩ := mark.shape
  exact ⟨_, (un.infix_of_put free alone inside).1, mark⟩

/-- The placeholder of a controller is gone when the controller's name is put in last. -/
theorem Unnested.not_shows_put_controller (un : Unnested t) (free : SquareFree name) :
    ¬ ShowsController (Placeholder.controller.put name t) := by
  rintro ⟨s, inside, mark⟩
  obtain ⟨w, rfl, alone⟩ := mark.shape
  have kept := (un.infix_of_put free alone inside).2
  have gone : Placeholder.controller.put name (inSquares w ++ []) = name ++ Placeholder.controller.put name [] :=
    Placeholder.put_match (isControllerMark_iff.1 mark) []
  rw [List.append_nil, Placeholder.put_nil, List.append_nil, kept] at gone
  exact free.opening (gone ▸ List.mem_cons_self)

end

end EndpointSurvey
