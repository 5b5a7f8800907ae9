/-
Slashes of a route: one of each run is kept, none at the end, and one is put in front. What comes of it are the segments
of the route, each behind one slash.

Main statements: `squeeze_append` (text without slashes stays), `tidy_eq` (a tidy template is its segments, each behind
one slash) and `tidy_single` (no two slashes side by side).
-/
import EndpointSurvey.Proofs.Text.Spacing
import EndpointSurvey.Route.Basic
import Mathlib.Data.List.Infix

namespace EndpointSurvey.Route

/-! ## Squeezing -/

theorem squeeze_cons {c : Char} (h : c ≠ '/') (cs : Text) : squeeze (c :: cs) = c :: squeeze cs := by
  rw [squeeze]
  rintro _ rfl
  exact absurd rfl h

theorem squeeze_append {s : Text} (h : '/' ∉ s) (t : Text) : squeeze (s ++ t) = s ++ squeeze t := by
  induction s with
  | nil => rfl
  | cons c cs ih =>
    rw [List.mem_cons, not_or] at h
    rw [List.cons_append, squeeze_cons (Ne.symm h.1), ih h.2, List.cons_append]

theorem head?_squeeze (t : Text) : (squeeze t).head? = t.head? := by
  fun_cases squeeze t with
  | case1 cs =>
    obtain ⟨rest, rooted⟩ := squeeze_rooted cs
    rw [rooted]
    rfl
  | case2 c cs single => rfl
  | case3 => rfl

theorem squeeze_eq_cons {t u : Text} {c : Char} (h : c ≠ '/') :
    squeeze t = c :: u ↔ ∃ t', t = c :: t' ∧ squeeze t' = u := by
  constructor
  · intro eq
    have first : t.head? = some c := by
      rw [← head?_squeeze, eq]
      rfl
    obtain ⟨t', rfl⟩ := List.head?_eq_some_iff.1 first
    rw [squeeze_cons h] at eq
    exact ⟨t', rfl, (List.cons.inj eq).2⟩
  · rintro ⟨t', rfl, rfl⟩
    exact squeeze_cons h t'

theorem squeeze_eq_append {s t u : Text} (h : '/' ∉ s) : squeeze t = s ++ u ↔ ∃ t', t = s ++ t' ∧ squeeze t' = u := by
  induction s generalizing t with
  | nil => simp
  | cons c cs ih =>
    rw [List.mem_cons, not_or] at h
    rw [List.cons_append, squeeze_eq_cons (Ne.symm h.1)]
    constructor
    · rintro ⟨t', rfl, eq⟩
      obtain ⟨t'', rfl, eq'⟩ := (ih h.2).1 eq
      exact ⟨t'', rfl, eq'⟩
    · rintro ⟨t', rfl, rfl⟩
      exact ⟨cs ++ t', rfl, squeeze_append h.2 t'⟩

/-- No two slashes stand side by side in a squeezed text. -/
theorem squeeze_single (t : Text) : ¬ ['/', '/'] <:+: squeeze t := by
  fun_induction squeeze t with
  | case1 cs ih => exact ih
  | case2 c cs single ih =>
    rw [List.infix_cons_iff, not_or]
    refine ⟨?_, ih⟩
    rintro ⟨rest, double⟩
    obtain ⟨rfl, next⟩ := List.cons.inj double
    have first : cs.head? = some '/' := by
      rw [← head?_squeeze, ← next]
      rfl
    obtain ⟨ds, rfl⟩ := List.head?_eq_some_iff.1 first
    exact single ds rfl rfl
  | case3 => simp

/-! ## Tidying -/

/-- the parts that are not empty -/
def filledParts (parts : List Text) : List Text := parts.filter (!·.isEmpty)

theorem filledParts_empty (rest : List Text) : filledParts ([] :: rest) = filledParts rest := rfl

theorem filledParts_cons {part : Text} (filled : part ≠ []) (rest : List Text) :
    filledParts (part :: rest) = part :: filledParts rest := by
  obtain ⟨c, cs, rfl⟩ := List.exists_cons_of_ne_nil filled
  rfl

/-- the segments of a route between its slashes -/
def pathSegments (t : Text) : List Text := filledParts (Text.splitOn '/' t)

/-- the segments, each behind a slash; the root if there are none -/
def rooted (segments : List Text) : Text := if segments = [] then ['/'] else segments.flatMap ('/' :: ·)

theorem pathSegments_slash (t : Text) : pathSegments ('/' :: t) = pathSegments t := by
  rw [pathSegments, Text.splitOn, if_pos rfl, filledParts_empty]
  rfl

theorem pathSegments_dropWhile (t : Text) : pathSegments (t.dropWhile slash) = pathSegments t := by
  induction t with
  | nil => rfl
  | cons c cs ih =>
    by_cases first : slash c = true
    · obtain rfl : c = '/' := by simpa [slash] using first
      rw [List.dropWhile_cons_of_pos first, ih, pathSegments_slash]
    · rw [List.dropWhile_cons_of_neg first]

theorem mem_pathSegments {t segment : Text} (h : segment ∈ pathSegments t) : segment ≠ [] ∧ '/' ∉ segment := by
  obtain ⟨part, filled⟩ := List.mem_filter.1 h
  exact ⟨by simpa using filled, Text.not_mem_of_mem_splitOn part⟩

theorem squeeze_segment {s : Text} (filled : s ≠ []) (free : '/' ∉ s) (t : Text) :
    squeeze ('/' :: (s ++ t)) = '/' :: (s ++ squeeze t) := by
  rw [← squeeze_append free, squeeze]
  obtain ⟨c, cs, rfl⟩ := List.exists_cons_of_ne_nil filled
  rintro ds _ second
  exact free (List.mem_cons.2 (.inl (List.cons.inj second).1.symm))

/-- Squeezed, joined parts are the filled ones, each behind a slash; a slash is left over where the last is empty. -/
theorem squeeze_join {parts : List Text} (inhabited : parts ≠ []) (free : ∀ part ∈ parts, '/' ∉ part) :
    squeeze ('/' :: Text.join ['/'] parts) = (filledParts parts).flatMap ('/' :: ·) ++
      (if parts.getLast inhabited = [] then ['/'] else []) := by
  induction parts with
  | nil => exact absurd rfl inhabited
  | cons part rest ih =>
    obtain ⟨first, others⟩ := List.forall_mem_cons.1 free
    cases rest with
    | nil =>
      rw [Text.join, List.intercalate_singleton, List.getLast_singleton]
      by_cases filled : part = []
      · rw [filled]
        rfl
      · have alone : squeeze ('/' :: (part ++ [])) = '/' :: (part ++ []) := squeeze_segment filled first []
        rw [List.append_nil] at alone
        rw [alone, if_neg filled, filledParts_cons filled, List.flatMap_cons, List.append_nil]
        exact (List.append_nil _).symm
    | cons next rest =>
      have tail := ih (List.cons_ne_nil next rest) others
      rw [Text.join_cons, List.getLast_cons (List.cons_ne_nil next rest), List.singleton_append]
      by_cases filled : part = []
      · rw [filled, List.nil_append, squeeze, tail, filledParts_empty]
      · rw [squeeze_segment filled first, tail, filledParts_cons filled, List.flatMap_cons, List.cons_append,
          List.cons_append, List.append_assoc]

theorem squeeze_rooted_eq (t : Text) : ∃ tail ∈ [[], ['/']], squeeze ('/' :: t) =
    (pathSegments t).flatMap ('/' :: ·) ++ tail ∧ (pathSegments t = [] → tail = ['/']) := by
  have inhabited := Text.splitOn_ne_nil '/' t
  have shape := squeeze_join inhabited fun _ => Text.not_mem_of_mem_splitOn
  rw [Text.intercalate_splitOn] at shape
  refine ⟨_, ?_, shape, fun none => if_pos ?_⟩
  · split <;> simp
  · have last := List.filter_eq_nil_iff.1 none _ (List.getLast_mem inhabited)
    simpa using last

theorem getLast?_segments {segments : List Text} (filled : ∀ segment ∈ segments, segment ≠ []) :
    (segments.flatMap ('/' :: ·)).getLast? = segments.getLast?.bind List.getLast? := by
  rcases List.eq_nil_or_concat segments with rfl | ⟨front, last, rfl⟩
  · rfl
  · have inhabited : last ≠ [] := filled last (by simp)
    rw [List.concat_eq_append, List.flatMap_append, List.flatMap_singleton, List.getLast?_append, List.getLast?_concat,
      Option.bind_some, List.getLast?_cons, List.getLast?_eq_some_getLast inhabited]
    rfl

theorem last_segments (t : Text) : ∀ c ∈ ((pathSegments t).flatMap ('/' :: ·)).getLast?, slash c = false := by
  intro c hc
  rw [getLast?_segments fun segment h => (mem_pathSegments h).1] at hc
  obtain ⟨segment, last, hc⟩ := Option.bind_eq_some_iff.1 hc
  have free := (mem_pathSegments (List.mem_of_getLast? last)).2
  have other : c ≠ '/' := by
    rintro rfl
    exact free (List.mem_of_getLast? hc)
  simpa [slash] using other

/-- **A tidy template is its segments, each behind one slash.** -/
theorem tidy_eq (t : Text) : tidy t = rooted (pathSegments t) := by
  obtain ⟨tail, choice, shape, root⟩ := squeeze_rooted_eq (t.dropWhile slash)
  rw [pathSegments_dropWhile] at shape root
  have slashes : ∀ c ∈ tail, slash c = true := by
    rcases List.mem_pair.1 choice with rfl | rfl <;> exact List.all_eq_true.1 rfl
  unfold tidy
  simp only [shape]
  by_cases none : pathSegments t = []
  · rw [none, root none]
    rfl
  · have long : ((pathSegments t).flatMap ('/' :: ·) ++ tail).length > 1 := by
      obtain ⟨segment, rest, segments⟩ := List.exists_cons_of_ne_nil none
      have filled := List.length_pos_iff.2 (mem_pathSegments (t := t) (segments ▸ List.mem_cons_self)).1
      rw [segments, List.flatMap_cons, List.length_append, List.length_append, List.length_cons]
      omega
    rw [if_pos long, Text.dropEnd_padded (last_segments t) slashes, rooted, if_neg none]

theorem tidy_single (t : Text) : ¬ ['/', '/'] <:+: tidy t := by
  intro double
  have part : tidy t <:+: squeeze ('/' :: t.dropWhile slash) := by
    rw [tidy]
    split
    · exact (List.IsPrefix.isInfix ⟨_, Text.dropEnd_append_takeEnd slash _⟩)
    · exact List.infix_rfl
  exact squeeze_single _ (double.trans part)

theorem head?_rooted (segments : List Text) : (rooted segments).head? = some '/' := by
  cases segments <;> rfl

theorem tidy_closed {t : Text} (h : (tidy t).getLast? = some '/') : tidy t = ['/'] := by
  rw [tidy_eq, rooted] at h ⊢
  split
  · rfl
  · next filled =>
    rw [if_neg filled] at h
    exact absurd (last_segments t '/' h) (by decide)

/-! ## Joining -/

/-- two routes without slashes around them, joined -/
def joinParts : Text → Text → Text
  | [], [] => ['/']
  | [], method => '/' :: method
  | base, [] => '/' :: base
  | base, method => '/' :: base ++ '/' :: method

theorem combine_none (base : Text) : combine base none = joinParts (Text.stripBoth slash base) [] := by
  show (match Text.stripBoth slash base, Text.stripBoth slash [] with
    | [], [] => ['/']
    | [], method => '/' :: method
    | base, [] => '/' :: base
    | base, method => '/' :: base ++ '/' :: method) = _
  rw [show Text.stripBoth slash [] = [] from rfl]
  cases Text.stripBoth slash base <;> rfl

/-- A route that starts with neither mark is joined to the controller's. -/
theorem combine_relative (base : Text) {m : Text} (root : ∀ rest, m ≠ '/' :: rest)
    (tilde : ∀ rest, m ≠ '~' :: '/' :: rest) :
    combine base (some m) = joinParts (Text.stripBoth slash base) (Text.stripBoth slash m) := by
  unfold combine
  simp only [Option.getD_some]
  cases Text.stripBoth slash base <;> cases Text.stripBoth slash m <;> rfl

end EndpointSurvey.Route
