/-
Braces of routes: a route in which every brace encloses a name, one brace on either side, can be read from left to right
with three states. Bringing it to normal form changes nothing of it, and filling its tokens removes every brace.

Main statements: `enclosed_iff_scan` (the routes that the scan accepts), `enclosed_normalize_iff` (the normal form keeps
what braces enclose) and `fill_braceFree_iff` (a filled route is free of braces exactly if they enclosed names).
-/
import EndpointSurvey.Proofs.Route.Parameters
import EndpointSurvey.Proofs.Route.Slashes
import EndpointSurvey.Route.Composition
import EndpointSurvey.Route.Token
import Mathlib.Data.List.TakeWhile

namespace EndpointSurvey.Route

/-- every brace of the text is one of a pair around a name without braces -/
inductive Enclosed : Text → Prop where
  | nil : Enclosed []
  | plain {c : Char} {t : Text} (free : inBraces c = true) (h : Enclosed t) : Enclosed (c :: t)
  | token {name t : Text} (named : name ≠ []) (free : BraceFree name) (h : Enclosed t) :
      Enclosed ('\x7b' :: name ++ '\x7d' :: t)

/-! ## Reading braces -/

/-- where a reader of braces is: outside of them, just behind an opening one, or further inside -/
inductive BracePlace where
  | outside
  | opened
  | inside
  deriving DecidableEq, Repr

namespace BracePlace

/-- the place behind a character; there is none if the brace is one too many -/
def next : BracePlace → Char → Option BracePlace
  | outside, c => if c = '\x7b' then some opened else if c = '\x7d' then none else some outside
  | opened, c => if inBraces c then some inside else none
  | inside, c => if c = '\x7d' then some outside else if c = '\x7b' then none else some inside

/-- the place behind a text -/
def scan (p : BracePlace) : Text → Option BracePlace
  | [] => some p
  | c :: cs => (p.next c).bind (scan · cs)

theorem scan_append (p : BracePlace) (s t : Text) : p.scan (s ++ t) = (p.scan s).bind (scan · t) := by
  induction s generalizing p with
  | nil => rfl
  | cons c cs ih =>
    simp only [List.cons_append, scan]
    cases p.next c with
    | none => rfl
    | some q => exact ih q

theorem next_of_free {c : Char} (free : inBraces c = true) (p : BracePlace) :
    p.next c = some (if p = outside then outside else inside) := by
  simp only [inBraces, Bool.and_eq_true, bne_iff_ne] at free
  cases p <;> simp [next, inBraces, free]

theorem scan_of_free {t : Text} (free : BraceFree t) (p : BracePlace) :
    p.scan t = some (if t = [] then p else if p = outside then outside else inside) := by
  induction t generalizing p with
  | nil => rfl
  | cons c cs ih =>
    rw [scan, next_of_free (free c List.mem_cons_self), Option.bind_some,
      ih fun d hd => free d (List.mem_cons_of_mem c hd)]
    cases p <;> simp

/-- A name in braces leads from outside to outside, and nowhere from elsewhere. -/
theorem scan_token {name : Text} (named : name ≠ []) (free : BraceFree name) (p : BracePlace) (t : Text) :
    p.scan ('\x7b' :: name ++ '\x7d' :: t) = if p = outside then outside.scan t else none := by
  cases p with
  | outside => simp [scan, next, scan_append, scan_of_free free, named]
  | opened => rfl
  | inside => rfl

/-- A tail without braces does not change whether the text ends outside. -/
theorem scan_append_free {s t : Text} (free : BraceFree t) (p : BracePlace) :
    p.scan (s ++ t) = some outside ↔ p.scan s = some outside := by
  rw [scan_append]
  cases p.scan s with
  | none => rfl
  | some q =>
    rw [Option.bind_some, scan_of_free free]
    cases q <;> split <;> simp

end BracePlace

open BracePlace

theorem scan_of_enclosed {t : Text} (h : Enclosed t) : outside.scan t = some outside := by
  induction h with
  | nil => rfl
  | plain free _ ih => rw [scan, next_of_free free]; exact ih
  | token named free _ ih => rw [scan_token named free, if_pos rfl, ih]

/-- what a text is that leads to the outside, from each place -/
theorem shape_of_scan (t : Text) :
    (outside.scan t = some outside → Enclosed t) ∧
      (opened.scan t = some outside →
        ∃ name rest, name ≠ [] ∧ BraceFree name ∧ Enclosed rest ∧ t = name ++ '\x7d' :: rest) ∧
      (inside.scan t = some outside → ∃ name rest, BraceFree name ∧ Enclosed rest ∧ t = name ++ '\x7d' :: rest) := by
  induction t with
  | nil => exact ⟨fun _ => .nil, by simp [scan], by simp [scan]⟩
  | cons c cs ih =>
    obtain ⟨fromOutside, fromOpened, fromInside⟩ := ih
    refine ⟨fun h => ?_, fun h => ?_, fun h => ?_⟩
    · simp only [scan, next] at h
      by_cases opening : c = '\x7b'
      · subst opening
        obtain ⟨name, rest, named, free, enclosed, rfl⟩ := fromOpened (by simpa using h)
        exact .token named free enclosed
      · by_cases closing : c = '\x7d'
        · simp [closing] at h
        · exact .plain (by simp [inBraces, opening, closing]) (fromOutside (by simpa [opening, closing] using h))
    · simp only [scan, next] at h
      by_cases free : inBraces c = true
      · obtain ⟨name, rest, nameFree, enclosed, rfl⟩ := fromInside (by simpa [free] using h)
        exact ⟨c :: name, rest, List.cons_ne_nil c name, List.forall_mem_cons.2 ⟨free, nameFree⟩, enclosed, rfl⟩
      · simp [free] at h
    · simp only [scan, next] at h
      by_cases closing : c = '\x7d'
      · subst closing
        exact ⟨[], cs, List.forall_mem_nil _, fromOutside (by simpa using h), rfl⟩
      · by_cases opening : c = '\x7b'
        · simp [opening] at h
        · obtain ⟨name, rest, nameFree, enclosed, rfl⟩ := fromInside (by simpa [opening, closing] using h)
          have free : inBraces c = true := by simp [inBraces, opening, closing]
          exact ⟨c :: name, rest, List.forall_mem_cons.2 ⟨free, nameFree⟩, enclosed, rfl⟩

/-- A text has its braces around names exactly if a reader ends outside. -/
theorem enclosed_iff_scan {t : Text} : Enclosed t ↔ outside.scan t = some outside :=
  ⟨scan_of_enclosed, (shape_of_scan t).1⟩

/-! ## Filling tokens -/

theorem token?_shape {t name rest : Text} (h : token? t = some (name, rest)) :
    t = '\x7b' :: name ++ '\x7d' :: rest ∧ name ≠ [] ∧ BraceFree name := by
  refine ⟨(token?_append h).symm, ?_⟩
  unfold token? at h
  split at h
  · next cs =>
    split at h
    · next c name' rest' taken _ =>
      cases h
      exact ⟨List.cons_ne_nil c name', fun d hd => List.mem_takeWhile_imp (taken ▸ hd)⟩
    · cases h
  · cases h

theorem token?_of_shape {name rest : Text} (named : name ≠ []) (free : BraceFree name) :
    token? ('\x7b' :: name ++ '\x7d' :: rest) = some (name, rest) := by
  have taken : (name ++ '\x7d' :: rest).takeWhile inBraces = name := by
    rw [List.takeWhile_append_of_pos free, List.takeWhile_cons_of_neg (by decide), List.append_nil]
  have dropped : (name ++ '\x7d' :: rest).dropWhile inBraces = '\x7d' :: rest := by
    rw [List.dropWhile_append_of_pos free, List.dropWhile_cons_of_neg (by decide)]
  obtain ⟨c, cs, rfl⟩ := List.exists_cons_of_ne_nil named
  show token? ('\x7b' :: (c :: cs ++ '\x7d' :: rest)) = _
  rw [token?, taken, dropped]
  rfl

/-- A filled route has no brace exactly if those of the route enclosed names, whatever is filled in. -/
theorem fill_braceFree_iff {value : Text → Text} (free : ∀ name, BraceFree (value name)) (t : Text) :
    BraceFree (fill value t) ↔ Enclosed t := by
  unfold fill
  fun_induction tokenPieces t with
  | case1 => exact iff_of_true (List.forall_mem_nil _) .nil
  | case2 c cs name rest found ih =>
    obtain ⟨shape, named, nameFree⟩ := token?_shape found
    rw [shape, enclosed_iff_scan, scan_token named nameFree, if_pos rfl, ← enclosed_iff_scan, ← ih, List.flatMap_cons]
    exact ⟨fun h d hd => h d (List.mem_append_right _ hd),
      fun h d hd => (List.mem_append.1 hd).elim (free name d) (h d)⟩
  | case3 c cs none ih =>
    rw [List.flatMap_cons, List.singleton_append]
    constructor
    · intro free
      obtain ⟨first, others⟩ := List.forall_mem_cons.1 free
      exact .plain first (ih.1 others)
    · intro enclosed
      generalize whole : c :: cs = t at enclosed
      cases enclosed with
      | nil => cases whole
      | plain first others =>
        cases whole
        exact List.forall_mem_cons.2 ⟨first, ih.2 others⟩
      | token named nameFree _ =>
        rw [whole, token?_of_shape named nameFree] at none
        cases none

/-! ## The normal form -/

theorem braceFree_takeWhile {p : Char → Bool} (free : ∀ c, p c = true → inBraces c = true) (t : Text) :
    BraceFree (t.takeWhile p) := fun c hc => free c (List.mem_takeWhile_imp hc)

/-- A route parameter is braces around something without braces, and so is its name alone. -/
theorem parameter?_shape {t name rest : Text} (h : parameter? t = some (name, rest)) :
    (∃ inner, t = '\x7b' :: inner ++ '\x7d' :: rest ∧ inner ≠ [] ∧ BraceFree inner) ∧ name ≠ [] ∧ BraceFree name := by
  obtain ⟨_, rfl, inner, rfl, free, stars, _, more, rfl, start, word, _⟩ := parameter?_eq_some_iff.1 h
  have named : name ≠ [] := by
    rintro rfl
    cases start
  refine ⟨⟨stars ++ (name ++ more), by simp, by simp [named], free⟩, named, fun c hc => wordChar_free (word c hc)⟩

theorem scan_pieces (t : Text) (p : BracePlace) : p.scan ((pieces t).flatMap Piece.text) = p.scan t := by
  fun_induction pieces t generalizing p with
  | case1 => rfl
  | case2 c cs name rest found ih =>
    obtain ⟨⟨inner, shape, inhabited, innerFree⟩, named, nameFree⟩ := parameter?_shape found
    have unit : (Piece.parameter name).text ++ (pieces rest).flatMap Piece.text =
        '\x7b' :: name ++ '\x7d' :: (pieces rest).flatMap Piece.text := by simp [Piece.text]
    rw [List.flatMap_cons, unit, shape, scan_token inhabited innerFree, scan_token named nameFree, ih]
  | case3 c cs none ih =>
    rw [List.flatMap_cons, Piece.text, List.singleton_append, scan, scan]
    exact congrArg _ (funext fun q => ih q)

theorem scan_squeeze (t : Text) (p : BracePlace) : p.scan (squeeze t) = p.scan t := by
  induction t generalizing p with
  | nil => rfl
  | cons c cs ih =>
    by_cases double : c = '/' ∧ ∃ ds, cs = '/' :: ds
    · obtain ⟨rfl, ds, rfl⟩ := double
      rw [squeeze, ih]
      cases p <;> rfl
    · rw [squeeze, scan, scan]
      · exact congrArg _ (funext fun q => ih q)
      · rintro ds rfl rfl
        exact double ⟨rfl, ds, rfl⟩

theorem scan_dropWhile {k : Char → Bool} (free : ∀ c, k c = true → inBraces c = true) (t : Text) :
    outside.scan (t.dropWhile k) = outside.scan t := by
  conv => rhs; rw [← List.takeWhile_append_dropWhile (p := k) (l := t)]
  rw [scan_append, scan_of_free (braceFree_takeWhile free t)]
  split <;> rfl

theorem scan_dropEnd {k : Char → Bool} (free : ∀ c, k c = true → inBraces c = true) (t : Text) (p : BracePlace) :
    p.scan (Text.dropEnd k t) = some outside ↔ p.scan t = some outside := by
  have tail : BraceFree (Text.takeEnd k t) := fun c hc => free c (Text.of_mem_takeEnd hc)
  rw [← scan_append_free tail p, Text.dropEnd_append_takeEnd]

theorem enclosed_trim_iff (t : Text) : Enclosed t.trim ↔ Enclosed t := by
  rw [enclosed_iff_scan, enclosed_iff_scan, Text.trim, Text.trimRight, scan_dropEnd fun _ => blank_free, Text.trimLeft,
    scan_dropWhile fun _ => blank_free]

theorem enclosed_tidy_iff (t : Text) : Enclosed (tidy t) ↔ Enclosed t := by
  have rooted : outside.scan (squeeze ('/' :: t.dropWhile slash)) = outside.scan t := by
    rw [scan_squeeze]
    exact scan_dropWhile (fun _ => slash_free) t
  rw [enclosed_iff_scan, enclosed_iff_scan, tidy]
  split
  · rw [scan_dropEnd fun _ => slash_free, rooted]
  · rw [rooted]

/-- The normal form of a route has its braces around names exactly if the route has. -/
theorem enclosed_normalize_iff (route : Text) : Enclosed (normalize route).template ↔ Enclosed route := by
  rw [normalize, enclosed_tidy_iff, enclosed_iff_scan, scan_pieces, ← enclosed_iff_scan, enclosed_trim_iff]

end EndpointSurvey.Route
