/-
The joints of a composed URL. Its scheme and its authority are those of the base URL, always. Its path is that of the
base URL, the base path and the route with one slash at each joint, and nothing of them is read as a query or a
fragment, exactly if no mark of those is in what was given and nothing else is in the way of the joints: the check of an
environment looks for a query in the base URL alone, and composing drops slashes at the end of the base path, but not in
front of it.

Main statements: `jointPath_eq` (a joined path, part by part), `composed_path_iff` (when a composed path is the joined
one) and `composed_parts_iff` (what composing keeps, and when).
-/
import EndpointSurvey.Proofs.Environment.Outcome
import EndpointSurvey.Proofs.Url.Structure

namespace EndpointSurvey

namespace Text

variable {p : Char → Bool}

theorem dropEnd_of_all {t : Text} (all : ∀ c ∈ t, p c = true) : dropEnd p t = [] :=
  dropEnd_padded (t := []) (by simp) all

theorem dropEnd_append_of_exists {t : Text} (some : ∃ c ∈ t, p c = false) (s : Text) :
    dropEnd p (s ++ t) = s ++ dropEnd p t := by
  have left : (t.reverse.dropWhile p).isEmpty = false := by
    rw [List.isEmpty_eq_false_iff, Ne, List.dropWhile_eq_nil_iff]
    obtain ⟨c, member, other⟩ := some
    exact fun all => by rw [all c (List.mem_reverse.2 member)] at other; cases other
  rw [dropEnd, List.reverse_append, List.dropWhile_append, left, if_neg Bool.false_ne_true, List.reverse_append,
    List.reverse_reverse, dropEnd]

end Text

namespace Environment

/-! ## Joined paths -/

/-- two parts of a path with one slash between them -/
def joint (before after : Text) : Text := Text.dropEnd slash before ++ '/' :: after.dropWhile slash

/-- the path of a base URL, a base path and a route with one slash at each joint -/
def jointPath (path basePath route : Text) : Text := joint (joint path basePath) route

/-- a base path with one slash in front and none at the end -/
def between (basePath : Text) : Text := if basePath.all slash then [] else '/' :: Text.stripBoth slash basePath

theorem eq_slash_iff (c : Char) : slash c = true ↔ c = '/' := beq_iff_eq

theorem eq_slash_of_mem_takeWhile {c : Char} {t : Text} (h : c ∈ t.takeWhile slash) : c = '/' :=
  (eq_slash_iff c).1 (List.mem_takeWhile_imp h)

theorem eq_slash_of_mem_takeEnd {c : Char} {t : Text} (h : c ∈ Text.takeEnd slash t) : c = '/' :=
  (eq_slash_iff c).1 (Text.of_mem_takeEnd h)

/-- A text with another character than slashes has one behind its first slashes. -/
theorem exists_of_not_all {t : Text} (other : t.all slash ≠ true) : ∃ c ∈ t.dropWhile slash, slash c = false := by
  by_contra none
  refine other (List.all_eq_true.2 (List.dropWhile_eq_nil_iff.1 ?_))
  cases left : t.dropWhile slash with
  | nil => rfl
  | cons c cs =>
    have stop := Text.first_dropWhile slash t c (congrArg List.head? left)
    exact absurd ⟨c, left ▸ List.mem_cons_self, stop⟩ none

theorem jointPath_eq (path basePath route : Text) :
    jointPath path basePath route = Text.dropEnd slash path ++ (between basePath ++ '/' :: route.dropWhile slash) := by
  have front : Text.dropEnd slash (joint path basePath) = Text.dropEnd slash path ++ between basePath := by
    unfold joint between
    split
    · next all =>
      have nothing : basePath.dropWhile slash = [] := List.dropWhile_eq_nil_iff.2 (List.all_eq_true.1 all)
      rw [nothing, List.append_nil]
      exact Text.dropEnd_padded (Text.last_dropEnd slash path) (by decide)
    · next other =>
      rw [List.append_cons, Text.dropEnd_append_of_exists (exists_of_not_all other), List.append_assoc]
      rfl
  rw [jointPath, joint, front, List.append_assoc]

example : jointPath "/api/" "//v1/" "/users" = ("/api/v1/users" : Text) := by decide

/-- A base path loses the slashes at its end only: those in front are one too many if there are two. -/
theorem dropEnd_basePath {basePath : Text} (rooted : ∀ c ∈ basePath.head?, c = '/') :
    ∃ extra, (∀ c ∈ extra, c = '/') ∧ Text.dropEnd slash basePath = extra ++ between basePath ∧
      (extra = [] ↔ basePath.all slash = true ∨ ¬ ['/', '/'] <+: basePath) := by
  by_cases all : basePath.all slash = true
  · rw [between, if_pos all]
    exact ⟨[], by simp, Text.dropEnd_of_all (List.all_eq_true.1 all), by simp [all]⟩
  rw [between, if_neg all]
  cases basePath with
  | nil => exact absurd rfl all
  | cons first cs =>
    obtain rfl : first = '/' := rooted first rfl
    have lead : ∀ c ∈ cs.takeWhile slash, c = '/' := fun c member => eq_slash_of_mem_takeWhile member
    have moved : '/' :: cs.takeWhile slash = cs.takeWhile slash ++ ['/'] := by
      rw [List.eq_replicate_of_mem lead, ← List.replicate_succ, List.replicate_succ']
    refine ⟨cs.takeWhile slash, lead, ?_, ?_⟩
    · calc Text.dropEnd slash ('/' :: cs)
          = Text.dropEnd slash ('/' :: cs.takeWhile slash ++ cs.dropWhile slash) := by
            rw [List.cons_append, List.takeWhile_append_dropWhile]
        _ = '/' :: cs.takeWhile slash ++ Text.dropEnd slash (cs.dropWhile slash) :=
            Text.dropEnd_append_of_exists (exists_of_not_all (t := '/' :: cs) all) _
        _ = cs.takeWhile slash ++ '/' :: Text.stripBoth slash ('/' :: cs) := by
            rw [moved, List.append_assoc]
            rfl
    · rw [or_iff_right all, List.prefix_cons_iff]
      cases cs with
      | nil => simp
      | cons c rest =>
        by_cases same : c = '/' <;> simp [slash, same, eq_comm (a := '/')]

/-! ## Composed paths -/

open Url

theorem count_filter_kept (t : Text) : (t.filter kept).count '/' = t.count '/' := List.count_filter rfl

/-- What is left of a path without its parameters and its last slashes was there before the slashes. -/
theorem dropEnd_withoutParameters_front (left : Text) {slashes : Text} (ends : ∀ c ∈ slashes, c = '/') :
    Text.dropEnd slash (withoutParameters (left ++ slashes)) <+: left := by
  have front : Text.dropEnd slash (withoutParameters (left ++ slashes)) <+: left ++ slashes :=
    List.IsPrefix.trans ⟨_, Text.dropEnd_append_takeEnd slash _⟩ (withoutParameters_front (left ++ slashes))
  obtain ⟨after, whole⟩ := front
  rcases List.append_eq_append_iff.1 whole with ⟨more, split, -⟩ | ⟨more, longer, split⟩
  · exact ⟨more, split.symm⟩
  · have none : more = [] := by
      by_contra some
      obtain ⟨c, last⟩ := Option.ne_none_iff_exists'.1 (mt List.getLast?_eq_none_iff.1 some)
      have other : slash c = false := by
        refine Text.last_dropEnd slash (withoutParameters (left ++ slashes)) c ?_
        rw [longer, List.getLast?_append_of_ne_nil _ some]
        exact last
      rw [ends c (split ▸ List.mem_append_left _ (List.mem_of_getLast? last))] at other
      cases other
    rw [longer, none, List.append_nil]

/-- A path of which only the last slashes are dropped has no parameters. -/
theorem not_mem_of_dropEnd_eq {left slashes : Text} (ends : ∀ c ∈ slashes, c = '/')
    (same : Text.dropEnd slash (withoutParameters (left ++ slashes)) = left) :
    ';' ∉ Text.afterLast '/' (left ++ slashes) := by
  refine (withoutParameters_eq_self_iff _).1 ((withoutParameters_front _).eq_of_length ?_)
  have whole := Text.dropEnd_append_takeEnd slash (withoutParameters (left ++ slashes))
  have counted := count_withoutParameters (left ++ slashes)
  have taken : ∀ c ∈ Text.takeEnd slash (withoutParameters (left ++ slashes)), '/' = c := fun c member =>
    (eq_slash_of_mem_takeEnd member).symm
  rw [same] at whole
  rw [← whole, List.count_append, List.count_append, List.count_eq_length.2 taken,
    List.count_eq_length.2 fun c member => (ends c member).symm] at counted
  rw [← whole, List.length_append, List.length_append, Nat.add_left_cancel counted]

/-- Nothing stands before, between or behind what is joined if the joined path comes out: else it would have more
slashes, or less of the other characters. -/
theorem eq_nil_of_joined {more extra mid rest : Text} (extras : ∀ c ∈ extra, c = '/')
    (start : ∀ c ∈ mid.head?, c = '/')
    (same : more ++ ((extra ++ mid).filter kept ++ '/' :: withoutParameters (rest.filter kept)) = mid ++ '/' :: rest) :
    more = [] ∧ extra = [] ∧ (∀ c ∈ mid ++ rest, kept c = true) ∧ withoutParameters rest = rest := by
  have counts := congrArg (List.count '/') same
  simp only [List.count_append, List.count_cons_self, count_withoutParameters, List.filter_append, count_filter_kept,
    List.count_eq_length.2 fun c member => (extras c member).symm] at counts
  have no_extra : extra = [] := List.eq_nil_of_length_eq_zero (by omega)
  have no_slash : more.count '/' = 0 := by omega
  have no_more : more = [] := by
    cases more with
    | nil => rfl
    | cons c cs =>
      have head := congrArg List.head? same
      have first : c = '/' := by
        cases mid with
        | nil => exact Option.some.inj head
        | cons d ds => exact start c head.symm
      rw [first, List.count_cons_self] at no_slash
      cases no_slash
  subst no_more no_extra
  have lengths := congrArg List.length same
  have mid_le := List.length_filter_le kept mid
  have rest_le := List.length_filter_le kept rest
  have cut_le := (withoutParameters_front (rest.filter kept)).length_le
  simp only [List.nil_append, List.length_append, List.length_cons] at lengths
  have mid_eq : mid.filter kept = mid := List.filter_sublist.eq_of_length (by omega)
  have rest_eq : rest.filter kept = rest := List.filter_sublist.eq_of_length (by omega)
  have cut_eq : withoutParameters (rest.filter kept) = rest.filter kept :=
    (withoutParameters_front _).eq_of_length (by omega)
  rw [rest_eq] at cut_eq
  exact ⟨rfl, rfl, List.forall_mem_append.2 ⟨List.filter_eq_self.1 mid_eq, List.filter_eq_self.1 rest_eq⟩, cut_eq⟩

/-- **When a composed path is the joined one.** Behind its authority the base URL has the text `left` and slashes at its
end; the base path is the text `mid` behind slashes that are too many. -/
theorem composed_path_iff {left slashes extra mid rest : Text} (ends : ∀ c ∈ slashes, c = '/')
    (extras : ∀ c ∈ extra, c = '/') (start : ∀ c ∈ mid.head?, c = '/') :
    withoutParameters (left ++ ((extra ++ mid).filter kept ++ '/' :: rest.filter kept)) =
        Text.dropEnd slash (withoutParameters (left ++ slashes)) ++ (mid ++ '/' :: rest) ↔
      (left.getLast? ≠ some '/' ∧ ';' ∉ Text.afterLast '/' (left ++ slashes)) ∧ extra = [] ∧
        (∀ c ∈ mid ++ rest, kept c = true) ∧ ';' ∉ Text.afterLast '/' rest := by
  rw [← List.append_assoc, withoutParameters_append, List.append_assoc, ← withoutParameters_eq_self_iff rest]
  constructor
  · intro same
    obtain ⟨more, split⟩ := dropEnd_withoutParameters_front left ends
    conv at same => lhs; rw [← split, List.append_assoc]
    obtain ⟨rfl, joined⟩ := eq_nil_of_joined extras start (List.append_cancel_left same)
    rw [List.append_nil] at split
    refine ⟨⟨fun last => ?_, not_mem_of_dropEnd_eq ends split⟩, joined⟩
    have other := Text.last_dropEnd slash (withoutParameters (left ++ slashes)) '/' (by rw [split]; exact last)
    cases other
  · rintro ⟨⟨open_end, whole⟩, rfl, read, tail⟩
    obtain ⟨mid_read, rest_read⟩ := List.forall_mem_append.1 read
    have base : Text.dropEnd slash (withoutParameters (left ++ slashes)) = left := by
      rw [(withoutParameters_eq_self_iff _).2 whole]
      refine Text.dropEnd_padded (fun c last => ?_) fun c member => (eq_slash_iff c).2 (ends c member)
      refine Bool.eq_false_iff.2 fun same => open_end ?_
      rw [← (eq_slash_iff c).1 same]
      exact last
    rw [base, List.nil_append, List.filter_eq_self.2 mid_read, List.filter_eq_self.2 rest_read, tail]

/-! ## Characters at the joints -/

theorem composeUrl_eq (e : Environment) {route : Text} (other : route.all slash ≠ true) :
    e.composeUrl route = Text.dropEnd slash e.baseUrl ++
      (Text.dropEnd slash e.basePath ++ '/' :: route.dropWhile slash) := by
  unfold composeUrl
  simp only [Bool.not_eq_true] at other
  simp only [other, Bool.not_false, if_true, List.append_assoc]

theorem mem_dropEnd_iff {c : Char} (other : c ≠ '/') (t : Text) : c ∈ Text.dropEnd slash t ↔ c ∈ t := by
  conv_rhs => rw [← Text.dropEnd_append_takeEnd slash t, List.mem_append]
  exact (or_iff_left fun member => other (eq_slash_of_mem_takeEnd member)).symm

/-- Slashes are read, so it does not matter whether they are dropped first. -/
theorem forall_kept_dropEnd_iff (t : Text) : (∀ c ∈ Text.dropEnd slash t, kept c = true) ↔ ∀ c ∈ t, kept c = true := by
  refine forall_congr' fun c => ?_
  by_cases same : c = '/'
  · rw [same]
    exact iff_of_true (fun _ => rfl) (fun _ => rfl)
  · rw [mem_dropEnd_iff same]

theorem forall_kept_dropWhile_iff (t : Text) :
    (∀ c ∈ t.dropWhile slash, kept c = true) ↔ ∀ c ∈ t, kept c = true := by
  refine ⟨fun read c member => ?_, fun read c member => read c ((List.dropWhile_suffix _).subset member)⟩
  rw [← List.takeWhile_append_dropWhile (p := slash) (l := t)] at member
  rcases List.mem_append.1 member with lead | rest
  · rw [eq_slash_of_mem_takeWhile lead]
    rfl
  · exact read c rest

theorem afterLast_dropWhile (t : Text) : Text.afterLast '/' (t.dropWhile slash) = Text.afterLast '/' t := by
  induction t with
  | nil => rfl
  | cons c cs ih =>
    by_cases same : c = '/'
    · rw [same, List.dropWhile_cons_of_pos rfl, ih]
      exact (afterLast_append [] cs).symm
    · rw [List.dropWhile_cons_of_neg (by simpa [slash] using same)]

theorem head?_between (basePath : Text) : ∀ c ∈ (between basePath).head?, c = '/' := by
  unfold between
  split <;> simp

end Environment

namespace EnvironmentDraft

open Environment Url

/-! ## How a URL is put together -/

/-- the pieces that the URLs of a draft are put together of: what the base URL leaves between its authority and the
slashes at its end, and the slashes that are too many in front of the base path -/
structure Pieces (d : EnvironmentDraft) where
  front : Front
  left : Text
  slashes : Text
  extra : Text
  schemed : parameterSchemes.contains (front.scheme.map Char.toLower) = true
  read : cleaned d.baseUrl = front.text ++ (left ++ slashes)
  follows : Tail (left ++ slashes)
  extended : ∀ t, cleaned (Text.dropEnd slash d.baseUrl ++ t) = front.text ++ (left ++ t.filter kept)
  ends : ∀ c ∈ slashes, c = '/'
  dropped : Text.dropEnd slash d.basePath = extra ++ between d.basePath
  extras : ∀ c ∈ extra, c = '/'
  single : extra = [] ↔ d.basePath.all slash = true ∨ ¬ ['/', '/'] <+: d.basePath

variable {d : EnvironmentDraft} {e : Environment} {route : Text}

theorem validate_eq_ok (valid : d.validate = .ok e) : ∃ parts, Parts.ofText? d.baseUrl = .ok parts ∧
    (parts.scheme = ("http" : Text) ∨ parts.scheme = ("https" : Text)) ∧ parts.authority ≠ [] ∧
      (∀ c ∈ d.basePath.head?, c = '/') ∧ e.baseUrl = d.baseUrl ∧ e.basePath = d.basePath := by
  unfold validate at valid
  simp only [unless_eq_ok_iff, bind_eq_ok_iff, mapError_eq_ok_iff] at valid
  obtain ⟨-, parts, split, address, -, rooted, headers, -, same⟩ := valid
  cases same
  rw [not_or] at address
  refine ⟨parts, split, ?_, by simpa using address.2, fun c first => ?_, rfl, rfl⟩
  · by_contra other
    exact address.1 (not_or.1 other)
  · by_contra other
    have inhabited : d.basePath ≠ [] := fun none => by rw [none] at first; cases first
    exact rooted (by simp [inhabited, Option.mem_def.1 first, other])

/-- The URLs of an environment are put together of such pieces. -/
theorem exists_pieces (valid : d.validate = .ok e) : Nonempty d.Pieces := by
  obtain ⟨parts, split, schemed, placed, rooted, -, -⟩ := validate_eq_ok valid
  have scheme_ne_nil : parts.scheme ≠ [] := by rcases schemed with scheme | scheme <;> rw [scheme] <;> decide
  obtain ⟨f, tail, read, follows, rfl⟩ := Front.exists_of_ofText? split scheme_ne_nil placed
  have ends : ∀ c ∈ Text.takeEnd slash d.baseUrl, c = '/' := fun c member => eq_slash_of_mem_takeEnd member
  have halves : Text.dropEnd slash d.baseUrl ++ Text.takeEnd slash d.baseUrl = d.baseUrl :=
    Text.dropEnd_append_takeEnd slash d.baseUrl
  obtain ⟨left, rfl, extended⟩ := f.extend (by rwa [halves]) ends
  obtain ⟨extra, extras, dropped, single⟩ := dropEnd_basePath rooted
  have with_parameters : parameterSchemes.contains (f.scheme.map Char.toLower) = true := by
    show parameterSchemes.contains (f.parts (left ++ Text.takeEnd slash d.baseUrl)).scheme = true
    rcases schemed with scheme | scheme <;> rw [scheme] <;> decide
  exact ⟨⟨f, left, Text.takeEnd slash d.baseUrl, extra, with_parameters, read, follows, extended, ends, dropped, extras,
    single⟩⟩

namespace Pieces

variable (p : d.Pieces)

/-- what follows the authority of the URL of a route -/
def behind (route : Text) : Text :=
  p.left ++ ((p.extra ++ between d.basePath).filter kept ++ '/' :: (route.dropWhile slash).filter kept)

theorem cleaned_composeUrl (valid : d.validate = .ok e) (other : route.all slash ≠ true) :
    cleaned (e.composeUrl route) = p.front.text ++ p.behind route := by
  obtain ⟨-, -, -, -, -, base_eq, path_eq⟩ := validate_eq_ok valid
  rw [composeUrl_eq e other, base_eq, path_eq, p.extended, p.dropped, List.filter_append]
  rfl

theorem tail_behind (route : Text) : Tail (p.behind route) := by
  have extra : Tail (p.extra.filter kept) := .of_slash fun c first => p.extras c (List.mem_of_mem_head? first)
  have mid : Tail ((between d.basePath).filter kept) := .of_slash (head?_between d.basePath)
  have rest : Tail (('/' :: route.dropWhile slash).filter kept) := .of_slash fun c first => (Option.some.inj first).symm
  rw [behind, List.filter_append]
  exact p.follows.of_append.append ((extra.append mid).append rest)

/-- A route without marks ends without one. -/
theorem last_behind (plain : ∀ c ∈ route, c ∉ marks) : ∀ c ∈ (p.behind route).getLast?, c ∉ marks := by
  intro c last
  have member : c ∈ '/' :: (route.dropWhile slash).filter kept := by
    rw [behind, ← List.append_assoc, List.getLast?_append_of_ne_nil _ (List.cons_ne_nil _ _)] at last
    exact List.mem_of_getLast? last
  rcases List.mem_cons.1 member with rfl | member
  · decide
  · exact plain c ((List.dropWhile_suffix _).subset (List.mem_filter.1 member).1)

/-- A mark in a composed URL comes from what stands in front of the route. -/
theorem unmarked_behind_iff (plain : ∀ c ∈ route, c ∉ marks) :
    (∀ c ∈ p.behind route, c ∉ marks) ↔ ∀ c ∈ d.baseUrl ++ d.basePath, c ∉ marks := by
  refine forall_congr' fun c => ?_
  by_cases mark : c ∈ marks
  · have seen : controlOrSpace c = false ∧ kept c = true ∧ c ≠ '/' := by
      simp only [marks, List.mem_cons, List.not_mem_nil, or_false] at mark
      rcases mark with rfl | rfl <;> decide
    obtain ⟨visible, kept_mark, different⟩ := seen
    have not_front : c ∉ p.front.text := fun member => p.front.not_mark_of_mem_text c member mark
    have not_end : c ∉ p.slashes := fun member => different (p.ends c member)
    have not_route : c ∉ route.dropWhile slash := fun member => plain c ((List.dropWhile_suffix _).subset member) mark
    have from_base : c ∈ d.baseUrl ↔ c ∈ p.left := by
      rw [← mem_cleaned_iff visible, p.read, List.mem_append, List.mem_append, or_iff_right not_front,
        or_iff_left not_end]
    have from_path : c ∈ d.basePath ↔ c ∈ p.extra ++ between d.basePath := by
      rw [← p.dropped, mem_dropEnd_iff different]
    simp only [behind, List.mem_append (t := d.basePath), from_base, from_path, List.mem_append, List.mem_cons,
      List.mem_filter, kept_mark, not_route, different, and_true, or_false]
  · exact iff_of_true (fun _ => mark) (fun _ => mark)

theorem kept_iff (p : d.Pieces) (route : Text) : (∀ c ∈ between d.basePath ++ route.dropWhile slash, kept c = true) ↔
    ∀ c ∈ d.basePath ++ route, kept c = true := by
  have extra : ∀ c ∈ p.extra, kept c = true := fun c member => by rw [p.extras c member]; rfl
  rw [List.forall_mem_append, List.forall_mem_append, forall_kept_dropWhile_iff, ← forall_kept_dropEnd_iff d.basePath,
    p.dropped, List.forall_mem_append, and_iff_right extra]

theorem closed_iff : p.left.getLast? = some '/' ↔ (cleaned (Text.dropEnd slash d.baseUrl)).getLast? = some '/' := by
  have read := p.extended []
  rw [List.append_nil, List.filter_nil, List.append_nil] at read
  rw [read]
  by_cases none : p.left = []
  · rw [none, List.append_nil]
    exact iff_of_false (by simp) fun last => p.front.getLast?_text '/' last rfl
  · rw [List.getLast?_append_of_ne_nil _ none]

/-- Without marks it depends on slashes, line breaks and semicolons whether a composed path is the joined one. -/
theorem barePath_iff (plain : ∀ c ∈ route, c ∉ marks) (unmarked : ∀ c ∈ d.baseUrl ++ d.basePath, c ∉ marks) :
    (p.front.parts (p.behind route)).barePath =
        jointPath (p.front.parts (p.left ++ p.slashes)).barePath d.basePath route ↔
      ((cleaned (Text.dropEnd slash d.baseUrl)).getLast? ≠ some '/' ∧
        ';' ∉ Text.afterLast '/' (p.front.parts (p.left ++ p.slashes)).path) ∧
      (d.basePath.all slash = true ∨ ¬ ['/', '/'] <+: d.basePath) ∧
      (∀ c ∈ d.basePath ++ route, kept c = true) ∧ ';' ∉ Text.afterLast '/' route := by
  have base_unmarked : ∀ c ∈ p.left ++ p.slashes, c ∉ marks := fun c member mark => by
    rcases List.mem_append.1 member with left | slash
    · exact (p.unmarked_behind_iff plain).2 unmarked c (List.mem_append_left _ left) mark
    · rw [p.ends c slash] at mark
      revert mark
      decide
  have behind_path := p.front.parts_of_unmarked ((p.unmarked_behind_iff plain).2 unmarked)
  have base_path := p.front.parts_of_unmarked base_unmarked
  rw [behind_path, base_path, jointPath_eq]
  simp only [Parts.barePath, p.schemed, if_true]
  rw [behind, composed_path_iff p.ends p.extras (head?_between d.basePath), p.single, p.kept_iff, afterLast_dropWhile,
    Ne, p.closed_iff]

end Pieces

/-- what a draft and a route must be for the parts of a composed URL to be those that were given -/
structure KeepsParts (d : EnvironmentDraft) (base : Parts) (route : Text) : Prop where
  /-- no query and no fragment is opened -/
  unmarked : ∀ c ∈ d.baseUrl ++ d.basePath, c ∉ marks
  /-- nothing is left out when the URL is read -/
  read : ∀ c ∈ d.basePath ++ route, kept c = true
  /-- a base path has one slash in front -/
  single : d.basePath.all slash = true ∨ ¬ ['/', '/'] <+: d.basePath
  /-- no line break keeps a slash at the end of the base URL -/
  closed : (cleaned (Text.dropEnd slash d.baseUrl)).getLast? ≠ some '/'
  /-- no parameters are written at the end of a path -/
  bare : ';' ∉ Text.afterLast '/' base.path ∧ ';' ∉ Text.afterLast '/' route

/-- **What composing keeps.** Base URL and composed URL have the same scheme and the same authority. The composed one
has no query and no fragment, and the path of the base URL, the base path and the route with one slash at each joint,
exactly if no mark of a query or a fragment is in the base URL or the base path, no tab or line break in the base path
or the route, no second slash in front of the base path, no slash in front of line breaks at the end of the base URL,
and no semicolon in the last segment of its path or of the route. -/
theorem composed_parts_iff (valid : d.validate = .ok e) (other : ∃ c ∈ route, c ≠ '/')
    (plain : ∀ c ∈ route, c ∉ marks) :
    ∃ base url composed, Parts.ofText? d.baseUrl = .ok base ∧ d.url? route = .ok url ∧
      Parts.ofText? url = .ok composed ∧ composed.scheme = base.scheme ∧ composed.authority = base.authority ∧
      (composed.query = [] ∧ composed.fragment = [] ∧
          composed.barePath = jointPath base.barePath d.basePath route ↔ d.KeepsParts base route) := by
  obtain ⟨p⟩ := exists_pieces valid
  have not_all : route.all slash ≠ true := fun all => by
    obtain ⟨c, member, different⟩ := other
    exact different ((eq_slash_iff c).1 (List.all_eq_true.1 all c member))
  refine ⟨p.front.parts (p.left ++ p.slashes), e.composeUrl route, p.front.parts (p.behind route),
    p.front.ofText? p.read p.follows, by rw [url?, valid, Except.map],
    p.front.ofText? (p.cleaned_composeUrl valid not_all) (p.tail_behind route), rfl, rfl, ?_⟩
  rw [← and_assoc, Front.unmarked_iff (p.last_behind plain), p.unmarked_behind_iff plain]
  constructor
  · rintro ⟨unmarked, path⟩
    obtain ⟨⟨closed, bare_base⟩, single, read, bare⟩ := (p.barePath_iff plain unmarked).1 path
    exact ⟨unmarked, read, single, closed, bare_base, bare⟩
  · intro keeps
    exact ⟨keeps.unmarked, (p.barePath_iff plain keeps.unmarked).2
      ⟨⟨keeps.closed, keeps.bare.1⟩, keeps.single, keeps.read, keeps.bare.2⟩⟩

/-- an environment whose base path has two slashes in front -/
def doubled : EnvironmentDraft := ⟨"dev", "http://h", "//v1", []⟩

/-- The theorem where the composed path has a second slash at the first joint. -/
theorem composed_parts_iff_doubled :
    doubled.url? "/users" = .ok "http://h//v1/users".toList ∧
      jointPath [] doubled.basePath "/users" = ("/v1/users" : Text) ∧
      ∃ base composed, Parts.ofText? doubled.baseUrl = .ok base ∧
        Parts.ofText? "http://h//v1/users" = .ok composed ∧ composed.scheme = base.scheme ∧
        composed.authority = base.authority ∧ ¬ (composed.query = [] ∧ composed.fragment = [] ∧
          composed.barePath = jointPath base.barePath doubled.basePath "/users") := by
  have valid : doubled.validate = .ok ⟨"dev", "http://h", "//v1", []⟩ := by decide
  refine ⟨by decide, by decide, ?_⟩
  have plain : ∀ c ∈ ("/users" : Text), c ∉ marks := by decide
  obtain ⟨base, url, composed, read_base, made, read, scheme, authority, keeps⟩ :=
    composed_parts_iff valid ⟨'u', by decide, by decide⟩ plain
  obtain rfl : "http://h//v1/users".toList = url := by
    have same : doubled.url? "/users" = .ok "http://h//v1/users".toList := by decide
    exact Except.ok.inj (same.symm.trans made)
  refine ⟨base, composed, read_base, read, scheme, authority, fun parts => ?_⟩
  have single := (keeps.1 parts).single
  revert single
  decide

end EnvironmentDraft

end EndpointSurvey
