/-
URLs with a scheme and an authority. What follows the authority is a path, and a query and a fragment if it has their
marks; the last segment of the path may carry parameters. A URL that is put together of another one and more text keeps
the scheme and the authority, whatever the text is.

Main statements:
- `Front.ofText?` and `Front.exists_of_ofText?`: the URLs with a scheme and an authority, and their parts;
- `Front.extend`: text behind such a URL follows its authority;
- `Front.unmarked_iff`: neither a query nor a fragment is left without a mark, nor the other way round;
- `withoutParameters_append`: the parameters of a path are those of its last segment.
-/
import EndpointSurvey.Proofs.Text.Spacing
import EndpointSurvey.Url.Parts

namespace EndpointSurvey.Url

/-! ## The text that is read -/

/-- a character that is read: neither a tab nor a line break -/
def kept (c : Char) : Bool := c != '\t' && c != '\r' && c != '\n'

/-- a URL as it is read -/
def cleaned (t : Text) : Text := (t.dropWhile controlOrSpace).filter kept

/-- the marks of a query and of a fragment -/
def marks : List Char := ['?', '#']

theorem cleaned_append {t : Text} (started : ∃ c ∈ t, controlOrSpace c = false) (s : Text) :
    cleaned (t ++ s) = cleaned t ++ s.filter kept := by
  have left : (t.dropWhile controlOrSpace).isEmpty = false := by
    rw [List.isEmpty_eq_false_iff, Ne, List.dropWhile_eq_nil_iff]
    obtain ⟨c, member, visible⟩ := started
    exact fun all => by rw [all c member] at visible; cases visible
  unfold cleaned
  rw [List.dropWhile_append, left, if_neg Bool.false_ne_true, List.filter_append]

theorem cleaned_of_control {t : Text} (all : ∀ c ∈ t, controlOrSpace c = true) (s : Text) :
    cleaned (t ++ s) = cleaned s := by
  unfold cleaned
  rw [List.dropWhile_append_of_pos all]

/-- Nothing that is visible gets lost. -/
theorem mem_cleaned_iff {c : Char} (visible : controlOrSpace c = false) (t : Text) : c ∈ cleaned t ↔ c ∈ t := by
  have read : kept c = true := by
    unfold kept
    rw [Bool.and_eq_true, Bool.and_eq_true, bne_iff_ne, bne_iff_ne, bne_iff_ne]
    refine ⟨⟨?_, ?_⟩, ?_⟩ <;>
    · rintro rfl
      cases visible
  have skipped : c ∉ t.takeWhile controlOrSpace := fun member => by
    rw [show controlOrSpace c = true from List.mem_takeWhile_imp member] at visible
    cases visible
  rw [cleaned, List.mem_filter]
  conv_rhs => rw [← List.takeWhile_append_dropWhile (p := controlOrSpace) (l := t), List.mem_append]
  exact ⟨fun h => .inr h.1, fun h => ⟨h.resolve_left skipped, read⟩⟩

/-! ## Cuts -/

theorem cutAt_of_not_mem {mark : Char} {t : Text} (absent : mark ∉ t) : cutAt mark t = (t, []) := by
  have whole : Text.beforeFirst mark t = t :=
    List.takeWhile_eq_self_iff.2 fun c member => bne_iff_ne.2 fun same => absent (same ▸ member)
  unfold cutAt
  dsimp only
  rw [whole, List.drop_of_length_le (Nat.le_succ _)]

theorem cutAt_append {mark : Char} {before : Text} (absent : mark ∉ before) (rest : Text) :
    cutAt mark (before ++ mark :: rest) = (before, rest) := by
  have first : Text.beforeFirst mark (before ++ mark :: rest) = before :=
    Text.takeWhile_padded (fun c member => bne_iff_ne.2 fun same => absent (same ▸ member)) (by simp)
  unfold cutAt
  dsimp only
  rw [first, ← List.drop_drop, List.drop_left]
  rfl

/-- A text is cut at its first mark, if it has one. -/
theorem cutAt_cases (mark : Char) (t : Text) : (mark ∉ t ∧ cutAt mark t = (t, [])) ∨
    ∃ before rest, t = before ++ mark :: rest ∧ mark ∉ before ∧ cutAt mark t = (before, rest) := by
  by_cases member : mark ∈ t
  · obtain ⟨before, rest, rfl, absent⟩ := List.eq_append_cons_of_mem member
    exact .inr ⟨before, rest, rfl, absent, cutAt_append absent rest⟩
  · exact .inl ⟨member, cutAt_of_not_mem member⟩

/-! ## Scheme and authority -/

/-- the parts of a URL in which a text follows the authority -/
def Parts.ofTail (scheme authority tail : Text) : Parts :=
  let (beforeFragment, fragment) := cutAt '#' tail
  let (path, query) := cutAt '?' beforeFragment
  ⟨scheme, authority, path, query, fragment⟩

theorem Parts.ofText?_of_split {t scheme afterScheme authority tail : Text}
    (schemes : splitScheme (cleaned t) = (scheme, afterScheme))
    (authorities : splitAuthority afterScheme = (authority, tail)) :
    Parts.ofText? t = match faultOf? authority with
      | some fault => .error fault
      | none => .ok (Parts.ofTail scheme authority tail) := by
  have read : splitScheme ((t.dropWhile controlOrSpace).filter fun c => c != '\t' && c != '\r' && c != '\n') =
      (scheme, afterScheme) := schemes
  unfold Parts.ofText?
  simp only [read, authorities]
  rfl

/-- a scheme as it is written, and an authority without fault -/
structure Front where
  scheme : Text
  authority : Text
  schemeStart : ∃ c ∈ scheme.head?, c.isAlpha = true
  schemeChars : ∀ c ∈ scheme, schemeChar c = true
  authority_ne_nil : authority ≠ []
  authorityChars : ∀ c ∈ authority, c ≠ '/' ∧ c ∉ marks
  sound : faultOf? authority = none

/-- what may follow an authority -/
def Tail (t : Text) : Prop := ∀ c ∈ t.head?, c = '/' ∨ c ∈ marks

theorem Tail.append {s t : Text} (hs : Tail s) (ht : Tail t) : Tail (s ++ t) := by
  cases s with
  | nil => exact ht
  | cons c cs => exact hs

theorem Tail.of_append {s t : Text} (h : Tail (s ++ t)) : Tail s := by
  cases s with
  | nil => exact fun c first => nomatch first
  | cons c cs => exact h

/-- A text that starts with a slash still does when it has been read. -/
theorem Tail.of_slash {t : Text} (start : ∀ c ∈ t.head?, c = '/') : Tail (t.filter kept) := by
  cases t with
  | nil => exact fun c first => nomatch first
  | cons c cs =>
    obtain rfl : c = '/' := start c rfl
    exact fun d first => .inl (Option.some.inj first).symm

namespace Front

variable {f : Front} {t tail : Text}

def text (f : Front) : Text := f.scheme ++ ':' :: '/' :: '/' :: f.authority

/-- the parts of a URL in which a text follows the authority -/
def parts (f : Front) (tail : Text) : Parts := Parts.ofTail (f.scheme.map Char.toLower) f.authority tail

theorem getLast?_text (f : Front) : ∀ c ∈ f.text.getLast?, c ≠ '/' := by
  intro c last
  rw [text, ← List.singleton_append, ← List.append_assoc, List.append_cons, List.append_cons,
    List.getLast?_append_of_ne_nil _ f.authority_ne_nil] at last
  exact (f.authorityChars c (List.mem_of_getLast? last)).1

theorem not_mark_of_mem_text (f : Front) : ∀ c ∈ f.text, c ∉ marks := by
  have scheme : ∀ c ∈ f.scheme, c ∉ marks := fun c member written => by
    have char := f.schemeChars c member
    simp only [marks, List.mem_cons, List.not_mem_nil, or_false] at written
    rcases written with rfl | rfl <;> revert char <;> decide
  unfold text
  simp only [List.forall_mem_append, List.forall_mem_cons]
  exact ⟨scheme, by decide, by decide, by decide, fun c member => (f.authorityChars c member).2⟩

theorem splitScheme_text (f : Front) (tail : Text) :
    splitScheme (f.text ++ tail) = (f.scheme.map Char.toLower, '/' :: '/' :: f.authority ++ tail) := by
  have start : Text.beforeFirst ':' (f.text ++ tail) = f.scheme := by
    unfold Text.beforeFirst text
    rw [List.append_assoc, List.cons_append, Text.takeWhile_append_stop (by decide), List.takeWhile_eq_self_iff]
    intro c member
    have char := f.schemeChars c member
    rw [bne_iff_ne]
    rintro rfl
    revert char
    decide
  obtain ⟨c, first, letter⟩ := f.schemeStart
  have alpha : f.scheme.head?.any Char.isAlpha = true := by
    rw [Option.mem_def.1 first]
    exact letter
  have chars : f.scheme.all schemeChar = true := List.all_eq_true.2 f.schemeChars
  have inside : f.scheme.length < (f.text ++ tail).length := by
    simp only [text, List.length_append, List.length_cons]
    omega
  have rest : (f.text ++ tail).drop (f.scheme.length + 1) = '/' :: '/' :: f.authority ++ tail := by
    rw [text, List.append_assoc, ← List.drop_drop, List.drop_left]
    rfl
  unfold splitScheme
  simp only [start, alpha, chars, inside, decide_true, Bool.and_self, if_true, rest]

theorem splitAuthority_text (f : Front) (h : Tail tail) :
    splitAuthority ('/' :: '/' :: f.authority ++ tail) = (f.authority, tail) := by
  have inside : ∀ c ∈ f.authority, (c != '/' && c != '?' && c != '#') = true := fun c member => by
    obtain ⟨slash, mark⟩ := f.authorityChars c member
    simpa [marks, slash] using mark
  have stop : ∀ c ∈ tail.head?, (c != '/' && c != '?' && c != '#') = false := fun c first => by
    rcases h c first with rfl | mark
    · rfl
    · simp only [marks, List.mem_cons, List.not_mem_nil, or_false] at mark
      rcases mark with rfl | rfl <;> rfl
  show (List.takeWhile _ (f.authority ++ tail), List.dropWhile _ (f.authority ++ tail)) = _
  rw [Text.takeWhile_padded inside stop, Text.dropWhile_padded inside stop]

/-- **The parts of a URL** with a scheme and an authority. -/
theorem ofText? (f : Front) (read : cleaned t = f.text ++ tail) (h : Tail tail) :
    Parts.ofText? t = .ok (f.parts tail) := by
  have schemes := splitScheme_text f tail
  rw [← read] at schemes
  rw [Parts.ofText?_of_split schemes (splitAuthority_text f h), f.sound]
  rfl

end Front

theorem exists_scheme {t scheme rest : Text} (split : splitScheme t = (scheme, rest)) (schemed : scheme ≠ []) :
    ∃ written, scheme = written.map Char.toLower ∧ t = written ++ ':' :: rest ∧
      (∃ c ∈ written.head?, c.isAlpha = true) ∧ ∀ c ∈ written, schemeChar c = true := by
  unfold splitScheme at split
  dsimp only at split
  split at split
  · next found =>
    simp only [Bool.and_eq_true, decide_eq_true_eq] at found
    obtain ⟨⟨inside, alpha⟩, chars⟩ := found
    obtain ⟨c, first, letter⟩ := (Option.any_eq_true ..).1 alpha
    have cut : (Text.beforeFirst ':' t, rest) = cutAt ':' t := congrArg _ (Prod.mk.inj split).2.symm
    rcases cutAt_cases ':' t with ⟨-, whole⟩ | ⟨before, after, place, -, parts⟩
    · rw [(Prod.mk.inj (cut.trans whole)).1] at inside
      exact absurd inside (Nat.lt_irrefl _)
    · obtain ⟨same, rfl⟩ := Prod.mk.inj (cut.trans parts)
      rw [same] at first chars split
      exact ⟨before, (Prod.mk.inj split).1.symm, place, ⟨c, first, letter⟩, List.all_eq_true.1 chars⟩
  · cases split
    exact absurd rfl schemed

theorem exists_authority {t authority rest : Text} (split : splitAuthority t = (authority, rest))
    (placed : authority ≠ []) :
    t = '/' :: '/' :: authority ++ rest ∧ (∀ c ∈ authority, c ≠ '/' ∧ c ∉ marks) ∧ Tail rest := by
  unfold splitAuthority at split
  split at split
  · next u =>
    obtain ⟨rfl, rfl⟩ := Prod.mk.inj split
    refine ⟨congrArg _ (congrArg _ List.takeWhile_append_dropWhile.symm), fun c member => ?_, fun c first => ?_⟩
    · have inside := List.mem_takeWhile_imp member
      simpa [marks, and_assoc] using inside
    · have stop := Text.first_dropWhile (fun c => c != '/' && c != '?' && c != '#') u c first
      by_cases slash : c = '/'
      · exact .inl slash
      · exact .inr (by simpa [marks, slash, or_iff_not_imp_left] using stop)
  · cases split
    exact absurd rfl placed

/-- Every URL with a scheme and an authority is one with a front. -/
theorem Front.exists_of_ofText? {t : Text} {parts : Parts} (split : Parts.ofText? t = .ok parts)
    (schemed : parts.scheme ≠ []) (placed : parts.authority ≠ []) :
    ∃ (f : Front) (tail : Text), cleaned t = f.text ++ tail ∧ Tail tail ∧ parts = f.parts tail := by
  cases schemes : splitScheme (cleaned t) with | mk scheme afterScheme
  cases authorities : splitAuthority afterScheme with | mk authority tail
  rw [Parts.ofText?_of_split schemes authorities] at split
  split at split
  · cases split
  · next sound =>
    cases split
    obtain ⟨written, rfl, whole, start, chars⟩ := exists_scheme schemes schemed
    obtain ⟨rfl, bare, after⟩ := exists_authority authorities placed
    refine ⟨⟨written, authority, start, chars, placed, bare, sound⟩, tail, ?_, after, rfl⟩
    rw [whole, Front.text, List.append_assoc]
    rfl

/-! ## Text behind a URL -/

namespace Front

variable {f : Front} {tail : Text}

/-- **Text behind a URL without its last slashes** follows the authority, after what is left there. -/
theorem extend {t slashes : Text} (read : cleaned (t ++ slashes) = f.text ++ tail)
    (all : ∀ c ∈ slashes, c = '/') :
    ∃ left, tail = left ++ slashes ∧ ∀ s, cleaned (t ++ s) = f.text ++ (left ++ s.filter kept) := by
  have slashes_kept : slashes.filter kept = slashes :=
    List.filter_eq_self.2 fun c member => by rw [all c member]; rfl
  have started : ∃ c ∈ t, controlOrSpace c = false := by
    -- a text of slashes only has no scheme
    by_contra blank
    have control : ∀ c ∈ t, controlOrSpace c = true := fun c member => by
      by_contra visible
      exact blank ⟨c, member, by simpa using visible⟩
    obtain ⟨c, first, letter⟩ := f.schemeStart
    have scheme_member : c ∈ cleaned (t ++ slashes) := by
      rw [read, text]
      exact List.mem_append_left _ (List.mem_append_left _ (List.mem_of_mem_head? first))
    rw [cleaned_of_control control] at scheme_member
    have slash := all c ((List.dropWhile_suffix _).subset (List.mem_filter.1 scheme_member).1)
    rw [slash] at letter
    cases letter
  have whole : cleaned t ++ slashes = f.text ++ tail := by rw [← read, cleaned_append started, slashes_kept]
  have left : ∃ left, cleaned t = f.text ++ left ∧ tail = left ++ slashes := by
    rcases List.append_eq_append_iff.1 whole with ⟨extra, front, rest⟩ | found
    · -- the authority does not end in a slash
      have none : extra = [] := by
        by_contra some
        obtain ⟨c, last⟩ := Option.ne_none_iff_exists'.1 (mt List.getLast?_eq_none_iff.1 some)
        have member : c ∈ slashes := rest ▸ List.mem_append_left _ (List.mem_of_getLast? last)
        refine f.getLast?_text c ?_ (all c member)
        rw [front, List.getLast?_append_of_ne_nil _ some]
        exact last
      subst none
      exact ⟨[], by rw [front, List.append_nil, List.append_nil], by rw [rest]; rfl⟩
    · exact found
  obtain ⟨left, front, rest⟩ := left
  exact ⟨left, rest, fun s => by rw [cleaned_append started, front, List.append_assoc]⟩

theorem parts_of_unmarked (unmarked : ∀ c ∈ tail, c ∉ marks) :
    f.parts tail = ⟨f.scheme.map Char.toLower, f.authority, tail, [], []⟩ := by
  have fragment : '#' ∉ tail := fun member => unmarked '#' member (by decide)
  have query : '?' ∉ tail := fun member => unmarked '?' member (by decide)
  simp only [parts, Parts.ofTail, cutAt_of_not_mem fragment, cutAt_of_not_mem query]

/-- Where there is neither a query nor a fragment, there is no mark of one, unless it is the last character. -/
theorem unmarked_iff (last : ∀ c ∈ tail.getLast?, c ∉ marks) :
    ((f.parts tail).query = [] ∧ (f.parts tail).fragment = []) ↔ ∀ c ∈ tail, c ∉ marks := by
  constructor
  · rintro ⟨query, fragment⟩
    simp only [parts, Parts.ofTail] at query fragment
    have not_last : ∀ mark ∈ marks, ∀ before, tail ≠ before ++ [mark] := fun mark written before same =>
      last mark (by rw [same]; exact List.getLast?_concat) written
    rcases cutAt_cases '#' tail with ⟨no_fragment, whole⟩ | ⟨before, rest, place, -, cut⟩
    · rw [whole] at query
      rcases cutAt_cases '?' tail with ⟨no_query, -⟩ | ⟨before, rest, place, -, cut⟩
      · intro c member written
        simp only [marks, List.mem_cons, List.not_mem_nil, or_false] at written
        rcases written with rfl | rfl
        · exact no_query member
        · exact no_fragment member
      · rw [cut] at query
        obtain rfl : rest = [] := query
        exact absurd place (not_last '?' (by decide) before)
    · rw [cut] at fragment
      obtain rfl : rest = [] := fragment
      exact absurd place (not_last '#' (by decide) before)
  · intro unmarked
    rw [parts_of_unmarked unmarked]
    exact ⟨rfl, rfl⟩

end Front

/-! ## Parameters -/

/-- the schemes whose paths may carry parameters in their last segment -/
def parameterSchemes : List Text :=
  ["", "ftp", "hdl", "prospero", "http", "https", "shttp", "rtsp", "rtspu", "sip", "sips", "mms", "sftp", "tel"]

/-- a path without the parameters of its last segment -/
def withoutParameters (path : Text) : Text :=
  Text.dropEnd (· != '/') path ++ Text.beforeFirst ';' (Text.afterLast '/' path)

/-- the path of a URL, its parameters apart -/
def Parts.barePath (parts : Parts) : Text :=
  if parameterSchemes.contains parts.scheme then withoutParameters parts.path else parts.path

theorem afterLast_append (before rest : Text) :
    Text.afterLast '/' (before ++ '/' :: rest) = Text.afterLast '/' rest := by
  unfold Text.afterLast Text.takeEnd
  rw [List.reverse_append, List.reverse_cons, List.append_assoc, List.singleton_append,
    Text.takeWhile_append_stop (by decide)]

/-- The parameters of a path are those of its last segment. -/
theorem withoutParameters_append (before rest : Text) :
    withoutParameters (before ++ '/' :: rest) = before ++ '/' :: withoutParameters rest := by
  have front : Text.dropEnd (· != '/') (before ++ '/' :: rest) = before ++ '/' :: Text.dropEnd (· != '/') rest := by
    unfold Text.dropEnd
    rw [List.reverse_append, List.reverse_cons, List.append_assoc, List.singleton_append,
      Text.dropWhile_append_stop (by decide), List.reverse_append, List.reverse_cons, List.reverse_reverse,
      List.append_assoc, List.singleton_append]
  rw [withoutParameters, front, afterLast_append, withoutParameters, List.append_assoc, List.cons_append]

theorem withoutParameters_front (path : Text) : withoutParameters path <+: path := by
  have cut := (List.prefix_append_right_inj (Text.dropEnd (· != '/') path)).2
    (List.takeWhile_prefix (l := Text.afterLast '/' path) (· != ';'))
  rwa [show Text.dropEnd (· != '/') path ++ Text.afterLast '/' path = path from
    Text.dropEnd_append_takeEnd _ path] at cut

theorem withoutParameters_eq_self_iff (path : Text) :
    withoutParameters path = path ↔ ';' ∉ Text.afterLast '/' path := by
  have whole : Text.dropEnd (· != '/') path ++ Text.afterLast '/' path = path := Text.dropEnd_append_takeEnd _ path
  conv_lhs => rhs; rw [← whole]
  rw [withoutParameters, List.append_right_inj, Text.beforeFirst, List.takeWhile_eq_self_iff]
  simp only [bne_iff_ne]
  exact ⟨fun all member => all _ member rfl, fun absent c member same => absent (same ▸ member)⟩

/-- No slash is in the parameters. -/
theorem count_withoutParameters (path : Text) : (withoutParameters path).count '/' = path.count '/' := by
  have none : (Text.afterLast '/' path).count '/' = 0 := by
    refine List.count_eq_zero.2 fun member => ?_
    have kind := Text.of_mem_takeEnd member
    cases kind
  have cut_none : (Text.beforeFirst ';' (Text.afterLast '/' path)).count '/' = 0 :=
    Nat.eq_zero_of_le_zero (none ▸ (List.takeWhile_sublist _).count_le '/')
  conv_rhs => rw [← Text.dropEnd_append_takeEnd (· != '/') path]
  rw [withoutParameters, List.count_append, List.count_append, cut_none]
  exact congrArg _ none.symm

end EndpointSurvey.Url
