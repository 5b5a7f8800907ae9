/-
What the recognition of a lexeme looks at. A comment, directive or literal is recognised by its own characters and by
how the text after it begins; where none is recognised, none is once the text after it is cut short or loses its
comments.

Main statements:
- `special?_follow`: a lexeme recognised in front of a text is recognised in front of other texts that begin alike;
- `special?_eq_none_iff`: the openings of comments and string literals, by which these are told;
- `special?_none_of_fainter`: no lexeme begins at a character of code in front of a text with comments blanked or with
  its end cut off.
-/
import EndpointSurvey.Source.Lexeme
import Mathlib.Data.List.TakeWhile

namespace EndpointSurvey

namespace Lexeme

/-! ## Bodies in front of other texts -/

theorem regularBody_follow {t body rest : Text} (h : regularBody t = (body, rest)) (rest' : Text)
    (follow : rest' = [] ∨ rest ≠ [] ∧ (rest'.head? = some '"' ∨ rest'.head? = some '\n')) :
    regularBody (body ++ rest') = (body, rest') := by
  have stop : ∀ r : Text, r = [] ∨ r.head? = some '"' ∨ r.head? = some '\n' → regularBody r = ([], r) := by
    intro r hr
    cases r with
    | nil => rfl
    | cons c cs =>
      simp only [List.head?_cons, Option.some.injEq, reduceCtorEq, false_or] at hr
      rcases hr with rfl | rfl <;> simp [regularBody]
  fun_induction regularBody t generalizing body rest with
  | case1 =>
    cases h
    exact stop rest' (follow.imp_right fun f => f.2)
  | case2 c cs b r found ih =>
    cases h
    simp only [List.cons_append, regularBody, ih found follow]
  | case3 c cs hidden ends =>
    cases h
    exact stop rest' (follow.imp_right fun f => f.2)
  | case4 c cs hidden inside b r found ih =>
    cases h
    have tail := ih found follow
    by_cases backslash : c = '\\'
    · subst backslash
      -- a backslash that hides nothing is the last character
      cases cs with
      | cons d ds => exact (hidden d ds rfl rfl).elim
      | nil =>
        cases found
        obtain rfl : rest' = [] := follow.resolve_right fun f => f.1 rfl
        rfl
    · rw [List.cons_append, regularBody]
      · rw [if_neg inside, tail]
      · exact fun d ds e => absurd e backslash

theorem verbatimBody_follow {t body rest : Text} (h : verbatimBody t = (body, rest)) (rest' : Text)
    (follow : rest' = [] ∨ rest'.head? = some '"' ∧ rest'.tail.head? ≠ some '"') :
    verbatimBody (body ++ rest') = (body, rest') := by
  have stop : verbatimBody rest' = ([], rest') := by
    rcases follow with rfl | ⟨quote, alone⟩
    · rfl
    · obtain ⟨ds, rfl⟩ := List.head?_eq_some_iff.1 quote
      rw [verbatimBody]
      · simp
      · intro es _ e
        exact alone (by rw [List.tail_cons, e]; rfl)
  fun_induction verbatimBody t generalizing body rest with
  | case1 =>
    cases h
    exact stop
  | case2 cs b r found ih =>
    cases h
    simp only [List.cons_append, verbatimBody, ih found]
  | case3 cs doubled =>
    cases h
    exact stop
  | case4 c cs doubled inside b r found ih =>
    cases h
    rw [List.cons_append, verbatimBody]
    · rw [if_neg inside, ih found]
    · exact fun es e => absurd e inside

theorem characterBody?_follow {room : Nat} {t body rest : Text} (h : characterBody? room t = some (body, rest))
    (rest' : Text) : characterBody? room (body ++ '\'' :: rest') = some (body, rest') := by
  fun_induction characterBody? room t generalizing body rest with
  | case1 => cases h
  | case2 => cases h
  | case3 room c cs ih =>
    obtain ⟨⟨b, r⟩, found, e⟩ := Option.map_eq_some_iff.1 h
    cases e
    simp only [List.cons_append, characterBody?, ih found, Option.map_some]
  | case4 room cs hidden =>
    cases h
    rw [List.nil_append, characterBody?]
    · simp
    · exact fun d ds e => absurd e (by decide)
  | case5 => cases h
  | case6 room c cs hidden open_ inside ih =>
    obtain ⟨⟨b, r⟩, found, e⟩ := Option.map_eq_some_iff.1 h
    cases e
    rw [List.cons_append, characterBody?]
    · rw [if_neg open_, if_neg inside, ih found]
      rfl
    · intro d ds e' e''
      cases cs with
      | nil =>
        cases room with
        | zero => cases found
        | succ room => cases found
      | cons x xs => exact hidden x xs e' rfl

theorem after?_none_follow {piece x rest : Text} (rest' : Text) (h : Text.after? piece (x ++ rest) = none)
    (long : piece.length ≤ x.length) : Text.after? piece (x ++ rest') = none := by
  induction x generalizing piece with
  | nil =>
    obtain rfl : piece = [] := List.eq_nil_of_length_eq_zero (Nat.le_zero.1 long)
    cases h
  | cons d ds ih =>
    cases piece with
    | nil => cases h
    | cons c cs =>
      simp only [List.cons_append, Text.after?] at h ⊢
      split
      · next same =>
        rw [if_pos same] at h
        exact ih h (Nat.le_of_succ_le_succ long)
      · rfl

theorem after?_self (piece rest : Text) : Text.after? piece (piece ++ rest) = some rest := by
  induction piece with
  | nil => rfl
  | cons c cs ih => simp [Text.after?, ih]

theorem after?_eq_none {piece t : Text} (h : ¬ piece <+: t) : Text.after? piece t = none := by
  cases found : Text.after? piece t with
  | none => rfl
  | some rest => exact absurd ⟨rest, after?_append found⟩ h

theorem splitFirst?_self (piece rest : Text) : Text.splitFirst? piece (piece ++ rest) = some ([], rest) := by
  cases piece with
  | nil => cases rest <;> rfl
  | cons c cs =>
    have := after?_self (c :: cs) rest
    rw [List.cons_append] at this ⊢
    rw [Text.splitFirst?, this]

/-- A piece is found where it stands, if it begins nowhere before. -/
theorem splitFirst?_of_absent {piece before rest : Text}
    (absent : ∀ s, s <:+ before → s ≠ [] → ¬ piece <+: s ++ (piece ++ rest)) :
    Text.splitFirst? piece (before ++ (piece ++ rest)) = some (before, rest) := by
  induction before with
  | nil => exact splitFirst?_self piece rest
  | cons c cs ih =>
    have here := after?_eq_none (absent (c :: cs) (List.suffix_refl _) (List.cons_ne_nil c cs))
    rw [List.cons_append] at here ⊢
    rw [Text.splitFirst?, here, ih fun s tail => absent s (tail.trans (List.suffix_cons c cs))]
    rfl

theorem splitFirst?_follow {piece t before rest : Text} (h : Text.splitFirst? piece t = some (before, rest))
    (rest' : Text) : Text.splitFirst? piece (before ++ (piece ++ rest')) = some (before, rest') := by
  induction t generalizing before with
  | nil =>
    unfold Text.splitFirst? at h
    split at h
    · cases h
      exact splitFirst?_self piece rest'
    · cases h
  | cons c cs ih =>
    have whole := splitFirst?_append h
    unfold Text.splitFirst? at h
    split at h
    · cases h
      exact splitFirst?_self piece rest'
    · next nothing =>
      obtain ⟨⟨b, r⟩, found, e⟩ := Option.map_eq_some_iff.1 h
      cases e
      have absent : Text.after? piece ((c :: b ++ piece) ++ rest) = none := by rwa [whole]
      have short := after?_none_follow rest' absent (by rw [List.length_append]; omega)
      rw [List.append_assoc, List.cons_append] at short
      rw [List.cons_append, Text.splitFirst?, short, ih found]
      rfl

/-! ## Recognising a lexeme in front of another text -/

/-- Another text may follow a lexeme in place of the one that does: none, one that begins with the same character, or,
after a closed literal, any that does not begin with a quote. -/
def Follows (l : Lexeme) (rest rest' : Text) : Prop :=
  rest' = [] ∨ rest'.head? = rest.head? ∨
    rest ≠ [] ∧ rest'.head? ≠ some '"' ∧ ∃ opening body closing, l = literal opening body closing ∧ closing ≠ []

theorem Follows.of_nil {l : Lexeme} {rest' : Text} (follow : Follows l [] rest') : rest' = [] := by
  rcases follow with none | same | ⟨absent, -⟩
  · exact none
  · exact List.head?_eq_none_iff.1 same
  · exact absurd rfl absent

theorem regularBody_rest {t body rest : Text} (h : regularBody t = (body, rest)) :
    rest = [] ∨ rest.head? = some '"' ∨ rest.head? = some '\n' := by
  fun_induction regularBody t generalizing body rest with
  | case1 =>
    cases h
    exact Or.inl rfl
  | case2 c cs b r found ih =>
    cases h
    exact ih found
  | case3 c cs hidden ends =>
    cases h
    simp only [Bool.or_eq_true, decide_eq_true_eq] at ends
    rcases ends with rfl | rfl
    · exact Or.inr (Or.inl rfl)
    · exact Or.inr (Or.inr rfl)
  | case4 c cs hidden inside b r found ih =>
    cases h
    exact ih found

theorem regularBody_head {t body rest : Text} (h : regularBody t = (body, rest)) : body.head? ≠ some '"' := by
  unfold regularBody at h
  split at h
  · cases h
    simp
  · cases h
    simp
  · next c cs _ =>
    split at h
    · cases h
      simp
    · next inside =>
      cases h
      rintro e
      cases e
      exact inside rfl

theorem verbatimBody_rest {t body rest : Text} (h : verbatimBody t = (body, rest)) :
    rest = [] ∨ rest.head? = some '"' ∧ rest.tail.head? ≠ some '"' := by
  fun_induction verbatimBody t generalizing body rest with
  | case1 =>
    cases h
    exact Or.inl rfl
  | case2 cs b r found ih =>
    cases h
    exact ih found
  | case3 cs doubled =>
    cases h
    refine Or.inr ⟨rfl, fun e => ?_⟩
    obtain ⟨ds, rfl⟩ := List.head?_eq_some_iff.1 e
    exact doubled ds rfl rfl
  | case4 c cs doubled inside b r found ih =>
    cases h
    exact ih found

/-- A string literal is closed by the quote behind its body, or cut off where no quote stands. -/
theorem stringAfter_cases {opening t rest : Text} {l : Lexeme} {bodyOf : Text → Text × Text}
    (h : stringAfter opening bodyOf t = (l, rest)) :
    (∃ body, bodyOf t = (body, '"' :: rest) ∧ l = literal opening body ['"']) ∨
      ∃ body, bodyOf t = (body, rest) ∧ rest.head? ≠ some '"' ∧ l = literal opening body [] := by
  unfold stringAfter at h
  rcases found : bodyOf t with ⟨body, r⟩
  rw [found] at h
  dsimp only at h
  split at h
  · cases h
    exact .inl ⟨body, rfl, rfl⟩
  · next other =>
    cases h
    refine .inr ⟨body, rfl, fun quote => ?_, rfl⟩
    obtain ⟨ds, e⟩ := List.head?_eq_some_iff.1 quote
    exact other ds e

section
variable {opening body t x rest rest' : Text} {l : Lexeme} {bodyOf : Text → Text × Text}

theorem stringAfter_of_body (h : bodyOf x = (body, '"' :: rest)) :
    stringAfter opening bodyOf x = (literal opening body ['"'], rest) := by
  rw [stringAfter, h]
  rfl

theorem stringAfter_of_open (h : bodyOf x = (body, rest)) (other : rest.head? ≠ some '"') :
    stringAfter opening bodyOf x = (literal opening body [], rest) := by
  rw [stringAfter, h]
  dsimp only
  split
  · exact absurd rfl other
  · rfl

theorem stringAfter_regular (h : stringAfter opening regularBody t = (l, rest)) (follow : Follows l rest rest') :
    ∃ x, l.raw ++ rest' = opening ++ x ∧ stringAfter opening regularBody x = (l, rest') := by
  rcases stringAfter_cases h with ⟨body, found, rfl⟩ | ⟨body, found, other, rfl⟩
  · exact ⟨body ++ '"' :: rest', by simp [raw],
      stringAfter_of_body (regularBody_follow found _ (.inr ⟨by simp, .inl rfl⟩))⟩
  · -- a string that is cut off ends with its line, or with the text
    have next : rest' = [] ∨ rest ≠ [] ∧ rest'.head? = some '\n' := by
      rcases regularBody_rest found with rfl | quote | feed
      · exact .inl follow.of_nil
      · exact absurd quote other
      · rcases follow with none | same | ⟨-, -, o, b, c, e, closed⟩
        · exact .inl none
        · refine .inr ⟨?_, same.trans feed⟩
          rintro rfl
          cases feed
        · cases e
          exact absurd rfl closed
    refine ⟨body ++ rest', by simp [raw], stringAfter_of_open (regularBody_follow found _ (next.imp_right fun e =>
      ⟨e.1, .inr e.2⟩)) ?_⟩
    rcases next with rfl | ⟨-, feed⟩
    · simp
    · rw [feed]
      decide

/-- Two quotes begin what an opening stands in front of only if they do in front of another text that may follow. -/
theorem twice_of_follows (h : stringAfter opening regularBody t = (l, rest)) (follow : Follows l rest rest')
    (whole : l.raw ++ rest' = opening ++ x) (twice : ['"', '"'] <+: x) : ['"', '"'] <+: t := by
  -- a body does not begin with a quote, so that two quotes begin the text only where the body is empty
  have bare : ∀ {body y : Text}, body.head? ≠ some '"' → ['"', '"'] <+: body ++ y → body = [] ∧ ['"', '"'] <+: y := by
    intro body y head start
    cases body with
    | nil => exact ⟨rfl, start⟩
    | cons c cs =>
      rw [List.cons_append, List.cons_prefix_cons] at start
      exact absurd (congrArg some start.1.symm) head
  rcases stringAfter_cases h with ⟨body, found, rfl⟩ | ⟨body, found, other, rfl⟩
  · have parts := regularBody_append t
    obtain rfl : body ++ '"' :: rest' = x := by simpa [raw] using whole
    obtain ⟨rfl, start⟩ := bare (regularBody_head found) twice
    rw [found, List.nil_append] at parts
    obtain ⟨y, e⟩ := (List.cons_prefix_cons.1 start).2
    have second : rest'.head? = some '"' := by rw [← e]; rfl
    rcases follow with rfl | same | ⟨-, other, -⟩
    · cases second
    · obtain ⟨y, rfl⟩ := List.head?_eq_some_iff.1 (same.symm.trans second)
      exact ⟨y, parts⟩
    · exact absurd second other
  · obtain rfl : body ++ rest' = x := by simpa [raw] using whole
    obtain ⟨-, y, e⟩ := bare (regularBody_head found) twice
    have first : rest'.head? = some '"' := by rw [← e]; rfl
    rcases follow with rfl | same | ⟨-, other', -⟩
    · cases first
    · exact absurd (same.symm.trans first) other
    · exact absurd first other'

theorem stringAfter_verbatim (h : stringAfter opening verbatimBody t = (l, rest)) (follow : Follows l rest rest') :
    ∃ x, l.raw ++ rest' = opening ++ x ∧ stringAfter opening verbatimBody x = (l, rest') := by
  rcases stringAfter_cases h with ⟨body, found, rfl⟩ | ⟨body, found, other, rfl⟩
  · have alone : rest'.head? ≠ some '"' := by
      rcases verbatimBody_rest found with none | ⟨-, alone⟩
      · cases none
      · rcases follow with rfl | same | ⟨-, other, -⟩
        · simp
        · rwa [same]
        · exact other
    exact ⟨body ++ '"' :: rest', by simp [raw], stringAfter_of_body (verbatimBody_follow found _ (.inr ⟨rfl, alone⟩))⟩
  · obtain rfl : rest = [] := (verbatimBody_rest found).resolve_right fun quote => other quote.1
    obtain rfl := follow.of_nil
    exact ⟨body ++ [], by simp [raw], stringAfter_of_open (verbatimBody_follow found [] (.inl rfl)) (by simp)⟩

end

theorem rawAfter_follow {t rest rest' : Text} {l : Lexeme} (h : rawAfter t = (l, rest)) (follow : Follows l rest rest') :
    ∃ x, l.raw ++ rest' = '"' :: '"' :: '"' :: x ∧ rawAfter x = (l, rest') := by
  unfold rawAfter at h
  split at h
  · next body r found =>
    cases h
    refine ⟨body ++ (['"', '"', '"'] ++ rest'), by simp [raw], ?_⟩
    rw [rawAfter, splitFirst?_follow found]
  · next absent =>
    cases h
    obtain rfl := follow.of_nil
    exact ⟨t, by simp [raw], by rw [rawAfter, absent]⟩

theorem blockAfter_follow {t rest rest' : Text} {l : Lexeme} (h : blockAfter t = (l, rest))
    (follow : Follows l rest rest') : ∃ x, l.raw ++ rest' = '/' :: '*' :: x ∧ blockAfter x = (l, rest') := by
  unfold blockAfter at h
  split at h
  · next body r found =>
    cases h
    refine ⟨body ++ (['*', '/'] ++ rest'), by simp [raw], ?_⟩
    rw [blockAfter, splitFirst?_follow found]
  · next absent =>
    cases h
    obtain rfl := follow.of_nil
    exact ⟨t, by simp [raw], by rw [blockAfter, absent]⟩

theorem lineRemark_follow {t rest rest' : Text} {l : Lexeme} (h : lineRemark t = (l, rest))
    (follow : Follows l rest rest') : lineRemark (l.raw ++ rest') = (l, rest') := by
  cases h
  have stop : rest'.takeWhile (· != '\n') = [] ∧ rest'.dropWhile (· != '\n') = rest' := by
    cases rest' with
    | nil => exact ⟨rfl, rfl⟩
    | cons c cs =>
      rcases follow with none | same | ⟨-, -, o, b, cl, e, -⟩
      · cases none
      · have := List.head?_dropWhile_not (· != '\n') t
        rw [← same] at this
        obtain rfl : c = '\n' := by simpa using this
        exact ⟨rfl, rfl⟩
      · cases e
  have inside : ∀ c ∈ t.takeWhile (· != '\n'), (c != '\n') = true := fun c hc => List.mem_takeWhile_imp (p := (· != '\n')) hc
  unfold lineRemark raw
  rw [List.takeWhile_append_of_pos inside, List.dropWhile_append_of_pos inside, stop.1, stop.2, List.append_nil]

theorem special?_quote {lineBlank : Bool} {x : Text} (h : ¬ ['"', '"'] <+: x) :
    special? lineBlank ('"' :: x) = some (stringAfter ['"'] regularBody x) := by
  unfold special?
  split <;> simp_all

/-- **Look-ahead of a lexeme.** It is recognised in front of every text that may follow it. -/
theorem special?_follow {lineBlank : Bool} {t rest rest' : Text} {l : Lexeme}
    (h : special? lineBlank t = some (l, rest)) (follow : Follows l rest rest') :
    special? lineBlank (l.raw ++ rest') = some (l, rest') := by
  unfold special? at h
  split at h
  · have same := lineRemark_follow (Option.some.inj h) follow
    cases h
    exact congrArg some same
  · next cs =>
    split at h
    · next first =>
      have same := lineRemark_follow (Option.some.inj h) follow
      cases h
      refine Eq.trans ?_ (congrArg some same)
      exact if_pos first
    · cases h
  · obtain ⟨x, whole, same⟩ := blockAfter_follow (Option.some.inj h) follow
    rw [whole, special?, same]
  · obtain ⟨x, whole, same⟩ := rawAfter_follow (Option.some.inj h) follow
    rw [whole, special?, same]
  · obtain ⟨x, whole, same⟩ := stringAfter_verbatim (Option.some.inj h) follow
    rw [whole, List.cons_append, List.cons_append, List.nil_append, special?, same]
  · obtain ⟨x, whole, same⟩ := stringAfter_regular (Option.some.inj h) follow
    rw [whole, List.cons_append, List.cons_append, List.nil_append, special?, same]
  · obtain ⟨x, whole, same⟩ := stringAfter_verbatim (Option.some.inj h) follow
    rw [whole, List.cons_append, List.cons_append, List.cons_append, List.nil_append, special?, same]
  · obtain ⟨x, whole, same⟩ := stringAfter_verbatim (Option.some.inj h) follow
    rw [whole, List.cons_append, List.cons_append, List.cons_append, List.nil_append, special?, same]
  · obtain ⟨x, whole, same⟩ := stringAfter_verbatim (Option.some.inj h) follow
    rw [whole, List.cons_append, List.cons_append, List.cons_append, List.nil_append, special?, same]
  · obtain ⟨x, whole, same⟩ := stringAfter_regular (Option.some.inj h) follow
    rw [whole, List.cons_append, List.cons_append, List.cons_append, List.nil_append, special?, same]
  · next cs single =>
    obtain ⟨x, whole, same⟩ := stringAfter_regular (Option.some.inj h) follow
    rw [whole, List.cons_append, List.nil_append, special?_quote, same]
    intro twice
    obtain ⟨y, rfl⟩ := twice_of_follows (Option.some.inj h) follow whole twice
    exact single y rfl
  · next cs =>
    obtain ⟨⟨body, r⟩, found, e⟩ := Option.map_eq_some_iff.1 h
    cases e
    rw [raw, List.append_assoc, List.append_assoc, List.cons_append, List.nil_append, List.cons_append, List.nil_append,
      special?, characterBody?_follow found]
    rfl
  · cases h

/-! ## Recognising no lexeme in front of another text -/

theorem ne_quote_of_none {lineBlank : Bool} {c : Char} {t : Text} (h : special? lineBlank (c :: t) = none) :
    c ≠ '"' := by
  rintro rfl
  by_cases two : ['"', '"'] <+: t
  · obtain ⟨ds, rfl⟩ := two
    cases h
  · rw [special?_quote two] at h
    cases h

/-- how comments and string literals begin -/
def openings : List Text :=
  [['/', '/'], ['/', '*'], ['"'], ['@', '"'], ['$', '"'], ['@', '@', '"'], ['@', '$', '"'], ['$', '@', '"'],
    ['$', '$', '"']]

/-- **Where nothing is recognised.** Comments and string literals are told by how they begin. -/
theorem special?_eq_none_iff {lineBlank : Bool} {c : Char} {t : Text} (hash : c ≠ '#') (apostrophe : c ≠ '\'') :
    special? lineBlank (c :: t) = none ↔ ∀ opening ∈ openings, ¬ opening <+: c :: t := by
  constructor
  · rintro none opening mem ⟨rest, e⟩
    simp only [openings, List.mem_cons, List.not_mem_nil, or_false] at mem
    rcases mem with rfl | rfl | rfl | rfl | rfl | rfl | rfl | rfl | rfl
    all_goals
      cases e
      first
        | cases none
        | exact ne_quote_of_none none rfl
  · intro absent
    have other : ∀ {o rest : Text}, o ∈ openings → c :: t ≠ o ++ rest :=
      fun mem e => absent _ mem ⟨_, e.symm⟩
    unfold special?
    split
    case h_1 e => exact absurd e (other (o := ['/', '/']) (by decide))
    case h_2 e => exact absurd (List.cons.inj e).1 hash
    case h_3 e => exact absurd e (other (o := ['/', '*']) (by decide))
    case h_4 e => exact absurd e (other (o := ['"']) (by decide))
    case h_5 e => exact absurd e (other (o := ['@', '"']) (by decide))
    case h_6 e => exact absurd e (other (o := ['$', '"']) (by decide))
    case h_7 e => exact absurd e (other (o := ['@', '@', '"']) (by decide))
    case h_8 e => exact absurd e (other (o := ['@', '$', '"']) (by decide))
    case h_9 e => exact absurd e (other (o := ['$', '@', '"']) (by decide))
    case h_10 e => exact absurd e (other (o := ['$', '$', '"']) (by decide))
    case h_11 e => exact absurd e (other (o := ['"']) (by decide))
    case h_12 e => exact absurd (List.cons.inj e).1 apostrophe
    case h_13 => rfl

/-- Nothing is recognised in front of a text that begins, as far as openings go, like one in front of which nothing
is. -/
theorem special?_none_of_openings {lineBlank : Bool} {c : Char} {t u : Text} (h : special? lineBlank (c :: t) = none)
    (hash : c ≠ '#') (apostrophe : c ≠ '\'') (ahead : ∀ d p, d :: p ∈ openings → p <+: u → p <+: t) (lineBlank' : Bool) :
    special? lineBlank' (c :: u) = none := by
  rw [special?_eq_none_iff hash apostrophe] at h ⊢
  intro opening mem start
  cases opening with
  | nil => exact absurd mem (by decide)
  | cons d p =>
    obtain ⟨rfl, tail⟩ := List.cons_prefix_cons.1 start
    exact h _ mem (List.cons_prefix_cons.2 ⟨rfl, ahead d p mem tail⟩)

/-- the second text is the first, perhaps cut short, with spaces or line feeds in place of some characters -/
inductive Fainter : Text → Text → Prop
  | stop (t : Text) : Fainter t []
  | keep {t u : Text} (c : Char) (rest : Fainter t u) : Fainter (c :: t) (c :: u)
  | fade {t u : Text} (c d : Char) (faint : d = ' ' ∨ d = '\n') (rest : Fainter t u) : Fainter (c :: t) (d :: u)

theorem Fainter.isPrefix {t u p : Text} (h : Fainter t u) (dark : ∀ c ∈ p, c ≠ ' ' ∧ c ≠ '\n') (start : p <+: u) :
    p <+: t := by
  induction h generalizing p with
  | stop t => rw [List.prefix_nil.1 start]; exact List.nil_prefix
  | keep c rest ih =>
    cases p with
    | nil => exact List.nil_prefix
    | cons d p =>
      obtain ⟨rfl, tail⟩ := List.cons_prefix_cons.1 start
      exact List.cons_prefix_cons.2 ⟨rfl, ih (fun c hc => dark c (.tail _ hc)) tail⟩
  | fade c d faint rest ih =>
    cases p with
    | nil => exact List.nil_prefix
    | cons e p =>
      obtain ⟨rfl, -⟩ := List.cons_prefix_cons.1 start
      exact absurd faint (not_or.2 (dark e List.mem_cons_self))

theorem special?_none_of_fainter {lineBlank : Bool} {c : Char} {t u : Text} (h : special? lineBlank (c :: t) = none)
    (hash : c ≠ '#') (apostrophe : c ≠ '\'') (faint : Fainter t u) (lineBlank' : Bool) :
    special? lineBlank' (c :: u) = none := by
  have dark : ∀ opening ∈ openings, ∀ c ∈ opening, c ≠ ' ' ∧ c ≠ '\n' := by simp [openings]
  exact special?_none_of_openings h hash apostrophe
    (fun d p mem => faint.isPrefix fun c hc => dark _ mem c (.tail d hc)) lineBlank'

/-! ## Character literals

The look-ahead of a character literal runs into the text after it, through comments that stand there. -/

/-- does a character literal close within `room` characters? -/
def closes (room : Nat) (t : Text) : Bool := (characterBody? room t).isSome

theorem closes_nil (room : Nat) : closes room [] = false := by cases room <;> rfl

theorem closes_backslash (room : Nat) (c : Char) (t : Text) :
    closes (room + 1) ('\\' :: c :: t) = closes (room - 1) t := Option.isSome_map

theorem closes_backslash_nil : ∀ room, closes room ['\\'] = false
  | 0 => rfl
  | 1 => rfl
  | _ + 2 => rfl

theorem closes_cons {c : Char} (visible : c ≠ '\\') (room : Nat) (t : Text) :
    closes (room + 1) (c :: t) = (c == '\'' || (c != '\n' && closes room t)) := by
  unfold closes
  rw [characterBody?]
  · by_cases quote : c = '\''
    · simp [quote]
    · by_cases feed : c = '\n'
      · simp [feed]
      · rw [if_neg quote, if_neg feed, Option.isSome_map, beq_false_of_ne quote, bne_iff_ne.2 feed, Bool.false_or,
          Bool.true_and]
  · exact fun d ds e => absurd e visible

theorem closes_feed {room : Nat} {t : Text} (h : t = [] ∨ t.head? = some '\n') : closes room t = false := by
  rcases h with rfl | h
  · exact closes_nil room
  · obtain ⟨ds, rfl⟩ := List.head?_eq_some_iff.1 h
    cases room with
    | zero => rfl
    | succ room =>
      rw [closes_cons (by decide)]
      rfl

theorem room_pos {room : Nat} {t : Text} (h : closes room t = true) : 0 < room := by
  cases room with
  | zero => exact absurd h (by simp [closes, characterBody?])
  | succ room => exact Nat.succ_pos room

theorem closes_blankOut {room : Nat} {r t : Text} (h : closes room (blankOut r ++ t) = true) :
    '\n' ∉ r ∧ closes (room - r.length) t = true := by
  induction r generalizing room with
  | nil => exact ⟨List.not_mem_nil, h⟩
  | cons c cs ih =>
    cases room with
    | zero => exact absurd (room_pos h) (Nat.lt_irrefl 0)
    | succ room =>
      by_cases feed : c = '\n'
      · subst feed
        rw [closes_feed (Or.inr rfl)] at h
        cases h
      · have blank : blankOut (c :: cs) = ' ' :: blankOut cs := by simp [blankOut, feed]
        rw [blank, List.cons_append, closes_cons (by decide)] at h
        obtain ⟨none, closed⟩ := ih (by simpa using h)
        refine ⟨?_, ?_⟩
        · rw [List.mem_cons, not_or]
          exact ⟨Ne.symm feed, none⟩
        · rw [List.length_cons, Nat.add_sub_add_right]
          exact closed

/-- Whatever is hidden inside a comment, its last character is not: a slash follows a star. -/
theorem closes_comment {room : Nat} {t : Text} (h : closes room t = true) : ∀ p : Text, '\n' ∉ p →
    closes (room + p.length + 2) (p ++ '*' :: '/' :: t) = true
  | [], _ => by
    rw [List.nil_append, closes_cons (by decide), closes_cons (by decide)]
    simpa using h
  | c :: cs, line => by
    rw [List.mem_cons, not_or] at line
    have next := closes_comment h cs line.2
    by_cases backslash : c = '\\'
    · subst backslash
      rw [List.cons_append]
      match cs with
      | [] =>
        rw [List.nil_append, closes_backslash]
        show closes (room + 1) ('/' :: t) = true
        rw [closes_cons (by decide)]
        simpa using h
      | d :: ds =>
        rw [List.cons_append, closes_backslash]
        exact closes_comment h ds fun hn => line.2 (List.mem_cons_of_mem _ hn)
    · rw [List.cons_append, List.length_cons, show room + (cs.length + 1) + 2 = room + cs.length + 2 + 1 by omega,
        closes_cons backslash, next]
      simp [Ne.symm line.1]

/-- the second text is the first, perhaps cut short, with comments blanked; a comment that reaches to the end of its
line or of the text is followed by nothing else there -/
inductive Dimmed : Text → Text → Prop
  | stop (t : Text) : Dimmed t []
  | keep {t u : Text} (c : Char) (rest : Dimmed t u) : Dimmed (c :: t) (c :: u)
  | block {t u : Text} (p : Text) (rest : Dimmed t u) : Dimmed (p ++ '*' :: '/' :: t) (blankOut (p ++ ['*', '/']) ++ u)
  | line {r t u : Text} (filled : r ≠ []) (ends : u = [] ∨ u.head? = some '\n') : Dimmed (r ++ t) (blankOut r ++ u)

theorem closes_keep {room : Nat} {c : Char} {t u : Text} (all : ∀ room, closes room u = true → closes room t = true)
    (tail : ∀ d u', u = d :: u' → ∃ e t', t = e :: t' ∧ ∀ room, closes room u' = true → closes room t' = true)
    (h : closes room (c :: u) = true) : closes room (c :: t) = true := by
  obtain ⟨n, rfl⟩ := Nat.exists_eq_succ_of_ne_zero (Nat.ne_of_gt (room_pos h))
  by_cases backslash : c = '\\'
  · subst backslash
    cases u with
    | nil => exact absurd ((closes_backslash_nil _).symm.trans h) Bool.false_ne_true
    | cons d u' =>
      obtain ⟨e, t', rfl, closed⟩ := tail d u' rfl
      rw [Nat.succ_eq_add_one, closes_backslash] at h ⊢
      exact closed _ h
  · rw [Nat.succ_eq_add_one, closes_cons backslash, Bool.or_eq_true, Bool.and_eq_true] at h ⊢
    exact h.imp_right fun h => ⟨h.1, all _ h.2⟩

theorem closes_block {room : Nat} {p t u : Text} (rest : ∀ room, closes room u = true → closes room t = true)
    (h : closes room (blankOut (p ++ ['*', '/']) ++ u) = true) : closes room (p ++ '*' :: '/' :: t) = true := by
  obtain ⟨line, closed⟩ := closes_blankOut h
  have inside : '\n' ∉ p := fun hn => line (List.mem_append_left _ hn)
  have room' := room_pos closed
  rw [List.length_append] at closed room'
  have whole := closes_comment (rest _ closed) p inside
  rwa [show room - (p.length + ['*', '/'].length) + p.length + 2 = room by
    simp only [List.length_cons, List.length_nil] at room' ⊢
    omega] at whole

theorem closes_line {room : Nat} {r u : Text} (ends : u = [] ∨ u.head? = some '\n') :
    closes room (blankOut r ++ u) = false := by
  rw [Bool.eq_false_iff]
  intro h
  have closed := (closes_blankOut h).2
  rw [closes_feed ends] at closed
  cases closed

/-- A character literal that closes once comments are blanked closes before they are. The second part is what a
backslash needs, which hides the first character. -/
theorem Dimmed.closes {t u : Text} (dim : Dimmed t u) :
    (∀ room, closes room u = true → closes room t = true) ∧
      ∀ d u', u = d :: u' → ∃ c t', t = c :: t' ∧
        ∀ room, Lexeme.closes room u' = true → Lexeme.closes room t' = true := by
  induction dim with
  | stop t =>
    refine ⟨fun room h => ?_, fun d u' e => ?_⟩
    · rw [closes_nil] at h
      cases h
    · cases e
  | @keep t u c rest ih =>
    obtain ⟨all, tail⟩ := ih
    refine ⟨fun room h => closes_keep all tail h, fun d u' e => ?_⟩
    cases e
    exact ⟨c, t, rfl, all⟩
  | @block t u p rest ih =>
    refine ⟨fun room h => closes_block ih.1 h, fun d u' e => ?_⟩
    cases p with
    | nil =>
      cases e
      refine ⟨'*', '/' :: t, rfl, fun room h => ?_⟩
      obtain ⟨n, rfl⟩ := Nat.exists_eq_succ_of_ne_zero (Nat.ne_of_gt (room_pos h))
      obtain ⟨-, closed⟩ := closes_blankOut (r := ['/']) h
      have next : Lexeme.closes n t = true := ih.1 _ closed
      rw [Nat.succ_eq_add_one, closes_cons (by decide), next]
      rfl
    | cons x xs =>
      cases e
      exact ⟨x, xs ++ '*' :: '/' :: t, rfl, fun room h => closes_block ih.1 h⟩
  | @line r t u filled ends =>
    refine ⟨fun room h => ?_, fun d u' e => ?_⟩
    · rw [closes_line ends] at h
      cases h
    · cases r with
      | nil => exact absurd rfl filled
      | cons x xs =>
        cases e
        refine ⟨x, xs ++ t, rfl, fun room h => ?_⟩
        have open_ : Lexeme.closes room (blankOut xs ++ u) = false := closes_line ends
        exact absurd (open_.symm.trans h) Bool.false_ne_true

/-- No character literal begins at an apostrophe of code in front of a text with comments blanked or cut short. -/
theorem special?_apostrophe_of_dimmed {lineBlank : Bool} {t u : Text} (h : special? lineBlank ('\'' :: t) = none)
    (dim : Dimmed t u) (lineBlank' : Bool) : special? lineBlank' ('\'' :: u) = none := by
  have open_ : characterBody? characterRoom t = none := by simpa [special?] using h
  have open' : characterBody? characterRoom u = none := by
    rw [← Option.not_isSome_iff_eq_none]
    intro closed
    have := dim.closes.1 _ closed
    rw [closes, open_] at this
    cases this
  rw [special?, open']
  rfl

end Lexeme

end EndpointSurvey
