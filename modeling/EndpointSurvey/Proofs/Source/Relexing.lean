/-
Lexing again what has been lexed: a stretch between two lexemes, and a text whose comments are blanked, have the lexemes
one expects.

Main statements:
- `lexFrom_truncate` and `lexFrom_drop`: the lexemes of a text cut off anywhere, or cut between two lexemes;
- `lexFrom_faded`: the lexemes of a text with comments blanked are its own, with blanks in place of comments.
-/
import EndpointSurvey.Proofs.Source.Lookahead
import EndpointSurvey.Proofs.Text.BlankMap

namespace EndpointSurvey

namespace Lexeme

/-- the text that lexemes are read off -/
def text (ls : List Lexeme) : Text := ls.flatMap raw

@[simp] theorem text_nil : text [] = [] := rfl

@[simp] theorem text_cons (l : Lexeme) (ls : List Lexeme) : text (l :: ls) = l.raw ++ text ls := rfl

@[simp] theorem text_append (ls ms : List Lexeme) : text (ls ++ ms) = text ls ++ text ms := List.flatMap_append

theorem text_lexFrom (lineBlank : Bool) (t : Text) : text (lexFrom lineBlank t) = t := lexFrom_raw lineBlank t

theorem lexFrom_nil (lineBlank : Bool) : lexFrom lineBlank [] = [] := by rw [lexFrom]

theorem lexFrom_none {lineBlank : Bool} {c : Char} {t : Text} (h : special? lineBlank (c :: t) = none) :
    lexFrom lineBlank (c :: t) = code c :: lexFrom (lineBlankAfter lineBlank c) t := by
  rw [lexFrom]
  split <;> simp_all

theorem lexFrom_some {lineBlank : Bool} {t rest : Text} {l : Lexeme} (h : special? lineBlank t = some (l, rest)) :
    lexFrom lineBlank t = l :: lexFrom false rest := by
  cases t with
  | nil => cases h
  | cons c cs =>
    rw [lexFrom]
    split <;> simp_all

theorem special?_lineBlank {c : Char} (hash : c ≠ '#') (lineBlank lineBlank' : Bool) (t : Text) :
    special? lineBlank (c :: t) = special? lineBlank' (c :: t) := by
  unfold special?
  split <;> simp_all

/-- Where no `#` is code, the lexemes are the same if the line is taken to be blank. -/
theorem lexFrom_lineBlank {t : Text} {lineBlank : Bool} (hash : code '#' ∉ lexFrom lineBlank t) (lineBlank' : Bool)
    (le : lineBlank = true → lineBlank' = true) : lexFrom lineBlank' t = lexFrom lineBlank t := by
  fun_induction lexFrom lineBlank t generalizing lineBlank' with
  | case1 => exact lexFrom_nil _
  | case2 lineBlank c cs l rest found ih =>
    have found' : special? lineBlank' (c :: cs) = some (l, rest) := by
      by_cases directive : c = '#'
      · subst directive
        cases lineBlank with
        | false => cases found
        | true => rw [le rfl, found]
      · rw [special?_lineBlank directive lineBlank' lineBlank, found]
    rw [lexFrom_some found']
  | case3 lineBlank c cs found ih =>
    rw [List.mem_cons, not_or] at hash
    have directive : c ≠ '#' := by
      rintro rfl
      exact hash.1 rfl
    rw [lexFrom_none (by rw [special?_lineBlank directive lineBlank' lineBlank, found]), ih hash.2]
    intro before
    simp only [lineBlankAfter, Bool.or_eq_true, Bool.and_eq_true] at before ⊢
    exact before.imp_right fun b => ⟨le b.1, b.2⟩

/-! ## The shape of lexemes -/

/-- the characters of the marks around literals -/
def quoteMark (c : Char) : Bool := c == '"' || c == '\'' || c == '@' || c == '$'

/-- a comment or directive in front of a text: it is closed, or takes the rest of its line or of the text -/
structure RemarkShape (lineBlank : Bool) (body rest : Text) : Prop where
  head : body.head? = some '/' ∨ body.head? = some '#' ∧ lineBlank = true
  stop : (∃ p, body = p ++ ['*', '/']) ∨ rest = [] ∨ rest.head? = some '\n'

/-- a literal in front of a text: its marks are quotes, but for a raw literal that nothing closes -/
structure LiteralShape (opening body closing rest : Text) : Prop where
  opened : opening ≠ [] ∧ ∀ c ∈ opening, quoteMark c = true
  closed : (∀ c ∈ closing, quoteMark c = true) ∨
    rest = [] ∧ opening = ['"', '"', '"'] ∧ Text.splitFirst? ['"', '"', '"'] (body ++ closing) = none
  unclosed : closing = [] → rest = [] ∨ opening ≠ ['"', '"', '"'] ∧ rest.head? = some '\n'

theorem lineRemark_shape {lineBlank : Bool} {c : Char} {t rest : Text} {l : Lexeme}
    (head : c = '/' ∨ c = '#' ∧ lineBlank = true) (h : lineRemark (c :: t) = (l, rest)) :
    ∃ body, l = remark body ∧ RemarkShape lineBlank body rest := by
  cases h
  have feed : (c != '\n') = true := by rcases head with rfl | ⟨rfl, -⟩ <;> rfl
  refine ⟨_, rfl, ?_, ?_⟩
  · rw [List.takeWhile_cons_of_pos (p := (· != '\n')) feed]
    exact head.imp (congrArg some) fun h => ⟨congrArg some h.1, h.2⟩
  · right
    have stop := List.head?_dropWhile_not (· != '\n') (c :: t)
    cases after : (c :: t).dropWhile (· != '\n') with
    | nil => exact Or.inl rfl
    | cons d ds =>
      rw [after] at stop
      right
      simpa using stop

theorem blockAfter_shape {lineBlank : Bool} {t rest : Text} {l : Lexeme} (h : blockAfter t = (l, rest)) :
    ∃ body, l = remark body ∧ RemarkShape lineBlank body rest := by
  unfold blockAfter at h
  split at h
  · next body r found =>
    cases h
    exact ⟨_, rfl, Or.inl rfl, Or.inl ⟨'/' :: '*' :: body, rfl⟩⟩
  · cases h
    exact ⟨_, rfl, Or.inl rfl, Or.inr (Or.inl rfl)⟩

theorem rawAfter_shape {t rest : Text} {l : Lexeme} (h : rawAfter t = (l, rest)) :
    ∃ o b cl, l = literal o b cl ∧ LiteralShape o b cl rest := by
  unfold rawAfter at h
  split at h
  · cases h
    exact ⟨_, _, _, rfl, by simp [quoteMark], Or.inl (by simp [quoteMark]), fun e => by cases e⟩
  · next absent =>
    cases h
    refine ⟨_, _, _, rfl, by simp [quoteMark], Or.inr ⟨rfl, rfl, ?_⟩, fun _ => Or.inl rfl⟩
    rw [List.take_append_drop]
    exact absent

theorem stringAfter_shape {opening t rest : Text} {l : Lexeme} {bodyOf : Text → Text × Text}
    (h : stringAfter opening bodyOf t = (l, rest)) (marks : opening ≠ [] ∧ ∀ c ∈ opening, quoteMark c = true)
    (string : opening ≠ ['"', '"', '"'])
    (stops : (bodyOf t).2 = [] ∨ (bodyOf t).2.head? = some '"' ∨ (bodyOf t).2.head? = some '\n') :
    ∃ o b cl, l = literal o b cl ∧ LiteralShape o b cl rest := by
  rcases stringAfter_cases h with ⟨body, -, rfl⟩ | ⟨body, found, other, rfl⟩
  · exact ⟨_, _, _, rfl, marks, Or.inl (by simp [quoteMark]), fun e => by cases e⟩
  · rw [found] at stops
    exact ⟨_, _, _, rfl, marks, Or.inl (by simp), fun _ =>
      stops.imp_right fun mark => ⟨string, mark.resolve_left other⟩⟩

/-- What is recognised is a comment or directive, or a literal. -/
theorem special?_shape {lineBlank : Bool} {t rest : Text} {l : Lexeme} (h : special? lineBlank t = some (l, rest)) :
    (∃ body, l = remark body ∧ RemarkShape lineBlank body rest) ∨
      ∃ o b cl, l = literal o b cl ∧ LiteralShape o b cl rest := by
  have regular : ∀ t, (regularBody t).2 = [] ∨ (regularBody t).2.head? = some '"' ∨
      (regularBody t).2.head? = some '\n' := fun t => regularBody_rest rfl
  have verbatim : ∀ t, (verbatimBody t).2 = [] ∨ (verbatimBody t).2.head? = some '"' ∨
      (verbatimBody t).2.head? = some '\n' := fun t => (verbatimBody_rest rfl).imp_right fun e => Or.inl e.1
  unfold special? at h
  split at h
  · exact Or.inl (lineRemark_shape (Or.inl rfl) (Option.some.inj h))
  · split at h
    · next first => exact Or.inl (lineRemark_shape (Or.inr ⟨rfl, first⟩) (Option.some.inj h))
    · cases h
  · exact Or.inl (blockAfter_shape (Option.some.inj h))
  · exact Or.inr (rawAfter_shape (Option.some.inj h))
  · exact Or.inr (stringAfter_shape (Option.some.inj h) (by simp [quoteMark]) (by simp) (verbatim _))
  · exact Or.inr (stringAfter_shape (Option.some.inj h) (by simp [quoteMark]) (by simp) (regular _))
  · exact Or.inr (stringAfter_shape (Option.some.inj h) (by simp [quoteMark]) (by simp) (verbatim _))
  · exact Or.inr (stringAfter_shape (Option.some.inj h) (by simp [quoteMark]) (by simp) (verbatim _))
  · exact Or.inr (stringAfter_shape (Option.some.inj h) (by simp [quoteMark]) (by simp) (verbatim _))
  · exact Or.inr (stringAfter_shape (Option.some.inj h) (by simp [quoteMark]) (by simp) (regular _))
  · exact Or.inr (stringAfter_shape (Option.some.inj h) (by simp [quoteMark]) (by simp) (regular _))
  · obtain ⟨⟨body, r⟩, -, e⟩ := Option.map_eq_some_iff.1 h
    cases e
    exact Or.inr ⟨_, _, _, rfl, by simp [quoteMark], Or.inl (by simp [quoteMark]), fun e => by cases e⟩
  · cases h

/-! ## Parts of a text -/

theorem dimmed_of_front {t z : Text} (h : z <+: t) : Dimmed t z := by
  obtain ⟨u, rfl⟩ := h
  induction z with
  | nil => exact Dimmed.stop _
  | cons c cs ih => exact Dimmed.keep c ih

/-- Nothing is recognised at a character if nothing was when the same openings of comments and strings stood there. -/
theorem special?_none_of_marks {lineBlank : Bool} {c : Char} {x y : Text} (h : special? lineBlank (c :: x) = none)
    (apostrophe : c = '\'' → special? lineBlank (c :: y) = none)
    (ahead : ∀ d p, d :: p ∈ openings → p <+: y → p <+: x) : special? lineBlank (c :: y) = none := by
  by_cases open_ : c = '\''
  · exact apostrophe open_
  · by_cases hash : c = '#'
    · subst hash
      cases lineBlank with
      | false => rfl
      | true => cases h
    · exact special?_none_of_openings h hash open_ ahead lineBlank

theorem special?_none_of_front {lineBlank : Bool} {c : Char} {t z : Text} (h : special? lineBlank (c :: t) = none)
    (cut : z <+: t) : special? lineBlank (c :: z) = none := by
  refine special?_none_of_marks h ?_ fun _ _ _ start => start.trans cut
  rintro rfl
  exact special?_apostrophe_of_dimmed h (dimmed_of_front cut) lineBlank

/-- **Cut off.** A text cut off after some lexemes, or inside the next one, has these lexemes first. -/
theorem lexFrom_truncate {lineBlank : Bool} {t z : Text} {pre suf : List Lexeme} (h : lexFrom lineBlank t = pre ++ suf)
    (cut : z <+: text suf) :
    ∃ lineBlank', lexFrom lineBlank (text pre ++ z) = pre ++ lexFrom lineBlank' z := by
  induction pre generalizing lineBlank t with
  | nil => exact ⟨lineBlank, rfl⟩
  | cons l pre ih =>
    have whole := text_lexFrom lineBlank t
    cases t with
    | nil =>
      rw [lexFrom_nil] at h
      cases h
    | cons c cs =>
      cases found : special? lineBlank (c :: cs) with
      | none =>
        rw [lexFrom_none found, List.cons_append, List.cons.injEq] at h
        obtain ⟨rfl, h⟩ := h
        obtain ⟨after, e⟩ := ih h
        refine ⟨after, ?_⟩
        have shorter : text pre ++ z <+: cs := by
          rw [← text_lexFrom (lineBlankAfter lineBlank c) cs, h, text_append]
          exact (List.prefix_append_right_inj _).2 cut
        rw [text_cons, raw, List.cons_append, List.nil_append, List.cons_append,
          lexFrom_none (special?_none_of_front found shorter), e, List.cons_append]
      | some p =>
        obtain ⟨l', rest⟩ := p
        rw [lexFrom_some found, List.cons_append, List.cons.injEq] at h
        obtain ⟨rfl, h⟩ := h
        obtain ⟨after, e⟩ := ih h
        refine ⟨after, ?_⟩
        have shorter : text pre ++ z <+: rest := by
          rw [← text_lexFrom false rest, h, text_append]
          exact (List.prefix_append_right_inj _).2 cut
        have follow : Follows l' rest (text pre ++ z) := by
          obtain ⟨u, hu⟩ := shorter
          cases hz : text pre ++ z with
          | nil => exact Or.inl rfl
          | cons d ds =>
            right
            left
            rw [← hu, hz]
            rfl
        rw [text_cons, List.append_assoc, lexFrom_some (special?_follow found follow), e, List.cons_append]

/-- The lexemes of a stretch between two lexemes. -/
theorem lexFrom_drop {lineBlank : Bool} {t : Text} {pre suf : List Lexeme} (h : lexFrom lineBlank t = pre ++ suf) :
    ∃ lineBlank', lexFrom lineBlank' (text suf) = suf := by
  induction pre generalizing lineBlank t with
  | nil =>
    refine ⟨lineBlank, ?_⟩
    rw [List.nil_append] at h
    rw [← h, text_lexFrom]
  | cons l pre ih =>
    cases t with
    | nil =>
      rw [lexFrom_nil] at h
      cases h
    | cons c cs =>
      cases found : special? lineBlank (c :: cs) with
      | none =>
        rw [lexFrom_none found, List.cons_append, List.cons.injEq] at h
        exact ih h.2
      | some p =>
        rw [lexFrom_some found, List.cons_append, List.cons.injEq] at h
        exact ih h.2

/-! ## Comments blanked -/

/-- a lexeme with comments blanked and the blanks of code mapped -/
def faded (φ : Char → Char) : Lexeme → Text
  | code c => [φ c]
  | remark body => (blankOut body).map φ
  | literal opening body closing => opening ++ body ++ closing

/-- what the faded lexeme is read as: blanks of code in place of a comment -/
def refaded (φ : Char → Char) : Lexeme → List Lexeme
  | code c => [code (φ c)]
  | remark body => ((blankOut body).map φ).map code
  | literal opening body closing => [literal opening body closing]

def fadedText (φ : Char → Char) (ls : List Lexeme) : Text := ls.flatMap (faded φ)

@[simp] theorem fadedText_nil (φ : Char → Char) : fadedText φ [] = [] := rfl

@[simp] theorem fadedText_cons (φ : Char → Char) (l : Lexeme) (ls : List Lexeme) :
    fadedText φ (l :: ls) = l.faded φ ++ fadedText φ ls := rfl

@[simp] theorem fadedText_append (φ : Char → Char) (ls ms : List Lexeme) :
    fadedText φ (ls ++ ms) = fadedText φ ls ++ fadedText φ ms := List.flatMap_append

/-- Lexemes that keep their places when comments are blanked and blanks mapped: no `#` is code, and if line feeds are
changed, no apostrophe is code and every literal closes on its line, but for a raw one that reaches to the end of the
text. -/
structure Clean (φ : Char → Char) (ls : List Lexeme) : Prop where
  hash : code '#' ∉ ls
  feed : φ '\n' = '\n' ∨
    ∀ l ∈ ls, l ≠ code '\'' ∧ ∀ opening body closing, l = literal opening body closing →
      '\n' ∉ l.raw ∧ (closing ≠ [] ∨ opening = ['"', '"', '"'])

theorem Clean.of_subset {φ : Char → Char} {ls ms : List Lexeme} (h : Clean φ ls) (sub : ms ⊆ ls) : Clean φ ms :=
  ⟨fun hm => h.hash (sub hm), h.feed.imp_right fun all l hl => all l (sub hl)⟩

section
variable {φ : Char → Char}

theorem blankOut_mem {t : Text} {c : Char} (h : c ∈ blankOut t) : c = ' ' ∨ c = '\n' := by
  obtain ⟨d, -, rfl⟩ := List.mem_map.1 h
  split
  · exact Or.inr rfl
  · exact Or.inl rfl

theorem map_blankOut_mem (hφ : BlankMap φ) {t : Text} {c : Char} (h : c ∈ (blankOut t).map φ) : c = ' ' ∨ c = '\n' := by
  obtain ⟨d, hd, rfl⟩ := List.mem_map.1 h
  rcases blankOut_mem hd with rfl | rfl
  · exact Or.inl (hφ.fixes ' ' (by decide))
  · exact hφ.feed.symm

theorem Fainter.append_same {t u : Text} (s : Text) (h : Fainter t u) : Fainter (s ++ t) (s ++ u) := by
  induction s with
  | nil => exact h
  | cons c cs ih => exact Fainter.keep c ih

theorem Dimmed.append_same {t u : Text} (s : Text) (h : Dimmed t u) : Dimmed (s ++ t) (s ++ u) := by
  induction s with
  | nil => exact h
  | cons c cs ih => exact Dimmed.keep c ih

theorem fainter_remark (hφ : BlankMap φ) {t u : Text} (body : Text) (h : Fainter t u) :
    Fainter (body ++ t) ((blankOut body).map φ ++ u) := by
  induction body with
  | nil => exact h
  | cons c cs ih =>
    refine Fainter.fade c _ (map_blankOut_mem hφ (t := [c]) ?_) ih
    exact List.mem_cons_self

theorem fainter_faded (hφ : BlankMap φ) (lineBlank : Bool) (t : Text) :
    Fainter t (fadedText φ (lexFrom lineBlank t)) := by
  fun_induction lexFrom lineBlank t with
  | case1 => exact Fainter.stop _
  | case2 lineBlank c cs l rest found ih =>
    have whole := special?_append found
    simp only at whole
    rw [← whole, fadedText_cons]
    rcases special?_shape found with ⟨body, rfl, -⟩ | ⟨o, b, cl, rfl, -⟩
    · exact fainter_remark hφ body ih
    · exact ih.append_same _
  | case3 lineBlank c cs found ih =>
    rw [fadedText_cons]
    by_cases feed : c = '\n'
    · subst feed
      exact Fainter.fade _ _ hφ.feed.symm ih
    · rw [faded, hφ.fixes c feed]
      exact Fainter.keep c ih

/-- the first character of a text after fading: its own, or a space in place of a comment or line feed -/
theorem head?_faded (hφ : BlankMap φ) (d : Char) (ds : Text) :
    (fadedText φ (lexFrom false (d :: ds))).head? = some d ∨
      (fadedText φ (lexFrom false (d :: ds))).head? = some ' ' ∧ (d = '/' ∨ d = '\n' ∧ φ '\n' = ' ') := by
  cases found : special? false (d :: ds) with
  | none =>
    rw [lexFrom_none found, fadedText_cons]
    by_cases feed : d = '\n'
    · subst feed
      rcases hφ.feed with e | e
      · exact Or.inl (congrArg some e)
      · exact Or.inr ⟨congrArg some e, Or.inr ⟨rfl, e⟩⟩
    · exact Or.inl (congrArg some (hφ.fixes d feed))
  | some p =>
    obtain ⟨l, rest⟩ := p
    have whole := special?_append found
    rw [lexFrom_some found, fadedText_cons]
    rcases special?_shape found with ⟨body, rfl, shape⟩ | ⟨o, b, cl, rfl, shape⟩
    · right
      have slash := shape.head.resolve_right fun e => Bool.false_ne_true e.2
      obtain ⟨cs, rfl⟩ := List.head?_eq_some_iff.1 slash
      obtain ⟨rfl, -⟩ := List.cons.inj whole
      exact ⟨congrArg some (hφ.fixes ' ' (by decide)), Or.inl rfl⟩
    · left
      obtain ⟨c, cs, rfl⟩ := List.exists_cons_of_ne_nil shape.opened.1
      obtain ⟨rfl, -⟩ := List.cons.inj whole
      rfl

theorem head?_faded_feed (feed : φ '\n' = '\n') (lineBlank : Bool) {t : Text} (h : t = [] ∨ t.head? = some '\n') :
    fadedText φ (lexFrom lineBlank t) = [] ∨ (fadedText φ (lexFrom lineBlank t)).head? = some '\n' := by
  rcases h with rfl | h
  · left
    rw [lexFrom_nil, fadedText_nil]
  · obtain ⟨ds, rfl⟩ := List.head?_eq_some_iff.1 h
    right
    have plain : special? lineBlank ('\n' :: ds) = none := rfl
    rw [lexFrom_none plain, fadedText_cons, faded, feed]
    rfl

theorem dimmed_faded (hφ : BlankMap φ) (feed : φ '\n' = '\n') (lineBlank : Bool) (t : Text) :
    Dimmed t (fadedText φ (lexFrom lineBlank t)) := by
  have same : ∀ c, φ c = c := by
    intro c
    by_cases e : c = '\n'
    · rw [e, feed]
    · exact hφ.fixes c e
  fun_induction lexFrom lineBlank t with
  | case1 => exact Dimmed.stop _
  | case2 lineBlank c cs l rest found ih =>
    have whole := special?_append found
    simp only at whole
    rw [← whole, fadedText_cons]
    rcases special?_shape found with ⟨body, rfl, shape⟩ | ⟨o, b, cl, rfl, -⟩
    · rw [raw, faded, List.map_congr_left (g := id) fun c _ => same c, List.map_id]
      rcases shape.stop with ⟨p, rfl⟩ | ends
      · rw [List.append_assoc]
        exact Dimmed.block p ih
      · refine Dimmed.line ?_ (head?_faded_feed feed false ends)
        rintro rfl
        rcases shape.head with e | e
        · cases e
        · cases e.1
    · exact ih.append_same _
  | case3 lineBlank c cs found ih =>
    rw [fadedText_cons, faded, same]
    exact Dimmed.keep c ih

theorem special?_none_faded (hφ : BlankMap φ) {lineBlank : Bool} {c : Char} {t : Text}
    (h : special? lineBlank (c :: t) = none) (clean : Clean φ (lexFrom lineBlank (c :: t))) (lineBlank' : Bool) :
    special? lineBlank' (φ c :: fadedText φ (lexFrom (lineBlankAfter lineBlank c) t)) = none := by
  rw [lexFrom_none h] at clean
  by_cases feed : c = '\n'
  · subst feed
    rcases hφ.feed with e | e
    · rw [e]
      rfl
    · rw [e]
      rfl
  · rw [hφ.fixes c feed]
    by_cases apostrophe : c = '\''
    · subst apostrophe
      have keeps : φ '\n' = '\n' := clean.feed.resolve_right fun all => (all _ List.mem_cons_self).1 rfl
      exact special?_apostrophe_of_dimmed h (dimmed_faded hφ keeps _ t) lineBlank'
    · refine special?_none_of_fainter h ?_ apostrophe (fainter_faded hφ _ t) lineBlank'
      rintro rfl
      exact clean.hash List.mem_cons_self

theorem follows_faded (hφ : BlankMap φ) {o b cl rest : Text} (shape : LiteralShape o b cl rest)
    (closed : φ '\n' = '\n' ∨ cl ≠ [] ∨ o = ['"', '"', '"']) : Follows (literal o b cl) rest (fadedText φ (lexFrom false rest)) := by
  cases rest with
  | nil =>
    left
    rw [lexFrom_nil, fadedText_nil]
  | cons d ds =>
    right
    rcases head?_faded hφ d ds with same | ⟨space, slash | ⟨rfl, feed⟩⟩
    · exact Or.inl same
    · right
      refine ⟨by simp, by rw [space]; decide, o, b, cl, rfl, fun none => ?_⟩
      subst slash
      rcases shape.unclosed none with e | ⟨-, e⟩
      · cases e
      · cases e
    · right
      refine ⟨by simp, by rw [space]; decide, o, b, cl, rfl, fun none => ?_⟩
      rcases closed with keeps | closed | raw
      · rw [feed] at keeps
        exact absurd keeps (by decide)
      · exact closed none
      · rcases shape.unclosed none with e | ⟨string, -⟩
        · cases e
        · exact string raw

theorem special?_plain {lineBlank : Bool} {c : Char} (h : c = ' ' ∨ c = '\n') (t : Text) :
    special? lineBlank (c :: t) = none := by
  rcases h with rfl | rfl
  · rfl
  · rfl

theorem lexFrom_blanks {s : Text} (h : ∀ c ∈ s, c = ' ' ∨ c = '\n') (lineBlank : Bool) (t : Text) :
    ∃ lineBlank', lexFrom lineBlank (s ++ t) = s.map code ++ lexFrom lineBlank' t := by
  induction s generalizing lineBlank with
  | nil => exact ⟨lineBlank, rfl⟩
  | cons c cs ih =>
    obtain ⟨after, e⟩ := ih (fun d hd => h d (List.mem_cons_of_mem c hd)) (lineBlankAfter lineBlank c)
    refine ⟨after, ?_⟩
    rw [List.cons_append, lexFrom_none (special?_plain (h c List.mem_cons_self) _), e]
    rfl

/-- **Comments blanked.** A text with its comments blanked has the same lexemes, but for blanks in place of
comments. -/
theorem lexFrom_faded (hφ : BlankMap φ) {lineBlank : Bool} {t : Text} (clean : Clean φ (lexFrom lineBlank t))
    (lineBlank' : Bool) :
    lexFrom lineBlank' (fadedText φ (lexFrom lineBlank t)) = (lexFrom lineBlank t).flatMap (refaded φ) := by
  fun_induction lexFrom lineBlank t generalizing lineBlank' with
  | case1 => exact lexFrom_nil _
  | case2 lineBlank c cs l rest found ih =>
    have rest_clean : Clean φ (lexFrom false rest) := clean.of_subset (List.subset_cons_self _ _)
    rw [fadedText_cons, List.flatMap_cons]
    rcases special?_shape found with ⟨body, rfl, shape⟩ | ⟨o, b, cl, rfl, shape⟩
    · obtain ⟨after, e⟩ := lexFrom_blanks (fun c hc => map_blankOut_mem hφ hc) lineBlank' (fadedText φ (lexFrom false rest))
      rw [faded, e, ih rest_clean]
      rfl
    · have closed := clean.feed.imp_right fun all => ((all _ List.mem_cons_self).2 o b cl rfl).2
      have again := special?_follow found (follows_faded hφ shape closed)
      obtain ⟨d, ds, rfl⟩ := List.exists_cons_of_ne_nil shape.opened.1
      have hash : d ≠ '#' := by
        rintro rfl
        exact absurd (shape.opened.2 '#' List.mem_cons_self) (by decide)
      simp only [raw, List.cons_append] at again
      simp only [faded, refaded, List.cons_append]
      rw [special?_lineBlank hash lineBlank lineBlank'] at again
      rw [lexFrom_some again, ih rest_clean]
      rfl
  | case3 lineBlank c cs found ih =>
    have plain := special?_none_faded hφ found (by rwa [lexFrom_none found]) lineBlank'
    rw [fadedText_cons, faded, List.cons_append, List.nil_append, lexFrom_none plain,
      ih (clean.of_subset (List.subset_cons_self _ _))]
    rfl

theorem flatMap_masked_code (literals : Bool) (t : Text) : (t.map code).flatMap (masked literals) = t := by
  induction t with
  | nil => rfl
  | cons c cs ih => rw [List.map_cons, List.flatMap_cons, ih]; rfl

theorem blankOut_feed {t : Text} (h : '\n' ∉ t) : '\n' ∉ blankOut t := by
  intro hm
  obtain ⟨d, hd, e⟩ := List.mem_map.1 hm
  split at e
  · next feed => exact h (feed ▸ hd)
  · exact absurd e (by decide)

theorem map_literal (hφ : BlankMap φ) {t : Text} (h : φ '\n' = '\n' ∨ '\n' ∉ t) : t.map φ = t := by
  rcases h with keeps | line
  · have same : ∀ c, φ c = c := by
      intro c
      by_cases e : c = '\n'
      · rw [e, keeps]
      · exact hφ.fixes c e
    rw [List.map_congr_left (g := id) fun c _ => same c, List.map_id]
  · exact hφ.map_eq_self line

theorem masked_refaded (hφ : BlankMap φ) (literals : Bool) {l : Lexeme} {ls : List Lexeme} (clean : Clean φ ls)
    (hl : l ∈ ls) : (l.refaded φ).flatMap (masked literals) = (l.masked literals).map φ := by
  cases l with
  | code c => rfl
  | remark body => exact flatMap_masked_code literals _
  | literal o b cl =>
    have line : φ '\n' = '\n' ∨ '\n' ∉ o ++ b ++ cl :=
      clean.feed.imp_right fun all => ((all _ hl).2 o b cl rfl).1
    have line' : φ '\n' = '\n' ∨ '\n' ∉ o ++ (if literals then blankOut b else b) ++ cl := by
      refine line.imp_right fun line => ?_
      simp only [List.mem_append, not_or] at line ⊢
      refine ⟨⟨line.1.1, ?_⟩, line.2⟩
      split
      · exact blankOut_feed line.1.2
      · exact line.1.2
    rw [refaded, List.flatMap_cons, List.flatMap_nil, List.append_nil, masked, map_literal hφ line']

end

end Lexeme

/-! ## Whole texts -/

/-- a text with comments blanked and the blanks of its code mapped -/
def fade (φ : Char → Char) (t : Text) : Text := Lexeme.fadedText φ (lex t)

theorem fade_id (t : Text) : fade id t = mask false t := by
  unfold fade mask Lexeme.fadedText
  congr 1
  funext l
  cases l <;> simp [Lexeme.faded, Lexeme.masked]

section
variable {φ : Char → Char} {t : Text}

theorem lex_fade (hφ : BlankMap φ) (clean : Lexeme.Clean φ (lex t)) :
    lex (fade φ t) = (lex t).flatMap (Lexeme.refaded φ) := Lexeme.lexFrom_faded hφ clean true

/-- Blanking a text once its comments are blanked is blanking the text. -/
theorem mask_fade (hφ : BlankMap φ) (clean : Lexeme.Clean φ (lex t)) (literals : Bool) :
    mask literals (fade φ t) = (mask literals t).map φ := by
  rw [mask, lex_fade hφ clean, mask, List.flatMap_assoc, List.map_flatMap]
  exact congrArg List.flatten (List.map_congr_left fun l hl => Lexeme.masked_refaded hφ literals clean hl)

end

end EndpointSurvey
