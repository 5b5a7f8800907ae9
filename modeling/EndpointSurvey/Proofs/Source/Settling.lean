/-
Text with its comments blanked and each run of blanks made one space, in literals too. Where every lexeme is plain, such
a text has the lexemes one expects: those of the text itself, spaces in place of blanks and comments, and each literal
with its own blanks run together.

Main statements: `text_settle` (what the settled lexemes are read off) and `lexFrom_settle` (it is lexed as they are).
-/
import EndpointSurvey.Proofs.Source.Relexing
import EndpointSurvey.Proofs.Text.Settling

namespace EndpointSurvey

namespace Lexeme

/-! ## Settled lexemes -/

/-- a blank of code, or a remark -/
def gap : Lexeme → Bool
  | code c => blank c
  | remark _ => true
  | literal .. => false

/-- the lexeme with each run of blanks in a literal made one space -/
def settled : Lexeme → Lexeme
  | literal opening body closing => literal opening (Text.settle false body) closing
  | l => l

/-- the lexemes with each run of blanks and remarks made one space; `afterBlank` says that one has just been passed -/
def settle (afterBlank : Bool) : List Lexeme → List Lexeme
  | [] => []
  | l :: ls =>
    if l.gap then if afterBlank then settle true ls else code ' ' :: settle true ls
    else l.settled :: settle false ls

@[simp] theorem settle_nil (afterBlank : Bool) : settle afterBlank [] = [] := rfl

theorem settle_solid {l : Lexeme} (h : l.gap = false) (afterBlank : Bool) (ls : List Lexeme) :
    settle afterBlank (l :: ls) = l.settled :: settle false ls := by
  rw [settle, if_neg (by rw [h]; exact Bool.false_ne_true)]

theorem settle_gap {l : Lexeme} (h : l.gap = true) (ls : List Lexeme) :
    settle false (l :: ls) = code ' ' :: settle true ls ∧ settle true (l :: ls) = settle true ls := by
  constructor
  · rw [settle, if_pos h, if_neg Bool.false_ne_true]
  · rw [settle, if_pos h, if_pos rfl]

/-! ## Plain lexemes -/

/-- the opening marks of strings in which a backslash hides the next character -/
def regularMarks : List Text := [['"'], ['$', '"'], ['$', '$', '"']]

/-- the opening marks of strings in which a doubled quote stands for one -/
def verbatimMarks : List Text := [['@', '"'], ['@', '@', '"'], ['$', '@', '"']]

/-- The lexeme is one of well-formed code, and a splitter sees it as the lexer does: an apostrophe or `#` is no code,
and a literal is closed, is no raw string and no verbatim one opened by `@$`, and has no quote between apostrophes. -/
def Plain : Lexeme → Prop
  | code c => c ≠ '\'' ∧ c ≠ '#'
  | remark body => body ≠ []
  | literal opening body closing =>
    (opening ∈ regularMarks ∨ opening ∈ verbatimMarks) ∧ closing = ['"'] ∨
      opening = ['\''] ∧ closing = ['\''] ∧ '"' ∉ body

instance : (l : Lexeme) → Decidable l.Plain
  | code c => inferInstanceAs (Decidable (c ≠ '\'' ∧ c ≠ '#'))
  | remark body => inferInstanceAs (Decidable (body ≠ []))
  | literal opening body closing => inferInstanceAs (Decidable
      ((opening ∈ regularMarks ∨ opening ∈ verbatimMarks) ∧ closing = ['"'] ∨
        opening = ['\''] ∧ closing = ['\''] ∧ '"' ∉ body))

/-- the ways in which a plain literal stands in front of a text -/
inductive PlainLiteral (t : Text) : Lexeme → Text → Prop
  | regular {opening body x rest : Text} (marks : opening ∈ regularMarks) (whole : t = opening ++ x)
    (inside : regularBody x = (body, '"' :: rest)) (two : opening = ['"'] → ¬ ['"', '"'] <+: x) :
    PlainLiteral t (literal opening body ['"']) rest
  | verbatim {opening body x rest : Text} (marks : opening ∈ verbatimMarks) (whole : t = opening ++ x)
    (inside : verbatimBody x = (body, '"' :: rest)) : PlainLiteral t (literal opening body ['"']) rest
  | character {body x rest : Text} (whole : t = '\'' :: x) (free : '"' ∉ body)
    (inside : characterBody? characterRoom x = some (body, rest)) : PlainLiteral t (literal ['\''] body ['\'']) rest

theorem plainLiteral_of_special? {lineBlank : Bool} {t opening body closing rest : Text}
    (h : special? lineBlank t = some (literal opening body closing, rest))
    (plain : (literal opening body closing).Plain) : PlainLiteral t (literal opening body closing) rest := by
  have string : ∀ {opening' x : Text} {bodyOf : Text → Text × Text},
      stringAfter opening' bodyOf x = (literal opening body closing, rest) → opening' ≠ ['\''] →
        opening = opening' ∧ closing = ['"'] ∧ bodyOf x = (body, '"' :: rest) := by
    intro opening' x bodyOf found other
    rcases stringAfter_cases found with ⟨body', inside, e⟩ | ⟨body', -, -, e⟩
    all_goals
      cases e
      rcases plain with ⟨-, closed⟩ | ⟨apostrophe, -⟩
      · first
          | exact ⟨rfl, rfl, inside⟩
          | cases closed
      · exact absurd apostrophe other
  unfold special? at h
  split at h
  · cases h
  · split at h <;> cases h
  · unfold blockAfter at h
    split at h <;> cases h
  · unfold rawAfter at h
    split at h <;> (cases h; simp [Plain, regularMarks, verbatimMarks] at plain)
  · obtain ⟨rfl, rfl, inside⟩ := string (Option.some.inj h) (by decide)
    exact .verbatim (by decide) rfl inside
  · obtain ⟨rfl, rfl, inside⟩ := string (Option.some.inj h) (by decide)
    exact .regular (by decide) rfl inside fun e => absurd e (by decide)
  · obtain ⟨rfl, rfl, inside⟩ := string (Option.some.inj h) (by decide)
    exact .verbatim (by decide) rfl inside
  · obtain ⟨rfl, rfl, -⟩ := string (Option.some.inj h) (by decide)
    simp [Plain, regularMarks, verbatimMarks] at plain
  · obtain ⟨rfl, rfl, inside⟩ := string (Option.some.inj h) (by decide)
    exact .verbatim (by decide) rfl inside
  · obtain ⟨rfl, rfl, inside⟩ := string (Option.some.inj h) (by decide)
    exact .regular (by decide) rfl inside fun e => absurd e (by decide)
  · next raw =>
    obtain ⟨rfl, rfl, inside⟩ := string (Option.some.inj h) (by decide)
    refine .regular (by decide) rfl inside fun _ two => ?_
    obtain ⟨more, e⟩ := two
    exact raw more (by rw [← e]; rfl)
  · obtain ⟨⟨body', rest'⟩, inside, e⟩ := Option.map_eq_some_iff.1 h
    cases e
    rcases plain with ⟨marks | marks, -⟩ | ⟨-, -, free⟩
    · exact absurd marks (by decide)
    · exact absurd marks (by decide)
    · exact .character rfl free inside
  · cases h

/-! ## Bodies -/

/-- The settled body of a string ends at the same quote. -/
theorem regularBody_settle {x body rest : Text} (h : regularBody x = (body, '"' :: rest)) (afterBlank : Bool)
    (rest' : Text) : regularBody (Text.settle afterBlank body ++ '"' :: rest') =
      (Text.settle afterBlank body, '"' :: rest') := by
  have space : ∀ {t b r : Text}, regularBody t = (b, r) → regularBody (' ' :: t) = (' ' :: b, r) := by
    intro t b r found
    rw [regularBody, found]
    · rfl
    · exact fun d ds e _ => absurd e (by decide)
  fun_induction regularBody x generalizing body rest afterBlank with
  | case1 => cases h
  | case2 c cs b r found ih =>
    cases h
    rw [Text.settle_solid (by decide)]
    cases hc : blank c with
    | false => rw [Text.settle_solid hc, List.cons_append, List.cons_append, regularBody, ih found]
    | true => rw [(Text.settle_blank hc b).1, List.cons_append, List.cons_append, regularBody, ih found]
  | case3 c cs hidden ends =>
    cases h
    rfl
  | case4 c cs hidden inside b r found ih =>
    cases h
    cases hc : blank c with
    | false =>
      have visible : c ≠ '\\' := by
        rintro rfl
        cases cs with
        | nil => cases found
        | cons d ds => exact hidden d ds rfl rfl
      rw [Text.settle_solid hc, List.cons_append, regularBody, if_neg inside, ih found]
      exact fun d ds e _ => visible e
    | true =>
      cases afterBlank with
      | false => rw [(Text.settle_blank hc b).1, List.cons_append, space (ih found true)]
      | true => rw [(Text.settle_blank hc b).2, ih found]

/-- The settled body of a verbatim string ends at the same quote, if no quote follows it. -/
theorem verbatimBody_settle {x body rest : Text} (h : verbatimBody x = (body, '"' :: rest)) (afterBlank : Bool)
    {rest' : Text} (single : rest'.head? ≠ some '"') :
    verbatimBody (Text.settle afterBlank body ++ '"' :: rest') = (Text.settle afterBlank body, '"' :: rest') := by
  have stop : verbatimBody ('"' :: rest') = ([], '"' :: rest') := by
    rw [verbatimBody, if_pos rfl]
    rintro cs _ rfl
    exact single rfl
  have space : ∀ {t b r : Text}, verbatimBody t = (b, r) → verbatimBody (' ' :: t) = (' ' :: b, r) := by
    intro t b r found
    rw [verbatimBody, found]
    · rfl
    · exact fun ds e => absurd e (by decide)
  fun_induction verbatimBody x generalizing body rest afterBlank with
  | case1 => cases h
  | case2 cs b r found ih =>
    cases h
    rw [Text.settle_solid (by decide), Text.settle_solid (by decide), List.cons_append, List.cons_append, verbatimBody,
      ih found]
  | case3 cs doubled =>
    cases h
    exact stop
  | case4 c cs doubled inside b r found ih =>
    cases h
    cases hc : blank c with
    | false =>
      rw [Text.settle_solid hc, List.cons_append, verbatimBody, if_neg inside, ih found]
      exact fun ds e => absurd e inside
    | true =>
      cases afterBlank with
      | false => rw [(Text.settle_blank hc b).1, List.cons_append, space (ih found true)]
      | true => rw [(Text.settle_blank hc b).2, ih found]

/-- The settled body of a character literal ends at the same apostrophe, with as much room or more. -/
theorem characterBody?_settle {room : Nat} {x body rest : Text} (h : characterBody? room x = some (body, rest))
    (afterBlank : Bool) {more : Nat} (enough : room ≤ more) (rest' : Text) :
    characterBody? more (Text.settle afterBlank body ++ '\'' :: rest') = some (Text.settle afterBlank body, rest') := by
  fun_induction characterBody? room x generalizing body rest afterBlank more with
  | case1 => cases h
  | case2 => cases h
  | case3 room c cs ih =>
    obtain ⟨⟨b, r⟩, found, e⟩ := Option.map_eq_some_iff.1 h
    cases e
    obtain ⟨more, rfl⟩ : ∃ n, more = n + 1 := ⟨more - 1, by omega⟩
    rw [Text.settle_solid (by decide)]
    cases hc : blank c with
    | false =>
      rw [Text.settle_solid hc, List.cons_append, List.cons_append, characterBody?, ih found false (by omega)]
      rfl
    | true =>
      rw [(Text.settle_blank hc b).1, List.cons_append, List.cons_append, characterBody?, ih found true (by omega)]
      rfl
  | case4 room cs hidden =>
    cases h
    obtain ⟨more, rfl⟩ : ∃ n, more = n + 1 := ⟨more - 1, by omega⟩
    rw [Text.settle_nil, List.nil_append, characterBody?, if_pos rfl]
    exact fun d ds e _ => absurd e (by decide)
  | case5 => cases h
  | case6 room c cs hidden inside line ih =>
    obtain ⟨⟨b, r⟩, found, e⟩ := Option.map_eq_some_iff.1 h
    cases e
    obtain ⟨more, rfl⟩ : ∃ n, more = n + 1 := ⟨more - 1, by omega⟩
    cases hc : blank c with
    | false =>
      have visible : c ≠ '\\' := by
        rintro rfl
        cases cs with
        | nil => cases room <;> cases found
        | cons d ds => exact hidden d ds rfl rfl
      rw [Text.settle_solid hc, List.cons_append, characterBody?, if_neg inside, if_neg line, ih found false (by omega)]
      · rfl
      · exact fun d ds e _ => visible e
    | true =>
      cases afterBlank with
      | false =>
        rw [(Text.settle_blank hc b).1, List.cons_append, characterBody?, if_neg (by decide), if_neg (by decide),
          ih found true (by omega)]
        · rfl
        · exact fun d ds e _ => absurd e (by decide)
      | true => rw [(Text.settle_blank hc b).2, ih found true (by omega)]

/-! ## Settled lexemes lexed -/

theorem masked_solid {l : Lexeme} (h : l.gap = false) : l.masked false = l.raw := by
  cases l with
  | code c => rfl
  | remark body => cases h
  | literal opening body closing => rfl

theorem masked_of_gap {l : Lexeme} (h : l.gap = true) : l.masked true = l.masked false := by
  cases l with
  | code c => rfl
  | remark body => rfl
  | literal opening body closing => cases h

theorem masked_gap {l : Lexeme} (h : l.gap = true) (plain : l.Plain) :
    l.masked false ≠ [] ∧ ∀ c ∈ l.masked false, blank c = true := by
  cases l with
  | code c =>
    refine ⟨List.cons_ne_nil _ _, ?_⟩
    rintro d (_ | ⟨_, ⟨⟩⟩)
    exact h
  | remark body =>
    refine ⟨fun none => plain (List.map_eq_nil_iff.1 none), fun c hc => ?_⟩
    rcases blankOut_mem hc with rfl | rfl <;> decide
  | literal opening body closing => cases h

theorem marks_solid {opening : Text} (h : opening ∈ regularMarks ∨ opening ∈ verbatimMarks) :
    opening ≠ [] ∧ ∀ c ∈ opening, blank c = false := by
  have listed : ∀ marks ∈ regularMarks ++ verbatimMarks, marks ≠ [] ∧ marks.all (!blank ·) = true := by decide
  obtain ⟨filled, solid⟩ := listed opening (List.mem_append.2 h)
  exact ⟨filled, fun c hc => by simpa using List.all_eq_true.1 solid c hc⟩

/-- The marks of a plain literal are solid. -/
theorem Plain.marks {opening body closing : Text} (h : (literal opening body closing).Plain) :
    (opening ≠ [] ∧ ∀ c ∈ opening, blank c = false) ∧ ∃ mark, closing = [mark] ∧ blank mark = false := by
  rcases h with ⟨listed, rfl⟩ | ⟨rfl, rfl, -⟩
  · exact ⟨marks_solid listed, '"', rfl, by decide⟩
  · exact ⟨⟨List.cons_ne_nil _ _, Text.forall_of_all (by decide)⟩, '\'', rfl, by decide⟩

/-- A lexeme that is no gap settles on its own. -/
theorem settle_raw {l : Lexeme} (h : l.gap = false) (plain : l.Plain) (afterBlank : Bool) (t : Text) :
    Text.settle afterBlank (l.raw ++ t) = l.settled.raw ++ Text.settle false t := by
  cases l with
  | code c => exact Text.settle_solid h afterBlank t
  | remark body => cases h
  | literal opening body closing =>
    obtain ⟨⟨opened, solid⟩, mark, rfl, closed⟩ := plain.marks
    calc Text.settle afterBlank (opening ++ body ++ [mark] ++ t)
        = Text.settle afterBlank (opening ++ (body ++ ([mark] ++ t))) := by simp only [List.append_assoc]
      _ = opening ++ Text.settle false (body ++ ([mark] ++ t)) := by
        rw [Text.settle_append_solid opened (fun c hc => solid c (List.mem_of_getLast? hc)), Text.settle_eq_self solid]
      _ = opening ++ (Text.settle false body ++ mark :: Text.settle false t) := by
        rw [Text.settle_append, List.cons_append, Text.settle_solid closed, List.nil_append]
      _ = _ := by simp only [settled, raw, List.append_assoc, List.cons_append, List.nil_append]

/-- The settled lexemes are those of the text with comments blanked, settled. -/
theorem text_settle {ls : List Lexeme} (plain : ∀ l ∈ ls, l.Plain) (afterBlank : Bool) :
    text (settle afterBlank ls) = Text.settle afterBlank (ls.flatMap (masked false)) := by
  induction ls generalizing afterBlank with
  | nil => rfl
  | cons l ls ih =>
    obtain ⟨here, later⟩ := List.forall_mem_cons.1 plain
    rw [List.flatMap_cons]
    cases h : l.gap with
    | false => rw [settle_solid h, text_cons, ih later, masked_solid h, settle_raw h here]
    | true =>
      obtain ⟨filled, blanks⟩ := masked_gap h here
      obtain ⟨opens, passed⟩ := Text.settle_blanks filled blanks (ls.flatMap (masked false))
      cases afterBlank with
      | false =>
        rw [(settle_gap h ls).1, text_cons, ih later, opens]
        rfl
      | true => rw [(settle_gap h ls).2, ih later, passed]

/-- What a text with its comments blanked begins with up to a blank, the text begins with. -/
theorem prefix_of_masked {p : Text} (solid : ∀ c ∈ p, blank c = false) {ls : List Lexeme}
    (plain : ∀ l ∈ ls, l.Plain) (h : p <+: ls.flatMap (masked false)) : p <+: text ls := by
  induction ls generalizing p with
  | nil => exact h
  | cons l ls ih =>
    obtain ⟨here, later⟩ := List.forall_mem_cons.1 plain
    rw [List.flatMap_cons] at h
    cases gap : l.gap with
    | true =>
      -- such a text starts with a blank, and so only the empty text is meant
      obtain ⟨filled, blanks⟩ := masked_gap gap here
      obtain ⟨d, ds, e⟩ := List.exists_cons_of_ne_nil filled
      rw [e, List.cons_append] at h
      cases p with
      | nil => exact List.nil_prefix
      | cons c cs =>
        obtain rfl := (List.cons_prefix_cons.1 h).1
        have never := blanks c (e ▸ List.mem_cons_self)
        rw [solid c List.mem_cons_self] at never
        cases never
    | false =>
      rw [masked_solid gap] at h
      rw [text_cons]
      rcases List.prefix_or_prefix_of_prefix h (List.prefix_append l.raw _) with short | ⟨more, rfl⟩
      · exact short.trans (List.prefix_append _ _)
      · rw [List.prefix_append_right_inj] at h ⊢
        exact ih (fun c hc => solid c (List.mem_append_right _ hc)) later h

/-- What a settled text begins with up to a blank, the text begins with. -/
theorem prefix_of_settle {p t : Text} (solid : ∀ c ∈ p, blank c = false) {lineBlank : Bool}
    (plain : ∀ l ∈ lexFrom lineBlank t, l.Plain) (h : p <+: text (settle false (lexFrom lineBlank t))) : p <+: t := by
  rw [text_settle plain] at h
  rw [← text_lexFrom lineBlank t]
  exact prefix_of_masked solid plain (Text.prefix_of_settle solid h)

theorem head?_of_prefix {t u : Text} {c : Char} (ahead : [c] <+: u → [c] <+: t) (h : u.head? = some c) :
    t.head? = some c := by
  obtain ⟨cs, rfl⟩ := List.head?_eq_some_iff.1 h
  obtain ⟨ds, rfl⟩ := ahead ⟨cs, rfl⟩
  rfl

/-- A plain character of code is one in front of every text that begins no differently up to a blank. -/
theorem special?_none_of_prefix {lineBlank : Bool} {c : Char} {t t' : Text} (plain : (code c).Plain)
    (h : special? lineBlank (c :: t) = none)
    (ahead : ∀ p : Text, (∀ d ∈ p, blank d = false) → p <+: t' → p <+: t) (lineBlank' : Bool) :
    special? lineBlank' (c :: t') = none := by
  have solid : ∀ opening ∈ openings, ∀ d ∈ opening, blank d = false := by decide
  exact special?_none_of_openings h plain.2 plain.1
    (fun d p mem => ahead p fun e he => solid _ mem e (.tail d he)) lineBlank'

/-- A plain literal is settled in front of every text that begins no differently. -/
theorem special?_settled {lineBlank : Bool} {t rest rest' : Text} {l : Lexeme} (found : PlainLiteral t l rest)
    (ahead : ['"'] <+: rest' → ['"'] <+: rest) :
    special? lineBlank (l.settled.raw ++ rest') = some (l.settled, rest') := by
  cases found with
  | @regular opening body x rest marks whole inside two =>
    have after : stringAfter opening regularBody (Text.settle false body ++ '"' :: rest') =
        (literal opening (Text.settle false body) ['"'], rest') :=
      stringAfter_of_body (regularBody_settle inside false rest')
    have string : ∀ lead : Text, lead ++ (Text.settle false body ++ '"' :: rest') =
        lead ++ Text.settle false body ++ ['"'] ++ rest' := fun lead => by simp
    simp only [regularMarks, List.mem_cons, List.not_mem_nil, or_false] at marks
    simp only [settled, raw, ← string]
    rw [← after]
    rcases marks with rfl | rfl | rfl
    · refine special?_quote fun (twice : ['"', '"'] <+: Text.settle false body ++ '"' :: rest') => two rfl ?_
      rw [← regularBody_append x, inside]
      cases body with
      | nil =>
        obtain ⟨more, e⟩ := twice
        obtain ⟨others, rfl⟩ := ahead ⟨more, (List.cons.inj e).2⟩
        exact ⟨others, rfl⟩
      | cons c cs =>
        -- the body starts with another character, and settled it starts with that one or with a space
        exfalso
        cases hc : blank c with
        | true =>
          rw [(Text.settle_blank hc cs).1, List.cons_append, List.cons_prefix_cons] at twice
          exact absurd twice.1 (by decide)
        | false =>
          rw [Text.settle_solid hc, List.cons_append, List.cons_prefix_cons] at twice
          exact regularBody_head inside (congrArg some twice.1.symm)
    · rfl
    · rfl
  | @verbatim opening body x rest marks whole inside =>
    have single : rest'.head? ≠ some '"' := fun quoted => by
      have := head?_of_prefix ahead quoted
      simpa [this] using verbatimBody_rest inside
    have after : stringAfter opening verbatimBody (Text.settle false body ++ '"' :: rest') =
        (literal opening (Text.settle false body) ['"'], rest') :=
      stringAfter_of_body (verbatimBody_settle inside false single)
    have string : ∀ lead : Text, lead ++ (Text.settle false body ++ '"' :: rest') =
        lead ++ Text.settle false body ++ ['"'] ++ rest' := fun lead => by simp
    simp only [verbatimMarks, List.mem_cons, List.not_mem_nil, or_false] at marks
    simp only [settled, raw, ← string]
    rw [← after]
    rcases marks with rfl | rfl | rfl <;> rfl
  | @character body x rest whole free inside =>
    have closed := characterBody?_settle inside false (Nat.le_refl _) rest'
    simp only [settled, raw, List.append_assoc, List.cons_append, List.nil_append]
    show (characterBody? characterRoom (Text.settle false body ++ '\'' :: rest')).map _ = _
    rw [closed]
    rfl

/-- **A settled text has the settled lexemes**, where all lexemes are plain. -/
theorem lexFrom_settle {lineBlank : Bool} {t : Text} (plain : ∀ l ∈ lexFrom lineBlank t, l.Plain)
    (lineBlank' afterBlank : Bool) : lexFrom lineBlank' (text (settle afterBlank (lexFrom lineBlank t))) =
      settle afterBlank (lexFrom lineBlank t) := by
  have space : ∀ lineBlank' ls, lexFrom lineBlank' (' ' :: text ls) =
      code ' ' :: lexFrom (lineBlankAfter lineBlank' ' ') (text ls) := fun _ _ =>
    lexFrom_none (special?_plain (Or.inl rfl) _)
  -- the lexemes settle one by one: none begins otherwise before the settled rest than before the rest itself
  fun_induction lexFrom lineBlank t generalizing lineBlank' afterBlank with
  | case1 => exact lexFrom_nil _
  | case2 lineBlank c cs l rest found ih =>
    obtain ⟨here, later⟩ := List.forall_mem_cons.1 plain
    cases gap : l.gap with
    | true =>
      cases afterBlank with
      | false =>
        rw [(settle_gap gap _).1, text_cons, raw, List.cons_append, List.nil_append, space, ih later]
      | true => rw [(settle_gap gap _).2, ih later]
    | false =>
      cases l with
      | code d =>
        rcases special?_shape found with ⟨_, e, -⟩ | ⟨_, _, _, e, -⟩ <;> cases e
      | remark body => cases gap
      | literal opening body closing =>
        have stands := plainLiteral_of_special? found here
        rw [settle_solid gap, text_cons, lexFrom_some (special?_settled stands
          (prefix_of_settle (Text.forall_of_all (by decide)) later)), ih later]
  | case3 lineBlank c cs found ih =>
    obtain ⟨here, later⟩ := List.forall_mem_cons.1 plain
    cases gap : (code c).gap with
    | true =>
      cases afterBlank with
      | false => rw [(settle_gap gap _).1, text_cons, raw, List.cons_append, List.nil_append, space, ih later]
      | true => rw [(settle_gap gap _).2, ih later]
    | false =>
      have stays := special?_none_of_prefix here found (fun p solid => prefix_of_settle solid later) lineBlank'
      rw [settle_solid gap, text_cons]
      show lexFrom lineBlank' (c :: text _) = _
      rw [lexFrom_none stays, ih later]
      rfl

end Lexeme

end EndpointSurvey
