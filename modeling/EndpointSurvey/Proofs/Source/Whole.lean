/-
Stretches that lex on their own as they do in their document, and texts joined by line feeds.

Main statements:
- `Source.Whole.split`: such a stretch cut at a structural character;
- `Source.whole_take_keyword`: a document is such a stretch up to a keyword;
- `lexFrom_line`: what follows on another line does not change the lexemes of a text that ends in a bracket;
- `lex_join`: bracketed groups on lines of their own are lexed one by one.
-/
import EndpointSurvey.Proofs.Declaration.CutPlace
import EndpointSurvey.Proofs.Text.Spacing

namespace EndpointSurvey

open Lexeme

namespace Source

/-- a stretch that has the same lexemes on its own as in its document -/
def Whole (φ : Char → Char) (s : Source) : Prop :=
  ∃ ls, Lexed φ ls [] [] ∧ s.raw = text ls ∧ s.code = ls.flatMap (masked true)

namespace Whole

variable {φ : Char → Char} {s s' : Source}

theorem lex_eq {ls : List Lexeme} (well : Lexed φ ls [] []) : lex (text ls) = ls := by
  obtain ⟨after, e⟩ := well.lexemes
  rwa [List.append_nil, lexFrom_nil, List.append_nil] at e

theorem clean (h : Whole φ s) : Clean φ (lex s.raw) := by
  obtain ⟨ls, well, raw, -⟩ := h
  rw [raw, lex_eq well]
  exact well.clean

theorem eq_ofText (h : Whole φ s) : s = Source.ofText s.raw := by
  obtain ⟨ls, well, raw, code⟩ := h
  apply Source.ext
  · rfl
  · rw [code, code_ofText, raw, mask, lex_eq well]

theorem place {ls : List Lexeme} (well : Lexed φ ls [] []) {n : Nat} (cut : CutAt (ls.flatMap (masked true)) n) :
    (∃ pre suf, ls = pre ++ suf ∧ n = (text pre).length) ∨ (text ls).length ≤ n := by
  rw [← List.append_nil (ls.flatMap _)] at cut
  rcases well.place cut with found | ⟨-, past⟩ | ⟨x, y, k, open_, -⟩
  · exact Or.inl found
  · exact Or.inr past
  · cases open_.text

/-- cut between two of its lexemes, it lexes as it did -/
theorem between {pre suf : List Lexeme} (well : Lexed φ (pre ++ suf) [] []) (raw : s.raw = text (pre ++ suf))
    (code : s.code = (pre ++ suf).flatMap (masked true)) :
    Whole φ (s.take (text pre).length) ∧ Whole φ (s.drop (text pre).length) ∧
      lex s.raw = lex (s.take (text pre).length).raw ++ lex (s.drop (text pre).length).raw := by
  have front : (s.take (text pre).length).raw = text pre := by rw [raw_take, raw, text_append, List.take_left]
  have back : (s.drop (text pre).length).raw = text suf := by rw [raw_drop, raw, text_append, List.drop_left]
  refine ⟨⟨pre, well.front, front, ?_⟩, ⟨suf, well.back, back, ?_⟩, ?_⟩
  · rw [code_take, code, List.flatMap_append, ← masked_text_length true, List.take_left]
  · rw [code_drop, code, List.flatMap_append, ← masked_text_length true, List.drop_left]
  · rw [front, back, raw, lex_eq well, lex_eq well.front, lex_eq well.back]

/-- cut at a structural character, it lexes as it did -/
theorem split (h : Whole φ s) {n : Nat} (cut : CutAt s.code n) :
    Whole φ (s.take n) ∧ Whole φ (s.drop n) ∧ lex s.raw = lex (s.take n).raw ++ lex (s.drop n).raw := by
  obtain ⟨ls, well, raw, code⟩ := h
  rw [code] at cut
  rcases place well cut with ⟨pre, suf, rfl, rfl⟩ | past
  · exact between well raw code
  · have past' : s.code.length ≤ n := by rwa [code, masked_text_length]
    have front : s.take n = s.take (text ls).length := by
      apply Source.ext
      · rw [raw_take, raw_take, raw, List.take_of_length_le past, List.take_length]
      · rw [code_take, code_take, List.take_of_length_le past', ← masked_text_length true, ← code, List.take_length]
    have back : s.drop n = s.drop (text ls).length := by
      apply Source.ext
      · rw [raw_drop, raw_drop, raw, List.drop_of_length_le past, List.drop_length]
      · rw [code_drop, code_drop, List.drop_of_length_le past', ← masked_text_length true, ← code, List.drop_length]
    rw [front, back]
    exact between (by rwa [List.append_nil]) (by rwa [List.append_nil]) (by rwa [List.append_nil])

theorem take (h : Whole φ s) {n : Nat} (cut : CutAt s.code n) : Whole φ (s.take n) := (h.split cut).1

theorem drop (h : Whole φ s) {n : Nat} (cut : CutAt s.code n) : Whole φ (s.drop n) := (h.split cut).2.1

/-- without the blanks in front of it, it lexes as it did -/
theorem dropBlanks (h : Whole φ s) : Whole φ (s.drop (Text.leadingBlanks s.code)) ∧
    lex (s.drop (Text.leadingBlanks s.code)).raw ⊆ lex s.raw := by
  obtain ⟨ls, well, raw, code⟩ := h
  obtain ⟨pre, suf, rfl, blanks⟩ := Fades.leadingBlanks_place well
  rw [List.append_nil, ← code] at blanks
  obtain ⟨-, back, parts⟩ := between well raw code
  rw [blanks, parts]
  exact ⟨back, List.subset_append_right _ _⟩

end Whole

end Source

namespace Lexeme

theorem text_refaded (φ : Char → Char) (ls : List Lexeme) : text (ls.flatMap (refaded φ)) = fadedText φ ls := by
  have codes : ∀ t : Text, text (t.map code) = t := by
    intro t
    induction t with
    | nil => rfl
    | cons c cs ih => rw [List.map_cons, text_cons, ih]; rfl
  induction ls with
  | nil => rfl
  | cons l ls ih =>
    rw [List.flatMap_cons, text_append, fadedText_cons, ih]
    congr 1
    cases l with
    | code c => rfl
    | remark body => exact codes _
    | literal o b cl => exact List.append_nil _

end Lexeme

section
variable {φ : Char → Char}

/-- Lexemes that fade keep their places once more. -/
theorem Lexed.faded (hφ : BlankMap φ) {ls : List Lexeme} (h : Lexed φ ls [] []) :
    Lexed φ (ls.flatMap (refaded φ)) [] [] := by
  have literals : ∀ o b cl, literal o b cl ∈ ls.flatMap (refaded φ) → literal o b cl ∈ ls := by
    intro o b cl hm
    obtain ⟨l, hl, hm⟩ := List.mem_flatMap.1 hm
    cases l with
    | code c => simp [refaded] at hm
    | remark body => simp [refaded] at hm
    | literal o' b' cl' => rwa [List.mem_singleton.1 hm]
  have codes : ∀ c, code c ∈ ls.flatMap (refaded φ) → c = ' ' ∨ c = '\n' ∨ code c ∈ ls := by
    intro c hm
    obtain ⟨l, hl, hm⟩ := List.mem_flatMap.1 hm
    cases l with
    | code d =>
      obtain rfl : c = φ d := by simpa [refaded] using hm
      by_cases feed : d = '\n'
      · subst feed
        exact hφ.feed.elim (fun e => Or.inr (Or.inl e)) fun e => Or.inl e
      · rw [hφ.fixes d feed]
        exact Or.inr (Or.inr hl)
    | remark body =>
      obtain ⟨d, hd, e⟩ := List.mem_map.1 hm
      cases e
      exact (map_blankOut_mem hφ hd).imp_right Or.inl
    | literal o b cl => simp [refaded] at hm
  refine ⟨⟨fun hm => ?_, h.clean.feed.imp_right fun all l hl => ⟨?_, fun o b cl e => ?_⟩⟩,
    fun o b cl hm => h.marks o b cl (literals o b cl hm), ⟨true, ?_⟩, Or.inl ⟨rfl, rfl⟩⟩
  · rcases codes '#' hm with e | e | e
    · exact absurd e (by decide)
    · exact absurd e (by decide)
    · exact h.clean.hash e
  · rintro rfl
    rcases codes '\'' hl with e | e | e
    · exact absurd e (by decide)
    · exact absurd e (by decide)
    · exact (all _ e).1 rfl
  · subst e
    exact (all _ (literals o b cl hl)).2 o b cl rfl
  · have whole : lexFrom true (text ls) = ls := Source.Whole.lex_eq h
    have again := @lexFrom_faded φ hφ true (text ls) (by rw [whole]; exact h.clean) true
    rw [whole] at again
    rw [lexFrom_nil, List.append_nil, List.append_nil, text_refaded, again]

/-- What a stretch that lexes on its own becomes lexes on its own. -/
theorem Source.Fades.whole (hφ : BlankMap φ) {s s' : Source} (h : Fades φ s s') (w : Whole φ s) : Whole φ s' := by
  have masks := h.raw_fades.mask_eq hφ true
  have code : s'.code = mask true s'.raw := by
    rw [h.code_eq, masks, w.eq_ofText]
    rfl
  rcases h.raw_fades with ⟨-, faded⟩ | ⟨same, -⟩
  · obtain ⟨ls, well, raw, -⟩ := w
    rw [raw, fade, Whole.lex_eq well, ← text_refaded] at faded
    refine ⟨_, well.faded hφ, faded, ?_⟩
    rw [code, faded, mask, Whole.lex_eq (well.faded hφ)]
  · have e : s' = s := by
      apply Source.ext
      · exact same
      · rw [code, same, w.eq_ofText]
        rfl
    rw [e]
    exact w

/-! ## The front of a document -/

/-- The blanked side of a raw literal that nothing closes shows marks only at its end, its opening quotes apart. -/
theorem OpenRaw.mark_place {x : Text} {after : Bool} (opens : Text.splitFirst? ['"', '"', '"'] x = none) {j : Nat} {c : Char}
    (here : ((lexFrom after (['"', '"', '"'] ++ x)).flatMap (masked true))[j]? = some c) (sharp : structural c = true) :
    x.length ≤ j := by
  rw [OpenRaw.lexFrom_open opens, List.flatMap_cons, List.flatMap_nil, List.append_nil, masked, if_pos rfl] at here
  have width : (['"', '"', '"'] ++ blankOut (x.take (x.length - 3))).length = 3 + (x.length - 3) := by
    rw [List.length_append, blankOut, List.length_map, List.length_take, Nat.min_eq_left (Nat.sub_le _ _)]
    rfl
  by_contra early
  rw [List.getElem?_append_left (by omega)] at here
  rcases List.mem_append.1 (List.mem_of_getElem? here) with mark | hidden
  · simp only [List.mem_cons, List.not_mem_nil, or_false, or_self] at mark
    subst mark
    exact absurd sharp (by decide)
  · rw [structural_blank (blankOut_mem hidden)] at sharp
    cases sharp

/-- The blanked side of a raw literal that nothing closes shows too few characters for a keyword. -/
theorem OpenRaw.no_keyword {x : Text} {after : Bool} (opens : Text.splitFirst? ['"', '"', '"'] x = none) (n : Nat) :
    ¬ KeywordAt ((lexFrom after (['"', '"', '"'] ++ x)).flatMap (masked true)) n := by
  intro keyword
  obtain ⟨c, here, sharp⟩ := keyword 0 (by decide)
  obtain ⟨d, beyond, -⟩ := keyword 3 (by decide)
  rw [List.head?_drop] at here beyond
  have first := OpenRaw.mark_place opens here sharp
  have inside := (List.getElem?_eq_some_iff.1 beyond).1
  rw [masked_text_length, text_lexFrom, List.length_append] at inside
  simp only [List.length_cons, List.length_nil] at inside
  omega

/-- A structural character of the code is a lexeme of its own, unless it is one of the last three of the text. -/
theorem lex_code_of_structural {t : Text} {n : Nat} {c : Char} (here : (mask true t)[n]? = some c)
    (sharp : structural c = true) (room : n + 3 < t.length) :
    ∃ pre suf, lex t = pre ++ code c :: suf ∧ n = (text pre).length := by
  obtain ⟨ls, tail, after, e, marks, open_⟩ := lexFrom_split true t
  have whole := congrArg List.length (text_lexFrom true t)
  rw [e, text_append, text_lexFrom, List.length_append] at whole
  have width := masked_text_length true ls
  rw [mask, lex, e, List.flatMap_append] at here
  by_cases inside : n < (text ls).length
  · rw [List.getElem?_append_left (by omega)] at here
    obtain ⟨pre, suf, rfl, rfl⟩ := code_of_structural marks here sharp
    exact ⟨pre, _, by rw [lex, e, List.append_assoc, List.cons_append], rfl⟩
  · rw [List.getElem?_append_right (by omega)] at here
    rcases open_ with rfl | ⟨x, rfl, opens⟩
    · rw [lexFrom_nil] at here
      cases here
    · have late := OpenRaw.mark_place opens here sharp
      rw [List.length_append] at whole
      simp only [List.length_cons, List.length_nil] at whole
      omega

/-- A document up to a keyword lexes on its own. -/
theorem Source.whole_take_keyword {t : Text} {n : Nat} (clean : Clean φ (lex t))
    (keyword : KeywordAt (mask true t) n) : Whole φ ((Source.ofText t).take n) := by
  obtain ⟨ls, tail, after, e, marks, open_⟩ := lexFrom_split true t
  have whole := text_lexFrom true t
  rw [e, text_append, text_lexFrom] at whole
  have code : mask true t = ls.flatMap (masked true) ++ (lexFrom after tail).flatMap (masked true) := by
    rw [mask, lex, e, List.flatMap_append]
  have well : Lexed φ ls [] [] := by
    refine ⟨clean.of_subset ?_, marks, lexFrom_truncate e List.nil_prefix, Or.inl ⟨rfl, rfl⟩⟩
    rw [lex, e]
    exact List.subset_append_left _ _
  have width := masked_text_length true ls
  have inside : n < (text ls).length := by
    by_contra past
    obtain ⟨j, rfl⟩ := Nat.exists_eq_add_of_le (Nat.le_of_not_lt past)
    have shifted : KeywordAt ((lexFrom after tail).flatMap (masked true)) j := by
      intro k hk
      obtain ⟨c, here, sharp⟩ := keyword k hk
      refine ⟨c, ?_, sharp⟩
      rwa [code, Nat.add_assoc, ← width, List.drop_length_add_append] at here
    rcases open_ with rfl | ⟨x, rfl, opens⟩
    · rw [lexFrom_nil] at shifted
      obtain ⟨c, here, -⟩ := shifted 0 (by decide)
      rw [List.flatMap_nil, List.drop_nil] at here
      cases here
    · exact OpenRaw.no_keyword opens j shifted
  obtain ⟨c, here, sharp⟩ := keyword 0 (by decide)
  rw [List.head?_drop, Nat.add_zero, code, List.getElem?_append_left (by omega)] at here
  obtain ⟨pre, suf, rfl, rfl⟩ := code_of_structural marks here sharp
  refine ⟨pre, well.front, ?_, ?_⟩
  · rw [raw_take, raw_ofText, ← whole, text_append, List.append_assoc, List.take_left]
  · rw [code_take, code_ofText, code, List.flatMap_append, List.append_assoc, ← masked_text_length true, List.take_left]

end

namespace Lexeme

/-! ## A text and what follows on another line -/

theorem closes_line_after {x : Text} (last : x = [] ∨ x.getLast? = some ']') (more : Text) :
    ∀ room, closes room (x ++ '\n' :: more) = closes room x := by
  induction size : x.length using Nat.strong_induction_on generalizing x with
  | _ size ih =>
    intro room
    cases x with
    | nil =>
      rw [List.nil_append, closes_nil]
      exact closes_feed (Or.inr rfl)
    | cons c cs =>
      have last' : cs = [] ∨ cs.getLast? = some ']' := by
        cases cs with
        | nil => exact Or.inl rfl
        | cons d ds =>
          right
          simpa using last
      cases room with
      | zero => rfl
      | succ room =>
        by_cases backslash : c = '\\'
        · subst backslash
          cases cs with
          | nil => simp at last
          | cons d ds =>
            have last'' : ds = [] ∨ ds.getLast? = some ']' := by
              cases ds with
              | nil => exact Or.inl rfl
              | cons d ds =>
                right
                simpa using last
            rw [List.cons_append, List.cons_append, closes_backslash, closes_backslash]
            exact ih ds.length (by simp only [List.length_cons] at size; omega) last'' rfl _
        · rw [List.cons_append, closes_cons backslash, closes_cons backslash,
            ih cs.length (by simp only [List.length_cons] at size; omega) last' rfl]

/-- Nothing is recognised in a text that ends in a bracket for what follows on another line. -/
theorem special?_none_line {lineBlank : Bool} {c : Char} {x : Text} (h : special? lineBlank (c :: x) = none)
    (last : x = [] ∨ x.getLast? = some ']') (more : Text) : special? lineBlank (c :: (x ++ '\n' :: more)) = none := by
  refine special?_none_of_marks h ?_ fun d p mem => (Text.prefix_append_cons_iff fun feed => ?_).1
  · rintro rfl
    have open_ : closes characterRoom x = false := by
      unfold special? at h
      simpa [closes] using h
    rw [← closes_line_after last more] at open_
    simpa [special?, closes] using open_
  · -- the openings stand on one line
    have line : ∀ opening ∈ openings, '\n' ∉ opening := by decide
    exact line _ mem (.tail d feed)

/-- What follows on another line does not change the lexemes of a text that ends in a bracket. -/
theorem lexFrom_line {lineBlank : Bool} {t : Text}
    (last : t = [] ∨ (lexFrom lineBlank t).getLast? = some (code ']')) (more : Text) :
    lexFrom lineBlank (t ++ '\n' :: more) = lexFrom lineBlank t ++ code '\n' :: lexFrom true more := by
  fun_induction lexFrom lineBlank t with
  | case1 lineBlank =>
    have plain : special? lineBlank ('\n' :: more) = none := rfl
    rw [List.nil_append, lexFrom_none plain]
    rfl
  | case2 lineBlank c cs l rest found ih =>
    have last' := last.resolve_left (List.cons_ne_nil c cs)
    have other : l ≠ code ']' := by
      rcases special?_shape found with ⟨body, rfl, -⟩ | ⟨o, b, cl, rfl, -⟩
      · simp
      · simp
    cases after : lexFrom false rest with
    | nil =>
      rw [after] at last'
      exact absurd (by simpa using last') other
    | cons m ms =>
      rw [after] at last' ih
      cases rest with
      | nil =>
        rw [lexFrom_nil] at after
        cases after
      | cons d ds =>
        have found' : special? lineBlank (c :: cs ++ '\n' :: more) = some (l, d :: ds ++ '\n' :: more) := by
          have whole := special?_append found
          have follow : Follows l (d :: ds) (d :: ds ++ '\n' :: more) := Or.inr (Or.inl rfl)
          have again := special?_follow found follow
          rwa [← List.append_assoc, whole] at again
        rw [lexFrom_some found', ih (Or.inr (by simpa using last'))]
        rfl
  | case3 lineBlank c cs found ih =>
    have last' := last.resolve_left (List.cons_ne_nil c cs)
    have rest : cs = [] ∨ (lexFrom (lineBlankAfter lineBlank c) cs).getLast? = some (code ']') := by
      cases after : lexFrom (lineBlankAfter lineBlank c) cs with
      | nil =>
        left
        rw [← text_lexFrom (lineBlankAfter lineBlank c) cs, after]
        rfl
      | cons m ms =>
        right
        rw [after] at last'
        simpa using last'
    have last_char : cs = [] ∨ cs.getLast? = some ']' := by
      refine rest.imp_right fun e => ?_
      obtain ⟨ms, e⟩ := List.getLast?_eq_some_iff.1 e
      rw [← text_lexFrom (lineBlankAfter lineBlank c) cs, e, text_append]
      exact List.getLast?_concat
    rw [List.cons_append, lexFrom_none (special?_none_line found last_char more), ih rest]
    rfl

/-! ## Texts joined by line feeds -/

theorem join_lines (g h : Text) (rest : List Text) :
    Text.join "\n" (g :: h :: rest) = g ++ '\n' :: Text.join "\n" (h :: rest) := by
  simp [Text.join, List.intercalate]

end Lexeme

/-- Groups on lines of their own are lexed one by one. -/
theorem lex_join {groups : List Text} (closed : ∀ g ∈ groups.dropLast, (lex g).getLast? = some (Lexeme.code ']')) :
    lex (Text.join "\n" groups) = List.intercalate [Lexeme.code '\n'] (groups.map lex) := by
  induction groups with
  | nil => exact Lexeme.lexFrom_nil true
  | cons g rest ih =>
    cases rest with
    | nil => simp [Text.join, List.intercalate]
    | cons h rest =>
      have first : (lex g).getLast? = some (Lexeme.code ']') := closed g (by simp)
      have others := ih fun x hx => closed x (by simp [hx])
      rw [Lexeme.join_lines, lex, Lexeme.lexFrom_line (Or.inr first), ← lex, ← lex, others]
      simp [List.intercalate]

end EndpointSurvey
