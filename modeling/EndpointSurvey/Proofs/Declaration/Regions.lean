/-
What stands in front of the region that a declaration's attributes and documentation are read off. Text without a bracket
adds no attribute group, and blanks add no documentation. A comment line is taken for documentation, unless the region
has some of its own or a line that ends the run of comment lines.

Main statements: `attributeGroups_plain`, `lines_append_feed`, `docComment?_blanks` and `docComment?_comment`.
-/
import EndpointSurvey.Proofs.Attribute.GroupLines
import EndpointSurvey.Proofs.Source.Relaying
import EndpointSurvey.Proofs.Text.Settling

namespace EndpointSurvey

/-! ## Attribute groups -/

theorem attributeGroups_plain {s : Source} {t u : Text} (code : s.code = t ++ u) (free : '[' ∉ t) :
    attributeGroups s = attributeGroups (s.drop t.length) := by
  induction t generalizing s with
  | nil => rw [List.length_nil, Source.drop_zero]
  | cons c cs ih =>
    rw [List.mem_cons, not_or] at free
    have head : s.code.head? = some c := by rw [code]; rfl
    have rest : (s.drop 1).code = cs ++ u := by rw [Source.code_drop, code]; rfl
    rw [(groups_of_other head (Ne.symm free.1)).1, ih rest free.2, Source.drop_drop, List.length_cons, Nat.add_comm]

theorem attributeGroups_none {s : Source} (free : '[' ∉ s.code) : attributeGroups s = [] := by
  rw [attributeGroups_plain (List.append_nil s.code).symm free]
  exact (groups_of_nil (by rw [Source.code_drop, List.drop_length])).1

/-! ## Lines -/

theorem lines_cons_break {c : Char} {cs : Text} (breaks : lineBreak c = true) (single : c = '\r' → cs.head? ≠ some '\n') :
    Text.lines (c :: cs) = [] :: Text.lines cs := by
  rw [Text.lines.eq_def]
  split
  · next e => cases e
  · next e =>
    cases e
    exact absurd rfl (single rfl)
  · next e =>
    cases e
    rw [if_pos breaks]

theorem lines_cons_inside {c : Char} {cs first : Text} {rest : List Text} (inside : lineBreak c = false)
    (h : Text.lines cs = first :: rest) : Text.lines (c :: cs) = (c :: first) :: rest := by
  rw [Text.lines.eq_def]
  split
  · next e => cases e
  · next e =>
    cases e
    cases inside
  · next e =>
    cases e
    rw [inside, h]
    rfl

theorem lines_inside_append {s t first : Text} {rest : List Text} (inside : ∀ c ∈ s, lineBreak c = false)
    (h : Text.lines t = first :: rest) : Text.lines (s ++ t) = (s ++ first) :: rest := by
  induction s with
  | nil => exact h
  | cons c cs ih =>
    obtain ⟨here, others⟩ := List.forall_mem_cons.1 inside
    exact lines_cons_inside here (ih others)

theorem lines_ne_nil (c : Char) (cs : Text) : Text.lines (c :: cs) ≠ [] := by
  rw [Text.lines.eq_def]
  split
  · next e => cases e
  · exact List.cons_ne_nil _ _
  · split
    · exact List.cons_ne_nil _ _
    · split <;> exact List.cons_ne_nil _ _

/-- A line feed ends the lines before it, and the lines behind it are those of what follows. -/
theorem lines_append_feed (s t : Text) : Text.lines (s ++ '\n' :: t) = Text.lines (s ++ ['\n']) ++ Text.lines t := by
  have more {c : Char} {cs : Text} (inside : lineBreak c = false)
      (ih : Text.lines (cs ++ '\n' :: t) = Text.lines (cs ++ ['\n']) ++ Text.lines t) :
      Text.lines (c :: (cs ++ '\n' :: t)) = Text.lines (c :: (cs ++ ['\n'])) ++ Text.lines t := by
    have filled : Text.lines (cs ++ ['\n']) ≠ [] := by
      cases cs <;> exact lines_ne_nil _ _
    obtain ⟨first, rest, lines⟩ := List.exists_cons_of_ne_nil filled
    rw [lines] at ih
    rw [lines_cons_inside inside lines, lines_cons_inside inside ih]
    rfl
  fun_induction Text.lines s with
  | case1 => exact lines_cons_break (c := '\n') (by decide) fun carriage => absurd carriage (by decide)
  | case2 cs ih => simp only [List.cons_append, Text.lines, ih]
  | case3 c cs single breaks ih =>
    cases cs with
    | nil =>
      by_cases carriage : c = '\r'
      · subst carriage
        rfl
      · have single (u : Text) : c = '\r' → ('\n' :: u).head? ≠ some '\n' := fun e => absurd e carriage
        rw [List.nil_append] at ih
        simp only [List.cons_append, List.nil_append, lines_cons_break breaks (single _), ih]
    | cons d ds =>
      have apart (u : Text) : c = '\r' → (d :: (ds ++ u)).head? ≠ some '\n' := by
        rintro rfl e
        cases e
        exact single ds rfl rfl
      simp only [List.cons_append] at ih ⊢
      rw [lines_cons_break breaks (apart _), lines_cons_break breaks (apart _), ih]
      rfl
  | case4 c cs single inside none ih => exact more (by simpa using inside) ih
  | case5 c cs single inside first rest found ih => exact more (by simpa using inside) ih

/-! ## Documentation -/

namespace DocComment

theorem step_blank {line : Text} (blanks : ∀ c ∈ line, blank c = true) (acc : Lines) : step acc line = acc := by
  have empty : line.trim = [] := by
    rw [Text.trim, Text.trimLeft, List.dropWhile_eq_nil_iff.2 blanks]
    rfl
  unfold step
  simp only [empty]
  rfl

/-- Blanks in front of a region add nothing. -/
theorem foldl_step_blanks {g : Text} (blanks : ∀ c ∈ g, blank c = true) (t : Text) (acc : Lines) :
    (Text.lines (g ++ t)).foldl step acc = (Text.lines t).foldl step acc := by
  induction g with
  | nil => rfl
  | cons c cs ih =>
    obtain ⟨space, others⟩ := List.forall_mem_cons.1 blanks
    rw [← ih others, List.cons_append]
    generalize cs ++ t = u
    by_cases pair : c = '\r' ∧ u.head? = some '\n'
    · obtain ⟨rfl, feed⟩ := pair
      obtain ⟨v, rfl⟩ := List.head?_eq_some_iff.1 feed
      rfl
    · by_cases breaks : lineBreak c = true
      · rw [lines_cons_break breaks fun carriage feed => pair ⟨carriage, feed⟩, List.foldl_cons,
          step_blank (List.forall_mem_nil _)]
      · rw [Bool.not_eq_true] at breaks
        cases lines : Text.lines u with
        | nil =>
          cases u with
          | nil =>
            have single : Text.lines [c] = [[c]] := by simp [Text.lines, breaks]
            rw [single, List.foldl_cons, step_blank (List.forall_mem_singleton.2 space)]
          | cons d ds => exact absurd lines (lines_ne_nil d ds)
        | cons first rest =>
          have trimmed : step acc (c :: first) = step acc first := by
            unfold step
            rw [Text.trim, Text.trimLeft, List.dropWhile_cons_of_pos space]
            rfl
          rw [lines_cons_inside breaks lines, List.foldl_cons, List.foldl_cons, trimmed]

/-- does a line end the run of comment lines above it? -/
def endsRun (line : Text) : Bool :=
  let t := line.trim
  !(Text.startsWith "//" t || t.isEmpty || t.head? = some '[' || t.head? = some '#')

theorem not_endsRun_of_after? {line piece rest : Text} (slashes : ['/', '/'] <+: piece)
    (h : Text.after? piece line.trim = some rest) : endsRun line = false := by
  have front : ['/', '/'] <+: line.trim := by
    rw [← Lexeme.after?_append h]
    exact slashes.trans (List.prefix_append _ _)
  have starts : Text.startsWith "//" line.trim = true := List.isPrefixOf_iff_prefix.2 front
  unfold endsRun
  dsimp only
  rw [starts]
  rfl

/-- A line adds to the lines met so far, or it ends the run of comment lines. -/
theorem step_cases (line : Text) :
    (endsRun line = false ∧ ∃ docs plain, ∀ acc, step acc line = ⟨acc.documentation ++ docs, acc.plain ++ plain⟩) ∨
      endsRun line = true ∧ ∀ acc, step acc line = { acc with plain := [] } := by
  cases three : Text.after? "///" line.trim with
  | some rest =>
    refine .inl ⟨not_endsRun_of_after? (by decide) three, [rest.trim], [], fun acc => ?_⟩
    rw [step, three, List.append_nil]
  | none =>
    cases two : Text.after? "//" line.trim with
    | some rest =>
      refine .inl ⟨not_endsRun_of_after? (by decide) two, [], [rest.trim], fun acc => ?_⟩
      rw [step, three, two, List.append_nil]
    | none =>
      have other : Text.startsWith "//" line.trim = false := by
        rw [Bool.eq_false_iff]
        intro starts
        obtain ⟨rest, whole⟩ := List.isPrefixOf_iff_prefix.1 starts
        rw [← whole, Lexeme.after?_self] at two
        cases two
      cases ends : endsRun line with
      | false =>
        refine .inl ⟨rfl, [], [], fun acc => ?_⟩
        simp only [endsRun, other, Bool.false_or, Bool.not_eq_false'] at ends
        rw [step, three, two, List.append_nil, List.append_nil]
        exact if_pos ends
      | true =>
        refine .inr ⟨rfl, fun acc => ?_⟩
        simp only [endsRun, other, Bool.false_or, Bool.not_eq_true'] at ends
        rw [step, three, two]
        exact if_neg (Bool.eq_false_iff.1 ends)

/-- A comment line above a region stays in front of its comment lines unless a line of the region ends the run. -/
theorem foldl_step_comment (y : Text) (ls : List Text) (acc : Lines) :
    ls.foldl step { acc with plain := y :: acc.plain } =
      let found := ls.foldl step acc
      if ls.any endsRun then found else { found with plain := y :: found.plain } := by
  induction ls generalizing acc with
  | nil => rfl
  | cons line ls ih =>
    rw [List.foldl_cons, List.foldl_cons, List.any_cons]
    rcases step_cases line with ⟨kept, docs, plain, adds⟩ | ⟨ends, resets⟩
    · rw [adds, adds, kept, Bool.false_or]
      exact ih ⟨acc.documentation ++ docs, acc.plain ++ plain⟩
    · rw [resets, resets, ends, Bool.true_or]
      rfl

/-- A comment line of two slashes is taken with its words. -/
theorem step_comment {x g : Text} (plain : x.head? ≠ some '/') (blanks : ∀ c ∈ g, blank c = true) :
    ∃ y, Text.words y = Text.words x ∧ ∀ acc, step acc ('/' :: '/' :: (x ++ g)) = { acc with plain := acc.plain ++ [y] } := by
  have solid := Text.last_dropEnd blank (x ++ g)
  have parts := Text.dropEnd_append_takeEnd blank (x ++ g)
  generalize Text.dropEnd blank (x ++ g) = w at solid parts
  have trimmed : Text.trim ('/' :: '/' :: (x ++ g)) = '/' :: '/' :: w := by
    have whole := @Text.trim_padded [] ('/' :: '/' :: w) (Text.takeEnd blank (x ++ g)) (List.forall_mem_nil _)
      (fun c hc => Text.of_mem_takeEnd hc) (by rintro c ⟨⟩; decide) (fun c hc => ?_)
    · rwa [List.nil_append, List.cons_append, List.cons_append, parts] at whole
    · cases w with
      | nil =>
        cases hc
        decide
      | cons d ds => exact solid c (by rwa [List.getLast?_cons_cons, List.getLast?_cons_cons] at hc)
  have two : Text.after? "///" ('/' :: '/' :: w) = none := by
    refine Lexeme.after?_eq_none fun three => ?_
    obtain ⟨ws, rfl⟩ : ∃ ws, w = '/' :: ws := by
      obtain ⟨ws, e⟩ := three
      exact ⟨ws, (List.cons.inj (List.cons.inj e).2).2.symm⟩
    cases x with
    | nil =>
      have first : '/' ∈ g := by
        rw [List.nil_append] at parts
        rw [← parts]
        exact List.mem_cons_self
      exact absurd (blanks _ first) (by decide)
    | cons c cs => exact plain (congrArg some (List.cons.inj parts).1.symm)
  refine ⟨w.trim, ?_, fun acc => ?_⟩
  · rw [Text.words_trim, ← Text.words_append_blanks blanks x, ← parts,
      Text.words_append_blanks fun c hc => Text.of_mem_takeEnd hc]
  · rw [step, trimmed, two]
    rfl

/-- a comment line of two slashes with blanks around it, in front of a region, is the first of the comment lines met -/
theorem ofRegion_comment {g g' x : Text} (left : ∀ c ∈ g, blank c = true) (right : ∀ c ∈ g', blank c = true)
    (inside : ∀ c ∈ x, lineBreak c = false) (plain : x.head? ≠ some '/') (region : Text) :
    ∃ y, Text.words y = Text.words x ∧ ofRegion (g ++ '/' :: '/' :: (x ++ g') ++ '\n' :: region) =
      (Text.lines region).foldl step ⟨[], [y]⟩ := by
  have blanks : ∀ c ∈ g' ++ ['\n'], blank c = true :=
    List.forall_mem_append.2 ⟨right, List.forall_mem_singleton.2 (by decide)⟩
  obtain ⟨first, rest, lines⟩ : ∃ first rest, Text.lines (g' ++ ['\n']) = first :: rest := by
    apply List.exists_cons_of_ne_nil
    cases g' <;> exact lines_ne_nil _ _
  have front : ∀ c ∈ first, blank c = true := fun c hc => blanks c ((lines_cons lines).1.subset hc)
  have more : ∀ acc, rest.foldl step acc = acc := by
    intro acc
    have whole := foldl_step_blanks blanks [] acc
    rw [List.append_nil, lines, List.foldl_cons, step_blank front] at whole
    exact whole
  obtain ⟨y, words, takes⟩ := step_comment plain front
  refine ⟨y, words, ?_⟩
  have slashes : ∀ c ∈ '/' :: '/' :: x, lineBreak c = false :=
    List.forall_mem_cons.2 ⟨by decide, List.forall_mem_cons.2 ⟨by decide, inside⟩⟩
  have here : Text.lines ('/' :: '/' :: (x ++ (g' ++ ['\n']))) = ('/' :: '/' :: (x ++ first)) :: rest :=
    lines_inside_append slashes lines
  rw [ofRegion, lines_append_feed, List.foldl_append, List.append_assoc, foldl_step_blanks left]
  simp only [List.cons_append, List.append_assoc]
  rw [here, List.foldl_cons, takes, more]
  rfl

theorem nonEmpty?_getD (t : Text) : (nonEmpty? t).getD [] = t := by
  cases t <;> rfl

end DocComment

open DocComment

/-- Blanks in front of a region document nothing. -/
theorem docComment?_blanks {g : Text} (blanks : ∀ c ∈ g, blank c = true) (t : Text) :
    docComment? (g ++ t) = docComment? t := by
  unfold docComment? ofRegion
  rw [foldl_step_blanks blanks]

/-- Is a comment line above a region taken for documentation? It is unless the region has documentation of its own, or a
line that ends the run of comment lines. -/
def openAbove (region : Text) : Bool := (ofRegion region).documentation.isEmpty && !region.lines.any endsRun

/-- **A comment line above a region** that is open there is taken for the start of its documentation. -/
theorem docComment?_comment {g g' x : Text} (left : ∀ c ∈ g, blank c = true) (right : ∀ c ∈ g', blank c = true)
    (inside : ∀ c ∈ x, lineBreak c = false) (plain : x.head? ≠ some '/') (region : Text) :
    docComment? (g ++ '/' :: '/' :: (x ++ g') ++ '\n' :: region) =
      if openAbove region then nonEmpty? (Text.collapse (x ++ ' ' :: (docComment? region).getD []))
      else docComment? region := by
  obtain ⟨y, words, found⟩ := ofRegion_comment left right inside plain region
  have after : (Text.lines region).foldl step ⟨[], [y]⟩ = if (Text.lines region).any endsRun then ofRegion region
      else { ofRegion region with plain := y :: (ofRegion region).plain } := foldl_step_comment y _ ⟨[], []⟩
  unfold docComment? openAbove
  dsimp only
  rw [found, after]
  cases (Text.lines region).any endsRun with
  | true => simp
  | false =>
    cases docs : (ofRegion region).documentation with
    | cons doc rest => simp [docs]
    | nil =>
      have all : Text.words (Text.join " " (y :: (ofRegion region).plain)) =
          Text.words (x ++ ' ' :: Text.collapse (Text.join " " (ofRegion region).plain)) := by
        rw [Text.words_join_cons, words, Text.words_append_blank (by decide), Text.words_collapse]
      simp only [docs, List.isEmpty_nil, if_true, Bool.false_eq_true, if_false, Bool.not_false, Bool.and_true,
        nonEmpty?_getD]
      rw [Text.collapse, all]
      rfl

/-- Such a comment line makes a difference if there is a word in it. -/
theorem docComment?_comment_ne (x region : Text) :
    nonEmpty? (Text.collapse (x ++ ' ' :: (docComment? region).getD [])) ≠ docComment? region ↔ x.words ≠ [] := by
  obtain ⟨u, doc⟩ : ∃ u, docComment? region = nonEmpty? (Text.collapse u) := by
    unfold docComment?
    dsimp only
    split <;> exact ⟨_, rfl⟩
  have all : Text.words (x ++ ' ' :: Text.collapse u) = x.words ++ u.words := by
    rw [Text.words_append_blank (by decide), Text.words_collapse]
  rw [doc, nonEmpty?_getD, Ne, Ne, not_iff_not]
  constructor
  · intro same
    have texts := congrArg (·.getD []) same
    rw [nonEmpty?_getD, nonEmpty?_getD] at texts
    have words := congrArg Text.words texts
    rw [Text.words_collapse, Text.words_collapse, all] at words
    exact List.append_left_eq_self.1 words
  · intro none
    rw [Text.collapse, all, none, List.nil_append]
    rfl

end EndpointSurvey
