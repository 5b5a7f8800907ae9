/-
Texts without comments whose literals close on their lines, and such texts laid out anew. Documentation is read off lines
that start with two slashes, and such a text has none.

Main statements: `Unbroken.relaid` (such a text laid out anew has the same lexemes, laid out anew),
`Unbroken.escapesKept` (no backslash of such a text stands in front of a line feed), `Source.Clear.no_slashes` and
`docComment?_none` (a stretch of an unbroken text documents nothing).
-/
import EndpointSurvey.Declaration.Members
import EndpointSurvey.Proofs.Attribute.Layout
import EndpointSurvey.Proofs.Source.Whole
import Mathlib.Data.List.Forall2
import Mathlib.Data.List.Infix

namespace EndpointSurvey

open Lexeme

/-- the lexeme is no comment, no stray mark, and no literal that is left open or goes over a line break -/
def Lexeme.unbroken : Lexeme → Bool
  | code c => c != '#' && c != '\''
  | remark _ => false
  | literal o b cl => !cl.isEmpty && cl.all quoteMark && (o ++ b ++ cl).all (!lineBreak ·)

/-- a text without comments, directives, stray marks, and literals that do not close on their lines; no backslash of its
code stands in front of a space or line feed -/
structure Unbroken (t : Text) : Prop where
  lexemes : ∀ l ∈ lex t, l.unbroken = true
  space : ¬ [code '\\', code ' '] <:+: lex t
  feed : ¬ [code '\\', code '\n'] <:+: lex t

instance : DecidablePred Unbroken := fun t =>
  decidable_of_iff ((∀ l ∈ lex t, l.unbroken = true) ∧ ¬ [code '\\', code ' '] <:+: lex t ∧
      ¬ [code '\\', code '\n'] <:+: lex t)
    ⟨fun h => ⟨h.1, h.2.1, h.2.2⟩, fun h => ⟨h.lexemes, h.space, h.feed⟩⟩

/-- a lexeme and what it may become when a text is laid out anew: a space or line feed of code may become the other -/
inductive Lexeme.Relaid : Lexeme → Lexeme → Prop
  | same {l : Lexeme} : Relaid l l
  | broken : Relaid (code ' ') (code '\n')
  | joined : Relaid (code '\n') (code ' ')

instance : DecidableRel Lexeme.Relaid := fun l l' =>
  decidable_of_iff (l' = l ∨ (l = code ' ' ∧ l' = code '\n') ∨ (l = code '\n' ∧ l' = code ' '))
    ⟨fun h => by
      rcases h with rfl | ⟨rfl, rfl⟩ | ⟨rfl, rfl⟩
      · exact .same
      · exact .broken
      · exact .joined, fun h => by cases h <;> simp⟩

/-- the second text is the first with some spaces outside literals made line feeds, and some line feeds spaces -/
def Relaid (t t' : Text) : Prop := ∃ ls, List.Forall₂ Lexeme.Relaid (lex t) ls ∧ t' = text ls

/-! ## Characters of lexemes -/

/-- A character of a text stands in one of its lexemes. -/
theorem text_split {ls : List Lexeme} {x y : Text} {d : Char} (h : text ls = x ++ d :: y) :
    ∃ pre l suf z w, ls = pre ++ l :: suf ∧ l.raw = z ++ d :: w ∧ x = text pre ++ z ∧ y = w ++ text suf := by
  induction ls generalizing x with
  | nil => simp at h
  | cons l ls ih =>
    rw [text_cons] at h
    rcases List.append_eq_append_iff.1 h with ⟨x', rfl, rest⟩ | ⟨z, front, back⟩
    · obtain ⟨pre, m, suf, z, w, rfl, e, rfl, rfl⟩ := ih rest
      exact ⟨l :: pre, m, suf, z, w, rfl, e, by rw [text_cons, List.append_assoc], rfl⟩
    · cases z with
      | nil =>
        rw [List.nil_append] at back
        obtain ⟨pre, m, suf, z, w, rfl, e, none, rfl⟩ := @ih [] back.symm
        rw [List.append_nil] at front
        refine ⟨l :: pre, m, suf, z, w, rfl, e, ?_, rfl⟩
        rw [text_cons, List.append_assoc, ← none, List.append_nil, front]
      | cons c w =>
        rw [List.cons_append] at back
        obtain ⟨rfl, rfl⟩ := List.cons.inj back
        exact ⟨[], l, ls, x, w, rfl, front, rfl, rfl⟩

theorem raw_code {c d : Char} {z w : Text} (h : (code c).raw = z ++ d :: w) : z = [] ∧ c = d ∧ w = [] := by
  cases z with
  | nil =>
    obtain ⟨rfl, none⟩ := List.cons.inj h
    exact ⟨rfl, rfl, none.symm⟩
  | cons e z =>
    have none := (List.cons.inj h).2
    exact absurd none.symm (by simp)

theorem raw_filled {lineBlank : Bool} {t : Text} {l : Lexeme} (h : l ∈ lexFrom lineBlank t) : l.raw ≠ [] := by
  fun_induction lexFrom lineBlank t with
  | case1 => cases h
  | case2 lineBlank c cs m rest found ih =>
    rcases List.mem_cons.1 h with rfl | h
    · intro none
      have whole := special?_append found
      have shorter := special?_shorter found
      rw [none, List.nil_append] at whole
      exact absurd (congrArg List.length whole) (Nat.ne_of_lt shorter)
    · exact ih h
  | case3 lineBlank c cs found ih =>
    rcases List.mem_cons.1 h with rfl | h
    · exact List.cons_ne_nil c []
    · exact ih h

theorem literal_opened {lineBlank : Bool} {t o b cl : Text} (h : literal o b cl ∈ lexFrom lineBlank t) :
    o ≠ [] ∧ ∀ c ∈ o, quoteMark c = true := by
  fun_induction lexFrom lineBlank t with
  | case1 => cases h
  | case2 lineBlank c cs l rest found ih =>
    rcases List.mem_cons.1 h with rfl | h
    · rcases special?_shape found with ⟨body, e, -⟩ | ⟨o', b', cl', e, shape⟩
      · cases e
      · cases e
        exact shape.opened
    · exact ih h
  | case3 lineBlank c cs found ih =>
    rcases List.mem_cons.1 h with h | h
    · cases h
    · exact ih h

theorem unbroken_literal {o b cl : Text} (h : (literal o b cl).unbroken = true) :
    cl ≠ [] ∧ (∀ c ∈ cl, quoteMark c = true) ∧ ∀ c ∈ o ++ b ++ cl, lineBreak c = false := by
  simp only [unbroken, Bool.and_eq_true, Bool.not_eq_true', List.isEmpty_eq_false_iff, List.all_eq_true] at h
  exact ⟨h.1.1, h.1.2, h.2⟩

/-! ## Laying out anew -/

section
variable {ls ls' : List Lexeme}

theorem Lexeme.Relaid.unbroken {l l' : Lexeme} (h : Lexeme.Relaid l l') (plain : l.unbroken = true) :
    l'.unbroken = true := by
  cases h with
  | same => exact plain
  | broken => rfl
  | joined => rfl

theorem fainter_relaid (h : List.Forall₂ Lexeme.Relaid ls ls') : Fainter (text ls) (text ls') := by
  induction h with
  | nil => exact Fainter.stop _
  | cons one _ ih =>
    cases one with
    | same => exact ih.append_same _
    | broken => exact Fainter.fade ' ' '\n' (Or.inr rfl) ih
    | joined => exact Fainter.fade '\n' ' ' (Or.inl rfl) ih

/-- A text laid out anew starts as before, or with a space or line feed. -/
theorem head?_relaid (h : List.Forall₂ Lexeme.Relaid ls ls') :
    (text ls').head? = (text ls).head? ∨ (text ls').head? = some ' ' ∨ (text ls').head? = some '\n' := by
  induction h with
  | nil => exact Or.inl rfl
  | @cons l l' _ _ one _ ih =>
    cases one with
    | same =>
      rw [text_cons, text_cons]
      cases l.raw with
      | nil => exact ih
      | cons c cs => exact Or.inl rfl
    | broken => exact Or.inr (Or.inr rfl)
    | joined => exact Or.inr (Or.inl rfl)

theorem lexFrom_relaid {lineBlank : Bool} {t : Text} (plain : ∀ l ∈ lexFrom lineBlank t, l.unbroken = true)
    (h : List.Forall₂ Lexeme.Relaid (lexFrom lineBlank t) ls') (lineBlank' : Bool) :
    lexFrom lineBlank' (text ls') = ls' := by
  fun_induction lexFrom lineBlank t generalizing ls' lineBlank' with
  | case1 =>
    cases h
    exact lexFrom_nil _
  | case2 lineBlank c cs l rest found ih =>
    obtain ⟨one, others⟩ := List.forall_mem_cons.1 plain
    cases h with
    | @cons _ l' _ ls' step steps =>
    rcases special?_shape found with ⟨body, rfl, -⟩ | ⟨o, b, cl, rfl, shape⟩
    · cases one
    · cases step
      have follow : Follows (literal o b cl) rest (text ls') := by
        cases rest with
        | nil =>
          rw [lexFrom_nil] at steps
          cases steps
          exact Or.inl rfl
        | cons d ds =>
          right
          have closed := (unbroken_literal one).1
          rcases head?_relaid steps with same | space | feed
          · left
            rw [same, text_lexFrom]
          · exact Or.inr ⟨List.cons_ne_nil d ds, by rw [space]; decide, o, b, cl, rfl, closed⟩
          · exact Or.inr ⟨List.cons_ne_nil d ds, by rw [feed]; decide, o, b, cl, rfl, closed⟩
      have again := special?_follow found follow
      obtain ⟨d, ds, rfl⟩ := List.exists_cons_of_ne_nil shape.opened.1
      have hash : d ≠ '#' := by
        rintro rfl
        exact absurd (shape.opened.2 '#' List.mem_cons_self) (by decide)
      simp only [raw, List.cons_append] at again
      rw [special?_lineBlank hash lineBlank lineBlank'] at again
      simp only [text_cons, raw, List.cons_append]
      rw [lexFrom_some again, ih others steps]
  | case3 lineBlank c cs found ih =>
    obtain ⟨one, others⟩ := List.forall_mem_cons.1 plain
    cases h with
    | @cons _ l' _ ls' step steps =>
    have faint := fainter_relaid steps
    rw [text_lexFrom] at faint
    cases step with
    | same =>
      simp only [unbroken, Bool.and_eq_true, bne_iff_ne] at one
      rw [text_cons, raw, List.cons_append, List.nil_append,
        lexFrom_none (special?_none_of_fainter found one.1 one.2 faint lineBlank'), ih others steps]
    | broken =>
      rw [text_cons, raw, List.cons_append, List.nil_append, lexFrom_none (special?_plain (Or.inr rfl) _), ih others steps]
    | joined =>
      rw [text_cons, raw, List.cons_append, List.nil_append, lexFrom_none (special?_plain (Or.inl rfl) _), ih others steps]

end

/-- **Layout.** A text laid out anew has its lexemes laid out anew. -/
theorem lex_relaid {t : Text} (h : Unbroken t) {ls : List Lexeme} (steps : List.Forall₂ Lexeme.Relaid (lex t) ls) :
    lex (text ls) = ls := lexFrom_relaid h.lexemes steps true

/-- What an unbroken text becomes when it is laid out anew is unbroken and differs in blanks alone. -/
theorem Unbroken.relaid {t t' : Text} (h : Unbroken t) (steps : Relaid t t') :
    Unbroken t' ∧ t'.map flat = t.map flat := by
  obtain ⟨ls, steps, rfl⟩ := steps
  have backslash : ∀ {c}, c = ' ' ∨ c = '\n' → ¬ [code '\\', code c] <:+: ls := by
    rintro c blanks ⟨pre, suf, rfl⟩
    rw [List.append_assoc] at steps
    have here := List.forall₂_drop_append _ _ _ steps
    have part := List.drop_suffix pre.length (lex t)
    cases before : (lex t).drop pre.length with
    | nil =>
      rw [before] at here
      cases here
    | cons l rest =>
      rw [before] at here part
      cases here with
      | cons first here =>
      cases first
      cases here with
      | @cons m _ rest' _ second _ =>
      have found : [code '\\', m] <:+: lex t := (List.prefix_append [code '\\', m] rest').isInfix.trans part.isInfix
      rcases blanks with rfl | rfl
      · cases second with
        | same => exact h.space found
        | joined => exact h.feed found
      · cases second with
        | same => exact h.feed found
        | broken => exact h.space found
  have lexemes : ∀ l ∈ ls, l.unbroken = true := by
    intro l hl
    obtain ⟨n, hn, rfl⟩ := List.getElem_of_mem hl
    have bound : n < (lex t).length := steps.length_eq ▸ hn
    exact (List.Forall₂.get steps bound hn).unbroken (h.lexemes _ (List.getElem_mem bound))
  have same : ∀ {ls ls' : List Lexeme}, List.Forall₂ Lexeme.Relaid ls ls' → (text ls').map flat = (text ls).map flat := by
    intro ls ls' steps
    induction steps with
    | nil => rfl
    | cons one _ ih =>
      rw [text_cons, text_cons, List.map_append, List.map_append, ih]
      congr 1
      cases one <;> rfl
  refine ⟨⟨?_, ?_, ?_⟩, ?_⟩
  · rwa [lex_relaid h steps]
  · rw [lex_relaid h steps]
    exact backslash (Or.inl rfl)
  · rw [lex_relaid h steps]
    exact backslash (Or.inr rfl)
  · rw [same steps, lex, text_lexFrom]

/-! ## Stretches of unbroken texts -/

/-- a stretch that lexes on its own, into unbroken lexemes -/
structure Source.Clear (s : Source) : Prop where
  whole : Source.Whole flat s
  lexemes : ∀ l ∈ lex s.raw, l.unbroken = true

namespace Source.Clear

variable {s : Source}

theorem take (h : Clear s) {n : Nat} (cut : CutAt s.code n) : Clear (s.take n) := by
  obtain ⟨front, -, parts⟩ := h.whole.split cut
  exact ⟨front, fun l hl => h.lexemes l (by rw [parts]; exact List.mem_append_left _ hl)⟩

theorem drop (h : Clear s) {n : Nat} (cut : CutAt s.code n) : Clear (s.drop n) := by
  obtain ⟨-, back, parts⟩ := h.whole.split cut
  exact ⟨back, fun l hl => h.lexemes l (by rw [parts]; exact List.mem_append_right _ hl)⟩

theorem dropBlanks (h : Clear s) : Clear (s.drop (Text.leadingBlanks s.code)) :=
  ⟨h.whole.dropBlanks.1, fun l hl => h.lexemes l (h.whole.dropBlanks.2 hl)⟩

theorem uncommented (h : Clear s) : Uncommented s.raw := fun _ mem => absurd (h.lexemes _ mem) (by simp [unbroken])

end Source.Clear

/-- the marks and the body of an unbroken literal -/
theorem unbroken_marks {t o b cl : Text} (plain : ∀ l ∈ lex t, l.unbroken = true) (h : literal o b cl ∈ lex t) :
    o ≠ [] ∧ (∀ c ∈ o, quoteMark c = true) ∧ cl ≠ [] ∧ (∀ c ∈ cl, quoteMark c = true) ∧
      ∀ c ∈ o ++ b ++ cl, lineBreak c = false := by
  obtain ⟨filled, opened⟩ := literal_opened h
  exact ⟨filled, opened, unbroken_literal (plain _ h)⟩

theorem Unbroken.clear {t : Text} (h : Unbroken t) : (Source.ofText t).Clear := by
  refine ⟨⟨lex t, ⟨⟨fun hash => ?_, Or.inr fun l hl => ⟨?_, ?_⟩⟩, fun o b cl hl => ?_, ⟨true, ?_⟩, Or.inl ⟨rfl, rfl⟩⟩,
    (lex_raw t).symm, rfl⟩, h.lexemes⟩
  · exact absurd (h.lexemes _ hash) (by decide)
  · rintro rfl
    exact absurd (h.lexemes _ hl) (by decide)
  · rintro o b cl rfl
    obtain ⟨-, -, closed, -, line⟩ := unbroken_marks h.lexemes hl
    exact ⟨fun feed => absurd (line '\n' feed) (by decide), Or.inl closed⟩
  · obtain ⟨filled, opened, -, closed, -⟩ := unbroken_marks h.lexemes hl
    exact ⟨filled, opened, closed⟩
  · rw [List.append_nil, lexFrom_nil, List.append_nil, lex, text_lexFrom]

/-- No backslash stands in front of a line feed. -/
theorem Unbroken.escapesKept {t : Text} (h : Unbroken t) : EscapesKept flat t := by
  right
  rintro ⟨x, y, e⟩
  have whole : text (lex t) = (x ++ ['\\']) ++ '\n' :: y := by
    rw [lex, text_lexFrom, ← e]
    simp
  obtain ⟨pre, l, suf, z, w, parts, raw, front, -⟩ := text_split whole
  have mem : l ∈ lex t := parts ▸ List.mem_append_right pre List.mem_cons_self
  obtain ⟨rfl, rfl⟩ : l = code '\n' ∧ z = [] := by
    cases l with
    | code c =>
      obtain ⟨rfl, rfl, -⟩ := raw_code raw
      exact ⟨rfl, rfl⟩
    | remark body => exact absurd (h.lexemes _ mem) (by simp [unbroken])
    | literal o b cl =>
      have feed : '\n' ∈ o ++ b ++ cl := by
        rw [show o ++ b ++ cl = z ++ '\n' :: w from raw]
        exact List.mem_append_right _ List.mem_cons_self
      exact absurd ((unbroken_marks h.lexemes mem).2.2.2.2 _ feed) (by decide)
  rw [List.append_nil] at front
  obtain ⟨pre', m, suf', z, w, rfl, raw', -, none⟩ := text_split (y := []) front.symm
  have mem' : m ∈ lex t := by
    rw [parts]
    exact List.mem_append_left _ (List.mem_append_right _ List.mem_cons_self)
  obtain ⟨rfl, empty⟩ := List.append_eq_nil_iff.1 none.symm
  have last : suf' = [] := by
    cases suf' with
    | nil => rfl
    | cons n rest =>
      have here : n ∈ lex t := by
        rw [parts]
        exact List.mem_append_left _ (List.mem_append_right _ (List.mem_cons_of_mem _ List.mem_cons_self))
      exact absurd (List.append_eq_nil_iff.1 empty).1 (raw_filled here)
  subst last
  cases m with
  | code c =>
    obtain ⟨-, rfl, -⟩ := raw_code raw'
    apply h.feed
    exact ⟨pre', suf, by rw [parts]; simp⟩
  | remark body => exact absurd (h.lexemes _ mem') (by simp [unbroken])
  | literal o b cl =>
    obtain ⟨-, -, filled, closed, -⟩ := unbroken_marks h.lexemes mem'
    have ends : (o ++ b ++ cl).getLast? = some '\\' := by
      rw [show o ++ b ++ cl = z ++ ['\\'] from raw', List.getLast?_concat]
    rw [List.getLast?_append_of_ne_nil _ filled] at ends
    exact absurd (closed _ (List.mem_of_getLast? ends)) (by decide)

/-! ## Lines of slashes -/

/-- two slashes are never the first visible characters of a line -/
def NoSlashes (t : Text) : Prop :=
  ∀ x y, t = x ++ '/' :: '/' :: y → ∃ c ∈ Text.takeEnd (!lineBreak ·) x, blank c = false

theorem NoSlashes.of_front {t u : Text} (h : NoSlashes t) (part : u <+: t) : NoSlashes u := by
  obtain ⟨rest, rfl⟩ := part
  rintro x y rfl
  exact h x (y ++ rest) (by simp)

/-- No line of a stretch without comments starts with two slashes. -/
theorem Source.Clear.no_slashes {s : Source} (h : s.Clear) : NoSlashes s.raw := by
  intro x y e
  obtain ⟨⟨ls, well, raw, -⟩, plain⟩ := h
  rw [raw, Whole.lex_eq well] at plain
  rw [raw] at e
  obtain ⟨pre, l, suf, z, w, rfl, here, rfl, rest⟩ := text_split e
  have mem : l ∈ pre ++ l :: suf := List.mem_append_right pre List.mem_cons_self
  cases l with
  | code c =>
    obtain ⟨rfl, rfl, rfl⟩ := raw_code here
    obtain ⟨after, again⟩ := lexFrom_drop (Whole.lex_eq well)
    rw [text_cons, ← List.nil_append (text suf), ← rest] at again
    have found : special? after ('/' :: '/' :: y) = some (lineRemark ('/' :: '/' :: y)) := rfl
    rw [Lexeme.raw, List.cons_append, List.nil_append, lexFrom_some (l := (lineRemark _).1) found] at again
    exact absurd (List.cons.inj again).1 (by simp [lineRemark])
  | remark body => exact absurd (plain _ mem) (by simp [unbroken])
  | literal o b cl =>
    obtain ⟨filled, opened, -⟩ := well.marks o b cl mem
    have line := (unbroken_literal (plain _ mem)).2.2
    obtain ⟨q, qs, rfl⟩ := List.exists_cons_of_ne_nil filled
    have quote := opened q List.mem_cons_self
    cases z with
    | nil =>
      have first := (List.cons.inj here).1
      rw [first] at quote
      exact absurd quote (by decide)
    | cons d z =>
      obtain rfl : q = d := (List.cons.inj here).1
      have inside : ∀ c ∈ q :: z, (!lineBreak c) = true := by
        intro c hc
        rw [line c (by rw [show q :: qs ++ b ++ cl = q :: z ++ '/' :: w from here]; exact List.mem_append_left _ hc)]
        rfl
      refine ⟨q, ?_, ?_⟩
      · rw [Text.takeEnd_append_of_all _ inside]
        exact List.mem_append_right _ List.mem_cons_self
      · simp only [quoteMark, Bool.or_eq_true, beq_iff_eq] at quote
        rcases quote with ((rfl | rfl) | rfl) | rfl <;> decide

/-! ## Lines -/

/-- The first line of a text is where it starts, and the others follow a line break. -/
theorem lines_cons {t first : Text} {rest : List Text} (h : t.lines = first :: rest) :
    first <+: t ∧ ∀ line ∈ rest, ∃ x c y, t = x ++ c :: (line ++ y) ∧ lineBreak c = true := by
  -- lines after a break, given where the lines of what follows it stand
  have after : ∀ {a cs : Text} {d : Char}, lineBreak d = true →
      (∀ {first rest}, cs.lines = first :: rest →
        first <+: cs ∧ ∀ line ∈ rest, ∃ x c y, cs = x ++ c :: (line ++ y) ∧ lineBreak c = true) →
      ∀ line ∈ cs.lines, ∃ x c y, a ++ d :: cs = x ++ c :: (line ++ y) ∧ lineBreak c = true := by
    intro a cs d breaks ih line mem
    cases found : cs.lines with
    | nil =>
      rw [found] at mem
      cases mem
    | cons first rest =>
      rw [found] at mem
      obtain ⟨⟨y, front⟩, others⟩ := ih found
      rcases List.mem_cons.1 mem with rfl | mem
      · exact ⟨a, d, y, by rw [front], breaks⟩
      · obtain ⟨x, c, y, e, breaks'⟩ := others line mem
        exact ⟨a ++ d :: x, c, y, by simp [e], breaks'⟩
  fun_induction Text.lines t generalizing first rest with
  | case1 => cases h
  | case2 cs ih =>
    obtain ⟨rfl, rfl⟩ := List.cons.inj h
    exact ⟨List.nil_prefix, @after ['\r'] cs '\n' (by decide) ih⟩
  | case3 c cs _ breaks ih =>
    obtain ⟨rfl, rfl⟩ := List.cons.inj h
    exact ⟨List.nil_prefix, @after [] cs c breaks ih⟩
  | case4 c cs _ _ none ih =>
    obtain ⟨rfl, rfl⟩ := List.cons.inj h
    exact ⟨⟨cs, rfl⟩, by simp⟩
  | case5 c cs _ _ line others found ih =>
    obtain ⟨rfl, rfl⟩ := List.cons.inj h
    obtain ⟨front, after⟩ := ih found
    refine ⟨(List.prefix_cons_inj c).2 front, fun line hl => ?_⟩
    obtain ⟨x, d, y, e, breaks⟩ := after line hl
    exact ⟨c :: x, d, y, by rw [e]; rfl, breaks⟩

theorem lines_parts {t line : Text} (h : line ∈ t.lines) :
    ∃ x y, t = x ++ line ++ y ∧ ∀ c ∈ x.getLast?, lineBreak c = true := by
  cases found : t.lines with
  | nil =>
    rw [found] at h
    cases h
  | cons first rest =>
    rw [found] at h
    obtain ⟨⟨y, front⟩, others⟩ := lines_cons found
    rcases List.mem_cons.1 h with rfl | h
    · exact ⟨[], y, front.symm, by simp⟩
    · obtain ⟨x, c, y, e, breaks⟩ := others line h
      refine ⟨x ++ [c], y, by simp [e], fun d hd => ?_⟩
      rw [List.getLast?_concat] at hd
      cases hd
      exact breaks

theorem lines_no_slashes {t : Text} (h : NoSlashes t) : ∀ line ∈ t.lines, ¬ ['/', '/'] <+: line.trim := by
  intro line mem slashes
  obtain ⟨x, y, e, ends⟩ := lines_parts mem
  obtain ⟨r, trimmed⟩ := slashes
  have cut : line = line.takeWhile blank ++ (line.trim ++ Text.takeEnd blank (line.dropWhile blank)) := by
    rw [Text.trim, Text.trimRight, Text.trimLeft, Text.dropEnd_append_takeEnd, List.takeWhile_append_dropWhile]
  obtain ⟨c, hc, visible⟩ := h (x ++ line.takeWhile blank) (r ++ Text.takeEnd blank (line.dropWhile blank) ++ y) (by
    rw [e]
    conv => lhs; rw [cut, ← trimmed]
    simp)
  have inside := (Text.takeEnd_append_within (fun c hc => by rw [ends c hc]; rfl) _).subset hc
  rw [List.mem_takeWhile_imp inside] at visible
  cases visible

/-- A text in which no line starts with two slashes documents nothing. -/
theorem docComment?_none {t : Text} (h : NoSlashes t) : docComment? t = none := by
  have lines := lines_no_slashes h
  have steps : ∀ ls : List Text, (∀ line ∈ ls, ¬ ['/', '/'] <+: line.trim) → ls.foldl DocComment.step ⟨[], []⟩ = ⟨[], []⟩ := by
    intro ls
    induction ls with
    | nil => intro _; rfl
    | cons line rest ih =>
      intro plain
      have two : Text.after? "//" line.trim = none := after?_eq_none (plain line List.mem_cons_self)
      have three : Text.after? "///" line.trim = none := by
        refine after?_eq_none fun slashes => plain line List.mem_cons_self ?_
        exact (show ['/', '/'] <+: ['/', '/', '/'] by decide).trans slashes
      have step : DocComment.step ⟨[], []⟩ line = ⟨[], []⟩ := by
        unfold DocComment.step
        simp only [three, two]
        split <;> rfl
      rw [List.foldl_cons, step]
      exact ih fun l hl => plain l (List.mem_cons_of_mem _ hl)
  unfold docComment? DocComment.ofRegion
  rw [steps _ lines]
  simp [Text.join, List.intercalate, Text.collapse, Text.words, DocComment.nonEmpty?]

theorem commentLines_nil {t : Text} (h : NoSlashes t) : commentLines t = [] := by
  have none : (t.lines.filter fun line => Text.startsWith "//" line.trim) = [] := by
    rw [List.filter_eq_nil_iff]
    intro line mem start
    exact lines_no_slashes h line mem (List.isPrefixOf_iff_prefix.1 start)
  unfold commentLines
  rw [none]
  rfl

end EndpointSurvey
