/-
Stretches of plain lexemes, and the brackets in them. Brackets are looked for lexeme by lexeme, so that nothing inside a
literal counts; on the code of a stretch the ones found are the same.

Main statements: `Stretch.settle` (a settled stretch is one), `closing?_code` (where a bracket of a stretch closes) and
`upTo?_settle` (a stretch settles up to a bracket and behind it).
-/
import EndpointSurvey.Proofs.Source.Fading
import EndpointSurvey.Proofs.Source.Settling

namespace EndpointSurvey

namespace Lexeme

variable {l : Lexeme} {ls pre suf : List Lexeme} {depth : Nat}

@[simp] theorem settled_code (c : Char) : (code c).settled = code c := rfl

theorem settled_eq_code {c : Char} : l.settled = code c ↔ l = code c := by
  cases l <;> simp [settled]

theorem settled_gap (l : Lexeme) : l.settled.gap = l.gap := by cases l <;> rfl

theorem mem_settle {afterBlank : Bool} (h : l ∈ settle afterBlank ls) :
    l = code ' ' ∨ ∃ l' ∈ ls, l'.gap = false ∧ l = l'.settled := by
  induction ls generalizing afterBlank with
  | nil => cases h
  | cons m ms ih =>
    have later : ∀ {afterBlank}, l ∈ settle afterBlank ms →
        l = code ' ' ∨ ∃ l' ∈ m :: ms, l'.gap = false ∧ l = l'.settled := fun h =>
      (ih h).imp_right fun ⟨l', hl', both⟩ => ⟨l', List.mem_cons_of_mem m hl', both⟩
    cases gap : m.gap with
    | false =>
      rw [settle_solid gap, List.mem_cons] at h
      rcases h with rfl | h
      · exact .inr ⟨m, List.mem_cons_self, gap, rfl⟩
      · exact later h
    | true =>
      cases afterBlank with
      | false =>
        rw [(settle_gap gap ms).1, List.mem_cons] at h
        rcases h with rfl | h
        · exact .inl rfl
        · exact later h
      | true =>
        rw [(settle_gap gap ms).2] at h
        exact later h

theorem Plain.settled (h : l.Plain) (gap : l.gap = false) : l.settled.Plain := by
  cases l with
  | code c => exact h
  | remark body => cases gap
  | literal opening body closing =>
    refine h.imp_right fun ⟨opened, closed, free⟩ => ⟨opened, closed, fun quoted => ?_⟩
    rcases Text.mem_settle quoted with space | inside
    · exact absurd space (by decide)
    · exact free inside

/-! ## Stretches -/

/-- plain lexemes that their own text is lexed to -/
structure Stretch (ls : List Lexeme) : Prop where
  plain : ∀ l ∈ ls, l.Plain
  lexed : ∃ lineBlank, lexFrom lineBlank (text ls) = ls

/-- the stretch with comments blanked -/
def shown (ls : List Lexeme) : Text := ls.flatMap (masked false)

/-- the code of the stretch -/
def codeOf (ls : List Lexeme) : Text := ls.flatMap (masked true)

theorem codeOf_cons (l : Lexeme) (ls : List Lexeme) : codeOf (l :: ls) = l.masked true ++ codeOf ls := List.flatMap_cons

theorem codeOf_append (pre suf : List Lexeme) : codeOf (pre ++ suf) = codeOf pre ++ codeOf suf := List.flatMap_append

theorem codeOf_length (ls : List Lexeme) : (codeOf ls).length = (text ls).length := masked_text_length true ls

namespace Stretch

theorem ofText {t : Text} (plain : ∀ l ∈ lex t, l.Plain) : Stretch (lex t) :=
  ⟨plain, true, by rw [lex, text_lexFrom]⟩

theorem front (h : Stretch (pre ++ suf)) : Stretch pre := by
  obtain ⟨lineBlank, lexed⟩ := h.lexed
  obtain ⟨after, e⟩ := lexFrom_truncate lexed (z := []) List.nil_prefix
  rw [List.append_nil, lexFrom_nil, List.append_nil] at e
  exact ⟨fun l hl => h.plain l (List.mem_append_left suf hl), lineBlank, e⟩

theorem back (h : Stretch (pre ++ suf)) : Stretch suf := by
  obtain ⟨lineBlank, lexed⟩ := h.lexed
  exact ⟨fun l hl => h.plain l (List.mem_append_right pre hl), lexFrom_drop lexed⟩

theorem tail (h : Stretch (l :: ls)) : Stretch ls := @back [l] ls h

theorem settle (h : Stretch ls) (afterBlank : Bool) : Stretch (settle afterBlank ls) := by
  obtain ⟨lineBlank, lexed⟩ := h.lexed
  refine ⟨?_, lineBlank, ?_⟩
  · intro l hl
    rcases mem_settle hl with rfl | ⟨l', hl', gap, rfl⟩
    · exact ⟨by decide, by decide⟩
    · exact (h.plain l' hl').settled gap
  · have again := @lexFrom_settle lineBlank (text ls) (by rw [lexed]; exact h.plain) lineBlank afterBlank
    rwa [lexed] at again

theorem lex_eq (h : Stretch ls) : lex (text ls) = ls := by
  obtain ⟨lineBlank, lexed⟩ := h.lexed
  have hash : code '#' ∉ lexFrom lineBlank (text ls) := by
    rw [lexed]
    exact fun member => (h.plain _ member).2 rfl
  rw [lex, lexFrom_lineBlank hash true fun _ => rfl, lexed]

theorem mask_eq (h : Stretch ls) (literals : Bool) : mask literals (text ls) = ls.flatMap (masked literals) := by
  rw [mask, h.lex_eq]

end Stretch

/-! ## Brackets -/

/-- the lexemes up to the bracket that closes what is open, and those behind it -/
def upTo? (opener closer : Char) (depth : Nat) : List Lexeme → Option (List Lexeme × List Lexeme)
  | [] => none
  | l :: ls =>
    if l = code closer ∧ depth = 0 then some ([], ls)
    else
      let depth := if l = code opener then depth + 1 else if l = code closer then depth - 1 else depth
      (upTo? opener closer depth ls).map fun (inner, rest) => (l :: inner, rest)

/-- the lexemes between the first opening parenthesis and the one that closes it -/
def list? : List Lexeme → Option (List Lexeme)
  | [] => none
  | l :: ls => if l = code '(' then (upTo? '(' ')' 0 ls).map (·.1) else list? ls

section
variable {opener closer : Char} {inner rest : List Lexeme}

theorem upTo?_append (h : upTo? opener closer depth ls = some (inner, rest)) : ls = inner ++ code closer :: rest := by
  induction ls generalizing depth inner with
  | nil => cases h
  | cons l ls ih =>
    rw [upTo?] at h
    split at h
    · next stop =>
      cases h
      rw [stop.1]
      rfl
    · obtain ⟨⟨inner', rest'⟩, found, e⟩ := Option.map_eq_some_iff.1 h
      cases e
      rw [List.cons_append, ← ih found]

/-- A structural character of the code of a plain lexeme is the lexeme. -/
theorem eq_code_of_mem {c : Char} (sharp : structural c = true) (plain : l.Plain) (member : c ∈ l.masked true) :
    l = code c := by
  have faint : ∀ body, c ∉ blankOut body := by
    intro body member
    rw [structural_blank (blankOut_mem member)] at sharp
    cases sharp
  have unmarked : quoteMark c = false := by
    simp only [structural, Bool.and_eq_true, Bool.not_eq_true'] at sharp
    exact sharp.2
  cases l with
  | code d => rw [List.mem_singleton.1 member]
  | remark body => exact absurd member (faint body)
  | literal opening body closing =>
    have marks : ∀ d ∈ opening ++ closing, quoteMark d = true := by
      have listed : ∀ marks ∈ regularMarks ++ verbatimMarks, (marks ++ ['"']).all quoteMark = true := by decide
      rcases plain with ⟨opened, rfl⟩ | ⟨rfl, rfl, -⟩
      · exact List.all_eq_true.1 (listed opening (List.mem_append.2 opened))
      · exact Text.forall_of_all (by decide)
    simp only [masked, if_true, List.mem_append] at member
    rcases member with (member | member) | member
    · rw [marks c (List.mem_append_left closing member)] at unmarked
      cases unmarked
    · exact absurd member (faint body)
    · rw [marks c (List.mem_append_right opening member)] at unmarked
      cases unmarked

theorem closingFrom_free {depth : Int} {offset : Nat} {s : Text} (h : ∀ c ∈ s, c ≠ opener ∧ c ≠ closer) (t : Text) :
    closingFrom opener closer depth offset (s ++ t) = closingFrom opener closer depth (offset + s.length) t := by
  induction s generalizing offset with
  | nil => rfl
  | cons c cs ih =>
    obtain ⟨here, later⟩ := List.forall_mem_cons.1 h
    rw [List.cons_append, closingFrom, if_neg here.1, if_neg here.2, ih later, List.length_cons, Nat.add_right_comm]
    rfl

variable (sharp : structural opener = true ∧ structural closer = true) (distinct : opener ≠ closer)
include sharp distinct

theorem closingFrom_code (plain : ∀ l ∈ ls, l.Plain) (depth offset : Nat) :
    closingFrom opener closer ((depth : Int) + 1) offset (codeOf ls) =
      (upTo? opener closer depth ls).map fun (inner, _) => offset + (text inner).length := by
  -- the scan has one bracket more open than the stretch: the one in front of it
  induction ls generalizing depth offset with
  | nil => rfl
  | cons l ls ih =>
    obtain ⟨here, later⟩ := List.forall_mem_cons.1 plain
    have shift : ∀ found : Option (List Lexeme × List Lexeme),
        found.map (fun (inner, _) => offset + l.raw.length + (text inner).length) =
          (found.map fun (inner, rest) => (l :: inner, rest)).map fun (inner, _) => offset + (text inner).length := by
      intro found
      rw [Option.map_map]
      congr 1
      funext ⟨inner, rest⟩
      simp [Nat.add_assoc]
    by_cases bracket : ∃ c, l = code c
    · obtain ⟨c, rfl⟩ := bracket
      rw [codeOf_cons, masked, List.singleton_append, closingFrom, upTo?]
      by_cases ho : c = opener
      · subst ho
        rw [if_pos rfl, if_neg (fun stop => distinct (code.inj stop.1)), ← shift]
        simp only [if_true]
        exact ih later (depth + 1) (offset + 1)
      · rw [if_neg ho]
        by_cases hc : c = closer
        · subst hc
          rw [if_pos rfl]
          cases depth with
          | zero =>
            rw [if_pos (by decide), if_pos ⟨rfl, rfl⟩]
            rfl
          | succ depth =>
            rw [if_neg (by omega), if_neg (fun stop => Nat.succ_ne_zero depth stop.2), ← shift,
              show ((depth + 1 : Nat) : Int) + 1 - 1 = (depth : Int) + 1 by omega]
            simp only [code.injEq, ho, if_false, if_true]
            exact ih later depth (offset + 1)
        · rw [if_neg hc, if_neg (fun stop => hc (code.inj stop.1)), ← shift]
          simp only [code.injEq, ho, hc, if_false]
          exact ih later depth (offset + 1)
    · have other : ∀ c, l ≠ code c := fun c e => bracket ⟨c, e⟩
      have free : ∀ c ∈ l.masked true, c ≠ opener ∧ c ≠ closer := fun c member =>
        ⟨fun e => other opener (eq_code_of_mem sharp.1 here (e ▸ member)),
          fun e => other closer (eq_code_of_mem sharp.2 here (e ▸ member))⟩
      rw [codeOf_cons, closingFrom_free free, ih later, masked_length, upTo?, if_neg (fun stop => other _ stop.1),
        ← shift]
      simp only [if_neg (other opener), if_neg (other closer)]

/-- The bracket that closes a stretch stands behind the lexemes up to it. -/
theorem closing?_code (plain : ∀ l ∈ ls, l.Plain) : closing? opener closer (codeOf (code opener :: ls)) =
    (upTo? opener closer 0 ls).map fun (inner, _) => 1 + (text inner).length := by
  have start : closing? opener closer (opener :: codeOf ls) =
      closingFrom opener closer (((0 : Nat) : Int) + 1) 1 (codeOf ls) := by
    simp [closing?, closingFrom]
  exact start.trans (closingFrom_code sharp distinct plain 0 1)

end

theorem upTo?_settle {opener closer : Char} (solid : blank opener = false ∧ blank closer = false) (depth : Nat)
    (afterBlank : Bool) (ls : List Lexeme) : upTo? opener closer depth (settle afterBlank ls) =
      (upTo? opener closer depth ls).map fun (inner, rest) => (settle afterBlank inner, settle false rest) := by
  induction ls generalizing depth afterBlank with
  | nil => rfl
  | cons l ls ih =>
    rw [upTo?]
    by_cases stop : l = code closer ∧ depth = 0
    · obtain ⟨rfl, rfl⟩ := stop
      rw [if_pos ⟨rfl, rfl⟩, settle_solid (show (code closer).gap = false from solid.2), settled_code, upTo?,
        if_pos ⟨rfl, rfl⟩]
      rfl
    · rw [if_neg stop]
      have other : ∀ {l : Lexeme} {c}, blank c = false → l.gap = true → l ≠ code c := by
        rintro l c visible gap rfl
        rw [show blank c = true from gap] at visible
        cases visible
      cases gap : l.gap with
      | false =>
        rw [settle_solid gap, upTo?, if_neg (mt (And.imp_left settled_eq_code.1) stop)]
        simp only [settled_eq_code, ih, Option.map_map]
        congr 1
        funext ⟨inner, rest⟩
        simp [settle_solid gap]
      | true =>
        have space : code ' ' ≠ code opener ∧ code ' ' ≠ code closer :=
          ⟨other solid.1 (by decide), other solid.2 (by decide)⟩
        simp only [if_neg (other solid.1 gap), if_neg (other solid.2 gap), Option.map_map]
        cases afterBlank with
        | false =>
          rw [(settle_gap gap ls).1, upTo?, if_neg (fun stop => space.2 stop.1)]
          simp only [if_neg space.1, if_neg space.2, ih, Option.map_map]
          congr 1
          funext ⟨inner, rest⟩
          simp [(settle_gap gap inner).1]
        | true =>
          rw [(settle_gap gap ls).2, ih]
          congr 1
          funext ⟨inner, rest⟩
          simp [(settle_gap gap inner).2]

theorem list?_settle (afterBlank : Bool) (ls : List Lexeme) :
    list? (settle afterBlank ls) = (list? ls).map (settle false) := by
  induction ls generalizing afterBlank with
  | nil => rfl
  | cons l ls ih =>
    rw [list?]
    cases gap : l.gap with
    | false =>
      rw [settle_solid gap, list?]
      simp only [settled_eq_code]
      split
      · rw [upTo?_settle (by decide), Option.map_map, Option.map_map]
        rfl
      · exact ih false
    | true =>
      have other : l ≠ code '(' := by
        rintro rfl
        cases gap
      rw [if_neg other]
      cases afterBlank with
      | false =>
        rw [(settle_gap gap ls).1, list?, if_neg (by decide)]
        exact ih true
      | true =>
        rw [(settle_gap gap ls).2]
        exact ih true

/-! ## Stretches as sources -/

/-- a stretch beside its code -/
def source (ls : List Lexeme) : Source := ⟨text ls, codeOf ls, (codeOf_length ls).symm⟩

theorem Stretch.ofText_eq (h : Stretch ls) : Source.ofText (text ls) = source ls :=
  Source.ext rfl (h.mask_eq true)

theorem source_drop (pre suf : List Lexeme) : (source (pre ++ suf)).drop (text pre).length = source suf := by
  apply Source.ext
  · exact (congrArg _ (text_append pre suf)).trans List.drop_left
  · rw [Source.code_drop, ← codeOf_length]
    exact (congrArg _ (codeOf_append pre suf)).trans List.drop_left

theorem source_cons (l : Lexeme) (ls : List Lexeme) : (source (l :: ls)).drop l.raw.length = source ls := by
  have := source_drop [l] ls
  rwa [text_cons, text_nil, List.append_nil] at this

theorem source_take (pre suf : List Lexeme) : (source (pre ++ suf)).take (text pre).length = source pre := by
  apply Source.ext
  · exact (congrArg _ (text_append pre suf)).trans List.take_left
  · rw [Source.code_take, ← codeOf_length]
    exact (congrArg _ (codeOf_append pre suf)).trans List.take_left

/-! ## Ends without blanks -/

/-- A lexeme that is no gap parts what settles before it from what settles behind it. -/
theorem settle_append (gap : l.gap = false) (afterBlank : Bool) (pre suf : List Lexeme) :
    settle afterBlank (pre ++ l :: suf) = settle afterBlank pre ++ l.settled :: settle false suf := by
  induction pre generalizing afterBlank with
  | nil => exact settle_solid gap afterBlank suf
  | cons m ms ih =>
    rw [List.cons_append]
    cases gap' : m.gap with
    | false => rw [settle_solid gap', settle_solid gap', ih, List.cons_append]
    | true =>
      cases afterBlank with
      | false => rw [(settle_gap gap' _).1, (settle_gap gap' _).1, ih, List.cons_append]
      | true => rw [(settle_gap gap' _).2, (settle_gap gap' _).2, ih]

/-- Solid code settles as it is, and parts what settles before it from what settles behind it. -/
theorem settle_codes {name : Text} (filled : name ≠ []) (solid : ∀ c ∈ name, blank c = false) (afterBlank : Bool)
    (pre suf : List Lexeme) :
    settle afterBlank (pre ++ (name.map code ++ suf)) =
      settle afterBlank pre ++ (name.map code ++ settle false suf) := by
  induction name generalizing afterBlank pre with
  | nil => exact absurd rfl filled
  | cons c cs ih =>
    obtain ⟨here, later⟩ := List.forall_mem_cons.1 solid
    rw [List.map_cons, List.cons_append, settle_append (show (code c).gap = false from here), settled_code]
    cases cs with
    | nil => rfl
    | cons d ds =>
      have rest := ih (List.cons_ne_nil d ds) later false []
      rw [List.nil_append, settle_nil, List.nil_append] at rest
      rw [rest, List.cons_append]

/-- A run of gaps settles to a space, or to nothing behind a blank. -/
theorem settle_gaps (gaps : ∀ l ∈ ls, l.gap = true) :
    (settle false ls = [] ∨ settle false ls = [code ' ']) ∧ settle true ls = [] := by
  have passed : ∀ ls : List Lexeme, (∀ l ∈ ls, l.gap = true) → settle true ls = [] := by
    intro ls gaps
    induction ls with
    | nil => rfl
    | cons l ls ih =>
      rw [(settle_gap (gaps l List.mem_cons_self) ls).2, ih fun m hm => gaps m (List.mem_cons_of_mem l hm)]
  refine ⟨?_, passed ls gaps⟩
  cases ls with
  | nil => exact .inl rfl
  | cons l ls =>
    right
    rw [(settle_gap (gaps l List.mem_cons_self) ls).1, passed ls fun m hm => gaps m (List.mem_cons_of_mem l hm)]

theorem text_settle_gaps (gaps : ∀ l ∈ ls, l.gap = true) :
    text (settle false ls) = [] ∨ text (settle false ls) = [' '] := by
  rcases (settle_gaps gaps).1 with e | e <;> rw [e]
  · exact .inl rfl
  · exact .inr rfl

theorem text_codes (t : Text) : text (t.map code) = t := by
  induction t with
  | nil => rfl
  | cons c cs ih => rw [List.map_cons, text_cons, ih]; rfl

/-- the settled stretch without blanks at its ends -/
def bare (ls : List Lexeme) : List Lexeme :=
  if (settle true ls).getLast? = some (code ' ') then (settle true ls).dropLast else settle true ls

/-- The settled stretch may end in one space more. -/
theorem settle_bare (ls : List Lexeme) : ∃ gap, (gap = [] ∨ gap = [code ' ']) ∧ settle true ls = bare ls ++ gap := by
  rw [bare]
  split
  · next last =>
    obtain ⟨front, e⟩ := List.getLast?_eq_some_iff.1 last
    exact ⟨[code ' '], .inr rfl, by rw [e, List.dropLast_concat]⟩
  · exact ⟨[], .inl rfl, (List.append_nil _).symm⟩

theorem bare_subset (ls : List Lexeme) : bare ls ⊆ settle true ls := by
  obtain ⟨gap, -, e⟩ := settle_bare ls
  rw [e]
  exact List.subset_append_left _ _

theorem bare_append (gap : l.gap = false) (pre suf : List Lexeme) :
    bare (pre ++ l :: suf) = settle true pre ++ bare (l :: suf) := by
  have whole := settle_append gap true pre suf
  rw [← settle_solid gap true suf] at whole
  have filled : settle true (l :: suf) ≠ [] := by
    rw [settle_solid gap]
    exact List.cons_ne_nil _ _
  rw [bare, bare, whole, List.getLast?_append, List.getLast?_eq_some_getLast filled, Option.some_or]
  split
  · rw [List.dropLast_append_of_ne_nil filled]
  · rfl

theorem bare_cons (gap : l.gap = false) (ls : List Lexeme) : ∃ ms, bare (l :: ls) = l.settled :: ms := by
  rw [bare, settle_solid gap]
  split
  · cases e : settle false ls with
    | nil =>
      rename_i last
      rw [e, List.getLast?_singleton, Option.some.injEq, settled_eq_code] at last
      rw [last] at gap
      cases gap
    | cons m ms => exact ⟨(m :: ms).dropLast, rfl⟩
  · exact ⟨_, rfl⟩

/-- Behind a blank a stretch settles to nothing, or to what starts with no gap. -/
theorem settle_true_first (ls : List Lexeme) :
    settle true ls = [] ∨ ∃ m ms, settle true ls = m :: ms ∧ m.gap = false := by
  induction ls with
  | nil => exact .inl rfl
  | cons l ls ih =>
    cases gap : l.gap with
    | false => exact .inr ⟨_, _, settle_solid gap true ls, by rw [settled_gap, gap]⟩
    | true => rwa [(settle_gap gap ls).2]

/-- A lexeme between gaps is left. -/
theorem bare_single (gap : l.gap = false) (gaps : ∀ l ∈ ls, l.gap = true) : bare (l :: ls) = [l.settled] := by
  have solid : l.settled ≠ code ' ' := by
    rw [Ne, settled_eq_code]
    rintro rfl
    cases gap
  rw [bare, settle_solid gap]
  rcases (settle_gaps gaps).1 with e | e <;> rw [e]
  · rw [if_neg (by simpa using solid)]
  · rfl

/-- Gaps behind solid code are dropped. -/
theorem bare_codes {name : Text} (filled : name ≠ []) (solid : ∀ c ∈ name, blank c = false) (pre : List Lexeme)
    (gaps : ∀ l ∈ ls, l.gap = true) : bare (pre ++ (name.map code ++ ls)) = settle true pre ++ name.map code := by
  obtain ⟨front, c, rfl⟩ : ∃ front c, name = front ++ [c] := ⟨_, _, (List.dropLast_concat_getLast filled).symm⟩
  have last : (code c).gap = false := solid c (by simp)
  have parts : pre ++ ((front ++ [c]).map code ++ ls) = pre ++ front.map code ++ code c :: ls := by simp
  rw [parts, bare_append last, bare_single last gaps, List.map_append, ← List.append_assoc]
  congr 1
  cases front with
  | nil => simp
  | cons d ds =>
    have rest := settle_codes (List.cons_ne_nil d ds) (fun c hc => solid c (List.mem_append_left _ hc)) true pre []
    rwa [List.append_nil, settle_nil, List.append_nil] at rest

theorem Stretch.bare (h : Stretch ls) : Stretch (bare ls) := by
  obtain ⟨gap, -, e⟩ := settle_bare ls
  have settled := h.settle true
  rw [e] at settled
  exact settled.front

/-- A plain lexeme that is no gap has solid ends, as it is written and when it is blanked. -/
theorem Plain.ends (h : l.Plain) (gap : l.gap = false) (literals : Bool) :
    (∃ c cs, l.masked literals = c :: cs ∧ blank c = false) ∧
      ∃ cs c, l.masked literals = cs ++ [c] ∧ blank c = false := by
  cases l with
  | code c => exact ⟨⟨c, [], rfl, gap⟩, [], c, rfl, gap⟩
  | remark body => cases gap
  | literal opening body closing =>
    obtain ⟨⟨opened, solid⟩, mark, rfl, closed⟩ := h.marks
    obtain ⟨c, cs, rfl⟩ := List.exists_cons_of_ne_nil opened
    exact ⟨⟨c, _, rfl, solid c List.mem_cons_self⟩, _, mark, rfl, closed⟩

theorem Plain.solid_ends (h : l.Plain) (gap : l.gap = false) :
    (∀ c ∈ l.raw.head?, blank c = false) ∧ ∀ c ∈ l.raw.getLast?, blank c = false := by
  obtain ⟨⟨c, cs, head, solid⟩, ds, d, last, solid'⟩ := h.ends gap false
  rw [masked_solid gap] at head last
  constructor
  · rw [head]
    rintro _ ⟨⟩
    exact solid
  · rw [last, List.getLast?_concat]
    rintro _ ⟨⟩
    exact solid'

/-- What is left of a stretch is its text with comments blanked and single spaces between the words. -/
theorem text_bare (plain : ∀ l ∈ ls, l.Plain) : text (bare ls) = (shown ls).collapse := by
  obtain ⟨gap, one, whole, shape⟩ := Text.settle_true_eq (shown ls)
  rw [shown, ← text_settle plain] at whole
  have solid : (shown ls).collapse.getLast? ≠ some ' ' := by
    intro last
    rcases shape with empty | spaced
    · rw [empty] at last
      cases last
    · exact absurd (Text.spaced_last spaced ' ' last) (by decide)
  rw [bare]
  split
  · next last =>
    obtain ⟨front, e⟩ := List.getLast?_eq_some_iff.1 last
    rw [e, text_append] at whole
    rw [e, List.dropLast_concat]
    rcases one with rfl | rfl
    · rw [List.append_nil] at whole
      exact absurd (by rw [shown, ← whole]; exact List.getLast?_concat) solid
    · exact List.append_cancel_right whole
  · next last =>
    rcases one with rfl | rfl
    · rw [whole, List.append_nil]
      rfl
    · -- the text ends in a blank, and so does its last lexeme
      rcases List.eq_nil_or_concat (settle true ls) with empty | ⟨front, l, e⟩
      · rw [empty] at whole
        exact absurd whole.symm (by simp)
      · rw [List.concat_eq_append] at e
        rcases mem_settle (l := l) (by rw [e]; simp) with rfl | ⟨l', member, gap, rfl⟩
        · exact absurd (by rw [e, List.getLast?_concat]) last
        · have gap' : l'.settled.gap = false := by rwa [settled_gap]
          obtain ⟨cs, c, ends, visible⟩ := (((plain l' member).settled gap).ends gap' false).2
          rw [e, text_append, text_cons, text_nil, List.append_nil, ← masked_solid gap', ends, ← List.append_assoc]
            at whole
          obtain rfl : c = ' ' := by simpa using (List.append_inj_right' whole rfl)
          cases visible

end Lexeme

end EndpointSurvey
