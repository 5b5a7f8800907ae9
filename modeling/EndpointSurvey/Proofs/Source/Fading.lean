/-
A source beside the same source with its comments blanked and the blanks of its code mapped. The two stay beside each
other when both are cut at a character that the structure of code is read off.

Main statements:
- `Source.Fades.take` and `Source.Fades.drop`: cutting at a structural character;
- `Source.Fades.dropBlanks`: passing over blanks;
- `TextFades.mask`: the texts of the two have the same blanked side, up to the kind of blanks.
-/
import EndpointSurvey.Proofs.Declaration.Values
import EndpointSurvey.Proofs.Source.Relexing

namespace EndpointSurvey

open Lexeme

/-- a text beside what it becomes; a text without comments that is left alone may be any part of a literal -/
def TextFades (φ : Char → Char) (x x' : Text) : Prop :=
  (Clean φ (lex x) ∧ x' = fade φ x) ∨ (x' = x ∧ ∀ c ∈ x, φ c = c)

/-- a character at which code is cut: no blank and no quote -/
def structural (c : Char) : Bool := !blank c && !quoteMark c

/-- a place next to a structural character, or an end of the code -/
inductive CutAt (code : Text) : Nat → Prop
  | start : CutAt code 0
  | stop {n : Nat} (past : code.length ≤ n) : CutAt code n
  | before {n : Nat} {c : Char} (here : (code.drop n).head? = some c) (sharp : structural c = true) : CutAt code n
  | after {n : Nat} {c : Char} (here : (code.drop n).head? = some c) (sharp : structural c = true) : CutAt code (n + 1)

/-- the front of a raw literal that nothing closes, beside its blanked side: of the latter only the opening marks are
known -/
structure OpenRaw (φ : Char → Char) (tail code x y : Text) : Prop where
  text : tail = ['"', '"', '"'] ++ x
  blanked : code = ['"', '"', '"'] ++ y
  aligned : x.length = y.length
  opens : Text.splitFirst? ['"', '"', '"'] x = none
  fixed : ∀ c, c ∈ x ∨ c ∈ y → φ c = c

/-- lexemes that keep their places, and what follows them -/
structure Lexed (φ : Char → Char) (ls : List Lexeme) (tail code : Text) : Prop where
  clean : Clean φ ls
  marks : ∀ o b cl, literal o b cl ∈ ls → o ≠ [] ∧ (∀ c ∈ o, quoteMark c = true) ∧ ∀ c ∈ cl, quoteMark c = true
  lexemes : ∃ lineBlank, lexFrom true (text ls ++ tail) = ls ++ lexFrom lineBlank tail
  open_ : (tail = [] ∧ code = []) ∨ ∃ x y, OpenRaw φ tail code x y

/-- a source beside what it becomes: its lexemes fade, or it is a part of a literal and stays as it is -/
inductive Source.Fades (φ : Char → Char) : Source → Source → Prop
  | lexed {s s' : Source} (ls : List Lexeme) (tail code : Text) (well : Lexed φ ls tail code)
      (raw : s.raw = text ls ++ tail) (blanked : s.code = ls.flatMap (masked true) ++ code)
      (raw' : s'.raw = fadedText φ ls ++ tail) (blanked' : s'.code = s.code.map φ) : Fades φ s s'
  | same (s : Source) (raw : ∀ c ∈ s.raw, φ c = c) (blanked : ∀ c ∈ s.code, φ c = c) : Fades φ s s

section
variable {φ : Char → Char}

theorem masked_text_length (literals : Bool) (ls : List Lexeme) :
    (ls.flatMap (masked literals)).length = (text ls).length := by
  induction ls with
  | nil => rfl
  | cons l ls ih => rw [List.flatMap_cons, text_cons, List.length_append, List.length_append, ih, masked_length]

theorem fadedText_length (φ : Char → Char) (ls : List Lexeme) : (fadedText φ ls).length = (text ls).length := by
  induction ls with
  | nil => rfl
  | cons l ls ih =>
    rw [fadedText_cons, text_cons, List.length_append, List.length_append, ih]
    cases l <;> simp [faded, raw, blankOut]

namespace OpenRaw

variable {tail code x y : Text}

theorem splitFirst?_front {piece t : Text} (h : Text.splitFirst? piece t = none) {z : Text} (cut : z <+: t) :
    Text.splitFirst? piece z = none := by
  obtain ⟨u, rfl⟩ := cut
  induction z with
  | nil =>
    cases piece with
    | nil => cases u <;> cases h
    | cons c cs => rfl
  | cons c cs ih =>
    rw [List.cons_append] at h
    unfold Text.splitFirst? at h ⊢
    have absent : Text.after? piece (c :: cs) = none := by
      cases found : Text.after? piece (c :: cs) with
      | none => rfl
      | some rest =>
        have whole := after?_append found
        rw [← List.cons_append, ← whole, List.append_assoc, after?_self] at h
        cases h
    rw [absent]
    split at h
    · cases h
    · rw [Option.map_eq_none_iff] at h ⊢
      exact ih h

theorem lexFrom_open {x : Text} (opens : Text.splitFirst? ['"', '"', '"'] x = none) (lineBlank : Bool) :
    lexFrom lineBlank (['"', '"', '"'] ++ x) =
      [literal ['"', '"', '"'] (x.take (x.length - 3)) (x.drop (x.length - 3))] := by
  have found : special? lineBlank (['"', '"', '"'] ++ x) = some (rawAfter x) := rfl
  rw [rawAfter, opens] at found
  rw [lexFrom_some found, lexFrom_nil]

/-- the only lexeme of such a tail -/
theorem lexFrom_tail (h : OpenRaw φ tail code x y) (lineBlank : Bool) :
    lexFrom lineBlank tail =
      [literal ['"', '"', '"'] (x.take (x.length - 3)) (x.drop (x.length - 3))] := by
  rw [h.text, lexFrom_open h.opens]

theorem take (h : OpenRaw φ tail code x y) (k : Nat) :
    OpenRaw φ (['"', '"', '"'] ++ x.take k) (['"', '"', '"'] ++ y.take k) (x.take k) (y.take k) where
  text := rfl
  blanked := rfl
  aligned := by rw [List.length_take, List.length_take, h.aligned]
  opens := splitFirst?_front h.opens (List.take_prefix k x)
  fixed := fun c hc => h.fixed c (hc.imp List.mem_of_mem_take List.mem_of_mem_take)

end OpenRaw

/-! ## Places -/

theorem structural_blank {c : Char} (h : c = ' ' ∨ c = '\n') : structural c = false := by
  rcases h with rfl | rfl <;> decide

/-- A structural character in front of which some lexemes lie is a character of code. -/
theorem code_of_structural {ls : List Lexeme} {n : Nat} {c : Char}
    (marks : ∀ o b cl, literal o b cl ∈ ls → o ≠ [] ∧ (∀ c ∈ o, quoteMark c = true) ∧ ∀ c ∈ cl, quoteMark c = true)
    (here : (ls.flatMap (masked true))[n]? = some c) (sharp : structural c = true) :
    ∃ pre suf, ls = pre ++ code c :: suf ∧ n = (text pre).length := by
  induction ls generalizing n with
  | nil => cases here
  | cons l ls ih =>
    have width := masked_length true l
    rw [List.flatMap_cons] at here
    by_cases inside : n < (l.masked true).length
    · rw [List.getElem?_append_left inside] at here
      have mem : c ∈ l.masked true := List.mem_of_getElem? here
      cases l with
      | code d =>
        obtain rfl : n = 0 := by simpa [masked] using inside
        cases here
        exact ⟨[], ls, rfl, rfl⟩
      | remark body =>
        rw [structural_blank (blankOut_mem mem)] at sharp
        cases sharp
      | literal o b cl =>
        obtain ⟨-, opened, closed⟩ := marks o b cl List.mem_cons_self
        have mark : quoteMark c = true ∨ c = ' ' ∨ c = '\n' := by
          simp only [masked, if_true, List.mem_append] at mem
          rcases mem with (mem | mem) | mem
          · exact Or.inl (opened c mem)
          · exact Or.inr (blankOut_mem mem)
          · exact Or.inl (closed c mem)
        rcases mark with mark | blank
        · rw [structural, mark, Bool.not_true, Bool.and_false] at sharp
          cases sharp
        · rw [structural_blank blank] at sharp
          cases sharp
    · obtain ⟨m, rfl⟩ := Nat.exists_eq_add_of_le (Nat.le_of_not_lt inside)
      rw [List.getElem?_append_right (Nat.le_add_right _ _), Nat.add_sub_cancel_left] at here
      obtain ⟨pre, suf, rfl, rfl⟩ := ih (fun o b cl h => marks o b cl (List.mem_cons_of_mem l h)) here
      refine ⟨l :: pre, suf, rfl, ?_⟩
      rw [text_cons, List.length_append, width]

namespace Lexed

variable {ls pre suf : List Lexeme} {tail code : Text}

theorem front (h : Lexed φ (pre ++ suf) tail code) : Lexed φ pre [] [] where
  clean := h.clean.of_subset (List.subset_append_left _ _)
  marks := fun o b cl hm => h.marks o b cl (List.mem_append_left suf hm)
  lexemes := by
    obtain ⟨after, e⟩ := h.lexemes
    rw [List.append_assoc] at e
    exact lexFrom_truncate e List.nil_prefix
  open_ := Or.inl ⟨rfl, rfl⟩

theorem hash_tail (h : Lexed φ ls tail code) (lineBlank : Bool) : Lexeme.code '#' ∉ lexFrom lineBlank tail := by
  rcases h.open_ with ⟨rfl, -⟩ | ⟨x, y, raw⟩
  · rw [lexFrom_nil]
    exact List.not_mem_nil
  · rw [raw.lexFrom_tail]
    simp

theorem back (h : Lexed φ (pre ++ suf) tail code) : Lexed φ suf tail code where
  clean := h.clean.of_subset (List.subset_append_right _ _)
  marks := fun o b cl hm => h.marks o b cl (List.mem_append_right pre hm)
  lexemes := by
    obtain ⟨after, e⟩ := h.lexemes
    rw [List.append_assoc] at e
    obtain ⟨before, e⟩ := lexFrom_drop e
    rw [text_append, text_lexFrom] at e
    refine ⟨after, ?_⟩
    rw [lexFrom_lineBlank ?_ true fun _ => rfl, e]
    rw [e, List.mem_append, not_or]
    exact ⟨fun hm => h.clean.hash (List.mem_append_right pre hm), h.hash_tail after⟩
  open_ := h.open_

theorem cutTail (h : Lexed φ ls tail code) {x y : Text} (raw : OpenRaw φ tail code x y) (k : Nat) :
    Lexed φ ls (['"', '"', '"'] ++ x.take k) (['"', '"', '"'] ++ y.take k) where
  clean := h.clean
  marks := h.marks
  lexemes := by
    obtain ⟨after, e⟩ := h.lexemes
    refine lexFrom_truncate e ?_
    rw [text_lexFrom, raw.text]
    exact (List.prefix_append_right_inj _).2 (List.take_prefix k x)
  open_ := Or.inr ⟨_, _, raw.take k⟩

/-- A place next to a structural character lies between two lexemes, or in a raw literal that nothing closes. -/
theorem place (h : Lexed φ ls tail code) {n : Nat} (cut : CutAt (ls.flatMap (masked true) ++ code) n) :
    (∃ pre suf, ls = pre ++ suf ∧ n = (text pre).length) ∨ (tail = [] ∧ (text ls).length ≤ n) ∨
      ∃ x y k, OpenRaw φ tail code x y ∧ n = (text ls).length + (3 + k) := by
  have width := masked_text_length true ls
  have next : ∀ {m : Nat} {c : Char}, ((ls.flatMap (masked true) ++ code).drop m).head? = some c →
      structural c = true → (∃ pre suf, ls = pre ++ Lexeme.code c :: suf ∧ m = (text pre).length) ∨
        ∃ x y k, OpenRaw φ tail code x y ∧ m = (text ls).length + (3 + k) := by
    intro m c here sharp
    rw [List.head?_drop] at here
    by_cases inside : m < (text ls).length
    · left
      rw [List.getElem?_append_left (by omega)] at here
      exact code_of_structural h.marks here sharp
    · right
      obtain ⟨k, rfl⟩ := Nat.exists_eq_add_of_le (Nat.le_of_not_lt inside)
      rw [List.getElem?_append_right (by omega), width, Nat.add_sub_cancel_left] at here
      rcases h.open_ with ⟨-, rfl⟩ | ⟨x, y, raw⟩
      · cases here
      · have deep : 3 ≤ k := by
          rw [raw.blanked] at here
          match k with
          | 0 | 1 | 2 =>
            cases here
            exact absurd sharp (by decide)
          | k + 3 => exact Nat.le_add_left 3 k
        obtain ⟨j, rfl⟩ := Nat.exists_eq_add_of_le deep
        exact ⟨x, y, j, raw, rfl⟩
  cases cut with
  | start => exact Or.inl ⟨[], ls, rfl, rfl⟩
  | stop past =>
    right
    rw [List.length_append, width] at past
    rcases h.open_ with ⟨none, -⟩ | ⟨x, y, raw⟩
    · exact Or.inl ⟨none, by omega⟩
    · right
      rw [raw.blanked, List.length_append] at past
      simp only [List.length_cons, List.length_nil] at past
      exact ⟨x, y, n - ((text ls).length + 3), raw, by omega⟩
  | before here sharp =>
    rcases next here sharp with ⟨pre, suf, e, place⟩ | found
    · exact Or.inl ⟨pre, _, e, place⟩
    · exact Or.inr (Or.inr found)
  | after here sharp =>
    rcases next here sharp with ⟨pre, suf, e, place⟩ | ⟨x, y, k, raw, place⟩
    · refine Or.inl ⟨pre ++ [Lexeme.code _], suf, by rw [e, List.append_assoc]; rfl, ?_⟩
      rw [text_append, List.length_append, ← place]
      rfl
    · exact Or.inr (Or.inr ⟨x, y, k + 1, raw, by omega⟩)

end Lexed

/-! ## Cutting sources -/

namespace Source

theorem map_id_of_fixed {t : Text} (h : ∀ c ∈ t, φ c = c) : t.map φ = t :=
  (List.map_congr_left h).trans (List.map_id t)

namespace Fades

variable {s s' : Source}

theorem code_eq (h : Fades φ s s') : s'.code = s.code.map φ := by
  cases h with
  | lexed ls tail code well raw blanked raw' blanked' => exact blanked'
  | same raw blanked => exact (map_id_of_fixed blanked).symm

/-- the places of a cut, in the texts of two sources beside each other -/
theorem lengths {ls : List Lexeme} {tail code : Text} (raw : s.raw = text ls ++ tail)
    (blanked : s.code = ls.flatMap (masked true) ++ code) : tail.length = code.length := by
  have aligned := s.aligned
  rw [raw, blanked, List.length_append, List.length_append, masked_text_length] at aligned
  omega

/-- Sources stay beside each other when they are cut off at a structural character. -/
theorem take (h : Fades φ s s') {n : Nat} (cut : CutAt s.code n) : Fades φ (s.take n) (s'.take n) := by
  cases h with
  | same raw blanked =>
    exact Fades.same _ (fun c hc => raw c (List.mem_of_mem_take hc)) fun c hc => blanked c (List.mem_of_mem_take hc)
  | lexed ls tail code well raw blanked raw' blanked' =>
    have tails := lengths raw blanked
    have mapped : (s'.take n).code = (s.take n).code.map φ := by
      rw [code_take, code_take, blanked', List.map_take]
    rw [blanked] at cut
    rcases well.place cut with ⟨pre, suf, rfl, rfl⟩ | ⟨rfl, past⟩ | ⟨x, y, k, open_, rfl⟩
    · refine Fades.lexed pre [] [] well.front ?_ ?_ ?_ mapped
      · rw [raw_take, raw, text_append, List.append_assoc, List.take_left, List.append_nil]
      · rw [code_take, blanked, List.flatMap_append, List.append_assoc, ← masked_text_length true, List.take_left,
          List.append_nil]
      · rw [raw_take, raw', fadedText_append, List.append_assoc, ← fadedText_length φ, List.take_left, List.append_nil]
    · obtain rfl : code = [] := List.eq_nil_of_length_eq_zero tails.symm
      refine Fades.lexed ls [] [] well ?_ ?_ ?_ mapped
      · rw [raw_take, raw, List.append_nil, List.take_of_length_le past]
      · rw [code_take, blanked, List.append_nil, List.take_of_length_le (by rwa [masked_text_length])]
      · rw [raw_take, raw', List.append_nil, List.take_of_length_le (by rwa [fadedText_length])]
    · refine Fades.lexed ls _ _ (well.cutTail open_ k) ?_ ?_ ?_ mapped
      · rw [raw_take, raw, List.take_length_add_append, open_.text]
        simp [Nat.add_comm 3 k]
      · rw [code_take, blanked, ← masked_text_length true, List.take_length_add_append, open_.blanked]
        simp [Nat.add_comm 3 k]
      · rw [raw_take, raw', ← fadedText_length φ, List.take_length_add_append, open_.text]
        simp [Nat.add_comm 3 k]

/-- Sources stay beside each other when their fronts are cut off at a structural character. -/
theorem drop (h : Fades φ s s') {n : Nat} (cut : CutAt s.code n) : Fades φ (s.drop n) (s'.drop n) := by
  cases h with
  | same raw blanked =>
    exact Fades.same _ (fun c hc => raw c (List.mem_of_mem_drop hc)) fun c hc => blanked c (List.mem_of_mem_drop hc)
  | lexed ls tail code well raw blanked raw' blanked' =>
    have tails := lengths raw blanked
    have mapped : (s'.drop n).code = (s.drop n).code.map φ := by
      rw [code_drop, code_drop, blanked', List.map_drop]
    rw [blanked] at cut
    rcases well.place cut with ⟨pre, suf, rfl, rfl⟩ | ⟨rfl, past⟩ | ⟨x, y, k, open_, rfl⟩
    · refine Fades.lexed suf tail code well.back ?_ ?_ ?_ mapped
      · rw [raw_drop, raw, text_append, List.append_assoc, List.drop_left]
      · rw [code_drop, blanked, List.flatMap_append, List.append_assoc, ← masked_text_length true, List.drop_left]
      · rw [raw_drop, raw', fadedText_append, List.append_assoc, ← fadedText_length φ, List.drop_left]
    · obtain rfl : code = [] := List.eq_nil_of_length_eq_zero tails.symm
      refine Fades.lexed [] [] [] (show Lexed φ ([] ++ ls) [] [] from well).front ?_ ?_ ?_ mapped
      · rw [raw_drop, raw, List.append_nil, List.drop_of_length_le past]
        rfl
      · rw [code_drop, blanked, List.append_nil, List.drop_of_length_le (by rwa [masked_text_length])]
        rfl
      · rw [raw_drop, raw', List.append_nil, List.drop_of_length_le (by rwa [fadedText_length])]
        rfl
    · have raw_eq : (s.drop ((text ls).length + (3 + k))).raw = x.drop k := by
        rw [raw_drop, raw, List.drop_length_add_append, open_.text]
        simp [Nat.add_comm 3 k]
      have code_eq : (s.drop ((text ls).length + (3 + k))).code = y.drop k := by
        rw [code_drop, blanked, ← masked_text_length true, List.drop_length_add_append, open_.blanked]
        simp [Nat.add_comm 3 k]
      have fixed : ∀ c ∈ y.drop k, φ c = c := fun c hc => open_.fixed c (Or.inr (List.mem_of_mem_drop hc))
      have same : s'.drop ((text ls).length + (3 + k)) = s.drop ((text ls).length + (3 + k)) := by
        apply Source.ext
        · rw [raw_eq, raw_drop, raw', ← fadedText_length φ, List.drop_length_add_append, open_.text]
          simp [Nat.add_comm 3 k]
        · rw [mapped, code_eq, map_id_of_fixed fixed]
      rw [same]
      refine Fades.same _ ?_ ?_
      · rw [raw_eq]
        exact fun c hc => open_.fixed c (Or.inl (List.mem_of_mem_drop hc))
      · rw [code_eq]
        exact fixed

/-- the blanks in front of some lexemes end between two of them -/
theorem leadingBlanks_place {ls : List Lexeme} {tail code : Text} (well : Lexed φ ls tail code) :
    ∃ pre suf, ls = pre ++ suf ∧ Text.leadingBlanks (ls.flatMap (masked true) ++ code) = (text pre).length := by
  induction ls with
  | nil =>
    refine ⟨[], [], rfl, ?_⟩
    rcases well.open_ with ⟨-, rfl⟩ | ⟨x, y, open_⟩
    · rfl
    · rw [open_.blanked]
      rfl
  | cons l ls ih =>
    obtain ⟨pre, suf, rfl, e⟩ := ih (show Lexed φ ([l] ++ ls) tail code from well).back
    rw [List.flatMap_cons, List.append_assoc]
    cases l with
    | code c =>
      by_cases b : blank c = true
      · refine ⟨Lexeme.code c :: pre, suf, rfl, ?_⟩
        rw [Text.leadingBlanks, masked, List.cons_append, List.takeWhile_cons_of_pos b, List.nil_append, List.length_cons,
          ← Text.leadingBlanks, e]
        simp [Lexeme.raw, Nat.add_comm]
      · refine ⟨[], Lexeme.code c :: (pre ++ suf), rfl, ?_⟩
        rw [Text.leadingBlanks, masked, List.cons_append, List.takeWhile_cons_of_neg b]
        rfl
    | remark body =>
      refine ⟨Lexeme.remark body :: pre, suf, rfl, ?_⟩
      have blanks : ∀ c ∈ blankOut body, blank c = true := by
        intro c hc
        rcases blankOut_mem hc with rfl | rfl <;> decide
      rw [Text.leadingBlanks, masked, List.takeWhile_append_of_pos blanks, List.length_append, ← Text.leadingBlanks, e]
      simp [Lexeme.raw, blankOut]
    | literal o b cl =>
      refine ⟨[], literal o b cl :: (pre ++ suf), rfl, ?_⟩
      obtain ⟨filled, opened, -⟩ := well.marks o b cl List.mem_cons_self
      obtain ⟨c, cs, rfl⟩ := List.exists_cons_of_ne_nil filled
      have sharp : ¬ blank c = true := by
        have mark := opened c List.mem_cons_self
        simp only [quoteMark, Bool.or_eq_true, beq_iff_eq] at mark
        rcases mark with ((rfl | rfl) | rfl) | rfl <;> decide
      rw [Text.leadingBlanks, masked, List.append_assoc, List.append_assoc, List.cons_append,
        List.takeWhile_cons_of_neg sharp]
      rfl

/-- Sources stay beside each other when the blanks in front of them are passed over. -/
theorem dropBlanks (h : Fades φ s s') :
    Fades φ (s.drop (Text.leadingBlanks s.code)) (s'.drop (Text.leadingBlanks s.code)) := by
  cases h with
  | same raw blanked =>
    exact Fades.same _ (fun c hc => raw c (List.mem_of_mem_drop hc)) fun c hc => blanked c (List.mem_of_mem_drop hc)
  | lexed ls tail code well raw blanked raw' blanked' =>
    obtain ⟨pre, suf, rfl, e⟩ := leadingBlanks_place well
    rw [blanked, e]
    refine Fades.lexed suf tail code well.back ?_ ?_ ?_ ?_
    · rw [raw_drop, raw, text_append, List.append_assoc, List.drop_left]
    · rw [code_drop, blanked, List.flatMap_append, List.append_assoc, ← masked_text_length true, List.drop_left]
    · rw [raw_drop, raw', fadedText_append, List.append_assoc, ← fadedText_length φ, List.drop_left]
    · rw [code_drop, code_drop, blanked', List.map_drop]

/-! ## Texts -/

theorem tail_line {ls : List Lexeme} {tail code : Text} (well : Lexed φ ls tail code) (lineBlank : Bool) :
    Clean φ (ls ++ lexFrom lineBlank tail) ∧ fadedText φ (lexFrom lineBlank tail) = tail := by
  rcases well.open_ with ⟨rfl, -⟩ | ⟨x, y, open_⟩
  · rw [lexFrom_nil, List.append_nil]
    exact ⟨well.clean, rfl⟩
  · have whole := text_lexFrom lineBlank tail
    rw [open_.lexFrom_tail] at whole ⊢
    rw [text_cons, text_nil, List.append_nil] at whole
    refine ⟨⟨?_, ?_⟩, ?_⟩
    · rw [List.mem_append, not_or]
      exact ⟨well.clean.hash, by simp⟩
    · by_cases keeps : φ '\n' = '\n'
      · exact Or.inl keeps
      · right
        intro l hl
        rcases List.mem_append.1 hl with hl | hl
        · exact well.clean.feed.resolve_left keeps l hl
        · obtain rfl := List.mem_singleton.1 hl
          refine ⟨by simp, fun o b cl e => ?_⟩
          cases e
          refine ⟨?_, Or.inr rfl⟩
          rw [whole, open_.text, List.mem_append, not_or]
          exact ⟨by decide, fun hn => keeps (open_.fixed _ (Or.inl hn))⟩
    · rw [fadedText_cons, fadedText_nil, List.append_nil]
      exact whole

theorem raw_fades (h : Fades φ s s') : TextFades φ s.raw s'.raw := by
  cases h with
  | same raw blanked => exact Or.inr ⟨rfl, raw⟩
  | lexed ls tail code well raw blanked raw' blanked' =>
    left
    obtain ⟨after, e⟩ := well.lexemes
    obtain ⟨clean, kept⟩ := tail_line well after
    rw [← e, ← raw] at clean
    refine ⟨clean, ?_⟩
    rw [fade, lex, raw, e, fadedText_append, kept, raw']

end Fades

end Source

/-! ## Sources of texts -/

/-- the lexemes of a text whose marks are quotes, and the raw literal after them if nothing closes it -/
theorem lexFrom_split (lineBlank : Bool) (t : Text) :
    ∃ ls tail lineBlank', lexFrom lineBlank t = ls ++ lexFrom lineBlank' tail ∧
      (∀ o b cl, literal o b cl ∈ ls → o ≠ [] ∧ (∀ c ∈ o, quoteMark c = true) ∧ ∀ c ∈ cl, quoteMark c = true) ∧
      (tail = [] ∨ ∃ x, tail = ['"', '"', '"'] ++ x ∧ Text.splitFirst? ['"', '"', '"'] x = none) := by
  fun_induction lexFrom lineBlank t with
  | case1 => exact ⟨[], [], true, by rw [lexFrom_nil]; rfl, by simp, Or.inl rfl⟩
  | case2 lineBlank c cs l rest found ih =>
    obtain ⟨ls, tail, after, e, marks, open_⟩ := ih
    rcases special?_shape found with ⟨body, rfl, -⟩ | ⟨o, b, cl, rfl, shape⟩
    · refine ⟨remark body :: ls, tail, after, by rw [e]; rfl, fun o b cl h => ?_, open_⟩
      rcases List.mem_cons.1 h with h | h
      · cases h
      · exact marks o b cl h
    · rcases shape.closed with quotes | ⟨rfl, rfl, opens⟩
      · refine ⟨literal o b cl :: ls, tail, after, by rw [e]; rfl, fun o' b' cl' h => ?_, open_⟩
        rcases List.mem_cons.1 h with h | h
        · cases h
          exact ⟨shape.opened.1, shape.opened.2, quotes⟩
        · exact marks o' b' cl' h
      · refine ⟨[], c :: cs, lineBlank, ?_, by simp, Or.inr ⟨b ++ cl, ?_, opens⟩⟩
        · rw [lexFrom_some found, List.nil_append]
        · have whole := special?_append found
          rw [← whole, List.append_nil, raw, List.append_assoc]
  | case3 lineBlank c cs found ih =>
    obtain ⟨ls, tail, after, e, marks, open_⟩ := ih
    refine ⟨code c :: ls, tail, after, by rw [e]; rfl, fun o b cl h => ?_, open_⟩
    rcases List.mem_cons.1 h with h | h
    · cases h
    · exact marks o b cl h

theorem mask_mem {literals : Bool} {t : Text} {c : Char} (h : c ∈ mask literals t) : c = ' ' ∨ c ∈ t := by
  have blanked : ∀ {b : Text}, c ∈ blankOut b → c = ' ' ∨ c ∈ b := by
    intro b hc
    obtain ⟨d, hd, rfl⟩ := List.mem_map.1 hc
    split
    · next feed => exact Or.inr (feed ▸ hd)
    · exact Or.inl rfl
  obtain ⟨l, hl, hc⟩ := List.mem_flatMap.1 h
  have inside : c = ' ' ∨ c ∈ l.raw := by
    cases l with
    | code d => exact Or.inr hc
    | remark body => exact blanked hc
    | literal o b cl =>
      simp only [masked, List.mem_append] at hc
      simp only [raw, List.mem_append]
      rcases hc with (hc | hc) | hc
      · exact Or.inr (Or.inl (Or.inl hc))
      · split at hc
        · exact (blanked hc).imp_right fun h => Or.inl (Or.inr h)
        · exact Or.inr (Or.inl (Or.inr hc))
      · exact Or.inr (Or.inr hc)
  refine inside.imp_right fun hc => ?_
  rw [← lex_raw t]
  exact List.mem_flatMap.2 ⟨l, hl, hc⟩

theorem OpenRaw.ofClean (hφ : BlankMap φ) {x : Text} (opens : Text.splitFirst? ['"', '"', '"'] x = none)
    (lineBlank : Bool) (clean : Clean φ (lexFrom lineBlank (['"', '"', '"'] ++ x))) :
    OpenRaw φ (['"', '"', '"'] ++ x) ((lexFrom lineBlank (['"', '"', '"'] ++ x)).flatMap (masked true)) x
      (blankOut (x.take (x.length - 3)) ++ x.drop (x.length - 3)) := by
  have whole := text_lexFrom lineBlank (['"', '"', '"'] ++ x)
  rw [lexFrom_open opens] at clean whole ⊢
  rw [text_cons, text_nil, List.append_nil] at whole
  have line : φ '\n' = '\n' ∨ '\n' ∉ x := by
    refine clean.feed.imp_right fun all hn => ?_
    have absent := ((all _ List.mem_cons_self).2 _ _ _ rfl).1
    rw [whole] at absent
    exact absent (List.mem_append_right _ hn)
  have fixed : ∀ c ∈ x, φ c = c := by
    intro c hc
    by_cases feed : c = '\n'
    · subst feed
      exact line.resolve_right fun absent => absent hc
    · exact hφ.fixes c feed
  refine ⟨rfl, by simp [masked], ?_, opens, ?_⟩
  · rw [List.length_append, List.length_drop, blankOut, List.length_map, List.length_take]
    omega
  · rintro c (hc | hc)
    · exact fixed c hc
    · rcases List.mem_append.1 hc with hc | hc
      · obtain ⟨d, hd, rfl⟩ := List.mem_map.1 hc
        split
        · next feed => exact feed ▸ fixed d (List.mem_of_mem_take hd)
        · exact hφ.fixes ' ' (by decide)
      · exact fixed c (List.mem_of_mem_drop hc)

namespace TextFades

variable {x x' : Text}

/-- The blanked sides of texts beside each other are the same, up to the kind of blanks. -/
theorem mask_eq (hφ : BlankMap φ) (h : TextFades φ x x') (literals : Bool) :
    mask literals x' = (mask literals x).map φ := by
  rcases h with ⟨clean, rfl⟩ | ⟨rfl, fixed⟩
  · exact mask_fade hφ clean literals
  · refine (Source.map_id_of_fixed fun c hc => ?_).symm
    rcases mask_mem hc with rfl | hc
    · exact hφ.fixes ' ' (by decide)
    · exact fixed c hc

/-- Texts beside each other are sources beside each other. -/
theorem ofText (hφ : BlankMap φ) (h : TextFades φ x x') : Source.Fades φ (Source.ofText x) (Source.ofText x') := by
  have masks := h.mask_eq hφ true
  rcases h with ⟨clean, rfl⟩ | ⟨rfl, fixed⟩
  · obtain ⟨ls, tail, after, e, marks, open_⟩ := lexFrom_split true x
    have whole := text_lexFrom true x
    rw [e, text_append, text_lexFrom] at whole
    have code : mask true x = ls.flatMap (masked true) ++ (lexFrom after tail).flatMap (masked true) := by
      rw [mask, lex, e, List.flatMap_append]
    rw [lex, e] at clean
    have lexemes : ∃ lineBlank, lexFrom true (text ls ++ tail) = ls ++ lexFrom lineBlank tail := ⟨after, by rw [whole, e]⟩
    have clean' := clean.of_subset (List.subset_append_left ls _)
    have tail_open : (tail = [] ∧ (lexFrom after tail).flatMap (masked true) = []) ∨
        ∃ x y, OpenRaw φ tail ((lexFrom after tail).flatMap (masked true)) x y := by
      rcases open_ with rfl | ⟨x, rfl, opens⟩
      · exact Or.inl ⟨rfl, by rw [lexFrom_nil]; rfl⟩
      · exact Or.inr ⟨x, _, OpenRaw.ofClean hφ opens after (clean.of_subset (List.subset_append_right ls _))⟩
    have well : Lexed φ ls tail ((lexFrom after tail).flatMap (masked true)) := ⟨clean', marks, lexemes, tail_open⟩
    refine Source.Fades.lexed ls tail _ well whole.symm code ?_ masks
    rw [Source.raw_ofText, fade, lex, e, fadedText_append, (Source.Fades.tail_line well after).2]
  · refine Source.Fades.same _ fixed fun c hc => ?_
    rcases mask_mem hc with rfl | hc
    · exact hφ.fixes ' ' (by decide)
    · exact fixed c hc

end TextFades

/-! ## Texts without comments -/

/-- a text that holds no comment and no directive -/
def Uncommented (t : Text) : Prop := ∀ body, remark body ∉ lex t

/-- is the lexeme a comment or directive? -/
def Lexeme.isRemark : Lexeme → Bool
  | remark _ => true
  | _ => false

instance : DecidablePred Uncommented := fun t =>
  decidable_of_iff (∀ l ∈ lex t, l.isRemark = false)
    ⟨fun h body mem => absurd (h _ mem) (by simp [Lexeme.isRemark]), fun h l mem => by
      cases l with
      | remark body => exact absurd mem (h body)
      | _ => rfl⟩

/-- A text without comments fades to its image. -/
theorem TextFades.eq_map (hφ : BlankMap φ) {x x' : Text} (h : TextFades φ x x') (plain : Uncommented x) :
    x' = x.map φ := by
  rcases h with ⟨clean, rfl⟩ | ⟨rfl, fixed⟩
  · have faded : ∀ ls ⊆ lex x, fadedText φ ls = (text ls).map φ := by
      intro ls sub
      induction ls with
      | nil => rfl
      | cons l ls ih =>
        rw [List.cons_subset] at sub
        rw [fadedText_cons, text_cons, List.map_append, ih sub.2]
        congr 1
        cases l with
        | code c => rfl
        | remark body => exact absurd sub.1 (plain body)
        | literal o b cl =>
          refine (map_literal hφ ?_).symm
          exact clean.feed.imp_right fun all => ((all _ sub.1).2 o b cl rfl).1
    rw [fade, faded _ (List.Subset.refl _), lex, text_lexFrom]
  · exact (Source.map_id_of_fixed fixed).symm

end

end EndpointSurvey
