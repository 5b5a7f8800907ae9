/-
What the brackets of a stretch enclose, and the stretch without it. Brackets are no word characters, so each word of the
stretch stands on one side or the other.

Main statements: `mem_runWords_iff` (the words of a stretch) and `groupContents_eq` (attribute groups are what square
brackets enclose).
-/
import EndpointSurvey.Proofs.Attribute.GroupContents
import EndpointSurvey.Proofs.Declaration.Values
import EndpointSurvey.Proofs.Source.Nesting
import EndpointSurvey.Proofs.Text.Spacing
import Mathlib.Data.List.Forall2

namespace EndpointSurvey.Source

/-! ## Characters of code in the text -/

/-- the code is the text, perhaps with spaces in place of some characters -/
def Blanked (s : Source) : Prop := List.Forall₂ (fun shown written => shown = ' ' ∨ shown = written) s.code s.raw

variable {s : Source} {opener closer : Char}

theorem Blanked.drop (h : s.Blanked) (n : Nat) : (s.drop n).Blanked := List.forall₂_drop n h

/-- a text that is its own code -/
def plain (t : Text) : Source := ⟨t, t, rfl⟩

theorem blanked_plain (t : Text) : (plain t).Blanked := List.forall₂_same.2 fun _ _ => .inr rfl

theorem blanked_ofText (t : Text) : (ofText t).Blanked := by
  have body : ∀ b : Text, List.Forall₂ (fun shown written => shown = ' ' ∨ shown = written) (Lexeme.blankOut b) b := by
    intro b
    refine List.forall₂_map_left_iff.2 (List.forall₂_same.2 fun c _ => ?_)
    split
    · next feed => exact .inr feed.symm
    · exact .inl rfl
  have kept : ∀ b : Text, List.Forall₂ (fun shown written : Char => shown = ' ' ∨ shown = written) b b :=
    fun b => List.forall₂_same.2 fun _ _ => .inr rfl
  have each : ∀ l : Lexeme,
      List.Forall₂ (fun shown written => shown = ' ' ∨ shown = written) (l.masked true) l.raw := by
    intro l
    cases l with
    | code c => exact kept [c]
    | remark b => exact body b
    | literal opening b closing => exact List.rel_append (List.rel_append (kept opening) (body b)) (kept closing)
  have all : ∀ ls : List Lexeme, List.Forall₂ (fun shown written => shown = ' ' ∨ shown = written)
      (ls.flatMap (Lexeme.masked true)) (ls.flatMap Lexeme.raw) := by
    intro ls
    induction ls with
    | nil => exact .nil
    | cons l rest ih => exact List.rel_append (each l) ih
  have whole := all (lex t)
  rwa [lex_raw] at whole

theorem Blanked.getElem? (h : s.Blanked) {i : Nat} {c : Char} (visible : c ≠ ' ') (shown : s.code[i]? = some c) :
    s.raw[i]? = some c := by
  obtain ⟨lengths, same⟩ := List.forall₂_iff_get.1 h
  obtain ⟨inside, rfl⟩ := List.getElem?_eq_some_iff.1 shown
  have written : i < s.raw.length := lengths ▸ inside
  rw [List.getElem?_eq_getElem written, Option.some_inj]
  exact ((same i inside written).resolve_left visible).symm

/-! ## What brackets enclose -/

/-- the texts between an opening bracket and the one that closes it, up to a bracket that does not close -/
def enclosed (opener closer : Char) (s : Source) : List Text :=
  match _h : s.code with
  | [] => []
  | c :: cs =>
    if c = opener then
      match closing? opener closer (c :: cs) with
      | none => []
      | some i => (s.slice 1 i).raw :: enclosed opener closer (s.drop (i + 1))
    else enclosed opener closer (s.drop 1)
  termination_by s.length
  decreasing_by
    all_goals
      rw [Source.length_drop]
      simp only [Source.length, _h, List.length_cons]
      omega

/-- the text without what its brackets enclose: the brackets themselves stay, and so does all that follows one that does
not close -/
def exposed (opener closer : Char) (s : Source) : Text :=
  match _h : s.code with
  | [] => []
  | c :: cs =>
    if c = opener then
      match closing? opener closer (c :: cs) with
      | none => s.raw
      | some i => opener :: closer :: exposed opener closer (s.drop (i + 1))
    else s.raw.take 1 ++ exposed opener closer (s.drop 1)
  termination_by s.length
  decreasing_by
    all_goals
      rw [Source.length_drop]
      simp only [Source.length, _h, List.length_cons]
      omega

/-- Attribute groups are what square brackets enclose. -/
theorem groupContents_eq (s : Source) : Attribute.groupContents s = enclosed '[' ']' s := by
  fun_induction enclosed '[' ']' s with
  | case1 s hs =>
    rw [Attribute.groupContents]
    split <;> simp_all
  | case2 s cs hs found =>
    rw [Attribute.groupContents]
    split <;> simp_all
  | case3 s cs hs i found ih =>
    rw [Attribute.groupContents]
    split <;> simp_all
  | case4 s c cs hs hc ih =>
    rw [Attribute.groupContents]
    split <;> simp_all

/-- A stretch that starts with a bracket is what the bracket encloses and what follows. -/
theorem raw_of_closing (h : s.Blanked) (distinct : opener ≠ closer) (visible : opener ≠ ' ' ∧ closer ≠ ' ') {cs : Text}
    {i : Nat} (head : s.code = opener :: cs) (found : closing? opener closer (opener :: cs) = some i) :
    s.raw = opener :: ((s.slice 1 i).raw ++ closer :: (s.drop (i + 1)).raw) := by
  obtain ⟨inner, rest, rfl, rfl, -⟩ := (closing?_eq_some_iff distinct).1 found
  have first := h.getElem? (i := 0) visible.1 (by rw [head]; rfl)
  have last := h.getElem? (i := inner.length + 1) visible.2 (by rw [head]; simp)
  obtain ⟨tail, raw⟩ := List.head?_eq_some_iff.1 (List.head?_eq_getElem? ▸ first)
  rw [raw, List.getElem?_cons_succ] at last
  obtain ⟨inside, written⟩ := List.getElem?_eq_some_iff.1 last
  rw [raw_slice, raw_drop, raw, List.drop_succ_cons, List.drop_succ_cons, List.drop_zero]
  have cut : tail = tail.take inner.length ++ closer :: tail.drop (inner.length + 1) := by
    conv => lhs; rw [← List.take_append_drop inner.length tail, List.drop_eq_getElem_cons inside, written]
  exact congrArg _ cut

section Words

variable {word : Text}

theorem mem_runWords_append_iff (h : s.Blanked) (distinct : opener ≠ closer)
    (marks : wordChar opener = false ∧ wordChar closer = false) (visible : opener ≠ ' ' ∧ closer ≠ ' ') (p : Text) :
    word ∈ Text.runWords (p ++ s.raw) ↔
      word ∈ Text.runWords (p ++ exposed opener closer s) ∨
        ∃ t ∈ enclosed opener closer s, word ∈ Text.runWords t := by
  -- what has been passed stands in front of both sides, for a word may go on
  fun_induction enclosed opener closer s generalizing p with
  | case1 s empty =>
    have raw : s.raw = [] := List.eq_nil_of_length_eq_zero (by rw [s.aligned, empty]; rfl)
    have left : exposed opener closer s = [] := by
      rw [exposed]
      split <;> simp_all
    rw [raw, left]
    simp
  | case2 s cs head found =>
    have left : exposed opener closer s = s.raw := by
      rw [exposed]
      split <;> simp_all
    rw [left]
    simp
  | case3 s cs i head found ih =>
    have left : exposed opener closer s = opener :: closer :: exposed opener closer (s.drop (i + 1)) := by
      rw [exposed]
      split <;> simp_all
    have rest := ih (h.drop (i + 1)) []
    rw [List.nil_append, List.nil_append] at rest
    rw [raw_of_closing h distinct visible head found, left, Text.runWords_append_mark marks.1,
      Text.runWords_append_mark marks.2, Text.runWords_append_mark marks.1, Text.runWords_cons_mark marks.2]
    simp only [List.mem_append, List.mem_cons, exists_eq_or_imp, rest]
    tauto
  | case4 s c cs head other ih =>
    have left : exposed opener closer s = s.raw.take 1 ++ exposed opener closer (s.drop 1) := by
      conv => lhs; rw [exposed]
      split <;> simp_all
    have rest := ih (h.drop 1) (p ++ s.raw.take 1)
    rw [List.append_assoc, List.append_assoc, ← left] at rest
    rwa [raw_drop, List.take_append_drop] at rest

/-- A word of a stretch is one of what its brackets enclose, or of what is left without it. -/
theorem mem_runWords_iff (opener closer : Char) (word : Text) (h : s.Blanked) (distinct : opener ≠ closer)
    (marks : wordChar opener = false ∧ wordChar closer = false) (visible : opener ≠ ' ' ∧ closer ≠ ' ') :
    word ∈ Text.runWords s.raw ↔
      word ∈ Text.runWords (exposed opener closer s) ∨
        ∃ t ∈ enclosed opener closer s, word ∈ Text.runWords t :=
  mem_runWords_append_iff h distinct marks visible []

end Words

end EndpointSurvey.Source
