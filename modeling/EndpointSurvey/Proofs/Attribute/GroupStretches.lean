/-
Attribute groups told lexeme by lexeme, and the attributes that are read off them when their stretch has been settled.

Main statements: `Groups.leading` (the groups found at the front of a text are these), `Groups.contents_eq` (and so are
their contents) and `attributesOf_groups` (the attributes read are those of the items of the groups).
-/
import EndpointSurvey.Proofs.Attribute.GroupLines
import EndpointSurvey.Proofs.Source.Items
import EndpointSurvey.Proofs.Source.Seam
import Mathlib.Data.List.Basic

namespace EndpointSurvey

open Lexeme Attribute

/-- a stretch made up of bracketed groups, each with its content, and of gaps -/
inductive Groups : List Lexeme → List (List Lexeme) → Prop
  | nil : Groups [] []
  | gap {l : Lexeme} {ls : List Lexeme} {contents : List (List Lexeme)} (gap : l.gap = true)
      (rest : Groups ls contents) : Groups (l :: ls) contents
  | group {ls content rest : List Lexeme} {contents : List (List Lexeme)}
      (closed : upTo? '[' ']' 0 ls = some (content, rest)) (others : Groups rest contents) :
      Groups (code '[' :: ls) (content :: contents)

namespace Groups

variable {l : Lexeme} {ls : List Lexeme} {contents : List (List Lexeme)}

theorem settle (h : Groups ls contents) (afterBlank : Bool) :
    Groups (settle afterBlank ls) (contents.map (Lexeme.settle false)) := by
  induction h generalizing afterBlank with
  | nil => exact nil
  | @gap l ls contents blank rest ih =>
    cases afterBlank with
    | false =>
      rw [(settle_gap blank ls).1]
      exact gap (by decide) (ih true)
    | true =>
      rw [(settle_gap blank ls).2]
      exact ih true
  | @group ls content rest contents closed others ih =>
    rw [settle_solid (by decide), settled_code, List.map_cons]
    have closed' : upTo? '[' ']' 0 (Lexeme.settle false ls) =
        some (Lexeme.settle false content, Lexeme.settle false rest) := by
      rw [upTo?_settle (by decide), closed]
      rfl
    exact group closed' (ih false)

theorem upTo?_concat {opener closer : Char} {depth : Nat} {inner rest : List Lexeme} (other : l ≠ code closer)
    (h : upTo? opener closer depth (ls ++ [l]) = some (inner, rest)) :
    ∃ rest', rest = rest' ++ [l] ∧ upTo? opener closer depth ls = some (inner, rest') := by
  induction ls generalizing depth inner with
  | nil =>
    rw [List.nil_append, upTo?, if_neg (fun stop => other stop.1)] at h
    cases h
  | cons m ms ih =>
    rw [List.cons_append, upTo?] at h
    rw [upTo?]
    split at h
    · next stop =>
      cases h
      exact ⟨ms, rfl, by rw [if_pos stop]⟩
    · next passed =>
      obtain ⟨⟨inner', rest''⟩, found, e⟩ := Option.map_eq_some_iff.1 h
      cases e
      obtain ⟨rest', rfl, found'⟩ := ih found
      exact ⟨rest', rfl, by rw [if_neg passed]; simp only [found', Option.map_some]⟩

theorem of_concat (h : Groups (ls ++ [l]) contents) (gap : l.gap = true) : Groups ls contents := by
  generalize whole : ls ++ [l] = ms at h
  induction h generalizing ls with
  | nil => exact absurd whole (by simp)
  | @gap m ms contents blank rest ih =>
    cases ls with
    | nil =>
      obtain rfl := (List.cons.inj whole).2
      exact rest
    | cons k ks =>
      obtain ⟨rfl, whole'⟩ := List.cons.inj whole
      exact .gap blank (ih whole')
  | @group ms content rest contents closed others ih =>
    cases ls with
    | nil =>
      obtain rfl := (List.cons.inj whole).1
      cases gap
    | cons k ks =>
      obtain ⟨rfl, rfl⟩ := List.cons.inj whole
      have other : l ≠ code ']' := by
        rintro rfl
        cases gap
      obtain ⟨rest', rfl, closed'⟩ := upTo?_concat other closed
      exact .group closed' (ih rfl)

theorem bare (h : Groups ls contents) : Groups (bare ls) (contents.map (Lexeme.settle false)) := by
  have settled := h.settle true
  obtain ⟨gap, rfl | rfl, e⟩ := settle_bare ls
  · rwa [e, List.append_nil] at settled
  · rw [e] at settled
    exact settled.of_concat (by decide)

theorem groupContents_skip {s : Source} {n : Nat} (h : ∀ c ∈ s.code.take n, c ≠ '[') :
    groupContents s = groupContents (s.drop n) := by
  induction n generalizing s with
  | zero => rw [Source.drop_zero]
  | succ n ih =>
    rw [Nat.add_comm, ← Source.drop_drop]
    cases e : s.code with
    | nil =>
      rw [(groups_of_nil e).2, ← ih (by simp [e]), (groups_of_nil (by simp [e])).2]
    | cons c cs =>
      rw [e, List.take_succ_cons, List.forall_mem_cons] at h
      rw [(groups_of_other (c := c) (by rw [e]; rfl) h.1).2]
      exact ih (by rw [Source.code_drop, e]; exact h.2)

section
variable {content rest : List Lexeme}

theorem closing?_group (plain : ∀ l ∈ ls, l.Plain) (closed : upTo? '[' ']' 0 ls = some (content, rest)) :
    closing? '[' ']' (codeOf (code '[' :: ls)) = some (1 + (text content).length) := by
  rw [closing?_code (by decide) (by decide) plain, closed, Option.map_some]

theorem drop_group (content rest : List Lexeme) :
    (source (code '[' :: (content ++ code ']' :: rest))).drop (1 + (text content).length + 1) = source rest := by
  have parts : code '[' :: (content ++ code ']' :: rest) = code '[' :: (content ++ [code ']']) ++ rest := by simp
  have size : (text (code '[' :: (content ++ [code ']']))).length = 1 + (text content).length + 1 := by
    simp [Lexeme.raw, Nat.add_comm]
  rw [parts, ← size, source_drop]

end

/-- Its groups have these contents. -/
theorem contents_eq (h : Groups ls contents) (plain : ∀ l ∈ ls, l.Plain) :
    groupContents (source ls) = contents.map text := by
  induction h with
  | nil => exact (groups_of_nil rfl).2
  | @gap l ls contents blank rest ih =>
    obtain ⟨here, later⟩ := List.forall_mem_cons.1 plain
    have code : (source (l :: ls)).code.take l.raw.length = l.masked true := by
      rw [← masked_length true]
      exact List.take_left
    rw [groupContents_skip (n := l.raw.length), source_cons, ih later]
    intro c member
    rw [code, masked_of_gap blank] at member
    rintro rfl
    exact absurd ((masked_gap blank here).2 _ member) (by decide)
  | @group ls content rest contents closed others ih =>
    obtain ⟨-, later⟩ := List.forall_mem_cons.1 plain
    have found := closing?_group later closed
    obtain rfl := upTo?_append closed
    have inside : ((source (code '[' :: (content ++ code ']' :: rest))).slice 1 (1 + (text content).length)).raw =
        text content := by
      rw [Source.raw_slice, Nat.add_sub_cancel_left]
      exact (congrArg _ (text_append content _)).trans List.take_left
    rw [(groups_of_closed rfl found).2, inside, drop_group, ih fun l member => later l (by simp [member]),
      List.map_cons]

/-- The groups found at the front of a text are those of the stretch in front of what is no group. -/
theorem leading (h : Groups ls contents) (plain : ∀ l ∈ ls, l.Plain) {c : Char} (solid : blank c = false)
    (other : c ≠ '[') (cs : Text) (offset stop : Nat) :
    let code := codeOf ls ++ c :: cs
    let lead := Text.leadingBlanks code
    ∃ stop', leadingGroups (offset + lead) stop (code.drop lead) = .ok (stop', offset + (text ls).length) := by
  -- blanks are passed before each group, so what is passed already is counted from in front of them
  induction h generalizing offset stop with
  | nil =>
    have none : Text.leadingBlanks (c :: cs) = 0 := by simp [Text.leadingBlanks, solid]
    refine ⟨stop, ?_⟩
    simp only [codeOf, List.flatMap_nil, List.nil_append, none, List.drop_zero, text_nil, List.length_nil]
    exact leadingGroups_other rfl other offset stop
  | @gap l ls contents blank rest ih =>
    obtain ⟨here, later⟩ := List.forall_mem_cons.1 plain
    obtain ⟨stop', found⟩ := ih later (offset + l.raw.length) stop
    have pad : ∀ d ∈ l.masked true, EndpointSurvey.blank d = true := by
      rw [masked_of_gap blank]
      exact (masked_gap blank here).2
    have lead : Text.leadingBlanks (codeOf (l :: ls) ++ c :: cs) =
        l.raw.length + Text.leadingBlanks (codeOf ls ++ c :: cs) := by
      rw [codeOf_cons, List.append_assoc, Text.leadingBlanks, List.takeWhile_append_of_pos pad, List.length_append,
        masked_length, Text.leadingBlanks]
    have behind : (codeOf (l :: ls) ++ c :: cs).drop l.raw.length = codeOf ls ++ c :: cs := by
      rw [codeOf_cons, List.append_assoc, ← masked_length true, List.drop_left]
    refine ⟨stop', ?_⟩
    simp only [lead, ← List.drop_drop, behind, ← Nat.add_assoc]
    rw [found, text_cons, List.length_append, Nat.add_assoc]
  | @group ls content rest contents closed others ih =>
    obtain ⟨-, later⟩ := List.forall_mem_cons.1 plain
    have found := closing?_group later closed
    obtain rfl := upTo?_append closed
    obtain ⟨stop', found'⟩ := ih (fun l member => later l (by simp [member])) (offset + (1 + (text content).length) + 1)
      (offset + (1 + (text content).length) + 1)
    have none : Text.leadingBlanks (codeOf (code '[' :: (content ++ code ']' :: rest)) ++ c :: cs) = 0 := rfl
    have behind : (codeOf (code '[' :: (content ++ code ']' :: rest)) ++ c :: cs).drop (1 + (text content).length + 1) =
        codeOf rest ++ c :: cs := by
      rw [List.drop_append_of_le_length (by rw [codeOf_length]; simp [Lexeme.raw]; omega)]
      exact congrArg (·.code ++ c :: cs) (drop_group content rest)
    refine ⟨stop', ?_⟩
    simp only [none, Nat.add_zero, List.drop_zero]
    rw [leadingGroups_closed rfl (closing?_append found _), behind, found']
    simp [Lexeme.raw]
    omega

theorem infix_of_mem (h : Groups ls contents) : ∀ content ∈ contents, content <:+: ls := by
  induction h with
  | nil => simp
  | gap blank rest ih => exact fun content member => (ih content member).trans (List.suffix_cons _ _).isInfix
  | @group ls content rest contents closed others ih =>
    have whole := upTo?_append closed
    intro content' member
    rcases List.mem_cons.1 member with rfl | member
    · exact ⟨[code '['], code ']' :: rest, by rw [whole]; simp⟩
    · refine (ih content' member).trans ⟨code '[' :: content ++ [code ']'], [], by rw [whole]; simp⟩

end Groups

/-- the attributes of groups with these contents, item by item -/
def marksOf (contents : List (List Lexeme)) : List Attribute :=
  (contents.flatMap (items false 0)).filterMap fun item => ofPart? (shown item).collapse

/-- The attributes read are those of the items of the groups. -/
theorem attributesOf_groups {front : List Lexeme} {contents : List (List Lexeme)} (h : Groups front contents)
    (stretch : Stretch front) : attributesOf (shown front).collapse = marksOf contents := by
  have empty : ofPart? [] = none := rfl
  rw [attributesOf, ← text_bare stretch.plain, stretch.bare.ofText_eq, h.bare.contents_eq stretch.bare.plain,
    List.map_map, marksOf, List.filterMap_flatMap, List.flatMap_map]
  refine List.flatMap_congr fun content member => ?_
  obtain ⟨pre, suf, rfl⟩ := h.infix_of_mem content member
  exact splitTop_items stretch.front.back false empty

end EndpointSurvey
