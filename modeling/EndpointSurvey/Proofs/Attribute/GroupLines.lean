/-
The attribute groups of a stretch and what it becomes when blanks are mapped, and the same groups on lines of their own.

Main statements:
- `groups_faded`: groups without comments become their images;
- `groupContents_join`: the groups of a stretch, joined by line feeds, have the contents that they have in the stretch.
-/
import EndpointSurvey.Proofs.Attribute.GroupContents
import EndpointSurvey.Proofs.Source.Splitting
import EndpointSurvey.Proofs.Source.Whole

namespace EndpointSurvey

open Lexeme Attribute

/-! ## Group by group -/

section
variable {s : Source} {i : Nat}

theorem groups_of_nil (none : s.code = []) : attributeGroups s = [] ∧ groupContents s = [] := by
  constructor
  · rw [attributeGroups]
    split <;> simp_all
  · rw [groupContents]
    split <;> simp_all

theorem groups_of_open (head : s.code.head? = some '[') (found : closing? '[' ']' s.code = none) :
    attributeGroups s = [s.raw] ∧ groupContents s = [] := by
  obtain ⟨cs, e⟩ := List.head?_eq_some_iff.1 head
  rw [e] at found
  constructor
  · rw [attributeGroups]
    split <;> simp_all
  · rw [groupContents]
    split <;> simp_all

theorem groups_of_closed (head : s.code.head? = some '[') (found : closing? '[' ']' s.code = some i) :
    attributeGroups s = (s.take (i + 1)).raw :: attributeGroups (s.drop (i + 1)) ∧
      groupContents s = (s.slice 1 i).raw :: groupContents (s.drop (i + 1)) := by
  obtain ⟨cs, e⟩ := List.head?_eq_some_iff.1 head
  rw [e] at found
  constructor
  · rw [attributeGroups]
    split <;> simp_all
  · rw [groupContents]
    split <;> simp_all

theorem groups_of_other {c : Char} (head : s.code.head? = some c) (other : c ≠ '[') :
    attributeGroups s = attributeGroups (s.drop 1) ∧ groupContents s = groupContents (s.drop 1) := by
  obtain ⟨cs, e⟩ := List.head?_eq_some_iff.1 head
  constructor
  · conv => lhs; rw [attributeGroups]
    split <;> simp_all
  · conv => lhs; rw [groupContents]
    split <;> simp_all

end

/-- What stands inside a group shows in the text up to its end. -/
theorem inside_take (i : Nat) (t : Text) : (t.drop 1).take (i - 1) = ((t.take (i + 1)).drop 1).take (i - 1) := by
  rw [List.drop_take, List.take_take, Nat.min_eq_left (by omega)]

section
variable {φ : Char → Char} {s s' : Source}

/-- Groups without comments become their images. -/
theorem groups_faded (hφ : BlankMap φ) (h : Source.Fades φ s s') (n : Nat)
    (plain : ∀ g ∈ attributeGroups (s.drop n), Uncommented g) :
    attributeGroups (s'.drop n) = (attributeGroups (s.drop n)).map (List.map φ) ∧
      groupContents (s'.drop n) = (groupContents (s.drop n)).map (List.map φ) := by
  have image : (s'.drop n).code = (s.drop n).code.map φ := by
    rw [Source.code_drop, Source.code_drop, h.code_eq, List.map_drop]
  have opening : ∀ {x z : Source}, x.code = z.code.map φ → z.code.head? = some '[' → x.code.head? = some '[' :=
    fun image opens => by rw [image, hφ.head?_map_eq_some (by decide) (by decide), opens]
  have closing : ∀ {x z : Source}, x.code = z.code.map φ → closing? '[' ']' x.code = closing? '[' ']' z.code :=
    fun image => by rw [image, hφ.closing?_map (by decide) (by decide)]
  generalize rest : s.drop n = z at plain image ⊢
  fun_induction attributeGroups z generalizing n with
  | case1 z none =>
    rw [none] at image
    rw [(groups_of_nil image).1, (groups_of_nil image).2, (groups_of_nil none).2]
    exact ⟨rfl, rfl⟩
  | case2 z cs bracket found =>
    have opens : z.code.head? = some '[' := by rw [bracket]; rfl
    have none : closing? '[' ']' z.code = none := by rwa [bracket]
    have opens' := opening image opens
    have none' := (closing image).trans none
    have fades := h.drop (CutAt.before (by rw [← Source.code_drop, rest, opens]) (by decide))
    rw [rest] at fades
    rw [(groups_of_open opens' none').1, (groups_of_open opens' none').2, (groups_of_open opens none).2,
      fades.raw_fades.eq_map hφ (plain _ List.mem_cons_self)]
    exact ⟨rfl, rfl⟩
  | case3 z cs i bracket found ih =>
    have opens : z.code.head? = some '[' := by rw [bracket]; rfl
    have closes : closing? '[' ']' z.code = some i := by rwa [bracket]
    have opens' := opening image opens
    have closes' := (closing image).trans closes
    have fades := h.drop (CutAt.before (by rw [← Source.code_drop, rest, opens]) (by decide))
    rw [rest] at fades
    have group := (fades.take (CutAt.after (closing?_head (by decide) opens closes) (by decide))).raw_fades.eq_map hφ
      (plain _ List.mem_cons_self)
    have content : ((s'.drop n).slice 1 i).raw = (z.slice 1 i).raw.map φ := by
      rw [Source.raw_slice, Source.raw_slice, inside_take, inside_take i z.raw, List.map_take, List.map_drop, ← Source.raw_take,
        ← Source.raw_take, group]
    have after : s.drop (n + (i + 1)) = z.drop (i + 1) := by rw [← rest, Source.drop_drop]
    have next := ih (n + (i + 1)) after (fun g hg => plain g (List.mem_cons_of_mem _ hg)) ?_
    · rw [(groups_of_closed opens' closes').1, (groups_of_closed opens' closes').2, Source.drop_drop, next.1, next.2,
        group, content, (groups_of_closed opens closes).2]
      exact ⟨rfl, rfl⟩
    · rw [← Source.drop_drop, Source.code_drop, image, Source.code_drop, List.map_drop]
  | case4 z c cs letter other ih =>
    have head' : (s'.drop n).code.head? = some (φ c) := by
      rw [image, letter]
      rfl
    have after : s.drop (n + 1) = z.drop 1 := by rw [← rest, Source.drop_drop]
    have next := ih (n + 1) after plain ?_
    · rw [(groups_of_other head' (by rwa [Ne, hφ.eq_iff (by decide) (by decide)])).1,
        (groups_of_other head' (by rwa [Ne, hφ.eq_iff (by decide) (by decide)])).2, Source.drop_drop, next.1, next.2,
        (groups_of_other (show z.code.head? = some c by rw [letter]; rfl) other).2]
      exact ⟨rfl, rfl⟩
    · rw [← Source.drop_drop, Source.code_drop, image, Source.code_drop, List.map_drop]

end

/-! ## Groups on lines of their own -/

section
variable {φ : Char → Char} {s : Source}

/-- A stretch whose code ends in a bracket has that bracket for its last lexeme. -/
theorem Source.Whole.last_bracket (w : Whole φ s) {i : Nat} (closed : (s.code.drop i).head? = some ']') :
    (lex (s.take (i + 1)).raw).getLast? = some (Lexeme.code ']') := by
  obtain ⟨ls, well, raw, masks⟩ := w
  have here := closed
  rw [masks, List.head?_drop] at here
  obtain ⟨pre, suf, rfl, rfl⟩ := code_of_structural well.marks here (by decide)
  have front : Lexed φ (pre ++ [Lexeme.code ']']) [] [] :=
    (show Lexed φ ((pre ++ [Lexeme.code ']']) ++ suf) [] [] by rwa [List.append_assoc]).front
  have part : (s.take ((text pre).length + 1)).raw = text (pre ++ [Lexeme.code ']']) := by
    rw [raw_take, raw, text_append, List.take_length_add_append, text_append]
    rfl
  rw [part, Source.Whole.lex_eq front, List.getLast?_concat]

/-- The first group shows in the stretch up to its end. -/
theorem groupContents_of_take {x z : Source} {i : Nat} (opens : z.code.head? = some '[')
    (closes : closing? '[' ']' z.code = some i) (same : x.take (i + 1) = z.take (i + 1)) :
    groupContents x = (z.slice 1 i).raw :: groupContents (x.drop (i + 1)) := by
  have codes : x.code.take (i + 1) = z.code.take (i + 1) := congrArg Source.code same
  have raws : x.raw.take (i + 1) = z.raw.take (i + 1) := congrArg Source.raw same
  have front : ∀ y : Text, (y.take (i + 1)).head? = y.head? := by
    intro y
    rw [List.head?_take, if_neg (Nat.succ_ne_zero i)]
  have opens' : x.code.head? = some '[' := by rw [← front, codes, front, opens]
  rw [(groups_of_closed opens' (closing?_of_take (by decide) opens closes codes)).2, Source.raw_slice, inside_take, raws,
    ← inside_take, ← Source.raw_slice]

theorem take_ofText_line {t : Text} (last : (lex t).getLast? = some (code ']')) (y : Text) :
    (Source.ofText (t ++ '\n' :: y)).take t.length = Source.ofText t ∧
      ((Source.ofText (t ++ '\n' :: y)).drop t.length).code.head? = some '\n' ∧
        (Source.ofText (t ++ '\n' :: y)).drop (t.length + 1) = Source.ofText y := by
  have masks : mask true (t ++ '\n' :: y) = mask true t ++ '\n' :: mask true y := by
    rw [mask, lex, lexFrom_line (Or.inr last), List.flatMap_append, List.flatMap_cons]
    rfl
  have width := mask_length true t
  refine ⟨?_, ?_, ?_⟩
  · apply Source.ext
    · rw [Source.raw_take, Source.raw_ofText, List.take_left]
      rfl
    · rw [Source.code_take, Source.code_ofText, masks, ← width, List.take_left]
      rfl
  · rw [Source.code_drop, Source.code_ofText, masks, ← width, List.drop_left]
    rfl
  · apply Source.ext
    · rw [Source.raw_drop, Source.raw_ofText, List.drop_length_add_append]
      rfl
    · rw [Source.code_drop, Source.code_ofText, masks, ← width, List.drop_length_add_append]
      rfl

/-- The groups of a stretch, joined by line feeds, have the contents that they have in the stretch. -/
theorem groupContents_join (w : Source.Whole φ s) (n : Nat) :
    groupContents (Source.ofText (Text.join "\n" (attributeGroups (s.drop n)))) = groupContents (s.drop n) := by
  generalize rest : s.drop n = z
  have blank : groupContents (Source.ofText []) = [] :=
    (groups_of_nil (by rw [Source.code_ofText, mask]; exact congrArg _ (lexFrom_nil true))).2
  have single : ∀ t : Text, Text.join "\n" [t] = t := fun t => by simp [Text.join, List.intercalate]
  fun_induction attributeGroups z generalizing n with
  | case1 z none =>
    rw [(groups_of_nil none).2]
    exact blank
  | case2 z cs bracket found =>
    have whole := w.drop (CutAt.before (by rw [← Source.code_drop, rest, bracket]; rfl) (by decide))
    rw [rest] at whole
    rw [single, ← whole.eq_ofText]
  | case3 z cs i bracket found ih =>
    have opens : z.code.head? = some '[' := by rw [bracket]; rfl
    have closes : closing? '[' ']' z.code = some i := by rwa [bracket]
    have closed := closing?_head (by decide) opens closes
    have whole := w.drop (CutAt.before (by rw [← Source.code_drop, rest, opens]) (by decide))
    rw [rest] at whole
    have group := (whole.take (CutAt.after closed (by decide))).eq_ofText
    have last := whole.last_bracket closed
    have width : (z.take (i + 1)).raw.length = i + 1 := by
      have := closing?_lt closes
      rw [Source.raw_take, List.length_take, z.aligned]
      omega
    have next := ih (n + (i + 1)) (by rw [← rest, Source.drop_drop])
    rw [(groups_of_closed opens closes).2, ← next]
    generalize attributeGroups (z.drop (i + 1)) = others at *
    cases others with
    | nil =>
      have same : (z.take (i + 1)).take (i + 1) = z.take (i + 1) := by
        apply Source.ext
        · rw [Source.raw_take, Source.raw_take, List.take_take, Nat.min_self]
        · rw [Source.code_take, Source.code_take, List.take_take, Nat.min_self]
      have done : ((z.take (i + 1)).drop (i + 1)).code = [] := by
        rw [Source.code_drop, Source.code_take, List.drop_eq_nil_iff]
        exact List.length_take_le _ _
      rw [single, ← group, groupContents_of_take opens closes same, (groups_of_nil done).2]
      exact congrArg _ blank.symm
    | cons g gs =>
      obtain ⟨front, feed, back⟩ := take_ofText_line last (Text.join "\n" (g :: gs))
      rw [width] at front feed back
      rw [join_lines, groupContents_of_take opens closes (front.trans group.symm)]
      congr 1
      refine (groups_of_other feed (by decide)).2.trans ?_
      rw [Source.drop_drop, back]
  | case4 z c cs letter other ih =>
    rw [ih (n + 1) (by rw [← rest, Source.drop_drop]),
      (groups_of_other (show z.code.head? = some c by rw [letter]; rfl) other).2]

/-- All groups of a stretch but the last end in a bracket. -/
theorem groups_closed (w : Source.Whole φ s) (n : Nat) :
    ∀ g ∈ (attributeGroups (s.drop n)).dropLast, (lex g).getLast? = some (code ']') := by
  generalize rest : s.drop n = z
  fun_induction attributeGroups z generalizing n with
  | case1 => intro g hg; cases hg
  | case2 => intro g hg; cases hg
  | case3 z cs i bracket found ih =>
    have opens : z.code.head? = some '[' := by rw [bracket]; rfl
    have closes : closing? '[' ']' z.code = some i := by rwa [bracket]
    have whole := w.drop (CutAt.before (by rw [← Source.code_drop, rest, opens]) (by decide))
    rw [rest] at whole
    intro g hg
    cases others : attributeGroups (z.drop (i + 1)) with
    | nil =>
      rw [others] at hg
      cases hg
    | cons h hs =>
      rw [others, List.dropLast_cons_of_ne_nil (List.cons_ne_nil h hs)] at hg
      rcases List.mem_cons.1 hg with rfl | hg
      · exact whole.last_bracket (closing?_head (by decide) opens closes)
      · exact ih (n + (i + 1)) (by rw [← rest, Source.drop_drop]) g (by rwa [others])
  | case4 z c cs letter other ih => exact ih (n + 1) (by rw [← rest, Source.drop_drop])

/-- If no comment stands among the groups of a stretch on lines of their own, none stands in a group. -/
theorem groups_uncommented (w : Source.Whole φ s) (n : Nat)
    (plain : Uncommented (Text.join "\n" (attributeGroups (s.drop n)))) :
    ∀ g ∈ attributeGroups (s.drop n), Uncommented g := by
  intro g hg body hm
  apply plain body
  rw [lex_join (groups_closed w n)]
  generalize attributeGroups (s.drop n) = groups at hg
  induction groups with
  | nil => cases hg
  | cons h hs ih =>
    cases hs with
    | nil =>
      obtain rfl := List.mem_singleton.1 hg
      simpa [List.intercalate] using hm
    | cons h' hs =>
      rcases List.mem_cons.1 hg with rfl | hg
      · simp [List.intercalate, hm]
      · have := ih hg
        simp only [List.intercalate, List.map_cons] at this ⊢
        simp only [List.intersperse_cons_cons, List.flatten_cons, List.mem_append]
        exact Or.inr (Or.inr this)

end

end EndpointSurvey
