/-
How types given as trees are spelled: their text is canonical, its square brackets pair up, and a reader that drops what
stands in square brackets is left with the type without its arrays.

Main statements: `TypeTree.tidyType_text`, `TypeTree.replaceGroups_text`, `TypeTree.withoutArrays_text_iff` and
`TypeTree.exists_word`.
-/
import EndpointSurvey.Proofs.Rendered.TypeForms
import EndpointSurvey.Proofs.Rendered.TypeTrees
import EndpointSurvey.Proofs.Rendered.Declarations

namespace EndpointSurvey.Rendered

namespace TypeTree

/-! ## Canonical spelling -/

theorem property_closesTo : TreeProperty fun t => ∃ dense, t = afterCommas dense ∧ ClosesTo t dense where
  name n := n.bare.exists_closesTo
  generic {n arguments} := by
    rintro ⟨inner, rfl, inside⟩
    obtain ⟨dense, e, closes⟩ := n.bare.exists_closesTo
    refine ⟨dense ++ '<' :: (inner ++ ['>']), ?_, closes.grow (by decide) (inside.inside true false [] (by decide)) ?_ false⟩
    · rw [← List.singleton_append, ← List.singleton_append (l := inner ++ _), afterCommas_append, afterCommas_append,
        afterCommas_append, ← e]
      rfl
    · intro wide d rest mark
      have behind := inside.inside true false (gap wide ++ d :: rest) (show typeMark '>' = true by decide)
      rw [closeUp_gap_mark mark] at behind
      simpa [gap, show closeUp true [] = [] from rfl] using behind
  array {t} := by
    rintro ⟨dense, rfl, closes⟩
    refine ⟨dense ++ ['[', ']'], by rw [afterCommas_append]; rfl, closes.grow (by decide) rfl ?_ false⟩
    intro wide d rest mark
    rw [List.singleton_append, closeUp_mark (by decide), closeUp_gap_mark mark]
    rfl
  nullable {t} := by
    rintro ⟨dense, rfl, closes⟩
    refine ⟨dense ++ ['?'], by rw [afterCommas_append]; rfl, closes.grow (by decide) rfl ?_ false⟩
    exact fun wide d rest mark => closeUp_gap_mark mark true wide rest
  more {t rest} := by
    rintro ⟨first, rfl, closes⟩ ⟨others, rfl, closes'⟩
    refine ⟨first ++ ',' :: others, by rw [afterCommas_append]; rfl, closes.grow (by decide) ?_ ?_ false⟩
    · exact (closeUp_gap true _).trans (closes'.ends true)
    · exact fun wide d rest mark => (closeUp_gap true _).trans (closes'.inside true wide rest mark)

/-- **The text of a type is its canonical spelling.** -/
theorem tidyType_text (t : TypeTree) : tidyType t.text = t.text := by
  obtain ⟨dense, e, closes⟩ := property_closesTo.tree t
  rw [tidyType, closes.ends false, e]
  rfl

/-! ## Brackets -/

theorem property_pairs : TreeProperty (Paired '[' ']') := by
  have name (n : QualifiedName) : Paired '[' ']' n.text := .of_free fun c hc =>
    ⟨n.bare.ne_of_mem hc (by decide), n.bare.ne_of_mem hc (by decide)⟩
  exact
    { name := name
      generic := fun {n _} inside =>
        (name n).append ((inside.append (.of_free (by decide))).cons (by decide) (by decide))
      array := fun inside => inside.append (Paired.group (t := []) (by decide) rfl)
      nullable := fun inside => inside.append (.of_free (by decide))
      more := fun first rest => first.append ((rest.cons (by decide) (by decide)).cons (by decide) (by decide)) }

theorem pairs_square (t : TypeTree) : Paired '[' ']' t.text := property_pairs.tree t

end TypeTree

mutual

/-- the type with the elements of arrays in place of these -/
def TypeTree.withoutArrays : TypeTree → TypeTree
  | .name n => .name n
  | .generic n arguments => .generic n arguments.withoutArrays
  | .array element => element.withoutArrays
  | .nullable t => .nullable t.withoutArrays

def TypeTrees.withoutArrays : TypeTrees → TypeTrees
  | .one t => .one t.withoutArrays
  | .more t rest => .more t.withoutArrays rest.withoutArrays

end

/-- What is no opening square bracket is kept. -/
theorem replaceGroups_append {t : Text} (into : Text) (free : '[' ∉ t) (rest : Text) :
    replaceGroups into (t ++ rest) = t ++ replaceGroups into rest := by
  induction t with
  | nil => rfl
  | cons c cs ih =>
    rw [List.mem_cons, not_or] at free
    rw [List.cons_append, replaceGroups, if_neg fun h => free.1 h.1.symm, ih free.2, List.cons_append]

theorem replaceGroups_group {t : Text} (free : ']' ∉ t) (into rest : Text) :
    replaceGroups into ('[' :: (t ++ ']' :: rest)) = into ++ replaceGroups into rest := by
  have past : (t ++ ']' :: rest).dropWhile (· != ']') = ']' :: rest := by
    rw [List.dropWhile_append_of_pos, List.dropWhile_cons_of_neg (by decide)]
    exact fun c hc => bne_iff_ne.2 fun e => free (e ▸ hc)
  rw [replaceGroups, if_pos (by simp), past]
  rfl

theorem QualifiedName.square_not_mem (n : QualifiedName) : '[' ∉ n.text := fun hc => n.bare.ne_of_mem hc (by decide) rfl

mutual

/-- **Dropping what stands in square brackets leaves the type without its arrays.** -/
theorem TypeTree.replaceGroups_text : ∀ (t : TypeTree) (rest : Text),
    replaceGroups [] (t.text ++ rest) = t.withoutArrays.text ++ replaceGroups [] rest
  | .name n, rest => replaceGroups_append [] n.square_not_mem rest
  | .generic n arguments, rest => by
    have opening : '[' ∉ n.text ++ ['<'] := by simp [n.square_not_mem]
    have closing := replaceGroups_append [] (show '[' ∉ (['>'] : Text) by decide) rest
    have shape : (TypeTree.generic n arguments).text ++ rest = (n.text ++ ['<']) ++ (arguments.text ++ (['>'] ++ rest)) := by
      simp [TypeTree.text]
    rw [shape, replaceGroups_append [] opening, arguments.replaceGroups_text, closing]
    simp [TypeTree.text, TypeTree.withoutArrays]
  | .array element, rest => by
    have group := replaceGroups_group (t := []) (by simp) [] rest
    rw [TypeTree.text, List.append_assoc, element.replaceGroups_text, TypeTree.withoutArrays]
    exact congrArg _ group
  | .nullable t, rest => by
    have question := replaceGroups_append [] (show '[' ∉ (['?'] : Text) by decide) rest
    rw [TypeTree.text, List.append_assoc, t.replaceGroups_text, question, TypeTree.withoutArrays, TypeTree.text,
      List.append_assoc]

theorem TypeTrees.replaceGroups_text : ∀ (a : TypeTrees) (rest : Text),
    replaceGroups [] (a.text ++ rest) = a.withoutArrays.text ++ replaceGroups [] rest
  | .one t, rest => t.replaceGroups_text rest
  | .more t others, rest => by
    have comma := replaceGroups_append [] (show '[' ∉ ([',', ' '] : Text) by decide) (others.text ++ rest)
    have shape : (TypeTrees.more t others).text ++ rest = t.text ++ ([',', ' '] ++ (others.text ++ rest)) := by
      simp [TypeTrees.text]
    rw [shape, t.replaceGroups_text, comma, others.replaceGroups_text]
    simp [TypeTrees.text, TypeTrees.withoutArrays]

end

mutual

theorem TypeTree.square_not_mem : ∀ t : TypeTree, '[' ∉ t.withoutArrays.text
  | .name n => n.square_not_mem
  | .generic n arguments => by
    simp [TypeTree.withoutArrays, TypeTree.text, n.square_not_mem, arguments.square_not_mem]
  | .array element => element.square_not_mem
  | .nullable t => by simp [TypeTree.withoutArrays, TypeTree.text, t.square_not_mem]

theorem TypeTrees.square_not_mem : ∀ a : TypeTrees, '[' ∉ a.withoutArrays.text
  | .one t => t.square_not_mem
  | .more t rest => by
    simp [TypeTrees.withoutArrays, TypeTrees.text, t.square_not_mem, rest.square_not_mem]

end

namespace TypeTree

variable (t : TypeTree)

/-- The types without arrays are those that are left as they are. -/
theorem withoutArrays_text_iff : t.withoutArrays.text = t.text ↔ '[' ∉ t.text := by
  constructor
  · intro same
    rw [← same]
    exact t.square_not_mem
  · intro free
    have dropped := t.replaceGroups_text []
    rw [List.append_nil, replaceGroups_plain [] free, replaceGroups, List.append_nil] at dropped
    exact dropped.symm

/-! ## The name in front -/

/-- A type starts with a name, after which it ends or has a mark. -/
theorem exists_name : ∃ (n : QualifiedName) (tail : Text),
    t.text = n.text ++ tail ∧ ∀ d ∈ tail.head?, typeMark d = true := by
  have grow {s x : Text} {m : Char} (mark : typeMark m = true)
      (h : ∃ (n : QualifiedName) (tail : Text), s = n.text ++ tail ∧ ∀ d ∈ tail.head?, typeMark d = true) :
      ∃ (n : QualifiedName) (tail : Text), s ++ m :: x = n.text ++ tail ∧ ∀ d ∈ tail.head?, typeMark d = true := by
    obtain ⟨n, tail, rfl, edge⟩ := h
    refine ⟨n, tail ++ m :: x, List.append_assoc .., ?_⟩
    cases tail with
    | nil => simpa using mark
    | cons d ds => simpa using edge
  exact TreeProperty.tree (p := fun s => ∃ (n : QualifiedName) (tail : Text), s = n.text ++ tail ∧
      ∀ d ∈ tail.head?, typeMark d = true)
    { name := fun n => ⟨n, [], (List.append_nil _).symm, by simp⟩
      generic := fun {n _} _ => grow (by decide) ⟨n, [], (List.append_nil _).symm, by simp⟩
      array := grow (by decide)
      nullable := grow (by decide)
      more := fun first _ => grow (by decide) first } t

theorem not_wordChar_of_typeMark {c : Char} (h : typeMark c = true) : wordChar c = false := by
  simp only [typeMark, Bool.or_eq_true, beq_iff_eq] at h
  rcases h with ((((rfl | rfl) | rfl) | rfl) | rfl) | rfl <;> decide

/-- The first of the words between blanks is no word that does not stand in the type. -/
theorem exists_word {kept : List Text} (letters : ∀ word ∈ kept, word ≠ [] ∧ ∀ c ∈ word, wordChar c = true)
    (free : Text.Without kept t.text) : ∃ word rest, Text.words t.text = word :: rest ∧ word ∉ kept := by
  obtain ⟨n, tail, e, edge⟩ := t.exists_name
  rw [e] at free ⊢
  apply n.bare.exists_word (fun d hd => .inr (edge d hd))
  · intro word member
    rw [List.any_eq_false]
    intro c hc mark
    have letter := (letters word member).2 c hc
    rw [not_wordChar_of_typeMark mark] at letter
    cases letter
  · intro member
    rw [Text.Without, Text.runWords_append_of_head (fun d hd => not_wordChar_of_typeMark (edge d hd)),
      Text.runWords_single n.bare.filled (letters _ member).2] at free
    exact free _ (List.mem_append_left _ (List.mem_singleton_self _)) member

end TypeTree

end EndpointSurvey.Rendered
