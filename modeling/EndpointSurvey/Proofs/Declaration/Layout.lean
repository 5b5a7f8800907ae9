/-
Where declarations, members and attribute groups are cut does not depend on the kind of blanks.

Main statements: `headings_map`, `namespaces_map` and `memberCutsFrom_map` (the same headings, namespaces and members are
found at the same places) and `leadingGroups_map`.
-/
import EndpointSurvey.Proofs.Declaration.Values
import EndpointSurvey.Proofs.Source.Splitting

namespace EndpointSurvey

namespace BlankMap

variable {φ : Char → Char}

/-! ## Headings -/

theorem keyword?_map (h : BlankMap φ) {word : Text} (feed : '\n' ∉ word) (space : ' ' ∉ word) (t : Text) :
    keyword? word (t.map φ) = (keyword? word t).map (List.map φ) := by
  unfold keyword?
  rw [h.after?_map feed space]
  cases Text.after? word t with
  | none => rfl
  | some rest =>
    simp only [Option.map_some, Option.bind_eq_bind, Option.bind_some, h.head?_any_map (p := blank) (by decide)]
    split
    · rw [h.dropWhile_map (by decide)]
      rfl
    · rfl

theorem name?_map (h : BlankMap φ) (t : Text) :
    name? (t.map φ) = (name? t).map fun (name, rest) => (name, rest.map φ) := by
  have word : (t.takeWhile wordChar).map φ = t.takeWhile wordChar :=
    h.map_of_all (p := wordChar) (by decide) fun d hd => List.mem_takeWhile_imp hd
  unfold name?
  rw [h.head?_any_map (by decide), h.takeWhile_map (by decide), h.dropWhile_map (by decide), word]
  split <;> rfl

theorem foldlM_keyword?_map (h : BlankMap φ) {words : List Text} (clear : ∀ w ∈ words, '\n' ∉ w ∧ ' ' ∉ w) (t : Text) :
    words.foldlM (fun rest word => keyword? word rest) (t.map φ) =
      (words.foldlM (fun rest word => keyword? word rest) t).map (List.map φ) := by
  induction words generalizing t with
  | nil => rfl
  | cons w ws ih =>
    obtain ⟨feed, space⟩ := clear w List.mem_cons_self
    rw [List.foldlM_cons, List.foldlM_cons, h.keyword?_map feed space]
    cases keyword? w t with
    | none => rfl
    | some rest => exact ih (fun w hw => clear w (List.mem_cons_of_mem _ hw)) rest

theorem declaration?_map (h : BlankMap φ) (t : Text) :
    declaration? (t.map φ) = (declaration? t).map fun (kind, name, rest) => (kind, name, rest.map φ) := by
  have clear : ∀ entry ∈ declarationKeywords, ∀ w ∈ entry.1, '\n' ∉ w ∧ ' ' ∉ w := by decide
  unfold declaration?
  generalize declarationKeywords = entries at clear
  induction entries with
  | nil => rfl
  | cons entry entries ih =>
    have rest := ih fun e he => clear e (List.mem_cons_of_mem _ he)
    obtain ⟨words, kind⟩ := entry
    simp only [List.findSome?_cons, h.foldlM_keyword?_map (clear _ List.mem_cons_self)]
    cases words.foldlM (fun rest word => keyword? word rest) t with
    | none => exact rest
    | some after =>
      simp only [Option.map_some, Option.bind_eq_bind, Option.bind_some, h.name?_map]
      cases name? after with
      | none => exact rest
      | some p => rfl

theorem wordEdge_map (h : BlankMap φ) (before : Option Char) (c : Char) :
    Text.wordEdge (before.map φ) (some (φ c)) = Text.wordEdge before (some c) := by
  unfold Text.wordEdge
  rw [Option.any_some, Option.any_some, h.test (p := wordChar) (by decide), Option.any_map]
  have same : (fun a => wordChar (φ a)) = wordChar := h.comp_test (p := wordChar) (by decide)
  rw [same]

theorem name?_last (h : BlankMap φ) {t name rest : Text} (found : name? t = some (name, rest)) :
    name.getLast?.map φ = name.getLast? := by
  unfold name? at found
  split at found
  · cases found
    rw [← List.getLast?_map, h.map_of_all (p := wordChar) (by decide) fun d hd => List.mem_takeWhile_imp hd]
  · cases found

theorem declaration?_last (h : BlankMap φ) {t name rest : Text} {kind : Option DeclarationKind}
    (found : declaration? t = some (kind, name, rest)) : name.getLast?.map φ = name.getLast? := by
  obtain ⟨entry, -, he⟩ := List.exists_of_findSome?_eq_some found
  obtain ⟨after, -, he⟩ := Option.bind_eq_some_iff.1 he
  obtain ⟨p, hp, he⟩ := Option.bind_eq_some_iff.1 he
  cases he
  exact h.name?_last hp

theorem headingsFrom_map (h : BlankMap φ) (offset : Nat) (before : Option Char) (t : Text) :
    headingsFrom offset (before.map φ) (t.map φ) = headingsFrom offset before t := by
  fun_induction headingsFrom offset before t with
  | case1 => rw [List.map_nil, headingsFrom]
  | case2 offset before c cs kind name rest found stop ih =>
    simp only [dite_eq_ite] at found
    have edge : Text.wordEdge before (some c) = true := by
      by_contra off
      rw [if_neg off] at found
      cases found
    rw [if_pos edge] at found
    have found' : (if Text.wordEdge (before.map φ) (some (φ c)) = true then declaration? (φ c :: cs.map φ) else none) =
        some (kind, name, rest.map φ) := by
      rw [h.wordEdge_map, if_pos edge, ← List.map_cons, h.declaration?_map, found]
      rfl
    rw [h.declaration?_last found] at ih
    rw [List.map_cons, headingsFrom]
    split
    · next kind' name' rest' e =>
      rw [found'] at e
      cases e
      have stop' : offset + ((φ c :: cs.map φ).length - (rest.map φ).length) = stop := by
        simp only [stop, List.length_cons, List.length_map]
      simp only [stop', ih]
    · next e =>
      rw [found'] at e
      cases e
  | case3 offset before c cs found ih =>
    simp only [dite_eq_ite] at found
    have found' : (if Text.wordEdge (before.map φ) (some (φ c)) = true then declaration? (φ c :: cs.map φ) else none) =
        none := by
      rw [h.wordEdge_map, ← List.map_cons, h.declaration?_map]
      split
      · next edge =>
        rw [if_pos edge] at found
        rw [found]
        rfl
      · rfl
    rw [List.map_cons, headingsFrom]
    split
    · next e =>
      rw [found'] at e
      cases e
    · exact ih

/-- The same headings are found. -/
theorem headings_map (h : BlankMap φ) (code : Text) : headings (code.map φ) = headings code :=
  h.headingsFrom_map 0 none code

/-! ## Namespaces -/

theorem namespace?_map (h : BlankMap φ) (t : Text) : namespace? (t.map φ) =
    (namespace? t).map fun (name, mark, rest) => (name, mark, rest.map φ) := by
  unfold namespace?
  rw [h.keyword?_map (by decide) (by decide)]
  cases keyword? "namespace" t with
  | none => rfl
  | some rest =>
    have dotted : (rest.takeWhile dottedChar).map φ = rest.takeWhile dottedChar :=
      h.map_of_all (p := dottedChar) (by decide) fun d hd => List.mem_takeWhile_imp hd
    simp only [Option.map_some, Option.bind_eq_bind, Option.bind_some, h.takeWhile_map (p := dottedChar) (by decide),
      h.dropWhile_map (p := dottedChar) (by decide), h.dropWhile_map (p := blank) (by decide), dotted]
    cases rest.takeWhile dottedChar with
    | nil => rfl
    | cons n ns =>
      cases (rest.dropWhile dottedChar).dropWhile blank with
      | nil => rfl
      | cons c cs =>
        have brace := h.eq_iff (show '\x7b' ≠ '\n' by decide) (show '\x7b' ≠ ' ' by decide) c
        have semicolon := h.eq_iff (show ';' ≠ '\n' by decide) (show ';' ≠ ' ' by decide) c
        by_cases hb : c = '\x7b'
        · rw [List.map_cons, brace.2 hb, hb]
          rfl
        · by_cases hs : c = ';'
          · rw [List.map_cons, semicolon.2 hs, hs]
            rfl
          · simp [hb, hs, brace, semicolon]

theorem namespacesFrom_map (h : BlankMap φ) (size offset : Nat) (before : Option Char) (t : Text) :
    namespacesFrom size offset (before.map φ) (t.map φ) = namespacesFrom size offset before t := by
  induction t generalizing offset before with
  | nil => rfl
  | cons c cs ih =>
    have rest := ih (offset + 1) (some c)
    rw [Option.map_some] at rest
    simp only [List.map_cons, namespacesFrom, h.wordEdge_map]
    rw [rest, ← List.map_cons, h.namespace?_map]
    by_cases edge : Text.wordEdge before (some c) = true
    · rw [if_pos edge, if_pos edge]
      cases namespace? (c :: cs) with
      | none => rfl
      | some p =>
        obtain ⟨name, mark, body⟩ := p
        have open_ : closing? '\x7b' '\x7d' ('\x7b' :: body.map φ) = closing? '\x7b' '\x7d' ('\x7b' :: body) := by
          have := h.closing?_map (show '\x7b' ≠ '\n' ∧ '\x7b' ≠ ' ' by decide)
            (show '\x7d' ≠ '\n' ∧ '\x7d' ≠ ' ' by decide) ('\x7b' :: body)
          rwa [List.map_cons, h.fixes '\x7b' (by decide)] at this
        by_cases hb : mark = '\x7b'
        · subst hb
          simp only [Option.map_some, open_, List.length_cons, List.length_map]
        · simp
    · rw [if_neg edge, if_neg edge]

/-- The same namespaces are found. -/
theorem namespaces_map (h : BlankMap φ) (code : Text) : namespaces (code.map φ) = namespaces code := by
  unfold namespaces
  rw [List.length_map]
  exact h.namespacesFrom_map code.length 0 none code

/-! ## Members -/

theorem cutFrom_map (h : BlankMap φ) (offset brackets parens : Nat) (arrow : Option Nat) (t : Text) :
    cutFrom offset brackets parens arrow (t.map φ) = cutFrom offset brackets parens arrow t := by
  induction size : t.length using Nat.strong_induction_on generalizing offset brackets parens arrow t with
  | _ size ih =>
    cases t with
    | nil => rw [List.map_nil]
    | cons c cs =>
      rw [List.length_cons] at size
      have rest : ∀ (n offset brackets parens : Nat) (arrow : Option Nat),
          cutFrom offset brackets parens arrow ((cs.map φ).drop n) = cutFrom offset brackets parens arrow (cs.drop n) := by
        intro n offset brackets parens arrow
        rw [← List.map_drop]
        exact ih _ (by rw [List.length_drop]; omega) _ _ _ _ _ rfl
      have next := rest 0
      simp only [List.drop_zero] at next
      have brace := h.closing?_map (show '\x7b' ≠ '\n' ∧ '\x7b' ≠ ' ' by decide)
        (show '\x7d' ≠ '\n' ∧ '\x7d' ≠ ' ' by decide) (c :: cs)
      have mark : ∀ {d : Char}, d ≠ '\n' → d ≠ ' ' → (φ c = d ↔ c = d) := fun feed space => h.eq_iff feed space c
      have arrow_ : (cs.map φ).head? = some '>' ↔ cs.head? = some '>' := h.head?_map_eq_some (by decide) (by decide) cs
      rw [List.map_cons] at brace ⊢
      rw [cutFrom.eq_def, cutFrom.eq_def _ _ _ _ (c :: cs)]
      simp only [mark (show '[' ≠ '\n' by decide) (by decide), mark (show ']' ≠ '\n' by decide) (by decide),
        mark (show '(' ≠ '\n' by decide) (by decide), mark (show ')' ≠ '\n' by decide) (by decide),
        mark (show '=' ≠ '\n' by decide) (by decide), mark (show '\x7b' ≠ '\n' by decide) (by decide),
        mark (show ';' ≠ '\n' by decide) (by decide), arrow_, next, rest, brace, List.length_map]

theorem memberCutsFrom_map (h : BlankMap φ) (passed : Nat) (code : Text) :
    memberCutsFrom passed (code.map φ) = memberCutsFrom passed code := by
  fun_induction memberCutsFrom passed code with
  | case1 passed code none =>
    rw [memberCutsFrom]
    split
    · rfl
    · next cut found =>
      rw [nextCut?, h.cutFrom_map] at found
      exact absurd (none.symm.trans found) (by simp)
  | case2 passed code cut found ih =>
    rw [memberCutsFrom]
    split
    · next none =>
      rw [nextCut?, h.cutFrom_map] at none
      exact absurd (found.symm.trans none) (by simp)
    · next cut' found' =>
      rw [nextCut?, h.cutFrom_map] at found'
      obtain rfl := Option.some.inj (found.symm.trans found')
      rw [← List.map_drop, ih]

theorem leadingGroups_map (h : BlankMap φ) (offset stop : Nat) (t : Text) :
    leadingGroups offset stop (t.map φ) = leadingGroups offset stop t := by
  fun_induction leadingGroups offset stop t with
  | case1 => rw [List.map_nil, leadingGroups]
  | case2 offset stop cs open_ =>
    have open' := h.closing?_map (show '[' ≠ '\n' ∧ '[' ≠ ' ' by decide) (show ']' ≠ '\n' ∧ ']' ≠ ' ' by decide)
      ('[' :: cs)
    rw [List.map_cons, h.fixes '[' (by decide), open_] at open'
    rw [List.map_cons, h.fixes '[' (by decide), leadingGroups, if_pos rfl, open']
  | case3 offset stop cs i rest gap found ih =>
    have found' := h.closing?_map (show '[' ≠ '\n' ∧ '[' ≠ ' ' by decide) (show ']' ≠ '\n' ∧ ']' ≠ ' ' by decide)
      ('[' :: cs)
    rw [List.map_cons, h.fixes '[' (by decide), found] at found'
    rw [List.map_cons, h.fixes '[' (by decide), leadingGroups, if_pos rfl, found']
    simp only [← List.map_drop, h.leadingBlanks_map]
    exact ih
  | case4 offset stop c cs other =>
    rw [List.map_cons, leadingGroups, if_neg]
    rwa [h.eq_iff (by decide) (by decide)]

/-! ## Tails of headings -/

theorem skipBlanks_map (h : BlankMap φ) (code : Text) (offset : Nat) :
    skipBlanks (code.map φ) offset = skipBlanks code offset := by
  unfold skipBlanks
  rw [← List.map_drop, h.leadingBlanks_map]

theorem bracketed_map (h : BlankMap φ) {opener closer : Char} (ho : opener ≠ '\n' ∧ opener ≠ ' ')
    (hc : closer ≠ '\n' ∧ closer ≠ ' ') (code : Text) (offset : Nat) :
    bracketed opener closer (code.map φ) offset = bracketed opener closer code offset := by
  unfold bracketed
  simp only [← List.map_drop, h.head?_map_eq_some ho.1 ho.2, h.closing?_map ho hc]

theorem baseTypesOf_map (h : BlankMap φ) (tail : Text) :
    baseTypesOf (tail.map φ) = (baseTypesOf tail).map (List.map φ) := by
  unfold baseTypesOf
  rw [h.splitFirst?_map (by decide) (by decide)]
  cases Text.splitFirst? ":" tail with
  | none => rfl
  | some p =>
    simp only [Option.map_some, h.beforeWord_map, h.splitTop_map (show ',' ≠ '\n' by decide) (by decide), List.filter_map]
    congr 2
    funext base
    exact congrArg (!·) List.isEmpty_map

end BlankMap

end EndpointSurvey
