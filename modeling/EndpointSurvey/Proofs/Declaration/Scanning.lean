/-
The scans for headings and namespaces. They do not depend on where a text stands, and a mark that no heading holds, a
brace or a semicolon say, splits them: what is found behind it is found in the rest of the text alone.

Main statements:
- `headingsFrom_shift`, `namespacesFrom_shift` and `namespaceAt_shift`: a text that stands further on;
- `headingsFrom_marks`: where no word character is left there is no heading;
- `headingsFrom_append` and `namespacesFrom_append`: a text with a mark inside.
-/
import EndpointSurvey.Declaration.Heading
import EndpointSurvey.Proofs.Text.Spacing

namespace EndpointSurvey

/-- the heading with its offsets counted from a place `k` further in front -/
def Heading.shift (k : Nat) (h : Heading) : Heading := { h with start := k + h.start, stop := k + h.stop }

def NamespaceSpan.shift (k : Nat) (s : NamespaceSpan) : NamespaceSpan :=
  { s with start := k + s.start, stop := k + s.stop }

/-! ## Single steps -/

section
variable {offset : Nat} {before : Option Char} {c : Char} {cs : Text}

theorem headingsFrom_none (h : Text.wordEdge before c = true → declaration? (c :: cs) = none) :
    headingsFrom offset before (c :: cs) = headingsFrom (offset + 1) c cs := by
  rw [headingsFrom]
  split
  · next found =>
    split at found
    · next edge => rw [h edge] at found; cases found
    · cases found
  · rfl

theorem headingsFrom_some (edge : Text.wordEdge before c = true) {kind : Option DeclarationKind} {name rest : Text}
    (h : declaration? (c :: cs) = some (kind, name, rest)) :
    headingsFrom offset before (c :: cs) =
      ⟨offset, offset + ((c :: cs).length - rest.length), kind, name⟩ ::
        headingsFrom (offset + ((c :: cs).length - rest.length)) name.getLast? rest := by
  conv => lhs; rw [headingsFrom]
  split
  · next found =>
    rw [if_pos edge, h] at found
    cases found
    rfl
  · next found =>
    rw [if_pos edge, h] at found
    cases found

theorem wordEdge_none (edge : before.any wordChar = false) : Text.wordEdge before c = Text.wordEdge none c := by
  rw [Text.wordEdge, edge]
  rfl

/-- A character that is no word character makes no difference in front of a text. -/
theorem headingsFrom_edge (edge : before.any wordChar = false) (offset : Nat) (t : Text) :
    headingsFrom offset before t = headingsFrom offset none t := by
  cases t with
  | nil => rw [headingsFrom, headingsFrom]
  | cons c cs => rw [headingsFrom, headingsFrom, wordEdge_none edge]

end

theorem headingsFrom_shift (k offset : Nat) (before : Option Char) (t : Text) :
    headingsFrom (k + offset) before t = (headingsFrom offset before t).map (Heading.shift k) := by
  fun_induction headingsFrom offset before t with
  | case1 => rw [headingsFrom]; rfl
  | case2 offset before c cs kind name rest found stop ih =>
    obtain ⟨edge, declared⟩ := Option.dite_none_right_eq_some.1 found
    have same : k + offset + ((c :: cs).length - rest.length) = k + stop := Nat.add_assoc ..
    rw [headingsFrom_some edge declared, same, ih]
    rfl
  | case3 offset before c cs none ih =>
    have step : Text.wordEdge before c = true → declaration? (c :: cs) = Option.none :=
      fun edge => by rwa [dif_pos edge] at none
    rw [headingsFrom_none step, Nat.add_assoc, ih]

/-! ## Marks -/

/-- a character that neither a heading nor a namespace's name can hold -/
structure Stops (m : Char) : Prop where
  start : identifierStart m = false
  word : wordChar m = false
  blank : blank m = false
  dotted : dottedChar m = false

section
variable {m : Char} (stops : Stops m)
include stops

theorem after?_append_stop {word : Text} (letters : ∀ c ∈ word, wordChar c = true) (t rest : Text) :
    Text.after? word (t ++ m :: rest) = (Text.after? word t).map (· ++ m :: rest) := by
  induction word generalizing t with
  | nil => rfl
  | cons d ds ih =>
    obtain ⟨letter, others⟩ := List.forall_mem_cons.1 letters
    cases t with
    | nil =>
      have other : d ≠ m := by
        rintro rfl
        rw [stops.word] at letter
        cases letter
      exact if_neg other
    | cons c cs =>
      rw [List.cons_append, Text.after?, Text.after?]
      split
      · exact ih others cs
      · rfl

theorem keyword?_append_stop {word : Text} (letters : ∀ c ∈ word, wordChar c = true) (t rest : Text) :
    keyword? word (t ++ m :: rest) = (keyword? word t).map (· ++ m :: rest) := by
  rw [keyword?, keyword?, after?_append_stop stops letters]
  cases Text.after? word t with
  | none => rfl
  | some after =>
    cases after with
    | nil => simp [stops.blank]
    | cons c cs =>
      have more : (c :: (cs ++ m :: rest)).dropWhile blank = (c :: cs).dropWhile blank ++ m :: rest :=
        Text.dropWhile_append_stop stops.blank (c :: cs) rest
      by_cases space : blank c = true <;> simp [space, more]

theorem name?_append_stop (t rest : Text) :
    name? (t ++ m :: rest) = (name? t).map fun (name, after) => (name, after ++ m :: rest) := by
  have head : (t ++ m :: rest).head?.any identifierStart = t.head?.any identifierStart := by
    cases t with
    | nil => exact stops.start
    | cons c cs => rfl
  rw [name?, name?, head]
  split
  · rw [Text.takeWhile_append_stop stops.word, Text.dropWhile_append_stop stops.word]
    rfl
  · rfl

theorem foldlM_keyword?_append_stop {words : List Text} (letters : ∀ word ∈ words, ∀ c ∈ word, wordChar c = true)
    (t rest : Text) :
    words.foldlM (fun after word => keyword? word after) (t ++ m :: rest) =
      (words.foldlM (fun after word => keyword? word after) t).map (· ++ m :: rest) := by
  induction words generalizing t with
  | nil => rfl
  | cons word words ih =>
    obtain ⟨first, others⟩ := List.forall_mem_cons.1 letters
    rw [List.foldlM_cons, List.foldlM_cons, keyword?_append_stop stops first]
    cases keyword? word t with
    | none => rfl
    | some after => exact ih others after

/-- A heading that begins before such a mark ends before it, whatever follows. -/
theorem declaration?_append_stop (t rest : Text) :
    declaration? (t ++ m :: rest) = (declaration? t).map fun (kind, name, after) => (kind, name, after ++ m :: rest) := by
  have letters : ∀ entry ∈ declarationKeywords, ∀ word ∈ entry.1, ∀ c ∈ word, wordChar c = true := by
    have checked : declarationKeywords.all fun entry => entry.1.all fun word => word.all wordChar := by decide
    simpa only [List.all_eq_true] using checked
  rw [declaration?, declaration?, List.map_findSome?]
  generalize declarationKeywords = entries at letters
  induction entries with
  | nil => rfl
  | cons entry entries ih =>
    obtain ⟨words, kind⟩ := entry
    obtain ⟨first, others⟩ := List.forall_mem_cons.1 letters
    rw [List.findSome?_cons, List.findSome?_cons, ih others, Function.comp_apply]
    dsimp only at first ⊢
    rw [foldlM_keyword?_append_stop stops first]
    cases words.foldlM (fun after word => keyword? word after) t with
    | none => rfl
    | some after =>
      simp only [Option.map_some, Option.bind_eq_bind, Option.bind_some, name?_append_stop stops]
      cases name? after <;> rfl

/-- Such a mark splits the scan for headings. -/
theorem headingsFrom_append (offset : Nat) (before : Option Char) (t rest : Text) :
    headingsFrom offset before (t ++ m :: rest) =
      headingsFrom offset before t ++ headingsFrom (offset + t.length + 1) m rest := by
  fun_induction headingsFrom offset before t with
  | case1 offset before => exact headingsFrom_none fun _ => declaration?_append_stop stops [] rest
  | case2 offset before c cs kind name after found stop ih =>
    obtain ⟨edge, declared⟩ := Option.dite_none_right_eq_some.1 found
    have more : declaration? (c :: (cs ++ m :: rest)) = some (kind, name, after ++ m :: rest) := by
      rw [← List.cons_append, declaration?_append_stop stops, declared]
      rfl
    have shorter : after.length < (c :: cs).length := declaration?_rest_lt declared
    have length : (c :: (cs ++ m :: rest)).length - (after ++ m :: rest).length = (c :: cs).length - after.length := by
      simp only [List.length_cons, List.length_append]
      omega
    have place : stop + after.length = offset + (c :: cs).length := by omega
    rw [List.cons_append, headingsFrom_some edge more, length, ih, place]
    rfl
  | case3 offset before c cs none ih =>
    have step : Text.wordEdge before c = true → declaration? (c :: (cs ++ m :: rest)) = Option.none := by
      intro edge
      rw [dif_pos edge] at none
      rw [← List.cons_append, declaration?_append_stop stops, none]
      rfl
    have place : offset + 1 + cs.length = offset + (c :: cs).length := by rw [List.length_cons]; omega
    rw [List.cons_append, headingsFrom_none step, ih, place]

/-- A heading in front of such a mark is found there whatever follows the mark. -/
theorem headings_front {t rest : Text} {heading : Heading} (found : heading ∈ headings (t ++ m :: rest))
    (inside : heading.start ≤ t.length) (rest' : Text) : heading ∈ headings (t ++ m :: rest') := by
  unfold headings at found ⊢
  rw [headingsFrom_append stops] at found ⊢
  refine List.mem_append_left _ ((List.mem_append.1 found).resolve_right fun behind => ?_)
  have := headingsFrom_start_le _ _ _ heading behind
  omega

end

/-! ## Texts without word characters -/

theorem keyword?_mark {c d : Char} (mark : wordChar c = false) (letter : wordChar d = true) (ds cs : Text) :
    keyword? (d :: ds) (c :: cs) = none := by
  have other : d ≠ c := by
    rintro rfl
    rw [letter] at mark
    cases mark
  rw [keyword?, Text.after?, if_neg other]
  rfl

theorem declaration?_mark {c : Char} (mark : wordChar c = false) (cs : Text) : declaration? (c :: cs) = none := by
  have first : ∀ entry ∈ declarationKeywords, (entry.1.head?.bind List.head?).any wordChar = true := by decide
  rw [declaration?, List.findSome?_eq_none_iff]
  rintro ⟨words, kind⟩ listed
  have letter := first _ listed
  dsimp only at letter ⊢
  rcases words with _ | ⟨_ | ⟨d, ds⟩, words⟩
  · cases letter
  · cases letter
  · rw [List.foldlM_cons, keyword?_mark mark letter]
    rfl

theorem getLast?_cons_or (c : Char) (cs : Text) (before : Option Char) :
    (c :: cs).getLast?.or before = cs.getLast?.or (some c) := by
  rw [List.getLast?_cons]
  cases cs.getLast? <;> rfl

theorem headingsFrom_marks_append {g : Text} (marks : ∀ c ∈ g, wordChar c = false) (offset : Nat)
    (before : Option Char) (t : Text) :
    headingsFrom offset before (g ++ t) = headingsFrom (offset + g.length) (g.getLast?.or before) t := by
  induction g generalizing offset before with
  | nil => rfl
  | cons c cs ih =>
    obtain ⟨mark, others⟩ := List.forall_mem_cons.1 marks
    rw [List.cons_append, headingsFrom_none fun _ => declaration?_mark mark _, ih others, getLast?_cons_or,
      List.length_cons]
    congr 1
    omega

/-- Where no word character is left there is no heading. -/
theorem headingsFrom_marks {t : Text} (marks : ∀ c ∈ t, wordChar c = false) (offset : Nat) (before : Option Char) :
    headingsFrom offset before t = [] := by
  have whole := headingsFrom_marks_append marks offset before []
  rwa [List.append_nil, headingsFrom] at whole

/-! ## Namespaces -/

section
variable {size offset : Nat} {before : Option Char} {c : Char} {cs : Text}

theorem namespacesFrom_none (h : Text.wordEdge before c = true → namespace? (c :: cs) = none) :
    namespacesFrom size offset before (c :: cs) = namespacesFrom size (offset + 1) c cs := by
  have step : (if Text.wordEdge before c then namespace? (c :: cs) else none) = none := by
    split
    · next edge => exact h edge
    · rfl
  rw [namespacesFrom, step]

theorem namespacesFrom_eq_nil (h : namespacesFrom size offset before (c :: cs) = []) :
    (Text.wordEdge before c = true → namespace? (c :: cs) = none) ∧ namespacesFrom size (offset + 1) c cs = [] := by
  rw [namespacesFrom] at h
  dsimp only at h
  split at h
  · cases h
  · cases h
  · next none =>
    refine ⟨fun edge => ?_, h⟩
    rwa [if_pos edge] at none

theorem namespacesFrom_edge (edge : before.any wordChar = false) (size offset : Nat) (t : Text) :
    namespacesFrom size offset before t = namespacesFrom size offset none t := by
  cases t with
  | nil => rfl
  | cons c cs => rw [namespacesFrom, namespacesFrom, wordEdge_none edge]

end

theorem namespace?_mark {c : Char} (mark : wordChar c = false) (cs : Text) : namespace? (c :: cs) = none := by
  have keyword : keyword? "namespace" (c :: cs) = none := keyword?_mark mark (by decide) _ cs
  rw [namespace?, keyword]
  rfl

theorem namespacesFrom_marks_append {g : Text} (marks : ∀ c ∈ g, wordChar c = false) (size offset : Nat)
    (before : Option Char) (t : Text) :
    namespacesFrom size offset before (g ++ t) = namespacesFrom size (offset + g.length) (g.getLast?.or before) t := by
  induction g generalizing offset before with
  | nil => rfl
  | cons c cs ih =>
    obtain ⟨mark, others⟩ := List.forall_mem_cons.1 marks
    rw [List.cons_append, namespacesFrom_none fun _ => namespace?_mark mark _, ih others, getLast?_cons_or,
      List.length_cons]
    congr 1
    omega

theorem namespace?_shorter {t name rest : Text} {m : Char} (h : namespace? t = some (name, m, rest)) :
    rest.length < t.length := by
  obtain ⟨after, found, h⟩ := Option.bind_eq_some_iff.1 h
  have keyword := keyword?_rest_le found
  have dotted := (List.dropWhile_suffix (l := after) dottedChar).length_le
  have blanks := (List.dropWhile_suffix (l := after.dropWhile dottedChar) blank).length_le
  dsimp only at h
  split at h
  · cases h
  · next brace _ =>
    cases h
    rw [brace, List.length_cons] at blanks
    omega
  · next semicolon _ =>
    cases h
    rw [semicolon, List.length_cons] at blanks
    omega
  · cases h

theorem namespacesFrom_shift (k size offset : Nat) (before : Option Char) (t : Text) :
    namespacesFrom (k + size) (k + offset) before t =
      (namespacesFrom size offset before t).map (NamespaceSpan.shift k) := by
  induction t generalizing offset before with
  | nil => rfl
  | cons c cs ih =>
    have rest : namespacesFrom (k + size) (k + offset + 1) c cs = _ := ih (offset + 1) c
    rw [namespacesFrom, namespacesFrom, rest]
    dsimp only
    split
    · next name body found =>
      have shorter : body.length < (c :: cs).length := by
        split at found
        · exact namespace?_shorter found
        · cases found
      have brace : k + offset + ((c :: cs).length - body.length) - 1 =
          k + (offset + ((c :: cs).length - body.length) - 1) := by omega
      rw [List.map_cons, brace, NamespaceSpan.shift]
      cases closing? '\x7b' '\x7d' ('\x7b' :: body) with
      | none => rfl
      | some i =>
        dsimp only
        rw [Nat.add_assoc]
    · rfl
    · rfl

/-- No namespace starts without the keyword, without a name, and where neither a brace nor a semicolon ends it. -/
theorem namespace?_eq_none_iff {t : Text} : namespace? t = none ↔ ∀ after, keyword? "namespace" t = some after →
    after.takeWhile dottedChar = [] ∨
      ∀ c ∈ ((after.dropWhile dottedChar).dropWhile blank).head?, c ≠ '\x7b' ∧ c ≠ ';' := by
  unfold namespace?
  cases keyword? "namespace" t with
  | none => simp
  | some after =>
    simp only [Option.bind_eq_bind, Option.bind_some, Option.some.injEq, forall_eq']
    generalize (after.dropWhile dottedChar).dropWhile blank = rest
    cases after.takeWhile dottedChar with
    | nil => simp
    | cons d ds =>
      split
      · next empty => cases empty
      · simp
      · simp
      · next rest _ _ brace semicolon _ =>
        have other : ∀ c ∈ rest.head?, c ≠ '\x7b' ∧ c ≠ ';' := by
          intro c head
          obtain ⟨cs, rfl⟩ := List.head?_eq_some_iff.1 head
          exact ⟨fun e => brace cs (by rw [e]), fun e => semicolon cs (by rw [e])⟩
        exact ⟨fun _ => .inr other, fun _ => rfl⟩

/-! ## Namespaces around a mark -/

section
variable {m : Char} (stops : Stops m)
include stops

/-- Whether a namespace starts in front of such a mark does not depend on what follows it. -/
theorem namespace?_append_stop (t : Text) {rest : Text} (absent : namespace? (t ++ m :: rest) = none)
    (rest' : Text) : namespace? (t ++ m :: rest') = none := by
  have letters : ∀ c ∈ "namespace".toList, wordChar c = true := Text.forall_of_all (by decide)
  rw [namespace?_eq_none_iff] at absent ⊢
  simp only [keyword?_append_stop stops letters, Option.map_eq_some_iff, forall_exists_index, and_imp,
    forall_apply_eq_imp_iff₂, Text.takeWhile_append_stop stops.dotted, Text.dropWhile_append_stop stops.dotted,
    Text.dropWhile_append_stop stops.blank] at absent ⊢
  intro after found
  -- the blanks behind the name end at the mark at the latest, and nothing further on is looked at
  refine (absent after found).imp_right fun ends => ?_
  cases ended : (after.dropWhile dottedChar).dropWhile blank with
  | nil => rwa [ended] at ends
  | cons d ds => rwa [ended] at ends

/-- A text without namespaces up to such a mark adds none to what follows it. -/
theorem namespacesFrom_append {size offset : Nat} {before : Option Char} {t rest : Text}
    (none : namespacesFrom size offset before (t ++ m :: rest) = []) (size' : Nat) (rest' : Text) :
    namespacesFrom size' offset before (t ++ m :: rest') = namespacesFrom size' (offset + t.length + 1) m rest' := by
  induction t generalizing offset before with
  | nil => exact namespacesFrom_none fun _ => namespace?_mark stops.word rest'
  | cons c cs ih =>
    obtain ⟨first, others⟩ := namespacesFrom_eq_nil none
    have step : Text.wordEdge before c = true → namespace? (c :: (cs ++ m :: rest')) = Option.none :=
      fun edge => namespace?_append_stop stops (c :: cs) (first edge) rest'
    have place : offset + 1 + cs.length = offset + (c :: cs).length := by rw [List.length_cons]; omega
    rw [List.cons_append, namespacesFrom_none step, ih others, place]

end

/-! ## What covers an offset -/

theorem namespaceAt_shift (k : Nat) (spans : List NamespaceSpan) (offset : Nat) :
    namespaceAt (spans.map (NamespaceSpan.shift k)) (k + offset) = namespaceAt spans offset := by
  have same : (fun s : NamespaceSpan => decide (s.start ≤ k + offset) && decide (k + offset < s.stop)) ∘
      NamespaceSpan.shift k = fun s => decide (s.start ≤ offset) && decide (offset < s.stop) := by
    funext s
    simp [NamespaceSpan.shift]
  rw [namespaceAt, List.filter_map, same, List.getLast?_map, Option.map_map]
  rfl

/-- Namespaces further on cover no offset before them. -/
theorem namespaceAt_front {k offset : Nat} (front : offset < k) (spans : List NamespaceSpan) :
    namespaceAt (spans.map (NamespaceSpan.shift k)) offset = none := by
  have out : (spans.map (NamespaceSpan.shift k)).filter (fun s => s.start ≤ offset && offset < s.stop) = [] := by
    rw [List.filter_eq_nil_iff]
    intro s hs
    obtain ⟨s, -, rfl⟩ := List.mem_map.1 hs
    have start : k ≤ (s.shift k).start := Nat.le_add_right ..
    simp only [Bool.and_eq_true, decide_eq_true_eq]
    omega
  rw [namespaceAt, out]
  rfl

end EndpointSurvey
