/-
Declarations, members and groups are cut at structural characters: next to a bracket, a brace, a semicolon or an equals
sign, or where a keyword begins.

Main statements: `cutFrom_cutAt` (the cuts of a member), `leadingGroups_place` (the end of its attribute groups),
`headings_keywordAt` (the places of headings) and `bracketed_places` (the parts of a declaration).
-/
import EndpointSurvey.Proofs.Source.Fading
import EndpointSurvey.Proofs.Source.Nesting

namespace EndpointSurvey

namespace CutAt

variable {code : Text} {m n : Nat}

/-- a place further on, counted from a place before it -/
theorem shift (h : CutAt code n) (le : m ≤ n) : CutAt (code.drop m) (n - m) := by
  cases h with
  | start =>
    obtain rfl := Nat.le_zero.1 le
    exact CutAt.start
  | stop past =>
    apply CutAt.stop
    rw [List.length_drop]
    omega
  | before here sharp =>
    refine CutAt.before ?_ sharp
    rwa [List.drop_drop, Nat.add_sub_cancel' le]
  | @after n c here sharp =>
    rcases Nat.lt_or_ge m (n + 1) with inside | past
    · have e : n + 1 - m = n - m + 1 := by omega
      rw [e]
      refine CutAt.after ?_ sharp
      rwa [List.drop_drop, Nat.add_sub_cancel' (Nat.le_of_lt_succ inside)]
    · rw [Nat.sub_eq_zero_of_le past]
      exact CutAt.start

/-- a place counted from another place -/
theorem unshift (first : CutAt code m) (h : CutAt (code.drop m) n) : CutAt code (m + n) := by
  cases h with
  | start => exact first
  | stop past =>
    apply CutAt.stop
    rw [List.length_drop] at past
    omega
  | before here sharp =>
    rw [List.drop_drop] at here
    exact CutAt.before here sharp
  | after here sharp =>
    rw [List.drop_drop] at here
    exact CutAt.after here sharp

/-- a place of a text that is cut off behind it -/
theorem take (h : CutAt code n) (le : n ≤ m) : CutAt (code.take m) n := by
  have front : ∀ {k : Nat} {c : Char}, k < m → (code.drop k).head? = some c → ((code.take m).drop k).head? = some c := by
    intro k c inside here
    rw [List.head?_drop] at here ⊢
    rwa [List.getElem?_take_of_lt inside]
  cases h with
  | start => exact CutAt.start
  | stop past =>
    apply CutAt.stop
    rw [List.length_take]
    omega
  | before here sharp =>
    rcases Nat.lt_or_eq_of_le le with inside | rfl
    · exact CutAt.before (front inside here) sharp
    · exact CutAt.stop (List.length_take_le _ _)
  | after here sharp => exact CutAt.after (front le here) sharp

end CutAt

/-- what is found is the closing bracket -/
theorem closing?_head {opener closer : Char} (distinct : opener ≠ closer) {code : Text} {i : Nat}
    (head : code.head? = some opener) (h : closing? opener closer code = some i) :
    (code.drop i).head? = some closer := by
  obtain ⟨t, rfl⟩ := List.head?_eq_some_iff.1 head
  obtain ⟨inner, rest, rfl, rfl, -⟩ := (closing?_eq_some_iff distinct).1 h
  rw [List.drop_succ_cons, List.drop_left]
  rfl

/-! ## Members -/

/-- the places at which a member is cut from a body -/
structure CutPlaces (code : Text) (cut : MemberCut) : Prop where
  heading : CutAt code cut.headingStop
  stop : CutAt code cut.stop
  block : ∀ start ∈ cut.blockStart, CutAt code start ∧ start ≤ cut.stop
  /-- a member ends with a brace or a semicolon, unless its block does not close -/
  last : cut.stop < code.length → ∃ c, (code.drop (cut.stop - 1)).head? = some c ∧ (c = '\x7d' ∨ c = ';')

theorem cutFrom_cutAt {code : Text} {offset brackets parens : Nat} {arrow : Option Nat} {t : Text} {cut : MemberCut}
    (h : cutFrom offset brackets parens arrow t = some cut) (rest : t = code.drop offset)
    (before : ∀ a ∈ arrow, CutAt code a) : CutPlaces code cut := by
  have here : ∀ {offset : Nat} {c : Char} {cs : Text}, c :: cs = code.drop offset →
      (code.drop offset).head? = some c ∧ cs = code.drop (offset + 1) := by
    intro offset c cs e
    rw [← e, ← List.drop_drop, ← e]
    exact ⟨rfl, rfl⟩
  replace h := cutFrom_path h
  induction h with
  | passed _ _ _ _ ih => exact ih (here rest).2 before
  | arrow _ ih =>
    obtain ⟨head, tail⟩ := here rest
    refine ih (here tail).2 fun a ha => ?_
    cases ha
    exact CutAt.before head (by decide)
  | group _ _ ih =>
    refine ih ?_ before
    rw [(here rest).2, List.drop_drop]
    congr 1
    omega
  | @block offset brackets parens cs made =>
    have heading : CutAt code offset := CutAt.before (here rest).1 (by decide)
    have size := congrArg List.length rest
    rw [List.length_drop, List.length_cons] at size
    subst made
    cases found : closing? '\x7b' '\x7d' ('\x7b' :: cs) with
    | none =>
      have past : code.length ≤ offset + cs.length + 1 := by omega
      exact ⟨heading, CutAt.stop past, by rintro _ ⟨⟩; exact ⟨heading, Nat.le_succ_of_le (Nat.le_add_right ..)⟩,
        fun short => absurd short (Nat.not_lt.2 past)⟩
    | some i =>
      have closed := closing?_head (by decide) rfl found
      rw [rest, List.drop_drop] at closed
      exact ⟨heading, CutAt.after closed (by decide),
        by rintro _ ⟨⟩; exact ⟨heading, Nat.le_succ_of_le (Nat.le_add_right ..)⟩, fun _ => ⟨_, closed, .inl rfl⟩⟩
  | @semicolon offset brackets parens arrow cs made =>
    have semicolon := (here rest).1
    subst made
    refine ⟨?_, CutAt.after semicolon (by decide), fun start hs => (by cases hs), fun _ => ⟨_, semicolon, .inr rfl⟩⟩
    cases arrow with
    | none => exact CutAt.before semicolon (by decide)
    | some a => exact before a rfl

theorem nextCut?_cutAt {code : Text} {cut : MemberCut} (h : nextCut? code = some cut) : CutPlaces code cut :=
  cutFrom_cutAt h List.drop_zero.symm (by simp)

/-- the cuts of a body, each with the place it is counted from -/
theorem memberCutsFrom_cutAt (code : Text) {rest : Text} {passed : Nat} (start : rest = code.drop passed)
    (first : CutAt code passed) :
    ∀ entry ∈ memberCutsFrom passed rest, CutAt code entry.1 ∧ CutPlaces (code.drop entry.1) entry.2 := by
  fun_induction memberCutsFrom passed rest with
  | case1 passed rest none => intro entry he; cases he
  | case2 passed rest cut found ih =>
    have places := nextCut?_cutAt found
    have next : CutAt code (passed + cut.stop) := first.unshift (start ▸ places.stop)
    intro entry he
    rcases List.mem_cons.1 he with rfl | he
    · exact ⟨first, start ▸ places⟩
    · exact ih (by rw [start, List.drop_drop]) next entry he

/-! ## Attribute groups -/

/-- the groups in front of a heading end at a place from which only blanks lead to its signature; places are counted
from before the text -/
theorem leadingGroups_place {code : Text} {base offset stop groupsStop signatureStart : Nat} {t : Text}
    (h : leadingGroups offset stop t = .ok (groupsStop, signatureStart)) (rest : t = code.drop (offset - base))
    (low : base ≤ stop) (cut : CutAt code (stop - base))
    (gap : offset = stop + Text.leadingBlanks (code.drop (stop - base))) :
    base ≤ groupsStop ∧ CutAt code (groupsStop - base) ∧
      signatureStart = groupsStop + Text.leadingBlanks (code.drop (groupsStop - base)) := by
  fun_induction leadingGroups offset stop t with
  | case1 =>
    cases h
    exact ⟨low, cut, gap⟩
  | case2 => cases h
  | case3 offset stop cs i rest' gap' found ih =>
    have place : offset - base + i + 1 = offset + i + 1 - base := by omega
    have closed := closing?_head (by decide) rfl found
    rw [rest, List.drop_drop] at closed
    have after : rest' = code.drop (offset + i + 1 - base) := by
      rw [← place, Nat.add_assoc, ← List.drop_drop, ← rest]
      rfl
    have next : CutAt code (offset + i + 1 - base) := place ▸ CutAt.after closed (by decide)
    refine ih h ?_ (by omega) next ?_
    · rw [after, List.drop_drop]
      congr 1
      omega
    · rw [← after]
  | case4 =>
    cases h
    exact ⟨low, cut, gap⟩

/-! ## Headings -/

/-- structural characters from a place on, as many as the shortest keyword has -/
def KeywordAt (code : Text) (place : Nat) : Prop :=
  ∀ k < 4, ∃ c, (code.drop (place + k)).head? = some c ∧ structural c = true

theorem KeywordAt.cutAt {code : Text} {place : Nat} (h : KeywordAt code place) : CutAt code place := by
  obtain ⟨c, here, sharp⟩ := h 0 (by decide)
  exact CutAt.before here sharp

theorem KeywordAt.lt {code : Text} {place : Nat} (h : KeywordAt code place) : place < code.length := by
  obtain ⟨c, here, -⟩ := h 0 (by decide)
  rw [List.head?_drop, Nat.add_zero] at here
  exact (List.getElem?_eq_some_iff.1 here).1

theorem KeywordAt.inside {code : Text} {place : Nat} (h : KeywordAt code place) : place ≤ code.length :=
  Nat.le_of_lt h.lt

theorem declarationKeywords_first : ∀ entry ∈ declarationKeywords,
    ∃ word words, entry.1 = word :: words ∧ 4 ≤ word.length ∧ ∀ c ∈ word, structural c = true := by
  intro entry he
  simp only [declarationKeywords, List.mem_cons, List.not_mem_nil, or_false] at he
  rcases he with rfl | rfl | rfl | rfl | rfl | rfl | rfl
  all_goals exact ⟨_, _, rfl, by decide, List.all_eq_true.1 rfl⟩

/-- a declaration begins with its keyword -/
theorem declaration?_keywordAt {code : Text} {offset : Nat} {found : Option DeclarationKind × Text × Text}
    (h : declaration? (code.drop offset) = some found) : KeywordAt code offset := by
  obtain ⟨entry, member, he⟩ := List.exists_of_findSome?_eq_some h
  obtain ⟨after, hr, -⟩ := Option.bind_eq_some_iff.1 he
  obtain ⟨word, words, e, long, sharp⟩ := declarationKeywords_first entry member
  rw [e, List.foldlM_cons] at hr
  obtain ⟨rest, hk, -⟩ := Option.bind_eq_some_iff.1 hr
  obtain ⟨rest', hw, -⟩ := Option.bind_eq_some_iff.1 hk
  have whole := Lexeme.after?_append hw
  intro k hk
  have inside : k < word.length := Nat.lt_of_lt_of_le hk long
  refine ⟨word[k], ?_, sharp _ (List.getElem_mem inside)⟩
  rw [← List.drop_drop, ← whole, List.head?_drop, List.getElem?_append_left inside, List.getElem?_eq_getElem inside]

theorem keyword?_suffix {word t rest : Text} (h : keyword? word t = some rest) : rest <:+ t := by
  obtain ⟨after, hw, h⟩ := Option.bind_eq_some_iff.1 h
  split at h
  · cases h
    rw [← Lexeme.after?_append hw]
    exact (List.dropWhile_suffix blank).trans (List.suffix_append _ _)
  · cases h

theorem name?_suffix {t name rest : Text} (h : name? t = some (name, rest)) : rest <:+ t := by
  unfold name? at h
  split at h
  · cases h
    exact List.dropWhile_suffix wordChar
  · cases h

theorem declaration?_suffix {t name rest : Text} {kind : Option DeclarationKind}
    (h : declaration? t = some (kind, name, rest)) : rest <:+ t := by
  have words : ∀ (ws : List Text) (t rest : Text),
      ws.foldlM (fun rest word => keyword? word rest) t = some rest → rest <:+ t := by
    intro ws
    induction ws with
    | nil =>
      intro t rest h
      cases h
      exact List.suffix_rfl
    | cons w ws ih =>
      intro t rest h
      rw [List.foldlM_cons] at h
      obtain ⟨after, hk, h⟩ := Option.bind_eq_some_iff.1 h
      exact (ih _ _ h).trans (keyword?_suffix hk)
  obtain ⟨entry, -, he⟩ := List.exists_of_findSome?_eq_some h
  obtain ⟨after, hr, he⟩ := Option.bind_eq_some_iff.1 he
  obtain ⟨p, hp, he⟩ := Option.bind_eq_some_iff.1 he
  cases he
  exact (name?_suffix hp).trans (words _ _ _ hr)

theorem headingsFrom_keywordAt {code t : Text} {offset : Nat} {before : Option Char} (rest : t = code.drop offset) :
    ∀ heading ∈ headingsFrom offset before t, KeywordAt code heading.start := by
  fun_induction headingsFrom offset before t with
  | case1 => intro heading hh; cases hh
  | case2 offset before c cs kind name after found stop ih =>
    intro heading hh
    rcases List.mem_cons.1 hh with rfl | hh
    · simp only [dite_eq_ite] at found
      split at found
      · rw [rest] at found
        exact declaration?_keywordAt found
      · cases found
    · refine ih ?_ heading hh
      have suffix : after <:+ c :: cs := by
        simp only [dite_eq_ite] at found
        split at found
        · exact declaration?_suffix found
        · cases found
      rw [List.suffix_iff_eq_drop.1 suffix, ← List.drop_drop, ← rest]
  | case3 offset before c cs found ih =>
    intro heading hh
    refine ih ?_ heading hh
    rw [← List.drop_drop, ← rest]
    rfl

/-- Headings begin with a keyword. -/
theorem headings_keywordAt (code : Text) : ∀ heading ∈ headings code, KeywordAt code heading.start :=
  headingsFrom_keywordAt List.drop_zero.symm

theorem headings_start_le_stop {code : Text} {heading : Heading} (h : heading ∈ headings code) :
    heading.start ≤ heading.stop := by
  unfold headings at h
  generalize (0 : Nat) = offset at h
  generalize (none : Option Char) = before at h
  fun_induction headingsFrom offset before code with
  | case1 => cases h
  | case2 offset before c cs kind name after found stop ih =>
    rcases List.mem_cons.1 h with rfl | h
    · exact Nat.le_add_right ..
    · exact ih h
  | case3 offset before c cs found ih => exact ih h

/-- the text in front of a heading begins after a brace or semicolon, or with the document -/
theorem regionStart_cutAt {code : Text} {heading : Heading} (inside : heading.start ≤ code.length) :
    CutAt code (regionStart code heading) := by
  have split := Text.dropEnd_append_takeEnd (fun c => c != ';' && c != '\x7b' && c != '\x7d') (code.take heading.start)
  have stop : ∀ (p : Char → Bool) (t : Text), Text.dropEnd p t = [] ∨
      ∃ front c, Text.dropEnd p t = front ++ [c] ∧ p c = false := by
    intro p t
    unfold Text.dropEnd
    have head := List.head?_dropWhile_not p t.reverse
    cases e : t.reverse.dropWhile p with
    | nil => exact Or.inl rfl
    | cons c cs =>
      rw [e] at head
      exact Or.inr ⟨cs.reverse, c, List.reverse_cons, by simpa using head⟩
  unfold regionStart
  have total := congrArg List.length split
  rw [List.length_append, List.length_take, Nat.min_eq_left inside] at total
  rcases stop (fun c => c != ';' && c != '\x7b' && c != '\x7d') (code.take heading.start) with none | ⟨front, c, e, hc⟩
  · rw [none, List.length_nil, Nat.zero_add] at total
    rw [total, Nat.sub_self]
    exact CutAt.start
  · rw [e, List.append_assoc] at split
    rw [e, List.length_append, List.length_singleton] at total
    have place : heading.start - (Text.takeEnd (fun c => c != ';' && c != '\x7b' && c != '\x7d')
        (code.take heading.start)).length = front.length + 1 := by omega
    have here : (code.drop front.length).head? = some c := by
      rw [List.head?_drop, ← List.getElem?_take_of_lt (show front.length < heading.start by omega), ← split,
        List.getElem?_append_right (Nat.le_refl _), Nat.sub_self]
      rfl
    rw [place]
    refine CutAt.after here ?_
    simp only [Bool.and_eq_false_iff, bne_eq_false_iff_eq] at hc
    rcases hc with (rfl | rfl) | rfl <;> decide

/-! ## Tails of headings -/

/-- a heading ends at a brace or a semicolon -/
theorem headingTail_stop {document : Source} {name : Text} {offset : Nat} {tail : HeadingTail}
    (h : headingTail document name offset = .ok tail) :
    (document.code.drop tail.stop).head? = some '\x7b' ∨ (document.code.drop tail.stop).head? = some ';' := by
  have stops : ∀ code : Text, (code.takeWhile fun c => c != '\x7b' && c != ';').length < code.length →
      (code.drop (code.takeWhile fun c => c != '\x7b' && c != ';').length).head? = some '\x7b' ∨
        (code.drop (code.takeWhile fun c => c != '\x7b' && c != ';').length).head? = some ';' := by
    intro code
    induction code with
    | nil => intro short; cases short
    | cons c cs ih =>
      rw [List.takeWhile_cons]
      split
      · intro short
        exact ih (Nat.lt_of_succ_lt_succ short)
      · next stop =>
        intro _
        simp only [Bool.and_eq_true, bne_iff_ne, not_and_or, Decidable.not_not] at stop
        exact stop.imp (congrArg some) (congrArg some)
  unfold headingTail at h
  simp only [bind, Except.bind] at h
  split at h
  · cases h
  · split at h
    · cases h
    · next p _ =>
      split at h
      · cases h
      · next room =>
        cases h
        simp only [← List.drop_drop]
        apply stops
        rw [List.length_drop]
        omega

theorem bracketed_places {opener closer : Char} (distinct : opener ≠ closer) (sharp : structural opener = true)
    (sharp' : structural closer = true) {code : Text} {offset a b after : Nat}
    (h : bracketed opener closer code offset = .ok (some (a, b), after)) :
    CutAt code a ∧ CutAt code b ∧ a ≤ b := by
  unfold bracketed at h
  simp only at h
  split at h
  · next head =>
    split at h
    · cases h
    · next i found =>
      cases h
      have closed := closing?_head distinct head found
      rw [List.drop_drop] at closed
      refine ⟨CutAt.after head sharp, CutAt.before closed sharp', ?_⟩
      obtain ⟨t, e⟩ := List.head?_eq_some_iff.1 head
      rw [e] at found
      obtain ⟨inner, rest, -, rfl, -⟩ := (closing?_eq_some_iff distinct).1 found
      omega
  · cases h

end EndpointSurvey
