/-
A member and what stands next to it. The members up to one that has ended are read alike whatever follows; what follows
is read as a body of its own, and blank code in front of it only moves its members, and counts to the region that the
documentation of the first one is read off.

Main statements:
- `cutFrom_append` and `membersOf_append_left`: members in front of a place at which one ends;
- `membersOf_gap`: members behind blank code, and behind other blank code;
- `blockOf?_gap` and `blocksOf_gap`: a declaration with the blank code between two of its members changed.
-/
import EndpointSurvey.Proofs.Declaration.CutPlace
import EndpointSurvey.Proofs.Declaration.Joined
import EndpointSurvey.Proofs.Declaration.MemberPlace

namespace EndpointSurvey

/-! ## The end of a member -/

/-- A member that the body goes on behind ends with a brace or a semicolon. -/
theorem membersOf_last {offset : Nat} {body : Source} {m : MemberBlock} (hm : m ∈ membersOf offset body)
    (short : m.stop < offset + body.length) :
    ∃ c, (body.code.drop (m.stop - 1 - offset)).head? = some c ∧ (c = '\x7d' ∨ c = ';') := by
  obtain ⟨⟨p, cut⟩, he, read⟩ := List.mem_filterMap.1 hm
  obtain ⟨-, -, stop⟩ := memberOf?_place read
  obtain ⟨-, places⟩ := memberCutsFrom_cutAt body.code List.drop_zero.symm CutAt.start _ he
  obtain ⟨-, heading, room⟩ := memberCutsFrom_bounds _ _ _ he
  dsimp only at stop places heading
  have width : (body.code.drop p).length = body.length - p := List.length_drop ..
  obtain ⟨c, here, last⟩ := places.last (by omega)
  have place : m.stop - 1 - offset = p + (cut.stop - 1) := by omega
  rw [List.drop_drop] at here
  exact ⟨c, by rw [place, here], last⟩

/-! ## Members in front of a seam -/

/-- A cut that ends in front of a text does not depend on the text. -/
theorem cutFrom_append {offset brackets parens : Nat} {arrow : Option Nat} {s u : Text} {cut : MemberCut}
    (h : cutFrom offset brackets parens arrow (s ++ u) = some cut) (inside : cut.stop ≤ offset + s.length)
    (more : u ≠ []) (u' : Text) : cutFrom offset brackets parens arrow (s ++ u') = some cut := by
  apply CutPath.reached
  replace h := cutFrom_path h
  generalize whole : s ++ u = t at h
  -- the text in front has the first character, for the cut ends behind it
  have first : ∀ {offset : Nat} {c : Char} {s cs : Text}, s ++ u = c :: cs → offset < cut.stop →
      cut.stop ≤ offset + s.length → ∃ s', s = c :: s' ∧ cs = s' ++ u ∧ cut.stop ≤ offset + 1 + s'.length := by
    intro offset c s cs whole low inside
    obtain ⟨rfl, -⟩ | ⟨s', rfl, rfl⟩ := List.append_eq_cons_iff.1 whole
    · exact absurd inside (Nat.not_le.2 low)
    · rw [List.length_cons] at inside
      exact ⟨s', rfl, rfl, by omega⟩
  have closes : ∀ {i : Nat} {s : Text}, i ≤ s.length → closing? '\x7b' '\x7d' ('\x7b' :: (s ++ u)) = some i →
      closing? '\x7b' '\x7d' ('\x7b' :: (s ++ u')) = some i :=
    fun {i s} low found => closing?_append (closing?_front (s := '\x7b' :: s) found (Nat.lt_succ_of_le low)) u'
  induction h generalizing s with
  | passed brace semicolon step next ih =>
    have low := next.bounds.1
    obtain ⟨s, rfl, rfl, inside⟩ := first whole (by omega) inside
    have more : s ≠ [] := by rintro rfl; exact absurd inside (Nat.not_le.2 low)
    have head : ∀ u : Text, (s ++ u).head? = s.head? := fun u => List.head?_append_of_ne_nil _ more
    rw [List.cons_append]
    exact .passed brace semicolon (fun cs' same => step cs' (by rw [same, head, head])) (ih inside rfl)
  | arrow next ih =>
    have low := next.bounds.1
    obtain ⟨s, rfl, tail, inside⟩ := first whole (by omega) inside
    obtain ⟨s, rfl, rfl, inside⟩ := first tail.symm (by omega) inside
    exact .arrow (ih inside rfl)
  | @group offset _ _ _ i _ found next ih =>
    have low := next.bounds.1
    obtain ⟨s, rfl, rfl, inside⟩ := first whole (by omega) inside
    have within : i ≤ s.length := by omega
    rw [List.cons_append]
    refine .group (closes within found) ?_
    rw [List.drop_append_of_le_length within] at ih ⊢
    exact ih (by rw [List.length_drop]; omega) rfl
  | @block offset brackets parens cs made =>
    obtain ⟨s, rfl, rfl, -⟩ := first whole (by subst made; exact Nat.lt_succ_of_le (Nat.le_add_right ..)) inside
    cases found : closing? '\x7b' '\x7d' ('\x7b' :: (s ++ u)) with
    | none =>
      -- a block that does not close reaches over the text behind
      have filled := List.length_pos_iff.2 more
      subst made
      simp only [found, Option.getD_none, List.length_append, List.length_cons] at inside
      omega
    | some i =>
      rw [found] at made
      have within : i ≤ s.length := by
        subst made
        simp only [Option.getD_some, List.length_cons] at inside
        omega
      rw [List.cons_append]
      exact .block (by rw [closes within found]; exact made)
  | semicolon made =>
    obtain ⟨s, rfl, rfl, -⟩ := first whole (by subst made; exact Nat.lt_succ_self _) inside
    exact .semicolon made

/-- A member in front of a place is read alike whatever stands behind the place. -/
theorem memberOf?_append_left {cut : MemberCut} {s : Source} (heading : cut.headingStop < cut.stop)
    (inside : cut.stop ≤ s.length) (offset : Nat) (t : Source) : memberOf? offset (s ++ t) cut = memberOf? offset s cut := by
  unfold memberOf?
  rw [Source.take_append_left (by omega)]
  simp only [Source.slice_append_left inside]

/-- One member is read off the front of a body, whatever stands behind it. -/
theorem membersOf_front {s t : Source} {cut : MemberCut} (found : nextCut? (s ++ t).code = some cut)
    (inside : cut.stop ≤ s.length) (more : t.code ≠ []) (offset : Nat) (t' : Source) : membersOf offset (s ++ t') =
      (memberOf? offset s cut).toList ++ membersOf (offset + cut.stop) (s.drop cut.stop ++ t') := by
  have again : nextCut? (s ++ t').code = some cut :=
    cutFrom_append found (by rw [Nat.zero_add]; exact inside) more _
  rw [membersOf_some again, memberOf?_append_left (cutFrom_headingStop_lt found (by simp)) inside,
    Source.drop_append_left inside]

/-- **Members up to one that has ended** are read alike whatever follows, and what follows is read on its own. -/
theorem membersOf_append_left {offset : Nat} {s t : Source} {front rest : List MemberBlock} {m : MemberBlock}
    (h : membersOf offset (s ++ t) = front ++ m :: rest) (ends : m.stop = offset + s.length) (more : t.code ≠ [])
    (t' : Source) : membersOf offset (s ++ t') = front ++ m :: membersOf (offset + s.length) t' := by
  induction size : s.length using Nat.strong_induction_on generalizing offset s front with
  | _ size ih =>
    subst size
    have mem : m ∈ membersOf offset (s ++ t) := by rw [h]; simp
    cases found : nextCut? (s ++ t).code with
    | none =>
      rw [membersOf_none found] at mem
      cases mem
    | some cut =>
      have low := (cutFrom_bounds found).1
      have inside : cut.stop ≤ s.length := by
        rw [membersOf_some found, List.mem_append, Option.mem_toList] at mem
        rcases mem with first | later
        · have := (memberOf?_place first).2.2
          omega
        · have := membersOf_bounds m later
          omega
      rw [membersOf_front found inside more] at h ⊢
      have width : (s.drop cut.stop).length = s.length - cut.stop := Source.length_drop ..
      have place : offset + cut.stop + (s.drop cut.stop).length = offset + s.length := by omega
      have later : ∀ {front' : List MemberBlock},
          membersOf (offset + cut.stop) (s.drop cut.stop ++ t) = front' ++ m :: rest →
          membersOf (offset + cut.stop) (s.drop cut.stop ++ t') = front' ++ m :: membersOf (offset + s.length) t' :=
        fun tail => place ▸ ih _ (by omega) tail (ends.trans place.symm) rfl
      cases read : memberOf? offset s cut with
      | none =>
        rw [read] at h
        exact later h
      | some first =>
        rw [read] at h
        cases front with
        | cons k front =>
          obtain ⟨rfl, tail⟩ := List.cons.inj h
          exact congrArg (first :: ·) (later tail)
        | nil =>
          obtain ⟨rfl, -⟩ := List.cons.inj h
          have stop := (memberOf?_place read).2.2
          have whole : cut.stop = s.length := by omega
          have behind : s.drop cut.stop ++ t' = t' := by
            rw [← Source.drop_append_left inside, whole]
            exact Source.drop_append s t' 0
          rw [behind, whole]
          rfl

/-! ## Blank code in front -/

/-- the cut with its places counted from a place `k` further in front -/
def MemberCut.shift (k : Nat) (cut : MemberCut) : MemberCut :=
  { cut with headingStop := k + cut.headingStop, stop := k + cut.stop, blockStart := cut.blockStart.map (k + ·) }

theorem cutFrom_shift (k offset brackets parens : Nat) (arrow : Option Nat) (t : Text) :
    cutFrom (k + offset) brackets parens (arrow.map (k + ·)) t =
      (cutFrom offset brackets parens arrow t).map (MemberCut.shift k) := by
  induction size : t.length using Nat.strong_induction_on generalizing offset brackets parens arrow t with
  | _ size ih =>
    cases t with
    | nil => rw [cutFrom, cutFrom]; rfl
    | cons c cs =>
      rw [List.length_cons] at size
      have later : ∀ (n offset brackets parens : Nat) (arrow : Option Nat),
          cutFrom (k + offset) brackets parens (arrow.map (k + ·)) (cs.drop n) =
            (cutFrom offset brackets parens arrow (cs.drop n)).map (MemberCut.shift k) :=
        fun n offset brackets parens arrow => ih _ (by rw [List.length_drop]; omega) _ _ _ _ _ rfl
      have next := later 0
      simp only [List.drop_zero] at next
      have first := fun n offset brackets parens a => later n offset brackets parens (some a)
      simp only [Option.map_some] at first
      rw [cutFrom.eq_def, cutFrom.eq_def offset]
      simp only [Option.map_eq_none_iff, Nat.add_assoc, next, first]
      cases arrow with
      | none =>
        simp only [Option.map_none, apply_ite (Option.map (MemberCut.shift k))]
        rfl
      | some a =>
        simp only [Option.map_some]
        cases closing? '\x7b' '\x7d' (c :: cs) with
        | none => simp only [apply_ite (Option.map (MemberCut.shift k))]; rfl
        | some i => simp only [first, apply_ite (Option.map (MemberCut.shift k))]; rfl

theorem cutFrom_blanks {g : Text} (blanks : ∀ c ∈ g, blank c = true) (offset brackets parens : Nat)
    (arrow : Option Nat) (t : Text) :
    cutFrom offset brackets parens arrow (g ++ t) = cutFrom (offset + g.length) brackets parens arrow t := by
  induction g generalizing offset with
  | nil => rfl
  | cons c cs ih =>
    obtain ⟨space, others⟩ := List.forall_mem_cons.1 blanks
    have other {d : Char} : blank d = false → c ≠ d := ne_of_test space
    rw [List.cons_append, cutFrom.eq_def]
    simp only [other (d := '[') (by decide), other (d := ']') (by decide), other (d := '(') (by decide),
      other (d := ')') (by decide), other (d := '=') (by decide), other (d := '\x7b') (by decide),
      other (d := ';') (by decide), if_false, false_and]
    rw [ih others, List.length_cons, Nat.add_assoc, Nat.add_comm 1]

/-- Blanks in front move the first cut of a body. -/
theorem nextCut?_blanks {g : Text} (blanks : ∀ c ∈ g, blank c = true) (t : Text) :
    nextCut? (g ++ t) = (nextCut? t).map (MemberCut.shift g.length) := by
  rw [nextCut?, cutFrom_blanks blanks, nextCut?, ← cutFrom_shift, Nat.zero_add]
  rfl

theorem leadingGroups_shift (k offset stop : Nat) (t : Text) :
    leadingGroups (k + offset) (k + stop) t =
      ((leadingGroups offset stop t).map fun (a, b) => (k + a, k + b)).mapError (k + ·) := by
  fun_induction leadingGroups offset stop t with
  | case1 => rw [leadingGroups]; rfl
  | case2 offset stop cs open_ =>
    rw [leadingGroups, if_pos rfl, open_]
    rfl
  | case3 offset stop cs i rest gap found ih =>
    rw [leadingGroups, if_pos rfl, found, ← ih]
    simp only [Nat.add_assoc]
    rfl
  | case4 offset stop c cs other =>
    rw [leadingGroups, if_neg other]
    rfl

/-- the text that the documentation of a member is read off: what stands in front of the member, and the comment lines
between its attributes and its signature -/
def memberRegion (body : Source) (cut : MemberCut) : Text :=
  let heading := body.take cut.headingStop
  let lead := Text.leadingBlanks heading.code
  let signatureStart := match leadingGroups lead lead (heading.code.drop lead) with
    | .error place => place
    | .ok (_, start) => start
  (heading.take lead).raw ++ commentLines (heading.slice lead signatureStart).raw

/-- the region of the first member of a body, if the first cut of the body makes one -/
def firstRegion? (body : Source) : Option Text :=
  (nextCut? body.code).bind fun cut => (memberOf? 0 body cut).map fun _ => memberRegion body cut

theorem firstRegion?_eq {body : Source} {cut : MemberCut} (found : nextCut? body.code = some cut) (offset : Nat) :
    firstRegion? body = (memberOf? offset body cut).map fun _ => memberRegion body cut := by
  have moved := memberOf?_shift offset 0 body cut
  rw [Nat.add_zero] at moved
  rw [firstRegion?, found, Option.bind_some, moved, Option.map_map]
  rfl

section
variable {g s : Source} (blanks : ∀ c ∈ g.code, blank c = true)
include blanks

/-- **A member behind blank code** is the same member further on, and the text of the gap counts to what its documentation
is read off. -/
theorem memberOf?_blanks (offset : Nat) (cut : MemberCut) :
    memberOf? offset (g ++ s) (cut.shift g.length) = (memberOf? (offset + g.length) s cut).map fun m =>
      { m with doc := docComment? (g.raw ++ memberRegion s cut) } := by
  have taken : (g ++ s).take (cut.shift g.length).headingStop = g ++ s.take cut.headingStop := Source.take_append ..
  have lead : Text.leadingBlanks (g ++ s.take cut.headingStop).code =
      g.length + Text.leadingBlanks (s.take cut.headingStop).code := Text.leadingBlanks_append_of_all blanks _
  have size : (g ++ s.take cut.headingStop).length = g.length + (s.take cut.headingStop).length :=
    List.length_append
  unfold memberOf? memberRegion
  dsimp only
  rw [taken, lead, Source.code_drop_append, size, leadingGroups_shift]
  simp only [Nat.add_right_inj, MemberCut.shift]
  split
  · rfl
  · cases leadingGroups _ _ _ with
    | error place => rfl
    | ok ends =>
      simp only [Except.map, Except.mapError, Option.map_some, Source.slice_append_right, Source.drop_append,
        Source.take_append, Source.raw_append, List.append_assoc, Nat.add_assoc]
      cases cut.blockStart with
      | none => rfl
      | some start => simp only [Option.map_some, Source.slice_append_right]

/-- The members behind blank code: the first of them counts the gap to its documentation, and the others stand further
on. -/
theorem membersOf_blanks {cut : MemberCut} (found : nextCut? s.code = some cut) (offset : Nat) :
    membersOf offset (g ++ s) = ((memberOf? (offset + g.length) s cut).map fun m =>
        { m with doc := docComment? (g.raw ++ memberRegion s cut) }).toList ++
      membersOf (offset + g.length + cut.stop) (s.drop cut.stop) := by
  have moved : nextCut? (g ++ s).code = some (cut.shift g.length) := by
    rw [Source.code_append, nextCut?_blanks blanks, found]
    rfl
  have stop : (cut.shift g.length).stop = g.length + cut.stop := rfl
  rw [membersOf_some moved, memberOf?_blanks blanks, stop, Source.drop_append, Nat.add_assoc]

theorem membersOf_blanks_none (none : nextCut? s.code = none) (offset : Nat) : membersOf offset (g ++ s) = [] := by
  apply membersOf_none
  rw [Source.code_append, nextCut?_blanks blanks, none]
  rfl

end

/-- **Members behind a gap.** With one stretch of blank code in place of another, the first member behind it is the same
further on, its documentation apart, and so are the members that follow it. -/
theorem membersOf_gap {g g' s : Source} (blanks : ∀ c ∈ g.code, blank c = true)
    (blanks' : ∀ c ∈ g'.code, blank c = true) {k : Nat} (size : g'.length = k + g.length) {offset : Nat}
    {n : MemberBlock} {back : List MemberBlock} (h : membersOf offset (g ++ s) = n :: back) :
    (∀ region ∈ firstRegion? s, n.doc = docComment? (g.raw ++ region)) ∧
      membersOf offset (g' ++ s) = { n.shift k with
        doc := ((firstRegion? s).map fun region => docComment? (g'.raw ++ region)).getD n.doc } ::
          back.map (MemberBlock.shift k) := by
  cases found : nextCut? s.code with
  | none =>
    rw [membersOf_blanks_none blanks found] at h
    cases h
  | some cut =>
    have place : offset + g'.length = k + (offset + g.length) := by omega
    have place' : k + (offset + g.length) + cut.stop = k + (offset + g.length + cut.stop) := Nat.add_assoc ..
    have regions := firstRegion?_eq found (offset + g.length)
    rw [membersOf_blanks blanks found] at h
    rw [membersOf_blanks blanks' found, place, memberOf?_shift, place', membersOf_shift, regions]
    cases read : memberOf? (offset + g.length) s cut with
    | none =>
      rw [read] at h
      have rest : membersOf (offset + g.length + cut.stop) (s.drop cut.stop) = n :: back := h
      rw [rest]
      exact ⟨fun region absent => (by cases absent), rfl⟩
    | some m =>
      rw [read] at h
      obtain ⟨rfl, rest⟩ := List.cons.inj h
      rw [← rest]
      refine ⟨fun region given => ?_, rfl⟩
      cases given
      rfl

/-- Members around a gap: those in front of it stay as they are. -/
theorem membersOf_around {a g g' s : Source} (blanks : ∀ c ∈ g.code, blank c = true)
    (blanks' : ∀ c ∈ g'.code, blank c = true) {k : Nat} (size : g'.length = k + g.length) {offset : Nat} {m n : MemberBlock}
    {front back : List MemberBlock} (members : membersOf offset (a ++ (g ++ s)) = front ++ m :: n :: back)
    (ends : m.stop = offset + a.length) :
    (∀ region ∈ firstRegion? s, n.doc = docComment? (g.raw ++ region)) ∧
      membersOf offset (a ++ (g' ++ s)) = front ++ m :: { n.shift k with
        doc := ((firstRegion? s).map fun region => docComment? (g'.raw ++ region)).getD n.doc } ::
          back.map (MemberBlock.shift k) := by
  have more : (g ++ s).code ≠ [] := by
    intro none
    have bounds := membersOf_bounds n (by rw [members]; simp)
    have order := membersOf_next members
    rw [Source.length, Source.code_append, none, List.append_nil, Source.code_length] at bounds
    omega
  have step := membersOf_append_left members ends more
  have behind : membersOf (offset + a.length) (g ++ s) = n :: back := by
    have whole := step (g ++ s)
    rw [members] at whole
    exact (List.cons.inj (List.append_cancel_left whole)).2.symm
  obtain ⟨docs, others⟩ := membersOf_gap blanks blanks' size behind
  exact ⟨docs, by rw [step, others]⟩

/-! ## Declarations around a gap -/

/-- The bracket that closes behind a stretch without brackets closes behind any other such stretch in its place. -/
theorem closing?_gap {opener closer : Char} (distinct : opener ≠ closer) {a g t : Text}
    (free : ∀ c ∈ g, c ≠ opener ∧ c ≠ closer) {i : Nat} (h : closing? opener closer (opener :: (a ++ (g ++ t))) = some i)
    (behind : a.length < i) : ∃ v rest, t = v ++ closer :: rest ∧ i = a.length + (g.length + v.length) + 1 ∧
      ∀ g' : Text, (∀ c ∈ g', c ≠ opener ∧ c ≠ closer) →
        closing? opener closer (opener :: (a ++ (g' ++ t))) = some (a.length + (g'.length + v.length) + 1) := by
  obtain ⟨inner, rest, whole, rfl, pairs⟩ := (closing?_eq_some_iff distinct).1 h
  obtain ⟨v, rfl, rfl⟩ : ∃ v, inner = a ++ (g ++ v) ∧ t = v ++ closer :: rest := by
    obtain ⟨u, rfl, later⟩ : ∃ u, inner = a ++ u ∧ g ++ t = u ++ closer :: rest := by
      obtain ⟨u, front⟩ := List.prefix_of_prefix_length_le (List.prefix_append a (g ++ t))
        (whole ▸ List.prefix_append inner (closer :: rest)) (Nat.le_of_lt_succ behind)
      rw [← front, List.append_assoc] at whole
      exact ⟨u, front.symm, List.append_cancel_left whole⟩
    rcases List.append_eq_append_iff.1 later with ⟨v, rfl, tail⟩ | ⟨v, rfl, tail⟩
    · exact ⟨v, rfl, tail⟩
    · cases v with
      | nil => exact ⟨[], by simp, tail.symm⟩
      | cons d ds =>
        obtain ⟨rfl, -⟩ := List.cons.inj tail
        exact absurd rfl (free closer (by simp)).2
  refine ⟨v, rest, rfl, by simp only [List.length_append], fun g' free' => ?_⟩
  have passed : ∀ {g : Text}, (∀ c ∈ g, c ≠ opener ∧ c ≠ closer) →
      nesting opener closer 0 (a ++ (g ++ v)) = nesting opener closer 0 (a ++ v) := by
    intro g free
    simp only [nesting_append, nesting_of_free free, Option.bind_some]
  refine (closing?_eq_some_iff distinct).2 ⟨a ++ (g' ++ v), rest, by simp only [List.append_assoc], ?_, ?_⟩
  · simp only [List.length_append]
  · rw [passed free', ← passed free, pairs]

/-- A character at a place of the front stands in the front. -/
theorem code_drop_front {p x : Source} {place : Nat} {c : Char} (here : ((p ++ x).code.drop place).head? = some c)
    (before : place < p.length) : ∃ after, p.code.drop place = c :: after := by
  rw [Source.code_append, List.drop_append_of_le_length (Nat.le_of_lt before),
    List.head?_append_of_ne_nil _ (List.drop_eq_nil_iff.not.2 (Nat.not_le.2 before))] at here
  exact List.head?_eq_some_iff.1 here

section
variable {p g g' t : Source} (blanks : ∀ c ∈ g.code, blank c = true) (blanks' : ∀ c ∈ g'.code, blank c = true)
include blanks

/-- The body between a brace in front of a gap and the one that closes it behind the gap, with any gap of blank code. -/
theorem body_gap {brace i : Nat} (opens : ((p ++ (g ++ t)).code.drop brace).head? = some '\x7b')
    (closes : closing? '\x7b' '\x7d' ((p ++ (g ++ t)).code.drop brace) = some i) (before : brace < p.length)
    (behind : p.length ≤ brace + i) : ∃ n, i = (p.drop (brace + 1)).length + (g.length + n) + 1 ∧
      ∀ g' : Source, (∀ c ∈ g'.code, blank c = true) →
        ((p ++ (g' ++ t)).code.drop brace).head? = some '\x7b' ∧
        closing? '\x7b' '\x7d' ((p ++ (g' ++ t)).code.drop brace) =
          some ((p.drop (brace + 1)).length + (g'.length + n) + 1) ∧
        ((p ++ (g' ++ t)).drop brace).slice 1 ((p.drop (brace + 1)).length + (g'.length + n) + 1) =
          p.drop (brace + 1) ++ (g' ++ t.take n) := by
  have width : (p.drop (brace + 1)).length = p.length - (brace + 1) := Source.length_drop ..
  obtain ⟨after, here⟩ := code_drop_front opens before
  have code : ∀ x : Source, (p ++ x).code.drop brace = '\x7b' :: ((p.drop (brace + 1)).code ++ x.code) := by
    intro x
    rw [Source.code_append, List.drop_append_of_le_length (Nat.le_of_lt before), Source.code_drop, ← List.drop_drop, here]
    rfl
  have free (g : Source) (blanks : ∀ c ∈ g.code, blank c = true) : ∀ c ∈ g.code, c ≠ '\x7b' ∧ c ≠ '\x7d' :=
    fun c hc => ⟨ne_of_test (blanks c hc) (by decide), ne_of_test (blanks c hc) (by decide)⟩
  rw [code] at closes
  obtain ⟨v, rest, -, size, closing⟩ :=
    closing?_gap (by decide) (free g blanks) closes (show (p.drop (brace + 1)).length < i by omega)
  refine ⟨v.length, size, fun g' blanks' => ⟨?_, ?_, ?_⟩⟩
  · rw [code]
    rfl
  · rw [code]
    exact closing _ (free g' blanks')
  · rw [Source.slice, Source.drop_drop, Source.drop_append_left before, Nat.add_sub_cancel, Source.take_append,
      Source.take_append]

include blanks'

/-- **A declaration around a gap.** With one stretch of blank code in place of another between two of its members, a
declaration has the same members, those behind the gap further on, and the first of them with the documentation of
another region. -/
theorem blockOf?_gap {k : Nat} (size : g'.length = k + g.length) {spans : List NamespaceSpan} {heading : Heading}
    {kind : DeclarationKind} {b : TypeBlock} (h : blockOf? (p ++ (g ++ t)) spans heading kind = some b)
    (first : heading.start ≤ heading.stop) {front back : List MemberBlock} {m n : MemberBlock}
    (members : b.members = front ++ m :: n :: back) (ends : m.stop = p.length) (spans' : List NamespaceSpan) :
    ∃ s b', (p ++ (g ++ t)).slice p.length (b.stop - 1) = g ++ s ∧
      (∀ region ∈ firstRegion? s, n.doc = docComment? (g.raw ++ region)) ∧
      (∃ before after, p.code = before ++ '\x7b' :: after ∧ heading.start ≤ before.length) ∧
      blockOf? (p ++ (g' ++ t)) spans' heading kind = some b' ∧ b'.kind = b.kind ∧ b'.name = b.name ∧
      b'.start = b.start ∧
      b'.members = front ++ m :: { n.shift k with
        doc := ((firstRegion? s).map fun region => docComment? (g'.raw ++ region)).getD n.doc } ::
          back.map (MemberBlock.shift k) := by
  obtain ⟨tail, read, ⟨i, opens, closes, rfl⟩ | ⟨-, rfl⟩⟩ := blockOf?_cases h
  · have structured : (blockShell (p ++ (g ++ t)) spans heading kind tail).kind ≠ .enumType := by
      intro enumeration
      rw [TypeBlock.withBody, if_pos enumeration] at members
      exact absurd members.symm (by simp)
    have listed := (TypeBlock.members_withBody structured _ _ _).symm.trans members
    have bounds := membersOf_bounds m (by rw [listed]; simp)
    have short : (((p ++ (g ++ t)).drop tail.stop).slice 1 i).length ≤ i - 1 := List.length_take_le ..
    have before : tail.stop < p.length := by omega
    have order := Nat.le_trans first (headingTail_stop_ge read)
    have inside : heading.start ≤ p.length := by omega
    obtain ⟨z, rfl, bodies⟩ := body_gap blanks opens closes before (by omega)
    have width : (p.drop (tail.stop + 1)).length = p.length - (tail.stop + 1) := Source.length_drop ..
    obtain ⟨-, -, body⟩ := bodies g blanks
    obtain ⟨opens', closes', body'⟩ := bodies g' blanks'
    rw [body] at listed
    obtain ⟨docs, others⟩ := membersOf_around blanks blanks' size listed (by omega)
    have again : headingTail (p ++ (g' ++ t)) heading.name heading.stop = .ok tail :=
      (headingTail_append_left (headingTail_front read before) _).1
    refine ⟨t.take z, _, ?_, docs, ?_, blockOf?_withBody again opens' closes', rfl, rfl, ?_, ?_⟩
    · have stop : tail.stop + ((p.drop (tail.stop + 1)).length + (g.length + z) + 1) + 1 - 1 =
          p.length + (g.length + z) := by omega
      have whole := Source.slice_append_right p (g ++ t) 0 (g.length + z)
      rw [Nat.add_zero] at whole
      rw [TypeBlock.withBody, stop, whole, Source.slice, Source.drop_zero, Nat.sub_zero, Source.take_append]
    · obtain ⟨after, here⟩ := code_drop_front opens before
      refine ⟨p.code.take tail.stop, after, by rw [← here, List.take_append_drop], ?_⟩
      rw [List.length_take_of_le (Nat.le_of_lt before)]
      exact order
    · show (blockShell _ spans' heading kind tail).start = (blockShell _ spans heading kind tail).start
      rw [blockShell_append_left inside, blockShell_append_left inside]
      rfl
    · rw [← others, ← body']
      exact TypeBlock.members_withBody structured ..
  · exact absurd members.symm (by simp [blockShell])

/-- **Declarations around a gap**: the document with another stretch of blank code between two members of a declaration
declares it at the same place. -/
theorem blocksOf_gap {k : Nat} (size : g'.length = k + g.length) {text text' : Text}
    (parts : Source.ofText text = p ++ (g ++ t)) (parts' : Source.ofText text' = p ++ (g' ++ t)) {b : TypeBlock}
    (hb : b ∈ blocksOf text) {front back : List MemberBlock} {m n : MemberBlock}
    (members : b.members = front ++ m :: n :: back) (ends : m.stop = p.length) :
    ∃ s, (Source.ofText text).slice p.length (b.stop - 1) = g ++ s ∧
      (∀ region ∈ firstRegion? s, n.doc = docComment? (g.raw ++ region)) ∧
      ∃ b' ∈ blocksOf text', b'.kind = b.kind ∧ b'.name = b.name ∧ b'.start = b.start ∧
        b'.members = front ++ m :: { n.shift k with
          doc := ((firstRegion? s).map fun region => docComment? (g'.raw ++ region)).getD n.doc } ::
            back.map (MemberBlock.shift k) := by
  obtain ⟨heading, mem, found⟩ := List.mem_filterMap.1 hb
  obtain ⟨kind, declared, made⟩ := Option.bind_eq_some_iff.1 found
  have order := headings_start_le_stop mem
  rw [parts] at mem declared made
  obtain ⟨s, b', rest, docs, ⟨before, after, code, inside⟩, made', same⟩ :=
    blockOf?_gap blanks blanks' size made order members ends (namespaces (p ++ (g' ++ t)).code)
  refine ⟨s, by rw [parts, rest], docs, b', List.mem_filterMap.2 ⟨heading, ?_, ?_⟩, same⟩
  · rw [parts']
    rw [Source.code_append, code, List.append_assoc] at mem ⊢
    exact headings_front (by constructor <;> decide) mem inside _
  · have within : heading.start ≤ p.length := by
      have := congrArg List.length code
      rw [List.length_append, Source.code_length] at this
      omega
    rw [declaredKind?_append_left within] at declared
    rw [parts', declaredKind?_append_left within, declared, Option.bind_some, made']

end

end EndpointSurvey
