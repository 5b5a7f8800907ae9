/-
Where the members of a body stand: each starts after the one before it has ended, and right inside the braces of the
body, inside no braces of its own.

Main statements: `cutFrom_pairs` (a cut takes a stretch with paired braces), `membersOf_place` (each member starts at
the level of its body) and `membersOf_sorted` (the members start one after another).
-/
import EndpointSurvey.Proofs.Declaration.Values
import EndpointSurvey.Proofs.Source.Nesting
import Mathlib.Data.List.TakeWhile

namespace EndpointSurvey

theorem bracesPair_append_left {s t : Text} (hs : bracesPair s) (h : bracesPair (s ++ t)) : bracesPair t := by
  unfold bracesPair at *
  rwa [nesting_append, hs, Option.bind_some] at h

theorem bracesPair_append {s t : Text} (hs : bracesPair s) (ht : bracesPair t) : bracesPair (s ++ t) :=
  Paired.append hs ht

/-- the group of braces that a text starts with, and what follows it -/
theorem bracesPair_group {t : Text} {i : Nat} (h : closing? '\x7b' '\x7d' ('\x7b' :: t) = some i) :
    bracesPair ('\x7b' :: t.take i) := by
  obtain ⟨inner, rest, rfl, rfl, hn⟩ := (closing?_eq_some_iff (by decide)).1 h
  have cut : (inner ++ '\x7d' :: rest).take (inner.length + 1) = inner ++ ['\x7d'] := by
    rw [List.append_cons, List.take_left' (by simp)]
  rw [cut]
  exact Paired.group (by decide) hn

theorem bracesPair_cons {c : Char} (ho : c ≠ '\x7b') (hc : c ≠ '\x7d') {t : Text} :
    bracesPair (c :: t) ↔ bracesPair t := by
  unfold bracesPair
  rw [nesting_other ho hc]

/-- A cut takes a stretch with paired braces off a text with paired braces. -/
theorem cutFrom_pairs {offset brackets parens : Nat} {arrow : Option Nat} {t : Text} {cut : MemberCut}
    (h : cutFrom offset brackets parens arrow t = some cut) (pairs : bracesPair t) :
    ∃ taken rest, t = taken ++ rest ∧ cut.stop = offset + taken.length ∧ bracesPair taken := by
  have step : ∀ {offset : Nat} {c : Char} {cs : Text}, c ≠ '\x7b' → c ≠ '\x7d' →
      (∃ taken rest, cs = taken ++ rest ∧ cut.stop = offset + 1 + taken.length ∧ bracesPair taken) →
      ∃ taken rest, c :: cs = taken ++ rest ∧ cut.stop = offset + taken.length ∧ bracesPair taken := by
    rintro offset c cs ho hc ⟨taken, rest, rfl, hs, hp⟩
    exact ⟨c :: taken, rest, rfl, by rw [hs, List.length_cons]; omega, (bracesPair_cons ho hc).2 hp⟩
  replace h := cutFrom_path h
  induction h with
  | @passed _ _ _ _ _ _ c _ brace _ _ _ ih =>
    have closer : c ≠ '\x7d' := by
      rintro rfl
      unfold bracesPair at pairs
      rw [nesting_closer_zero (by decide)] at pairs
      cases pairs
    exact step brace closer (ih ((bracesPair_cons brace closer).1 pairs))
  | arrow _ ih =>
    rw [bracesPair_cons (by decide) (by decide), bracesPair_cons (by decide) (by decide)] at pairs
    exact step (by decide) (by decide) (step (by decide) (by decide) (ih pairs))
  | @group offset brackets parens a i cs found _ ih =>
    -- a group of braces inside the expression after an arrow
    have group := bracesPair_group found
    have whole : '\x7b' :: cs = ('\x7b' :: cs.take i) ++ cs.drop i := by
      rw [List.cons_append, List.take_append_drop]
    rw [whole] at pairs ⊢
    obtain ⟨taken, rest, ht, hs, hp⟩ := ih (bracesPair_append_left group pairs)
    refine ⟨('\x7b' :: cs.take i) ++ taken, rest, by rw [ht, List.append_assoc], ?_, bracesPair_append group hp⟩
    have := closing?_lt found
    simp only [List.length_cons] at this
    rw [hs, List.length_append, List.length_cons, List.length_take]
    omega
  | @block offset brackets parens cs made =>
    obtain ⟨i, found⟩ := exists_closing (by decide) pairs
    subst made
    rw [found, Option.getD_some]
    have := closing?_lt found
    simp only [List.length_cons] at this
    refine ⟨'\x7b' :: cs.take i, cs.drop i, by rw [List.cons_append, List.take_append_drop], ?_, bracesPair_group found⟩
    simp only [List.length_cons, List.length_take]
    omega
  | @semicolon _ _ _ _ cs made =>
    subst made
    exact ⟨[';'], cs, rfl, rfl, by decide⟩

theorem cutFrom_headingStop_lt {offset brackets parens : Nat} {arrow : Option Nat} {t : Text} {cut : MemberCut}
    (h : cutFrom offset brackets parens arrow t = some cut) (before : ∀ a ∈ arrow, a < offset) :
    cut.headingStop < cut.stop := by
  replace h := cutFrom_path h
  induction h with
  | passed _ _ _ _ ih => exact ih fun a ha => Nat.lt_succ_of_lt (before a ha)
  | @arrow offset cs _ ih =>
    apply ih
    rintro _ ⟨⟩
    exact Nat.lt_add_of_pos_right (by decide)
  | group _ _ ih => exact ih fun b hb => Nat.lt_of_lt_of_le (before b hb) (by omega)
  | block made =>
    subst made
    exact Nat.lt_succ_of_le (Nat.le_add_right ..)
  | @semicolon _ _ _ arrow _ made =>
    subst made
    cases arrow with
    | none => exact Nat.lt_succ_self _
    | some a => exact Nat.lt_succ_of_lt (before a rfl)

/-! ## The places of members -/

/-- the cuts of a body: each is the next one after a stretch of the body whose braces pair up -/
theorem memberCutsFrom_place (code : Text) {rest : Text} {passed : Nat} (start : rest = code.drop passed)
    (first : bracesPair (code.take passed)) (pairs : bracesPair rest) :
    ∀ entry ∈ memberCutsFrom passed rest, passed ≤ entry.1 ∧ nextCut? (code.drop entry.1) = some entry.2 ∧
      bracesPair (code.take entry.1) := by
  fun_induction memberCutsFrom passed rest with
  | case1 passed rest none => intro entry he; cases he
  | case2 passed rest cut found ih =>
    obtain ⟨taken, left, whole, stop, takenPairs⟩ := cutFrom_pairs found pairs
    rw [Nat.zero_add] at stop
    have leftPairs : bracesPair left := bracesPair_append_left takenPairs (whole ▸ pairs)
    have next : rest.drop cut.stop = left := by rw [whole, stop, List.drop_left]
    have before : bracesPair (code.take (passed + cut.stop)) := by
      rw [List.take_add, ← start, whole, stop, List.take_left]
      exact bracesPair_append first takenPairs
    intro entry he
    rcases List.mem_cons.1 he with rfl | he
    · exact ⟨Nat.le_refl _, by rw [← start]; exact found, first⟩
    · obtain ⟨low, cutAt, level⟩ := ih (by rw [start, List.drop_drop]) before (next ▸ leftPairs) entry he
      exact ⟨by omega, cutAt, level⟩

/-- a cut stays inside the code, its heading in front of its end -/
theorem memberCutsFrom_bounds (passed : Nat) (code : Text) : ∀ entry ∈ memberCutsFrom passed code,
    passed ≤ entry.1 ∧ entry.2.headingStop < entry.2.stop ∧ entry.1 + entry.2.stop ≤ passed + code.length := by
  fun_induction memberCutsFrom passed code with
  | case1 => intro entry he; cases he
  | case2 passed code cut found ih =>
    have bounds := cutFrom_bounds found
    intro entry he
    rcases List.mem_cons.1 he with rfl | he
    · refine ⟨Nat.le_refl _, cutFrom_headingStop_lt found (by simp), ?_⟩
      dsimp only
      omega
    · obtain ⟨low, heading, room⟩ := ih entry he
      rw [List.length_drop] at room
      exact ⟨by omega, heading, by omega⟩

/-- a cut begins where the one before it has ended, or later -/
theorem memberCutsFrom_apart (passed : Nat) (code : Text) :
    (memberCutsFrom passed code).Pairwise fun a b => a.1 + a.2.stop ≤ b.1 := by
  fun_induction memberCutsFrom passed code with
  | case1 => exact List.Pairwise.nil
  | case2 passed code cut found ih =>
    exact List.Pairwise.cons (fun entry he => (memberCutsFrom_bounds _ _ entry he).1) ih

theorem memberOf?_place {offset : Nat} {body : Source} {cut : MemberCut} {m : MemberBlock}
    (h : memberOf? offset body cut = some m) :
    m.start = offset + Text.leadingBlanks (body.code.take cut.headingStop) ∧
      Text.leadingBlanks (body.code.take cut.headingStop) < (body.code.take cut.headingStop).length ∧
        m.stop = offset + cut.stop := by
  unfold memberOf? at h
  simp only [Bool.or_eq_true, decide_eq_true_eq] at h
  split at h
  · cases h
  · next some =>
    split at h
    · cases h
    · cases h
      refine ⟨rfl, Nat.lt_of_le_of_ne ?_ fun e => some (Or.inl e), rfl⟩
      exact (List.takeWhile_prefix blank).length_le

theorem bracesPair_blanks {t : Text} (h : ∀ c ∈ t, blank c = true) : bracesPair t := by
  apply nesting_of_free
  intro c hc
  refine ⟨?_, ?_⟩
  · rintro rfl
    exact absurd (h _ hc) (by decide)
  · rintro rfl
    exact absurd (h _ hc) (by decide)

/-- a place inside a body, with no brace left open between the start of the body and it -/
structure PlacedIn (offset : Nat) (code : Text) (m : MemberBlock) : Prop where
  low : offset ≤ m.start
  high : m.start < offset + code.length
  level : bracesPair (code.take (m.start - offset))

/-- **Places of members.** A member starts inside its body, at the level of the body itself. -/
theorem membersOf_place {offset : Nat} {body : Source} (pairs : bracesPair body.code) :
    ∀ m ∈ membersOf offset body, PlacedIn offset body.code m := by
  intro m hm
  obtain ⟨⟨p, cut⟩, he, read⟩ := List.mem_filterMap.1 hm
  obtain ⟨-, -, level⟩ := memberCutsFrom_place body.code (List.drop_zero).symm rfl pairs _ he
  obtain ⟨start, inside, -⟩ := memberOf?_place read
  simp only [Source.code_drop] at start inside level
  have room := List.length_take_le' cut.headingStop (body.code.drop p)
  rw [List.length_drop] at room
  refine ⟨by omega, by omega, ?_⟩
  rw [start, Nat.add_assoc, Nat.add_sub_cancel_left, List.take_add]
  apply bracesPair_append level
  -- what precedes the first word of a heading is blank
  apply bracesPair_blanks
  intro c hc
  have blanks := (List.takeWhile_prefix blank).trans (List.take_prefix cut.headingStop (body.code.drop p))
  rw [Text.leadingBlanks, ← List.prefix_iff_eq_take.1 blanks] at hc
  exact List.mem_takeWhile_imp hc

/-- A member takes a stretch of its body. -/
theorem membersOf_bounds {offset : Nat} {body : Source} :
    ∀ m ∈ membersOf offset body, offset ≤ m.start ∧ m.start < m.stop ∧ m.stop ≤ offset + body.length := by
  intro m hm
  obtain ⟨⟨p, cut⟩, he, read⟩ := List.mem_filterMap.1 hm
  obtain ⟨start, inside, stop⟩ := memberOf?_place read
  obtain ⟨-, heading, room⟩ := memberCutsFrom_bounds _ _ _ he
  have width := List.length_take_le cut.headingStop (body.drop p).code
  dsimp only at heading room
  unfold Source.length
  omega

/-- A member has a heading, and a character that ends it. -/
theorem membersOf_width {offset : Nat} {body : Source} : ∀ m ∈ membersOf offset body, m.start + 2 ≤ m.stop := by
  intro m hm
  obtain ⟨⟨p, cut⟩, he, read⟩ := List.mem_filterMap.1 hm
  obtain ⟨start, inside, stop⟩ := memberOf?_place read
  obtain ⟨-, heading, -⟩ := memberCutsFrom_bounds _ _ _ he
  have width := List.length_take_le cut.headingStop (body.drop p).code
  dsimp only at heading
  omega

/-- The members of a body take stretches of it one after another. -/
theorem membersOf_apart (offset : Nat) (body : Source) :
    (membersOf offset body).Pairwise fun a b => a.stop ≤ b.start := by
  unfold membersOf
  rw [List.pairwise_filterMap]
  refine (memberCutsFrom_apart 0 body.code).imp fun {a b} before m hm n hn => ?_
  obtain ⟨-, -, stop⟩ := memberOf?_place hm
  obtain ⟨start, -, -⟩ := memberOf?_place hn
  omega

/-- A member stands behind the end of the one in front of it. -/
theorem membersOf_next {offset : Nat} {body : Source} {front back : List MemberBlock} {m n : MemberBlock}
    (members : membersOf offset body = front ++ m :: n :: back) : m.stop ≤ n.start := by
  have apart := membersOf_apart offset body
  rw [members, List.pairwise_append] at apart
  exact List.rel_of_pairwise_cons apart.2.1 List.mem_cons_self

theorem membersOf_sorted (offset : Nat) (body : Source) :
    (membersOf offset body).Pairwise fun a b => a.start < b.start :=
  (membersOf_apart offset body).imp_of_mem fun {a _} ha _ before =>
    Nat.lt_of_lt_of_le (membersOf_bounds a ha).2.1 before

/-! ## Attributes of members -/

/-- attribute groups are passed only where one opens -/
theorem leadingGroups_moved {offset place groupsStop signatureStart : Nat} {t : Text}
    (h : leadingGroups offset place t = .ok (groupsStop, signatureStart)) (moved : groupsStop ≠ place) :
    t.head? = some '[' := by
  unfold leadingGroups at h
  split at h
  · cases h
    exact absurd rfl moved
  · split at h
    · next opens => rw [opens]; rfl
    · cases h
      exact absurd rfl moved

/-- The attributes of a member are written where it starts. -/
theorem membersOf_attributes {offset : Nat} {body : Source} {m : MemberBlock} (hm : m ∈ membersOf offset body)
    (marked : m.attributeText ≠ []) :
    (body.code.drop (m.start - offset)).head? = some '[' ∧ m.attributeText <+: body.raw.drop (m.start - offset) := by
  obtain ⟨⟨p, cut⟩, -, read⟩ := List.mem_filterMap.1 hm
  obtain ⟨start, -, -⟩ := memberOf?_place read
  unfold memberOf? at read
  dsimp only at read
  split at read
  · cases read
  · split at read
    · cases read
    · next groupsStop signatureStart groups =>
      cases read
      simp only [Source.raw_slice, Source.code_drop, Source.raw_drop, Source.code_take, Source.raw_take,
        Nat.add_assoc, Nat.add_sub_cancel_left, List.drop_take] at groups marked ⊢
      generalize Text.leadingBlanks ((body.code.drop p).take cut.headingStop) = lead at *
      have opens := leadingGroups_moved groups (by rintro rfl; simp at marked)
      rw [← List.drop_drop, ← List.drop_drop]
      refine ⟨?_, (List.take_prefix _ _).trans (List.take_prefix _ _)⟩
      rw [← List.take_append_drop (cut.headingStop - lead) ((body.code.drop p).drop lead), List.head?_append, opens]
      rfl

end EndpointSurvey
