/-
The members of a type's body: each heading runs to a brace, a semicolon or an arrow, and its attribute groups are cut
off its front.

Main statements: `cutFrom_path` and `CutPath.reached` (how a scan comes to a cut, one step after another), and
`cutFrom_bounds` (a member takes at least one character and no more than there are).
-/
import EndpointSurvey.Declaration.Block
import EndpointSurvey.Diagnostic.Event
import EndpointSurvey.Source.Bracket
import EndpointSurvey.Source.DocComment

namespace EndpointSurvey

/-- how the next member is cut from a body, in offsets from its start: where its heading ends, where the member ends,
and where its block opens if it has one -/
structure MemberCut where
  headingStop : Nat
  stop : Nat
  terminator : Terminator
  blockStart : Option Nat
  /-- a bracket or parenthesis of the heading is still open -/
  unbalanced : Bool
  deriving DecidableEq, Repr

/-- Scans on from an offset with the given open brackets, open parentheses and place of an arrow. After an arrow a
braced group belongs to the expression; one that does not close takes the rest of the body. -/
def cutFrom (offset brackets parens : Nat) (arrow : Option Nat) (t : Text) : Option MemberCut :=
  match t with
  | [] => none
  | c :: cs =>
    if c = '[' then cutFrom (offset + 1) (brackets + 1) parens arrow cs
    else if c = ']' then cutFrom (offset + 1) (brackets - 1) parens arrow cs
    else if c = '(' then cutFrom (offset + 1) brackets (parens + 1) arrow cs
    else if c = ')' then cutFrom (offset + 1) brackets (parens - 1) arrow cs
    else if c = '=' ∧ cs.head? = some '>' ∧ parens = 0 ∧ brackets = 0 ∧ arrow = none then
      cutFrom (offset + 2) brackets parens (some offset) (cs.drop 1)
    else if c = '\x7b' then
      match arrow, closing? '\x7b' '\x7d' (c :: cs) with
      | some _, none => none
      | some a, some i => cutFrom (offset + i + 1) brackets parens (some a) (cs.drop i)
      | none, found =>
        some ⟨offset, offset + (found.getD cs.length) + 1, .block, some offset, brackets > 0 || parens > 0⟩
    else if c = ';' then
      let terminator := if arrow.isSome then .arrow else .semicolon
      some ⟨arrow.getD offset, offset + 1, terminator, none, brackets > 0 || parens > 0⟩
    else cutFrom (offset + 1) brackets parens arrow cs
  termination_by t.length

/-- the cut of the first member of a body -/
def nextCut? (t : Text) : Option MemberCut := cutFrom 0 0 0 none t

/-- The way of a scan to the cut it finds: characters are passed, an arrow is met, groups of braces behind the arrow are
passed, and a brace or a semicolon makes the cut. -/
inductive CutPath (cut : MemberCut) : (offset brackets parens : Nat) → (arrow : Option Nat) → Text → Prop
  /-- a character that is passed, whatever follows that begins alike -/
  | passed {offset brackets parens brackets' parens' : Nat} {arrow : Option Nat} {c : Char} {cs : Text}
      (brace : c ≠ '\x7b') (semicolon : c ≠ ';')
      (step : ∀ cs' : Text, cs'.head? = cs.head? → cutFrom offset brackets parens arrow (c :: cs') =
        cutFrom (offset + 1) brackets' parens' arrow cs')
      (next : CutPath cut (offset + 1) brackets' parens' arrow cs) :
      CutPath cut offset brackets parens arrow (c :: cs)
  | arrow {offset : Nat} {cs : Text} (next : CutPath cut (offset + 2) 0 0 (some offset) cs) :
      CutPath cut offset 0 0 none ('=' :: '>' :: cs)
  | group {offset brackets parens a i : Nat} {cs : Text} (found : closing? '\x7b' '\x7d' ('\x7b' :: cs) = some i)
      (next : CutPath cut (offset + i + 1) brackets parens (some a) (cs.drop i)) :
      CutPath cut offset brackets parens (some a) ('\x7b' :: cs)
  | block {offset brackets parens : Nat} {cs : Text}
      (made : cut = ⟨offset, offset + ((closing? '\x7b' '\x7d' ('\x7b' :: cs)).getD cs.length) + 1, .block, some offset,
        brackets > 0 || parens > 0⟩) :
      CutPath cut offset brackets parens none ('\x7b' :: cs)
  | semicolon {offset brackets parens : Nat} {arrow : Option Nat} {cs : Text}
      (made : cut = ⟨arrow.getD offset, offset + 1, if arrow.isSome then .arrow else .semicolon, none,
        brackets > 0 || parens > 0⟩) :
      CutPath cut offset brackets parens arrow (';' :: cs)

theorem CutPath.reached {cut : MemberCut} {offset brackets parens : Nat} {arrow : Option Nat} {t : Text}
    (path : CutPath cut offset brackets parens arrow t) : cutFrom offset brackets parens arrow t = some cut := by
  induction path with
  | passed _ _ step _ ih => exact (step _ rfl).trans ih
  | arrow _ ih =>
    rw [cutFrom.eq_def]
    simpa using ih
  | group found _ ih =>
    rw [cutFrom.eq_def]
    simpa [found] using ih
  | block made =>
    rw [cutFrom.eq_def]
    simp [made]
  | semicolon made =>
    rw [cutFrom.eq_def]
    simp [made]

/-- A scan comes to its cut step by step. -/
theorem cutFrom_path {offset brackets parens : Nat} {arrow : Option Nat} {t : Text} {cut : MemberCut}
    (h : cutFrom offset brackets parens arrow t = some cut) : CutPath cut offset brackets parens arrow t := by
  fun_induction cutFrom offset brackets parens arrow t with
  | case1 => cases h
  | case2 offset brackets parens arrow cs ih =>
    exact .passed (by decide) (by decide) (fun _ _ => cutFrom.eq_def ..) (ih h)
  | case3 offset brackets parens arrow cs _ ih =>
    exact .passed (by decide) (by decide) (fun _ _ => cutFrom.eq_def ..) (ih h)
  | case4 offset brackets parens arrow cs _ _ ih =>
    exact .passed (by decide) (by decide) (fun _ _ => cutFrom.eq_def ..) (ih h)
  | case5 offset brackets parens arrow cs _ _ _ ih =>
    exact .passed (by decide) (by decide) (fun _ _ => cutFrom.eq_def ..) (ih h)
  | case6 offset brackets parens arrow c cs _ _ _ _ hc ih =>
    obtain ⟨rfl, head, rfl, rfl, rfl⟩ := hc
    obtain ⟨ds, rfl⟩ := List.head?_eq_some_iff.1 head
    exact .arrow (ih h)
  | case7 => cases h
  | case8 offset brackets parens cs a i _ _ _ _ found _ ih => exact .group found (ih h)
  | case9 => exact .block (Option.some.inj h).symm
  | case10 => exact .semicolon (Option.some.inj h).symm
  | case11 offset brackets parens arrow c cs opens closes opens' closes' plain brace semicolon ih =>
    refine .passed brace semicolon (fun cs' same => ?_) (ih h)
    rw [cutFrom.eq_def]
    dsimp only
    rw [if_neg opens, if_neg closes, if_neg opens', if_neg closes', same, if_neg plain, if_neg brace,
      if_neg semicolon]

theorem CutPath.bounds {cut : MemberCut} {offset brackets parens : Nat} {arrow : Option Nat} {t : Text}
    (path : CutPath cut offset brackets parens arrow t) : offset < cut.stop ∧ cut.stop ≤ offset + t.length := by
  induction path with
  | passed _ _ _ _ ih => rw [List.length_cons]; omega
  | arrow _ ih => simp only [List.length_cons]; omega
  | group found _ ih =>
    have := closing?_lt found
    simp only [List.length_cons, List.length_drop] at *
    omega
  | @block offset brackets parens cs made =>
    subst made
    cases found : closing? '\x7b' '\x7d' ('\x7b' :: cs) with
    | none => simp only [List.length_cons, Option.getD_none]; omega
    | some i =>
      have := closing?_lt found
      simp only [List.length_cons, Option.getD_some] at *
      omega
  | semicolon made =>
    subst made
    simp only [List.length_cons]
    omega

theorem cutFrom_bounds {offset brackets parens : Nat} {arrow : Option Nat} {t : Text} {cut : MemberCut}
    (h : cutFrom offset brackets parens arrow t = some cut) : offset < cut.stop ∧ cut.stop ≤ offset + t.length :=
  (cutFrom_path h).bounds

/-- The attribute groups at the front of a text, as the offsets where the last one ends and where something else
starts; `offset` and `stop` are those reached so far. Fails at the offset of a group that does not close. -/
def leadingGroups (offset stop : Nat) (t : Text) : Except Nat (Nat × Nat) :=
  match t with
  | [] => .ok (stop, offset)
  | c :: cs =>
    if c = '[' then
      match closing? '[' ']' (c :: cs) with
      | none => .error offset
      | some i =>
        let rest := cs.drop i
        let gap := Text.leadingBlanks rest
        leadingGroups (offset + i + 1 + gap) (offset + i + 1) (rest.drop gap)
    else .ok (stop, offset)
  termination_by t.length
  decreasing_by simp only [List.length_drop, List.length_cons]; omega

/-- the comment lines among the lines of a text -/
def commentLines (t : Text) : Text := Text.join "\n" (t.lines.filter fun line => Text.startsWith "//" line.trim)

/-- one member, cut from a body that starts at an offset of the document; nothing, and mostly a warning, for a heading
that is blank or does not close -/
def readMember (document : Text) (offset : Nat) (body : Source) (cut : MemberCut) : Traced (Option MemberBlock) :=
  let heading := body.take cut.headingStop
  let lead := Text.leadingBlanks heading.code
  let first := offset + lead
  if lead = heading.length then pure none
  else if cut.unbalanced then do
    Traced.warn .unbalancedMember (locate document first) (Text.firstWords 6 heading.raw)
    pure none
  else match leadingGroups lead lead (heading.code.drop lead) with
    | .error place => do
      Traced.warn .openMemberAttributes (locate document (offset + place)) (Text.firstWords 6 heading.raw)
      pure none
    | .ok (groupsStop, signatureStart) =>
      let between := heading.slice lead signatureStart
      pure (some
        { attributeText := (heading.slice lead groupsStop).raw
          signature := (mask false (heading.drop signatureStart).raw).collapse
          doc := docComment? ((heading.take lead).raw ++ commentLines between.raw)
          start := first
          stop := offset + cut.stop
          terminator := cut.terminator
          accessorText := match cut.blockStart with
            | some start => (body.slice start cut.stop).raw
            | none => [] })

/-- the members of a body that starts at an offset of the document -/
def members (document : Text) (offset : Nat) (body : Source) : Traced (List MemberBlock) :=
  match _h : nextCut? body.code with
  | none => pure []
  | some cut => do
    let member ← readMember document offset body cut
    let rest ← members document (offset + cut.stop) (body.drop cut.stop)
    pure (member.toList ++ rest)
  termination_by body.length
  decreasing_by
    have := cutFrom_bounds _h
    simp only [Source.length_drop]
    simp only [Source.length]
    omega

end EndpointSurvey
