/-
The declarations of a document as plain values: what `typeBlocks` finds, without its warnings. Where members and headings
are cut is read off the code alone; what they hold is cut from the text at the same offsets.

Main statements: `value_members` and `value_typeBlocks`, and `blockOf?_cases` (what a declaration is read from).
-/
import EndpointSurvey.Declaration.TypeBlocks
import EndpointSurvey.Proofs.Diagnostic.TracedValue

namespace EndpointSurvey

namespace Source

theorem ext {s t : Source} (raw : s.raw = t.raw) (code : s.code = t.code) : s = t := by
  cases s
  cases t
  cases raw
  cases code
  rfl

@[simp] theorem raw_take (n : Nat) (s : Source) : (s.take n).raw = s.raw.take n := rfl

@[simp] theorem code_take (n : Nat) (s : Source) : (s.take n).code = s.code.take n := rfl

@[simp] theorem raw_drop (n : Nat) (s : Source) : (s.drop n).raw = s.raw.drop n := rfl

@[simp] theorem code_drop (n : Nat) (s : Source) : (s.drop n).code = s.code.drop n := rfl

@[simp] theorem raw_slice (start stop : Nat) (s : Source) :
    (s.slice start stop).raw = (s.raw.drop start).take (stop - start) := rfl

@[simp] theorem code_slice (start stop : Nat) (s : Source) :
    (s.slice start stop).code = (s.code.drop start).take (stop - start) := rfl

@[simp] theorem raw_ofText (t : Text) : (ofText t).raw = t := rfl

@[simp] theorem code_ofText (t : Text) : (ofText t).code = mask true t := rfl

theorem drop_drop (m n : Nat) (s : Source) : (s.drop m).drop n = s.drop (m + n) := by
  apply ext <;> simp [List.drop_drop]

theorem drop_zero (s : Source) : s.drop 0 = s := by
  apply ext <;> simp

end Source

/-! ## Members -/

theorem leadingGroups_closed {t : Text} {i : Nat} (opens : t.head? = some '[') (closes : closing? '[' ']' t = some i)
    (offset stop : Nat) :
    leadingGroups offset stop t = leadingGroups (offset + i + 1 + Text.leadingBlanks (t.drop (i + 1))) (offset + i + 1)
      ((t.drop (i + 1)).drop (Text.leadingBlanks (t.drop (i + 1)))) := by
  obtain ⟨cs, rfl⟩ := List.head?_eq_some_iff.1 opens
  rw [leadingGroups, if_pos rfl]
  split
  · simp_all
  · next j found =>
    rw [closes] at found
    cases found
    rfl

theorem leadingGroups_other {t : Text} {c : Char} (head : t.head? = some c) (other : c ≠ '[') (offset stop : Nat) :
    leadingGroups offset stop t = .ok (stop, offset) := by
  obtain ⟨cs, rfl⟩ := List.head?_eq_some_iff.1 head
  rw [leadingGroups, if_neg other]

/-- the cuts of the members of a body, each with the offset it is counted from; a number of characters is passed -/
def memberCutsFrom (passed : Nat) (code : Text) : List (Nat × MemberCut) :=
  match _h : nextCut? code with
  | none => []
  | some cut => (passed, cut) :: memberCutsFrom (passed + cut.stop) (code.drop cut.stop)
  termination_by code.length
  decreasing_by
    have := cutFrom_bounds _h
    simp only [List.length_drop]
    omega

/-- the member that a cut makes, if its heading can be read -/
def memberOf? (offset : Nat) (body : Source) (cut : MemberCut) : Option MemberBlock :=
  let heading := body.take cut.headingStop
  let lead := Text.leadingBlanks heading.code
  if lead = heading.length || cut.unbalanced then none
  else match leadingGroups lead lead (heading.code.drop lead) with
    | .error _ => none
    | .ok (groupsStop, signatureStart) =>
      some
        { attributeText := (heading.slice lead groupsStop).raw
          signature := (mask false (heading.drop signatureStart).raw).collapse
          doc := docComment? ((heading.take lead).raw ++ commentLines (heading.slice lead signatureStart).raw)
          start := offset + lead
          stop := offset + cut.stop
          terminator := cut.terminator
          accessorText := match cut.blockStart with
            | some start => (body.slice start cut.stop).raw
            | none => [] }

/-- the members of a body that starts at an offset -/
def membersOf (offset : Nat) (body : Source) : List MemberBlock :=
  (memberCutsFrom 0 body.code).filterMap fun (passed, cut) => memberOf? (offset + passed) (body.drop passed) cut

theorem value_readMember (document : Text) (offset : Nat) (body : Source) (cut : MemberCut) :
    (readMember document offset body cut).value = memberOf? offset body cut := by
  unfold readMember memberOf?
  simp only [Bool.or_eq_true, decide_eq_true_eq, apply_ite Traced.value]
  split
  · next blank => rw [if_pos (Or.inl blank)]; rfl
  · next blank =>
    split
    · next unbalanced => rw [if_pos (Or.inr unbalanced)]; rfl
    · next balanced =>
      rw [if_neg (not_or.2 ⟨blank, balanced⟩)]
      generalize leadingGroups _ _ _ = groups
      rcases groups with place | ⟨groupsStop, signatureStart⟩ <;> rfl

theorem value_members_drop (document : Text) (offset : Nat) (body : Source) (passed : Nat) :
    (members document (offset + passed) (body.drop passed)).value =
      (memberCutsFrom passed (body.code.drop passed)).filterMap fun (passed, cut) =>
        memberOf? (offset + passed) (body.drop passed) cut := by
  generalize hrest : body.code.drop passed = rest
  fun_induction memberCutsFrom passed rest with
  | case1 passed rest none =>
    rw [members]
    split
    · rfl
    · simp_all
  | case2 passed rest cut found ih =>
    rw [members]
    split
    · simp_all
    · next other h =>
      have same : other = cut := by
        rw [Source.code_drop, hrest, found] at h
        exact (Option.some.inj h).symm
      subst same
      have tail := ih (by rw [← hrest, List.drop_drop])
      rw [Traced.value_bind, Traced.value_bind, Traced.value_pure, value_readMember, Source.drop_drop, Nat.add_assoc, tail,
        List.filterMap_cons]
      cases hm : memberOf? (offset + passed) (body.drop passed) other <;> simp [hm]

/-- The members read are those that the cuts of the code make. -/
theorem value_members (document : Text) (offset : Nat) (body : Source) :
    (members document offset body).value = membersOf offset body := by
  have := value_members_drop document offset body 0
  rwa [Nat.add_zero, Source.drop_zero] at this

section
variable {offset : Nat} {body : Source} {cut : MemberCut}

theorem membersOf_none (h : nextCut? body.code = none) : membersOf offset body = [] := by
  rw [← value_members [], members]
  split
  · rfl
  · simp_all

theorem membersOf_some (h : nextCut? body.code = some cut) : membersOf offset body =
    (memberOf? offset body cut).toList ++ membersOf (offset + cut.stop) (body.drop cut.stop) := by
  rw [← value_members [], members]
  split
  · simp_all
  · next found =>
    rw [h] at found
    cases found
    rw [Traced.value_bind, Traced.value_bind, Traced.value_pure, value_readMember, value_members]

end

/-! ## Type declarations -/

/-- the header region of a heading: from past the last brace or semicolon before it up to its keyword -/
def regionStart (code : Text) (heading : Heading) : Nat :=
  heading.start - (Text.takeEnd (fun c => c != ';' && c != '\x7b' && c != '\x7d') (code.take heading.start)).length

/-- the declaration of a heading with this tail, whose body has no members yet and ends at an offset -/
def blockShell (document : Source) (spans : List NamespaceSpan) (heading : Heading) (kind : DeclarationKind)
    (tail : HeadingTail) : TypeBlock :=
  let region := document.slice (regionStart document.code heading) heading.start
  { kind := kind
    name := heading.name
    attributeText := Text.join "\n" (attributeGroups region)
    doc := docComment? region.raw
    namespaceName := namespaceAt spans heading.start
    start := regionStart document.code heading + Text.leadingBlanks region.raw
    stop := tail.stop + 1
    typeParameters := tail.typeParameters
    baseTypes := tail.baseTypes
    positional := tail.positional
    body := []
    members := [] }

/-- the declaration of a heading, if it closes -/
def blockOf? (document : Source) (spans : List NamespaceSpan) (heading : Heading) (kind : DeclarationKind) :
    Option TypeBlock :=
  match headingTail document heading.name heading.stop with
  | .error _ => none
  | .ok tail =>
    let shell := blockShell document spans heading kind tail
    if (document.code.drop tail.stop).head? = some '\x7b' then
      (closing? '\x7b' '\x7d' (document.code.drop tail.stop)).map fun i =>
        let body := (document.drop tail.stop).slice 1 i
        { shell with
          stop := tail.stop + i + 1
          body := body.raw
          members := if kind = .enumType then [] else membersOf (tail.stop + 1) body }
    else some shell

/-- a declaration with the body that a brace opens, which ends so far behind the brace -/
def TypeBlock.withBody (shell : TypeBlock) (document : Source) (brace size : Nat) : TypeBlock :=
  let body := (document.drop brace).slice 1 size
  { shell with
    stop := brace + size + 1
    body := body.raw
    members := if shell.kind = .enumType then [] else membersOf (brace + 1) body }

theorem TypeBlock.members_withBody {shell : TypeBlock} (structured : shell.kind ≠ .enumType) (document : Source)
    (brace size : Nat) : (shell.withBody document brace size).members =
      membersOf (brace + 1) ((document.drop brace).slice 1 size) := if_neg structured

section
variable {document : Source} {spans : List NamespaceSpan} {heading : Heading} {kind : DeclarationKind}
  {tail : HeadingTail} (read : headingTail document heading.name heading.stop = .ok tail)
include read

theorem blockOf?_withBody {size : Nat} (opens : (document.code.drop tail.stop).head? = some '\x7b')
    (closes : closing? '\x7b' '\x7d' (document.code.drop tail.stop) = some size) :
    blockOf? document spans heading kind =
      some ((blockShell document spans heading kind tail).withBody document tail.stop size) := by
  unfold blockOf?
  rw [read]
  dsimp only
  rw [if_pos opens, closes]
  rfl

theorem blockOf?_unclosed (opens : (document.code.drop tail.stop).head? = some '\x7b')
    (unclosed : closing? '\x7b' '\x7d' (document.code.drop tail.stop) = none) :
    blockOf? document spans heading kind = none := by
  unfold blockOf?
  rw [read]
  dsimp only
  rw [if_pos opens, unclosed]
  rfl

theorem blockOf?_shell (other : (document.code.drop tail.stop).head? ≠ some '\x7b') :
    blockOf? document spans heading kind = some (blockShell document spans heading kind tail) := by
  unfold blockOf?
  rw [read]
  exact if_neg other

end

/-- **What a declaration is read from**: a heading with a tail, and a body in braces if a brace stands there. -/
theorem blockOf?_cases {document : Source} {spans : List NamespaceSpan} {heading : Heading} {kind : DeclarationKind}
    {b : TypeBlock} (h : blockOf? document spans heading kind = some b) :
    ∃ tail, headingTail document heading.name heading.stop = .ok tail ∧
      ((∃ size, (document.code.drop tail.stop).head? = some '\x7b' ∧
          closing? '\x7b' '\x7d' (document.code.drop tail.stop) = some size ∧
          b = (blockShell document spans heading kind tail).withBody document tail.stop size) ∨
        (document.code.drop tail.stop).head? ≠ some '\x7b' ∧ b = blockShell document spans heading kind tail) := by
  cases read : headingTail document heading.name heading.stop with
  | error problem =>
    rw [blockOf?, read] at h
    cases h
  | ok tail =>
    refine ⟨tail, rfl, ?_⟩
    by_cases opens : (document.code.drop tail.stop).head? = some '\x7b'
    · cases closes : closing? '\x7b' '\x7d' (document.code.drop tail.stop) with
      | none =>
        rw [blockOf?_unclosed read opens closes] at h
        cases h
      | some size =>
        rw [blockOf?_withBody read opens closes] at h
        exact .inl ⟨size, opens, rfl, (Option.some.inj h).symm⟩
    · rw [blockOf?_shell read opens] at h
      exact .inr ⟨opens, (Option.some.inj h).symm⟩

/-- the kind of a heading that declares a type; nothing for an interface, for a word that names no type, and for a
heading that other words precede on its line -/
def declaredKind? (code : Text) (heading : Heading) : Option DeclarationKind :=
  if nonTypeNames.contains heading.name || !declarationStart code heading.start then none else heading.kind

/-- the type declarations of a document -/
def blocksOf (text : Text) : List TypeBlock :=
  let document := Source.ofText text
  (headings document.code).filterMap fun heading =>
    (declaredKind? document.code heading).bind (blockOf? document (namespaces document.code) heading)

theorem value_readType (document : Source) (spans : List NamespaceSpan) (heading : Heading) (kind : DeclarationKind) :
    (readType document spans heading kind).value = blockOf? document spans heading kind := by
  unfold readType blockOf?
  cases headingTail document heading.name heading.stop with
  | error problem => rfl
  | ok tail =>
    simp only [apply_ite Traced.value, Source.code_drop]
    split
    · cases closing? '\x7b' '\x7d' (document.code.drop tail.stop) with
      | none => rfl
      | some i =>
        by_cases enumeration : kind = .enumType
        · simp only [enumeration, if_true]
          rfl
        · simp only [enumeration, if_false, Traced.value_bind, value_members]
          rfl
    · rfl

theorem value_typeBlocks (text : Text) : (typeBlocks text).value = blocksOf text := by
  simp only [typeBlocks, blocksOf, Traced.value_bind, Traced.value_pure, Traced.value_filterMapList]
  congr 1
  funext heading
  cases hk : heading.kind with
  | none => simp [declaredKind?, hk]
  | some kind =>
    simp only [declaredKind?, hk]
    split
    · rfl
    · simp [value_readType]

end EndpointSurvey
