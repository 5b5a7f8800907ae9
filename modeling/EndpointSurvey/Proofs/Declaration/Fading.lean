/-
What later stages read off declarations, up to the kind of blanks.

Main statement: `blockOf?_seen` (the declaration of a heading is seen as the same once comments are blanked and blanks
mapped, if no comment stands where text is read as written).
-/
import EndpointSurvey.Proofs.Declaration.Seen

namespace EndpointSurvey

open Lexeme

/-- what later stages read off a declaration -/
structure SeenBlock where
  kind : DeclarationKind
  name : Text
  doc : Option Text
  namespaceName : Option Text
  stop : Nat
  /-- its attributes mention a controller mark -/
  marked : Bool
  marks : List Attribute
  typeParameters : List Text
  baseTypes : List Text
  positional : Option Text
  /-- the members that its body lists if it is an enumeration -/
  listed : List Text
  members : List SeenMember

def TypeBlock.seen (v : View) (b : TypeBlock) : SeenBlock :=
  { kind := b.kind
    name := b.name
    doc := v.doc b.doc
    namespaceName := b.namespaceName
    stop := b.stop
    marked := controllerMarks.any (Text.hasWord · b.attributeText)
    marks := (attributesOf b.attributeText).map (Attribute.seen v.blanks)
    typeParameters := b.typeParameters.map (List.map v.blanks)
    baseTypes := b.baseTypes.map (List.map v.blanks)
    positional := b.positional.map (List.map v.blanks)
    listed := enumMembersOf b.body
    members := b.members.map (MemberBlock.seen v) }

/-- no comment stands where the declaration is read as written: in its attribute groups and those of its members, and
in its parameter list -/
structure TypeBlock.Uncommented (b : TypeBlock) : Prop where
  attributes : EndpointSurvey.Uncommented b.attributeText
  positional : ∀ list ∈ b.positional, EndpointSurvey.Uncommented list
  members : ∀ m ∈ b.members, m.Uncommented

instance : DecidablePred TypeBlock.Uncommented := fun b =>
  decidable_of_iff (EndpointSurvey.Uncommented b.attributeText ∧
      (∀ list ∈ b.positional, EndpointSurvey.Uncommented list) ∧ ∀ m ∈ b.members, m.Uncommented)
    ⟨fun h => ⟨h.1, h.2.1, h.2.2⟩, fun h => ⟨h.attributes, h.positional, h.members⟩⟩

/-! ## Parts of a declaration -/

namespace BlankMap

variable {φ : Char → Char}

theorem declared_map (h : BlankMap φ) (part : Text) : declared (part.map φ) = (declared part).map φ := by
  unfold declared Text.beforeFirst
  rw [h.replaceGroups_map (show ([] : Text).map φ = [] from rfl), h.takeWhile_map (by decide), h.trim_map]

/-- The members that an enumeration lists do not see the kind of blanks. -/
theorem enumMembersOf_map (h : BlankMap φ) {x x' : Text} (masks : mask true x' = (mask true x).map φ) :
    enumMembersOf x' = enumMembersOf x := by
  have test : ∀ name : Text, ((name.map φ).head?.any identifierStart && (name.map φ).all wordChar) =
      (name.head?.any identifierStart && name.all wordChar) := by
    intro name
    rw [h.head?_any_map (by decide), List.all_map, h.comp_test (p := wordChar) (by decide)]
  have parts : (splitTop ',' false ((mask true x).map φ)).map declared =
      ((splitTop ',' false (mask true x)).map declared).map (List.map φ) := by
    rw [h.splitTop_map (by decide) (by decide), List.map_map, List.map_map]
    exact List.map_congr_left fun part _ => h.declared_map part
  unfold enumMembersOf
  rw [masks, parts, List.filter_map]
  simp only [Function.comp_def, test]
  refine (List.map_congr_left (g := id) fun name hn => ?_).trans (List.map_id _)
  have word := (Bool.and_eq_true_iff.1 (List.mem_filter.1 hn).2).2
  exact h.map_of_all (p := wordChar) (by decide) (List.all_eq_true.1 word)

theorem regionStart_map (h : BlankMap φ) (code : Text) (heading : Heading) :
    regionStart (code.map φ) heading = regionStart code heading := by
  unfold regionStart
  rw [← List.map_take, h.takeEnd_map (by decide), List.length_map]

theorem typeParameters_map (h : BlankMap φ) (t : Text) :
    ((Text.splitOn ',' (t.map φ)).map Text.trim).filter (!·.isEmpty) =
      (((Text.splitOn ',' t).map Text.trim).filter (!·.isEmpty)).map (List.map φ) := by
  have parts : (Text.splitOn ',' (t.map φ)).map Text.trim = ((Text.splitOn ',' t).map Text.trim).map (List.map φ) := by
    rw [h.splitOn_map (by decide) (by decide), List.map_map, List.map_map]
    exact List.map_congr_left fun part _ => h.trim_map part
  rw [parts, List.filter_map]
  simp only [Function.comp_def, List.isEmpty_map]

/-- Words are found in joined groups whatever the blanks in the groups. -/
theorem hasWord_join (h : BlankMap φ) (word : Text) (groups : List Text) :
    Text.hasWord word (Text.join "\n" (groups.map (List.map φ))) = Text.hasWord word (Text.join "\n" groups) := by
  rw [← h.hasWord_map, ← h.hasWord_map word (Text.join "\n" groups)]
  have joined : ∀ parts : List Text, (Text.join "\n" parts).map φ = Text.join [φ '\n'] (parts.map (List.map φ)) := by
    intro parts
    induction parts with
    | nil => rfl
    | cons part parts ih =>
      cases parts with
      | nil => simp [Text.join, List.intercalate]
      | cons next parts =>
        rw [join_lines, List.map_append, List.map_cons, ih]
        simp [Text.join, List.intercalate]
  rw [joined, joined, List.map_map]
  congr 2
  exact List.map_congr_left fun part _ => h.idem part

end BlankMap

section
variable {φ : Char → Char} {document document' : Source}

/-! ## Tails of headings -/

/-- the tails of a heading in two sources beside each other -/
structure TailFades (φ : Char → Char) (tail tail' : HeadingTail) : Prop where
  typeParameters : tail'.typeParameters = tail.typeParameters.map (List.map φ)
  positional : (tail.positional = none ∧ tail'.positional = none) ∨
    ∃ x x', tail.positional = some x ∧ tail'.positional = some x' ∧ TextFades φ x x'
  baseTypes : tail'.baseTypes = tail.baseTypes.map (List.map φ)
  stop : tail'.stop = tail.stop

/-- The tail of a heading is read in both sources, or in neither. -/
theorem headingTail_fades (hφ : BlankMap φ) (h : Source.Fades φ document document') (name : Text) (offset : Nat) :
    (∃ problem, headingTail document name offset = .error problem ∧ headingTail document' name offset = .error problem) ∨
      ∃ tail tail', headingTail document name offset = .ok tail ∧ headingTail document' name offset = .ok tail' ∧
        TailFades φ tail tail' := by
  have code := h.code_eq
  have angles := hφ.bracketed_map (show '<' ≠ '\n' ∧ '<' ≠ ' ' by decide) (show '>' ≠ '\n' ∧ '>' ≠ ' ' by decide)
    document.code
  have parentheses := hφ.bracketed_map (show '(' ≠ '\n' ∧ '(' ≠ ' ' by decide) (show ')' ≠ '\n' ∧ ')' ≠ ' ' by decide)
    document.code
  unfold headingTail
  simp only [code, hφ.skipBlanks_map, angles, parentheses, bind, Except.bind]
  cases open_ : bracketed '<' '>' document.code (skipBlanks document.code offset) with
  | error e => exact Or.inl ⟨_, rfl, rfl⟩
  | ok p =>
    obtain ⟨generic, afterGeneric⟩ := p
    simp only [Except.mapError]
    generalize (if generic.isSome then skipBlanks document.code afterGeneric
      else skipBlanks document.code offset) = next
    cases list_ : bracketed '(' ')' document.code next with
    | error e => exact Or.inl ⟨_, rfl, rfl⟩
    | ok p =>
      obtain ⟨list, afterList⟩ := p
      simp only [List.length_map, ← List.map_drop, hφ.takeWhile_map (p := fun c => c != '\x7b' && c != ';') (by decide)]
      split
      · exact Or.inl ⟨_, rfl, rfl⟩
      · refine Or.inr ⟨_, _, rfl, rfl, ?_, ?_, hφ.baseTypesOf_map _, rfl⟩
        · cases generic with
          | none => rfl
          | some places =>
            obtain ⟨a, b⟩ := places
            simp only [Source.code_slice, code, ← List.map_drop, ← List.map_take]
            exact hφ.typeParameters_map _
        · cases list with
          | none => exact Or.inl ⟨rfl, rfl⟩
          | some places =>
            obtain ⟨a, b⟩ := places
            obtain ⟨first, last, le⟩ := bracketed_places (by decide) (by decide) (by decide) list_
            exact Or.inr ⟨_, _, rfl, rfl, ((h.drop first).take (last.shift le)).raw_fades⟩

/-! ## Declarations -/

/-- the text in front of a heading -/
def headerRegion (document : Source) (heading : Heading) : Source :=
  document.slice (regionStart document.code heading) heading.start

theorem blockShell_attributeText (document : Source) (spans : List NamespaceSpan) (heading : Heading)
    (kind : DeclarationKind) (tail : HeadingTail) :
    (blockShell document spans heading kind tail).attributeText =
      Text.join "\n" (attributeGroups (headerRegion document heading)) := rfl

theorem regionStart_le (code : Text) (heading : Heading) : regionStart code heading ≤ heading.start := Nat.sub_le _ _

theorem headerRegion_fades (hφ : BlankMap φ) (h : Source.Fades φ document document') {heading : Heading}
    (keyword : KeywordAt document.code heading.start) :
    Source.Fades φ (headerRegion document heading) (headerRegion document' heading) := by
  unfold headerRegion
  rw [h.code_eq, hφ.regionStart_map]
  exact (h.drop (regionStart_cutAt keyword.inside)).take (keyword.cutAt.shift (regionStart_le _ _))

theorem headerRegion_whole {t : Text} (clean : Clean φ (lex t)) {heading : Heading}
    (keyword : KeywordAt (mask true t) heading.start) : Source.Whole φ (headerRegion (Source.ofText t) heading) := by
  have front := Source.whole_take_keyword clean keyword
  have part := front.drop ((regionStart_cutAt keyword.inside).take (regionStart_le _ _))
  have e : ((Source.ofText t).take heading.start).drop (regionStart (mask true t) heading) =
      headerRegion (Source.ofText t) heading := by
    apply Source.ext
    · exact List.drop_take
    · exact List.drop_take
  rwa [e] at part

/-- What the attribute groups of a declaration are read as. -/
theorem attributes_seen (hφ : BlankMap φ) {s s' : Source} (h : Source.Fades φ s s') (whole : Source.Whole φ s)
    (kept : EscapesKept φ s.raw) (plain : Uncommented (Text.join "\n" (attributeGroups s))) :
    (∀ word, Text.hasWord word (Text.join "\n" (attributeGroups s')) =
      Text.hasWord word (Text.join "\n" (attributeGroups s))) ∧
        (attributesOf (Text.join "\n" (attributeGroups s'))).map (Attribute.seen φ) =
          (attributesOf (Text.join "\n" (attributeGroups s))).map (Attribute.seen φ) := by
  have each := groups_uncommented whole 0 (by rwa [Source.drop_zero])
  obtain ⟨groups, contents⟩ := groups_faded hφ h 0 each
  have inner := groupContents_join whole 0
  have inner' := groupContents_join (h.whole hφ whole) 0
  rw [Source.drop_zero] at groups contents inner inner'
  rw [Source.drop_zero] at groups contents
  constructor
  · intro word
    rw [groups, hφ.hasWord_join]
  · rw [attributesOf_contents, attributesOf_contents, inner, inner', contents]
    exact contentAttributes_seen hφ fun content hc => kept.of_within (groupContents_within s content hc)

/-- Headers without a body are seen as the same. -/
theorem blockShell_seen (hφ : BlankMap φ) {t : Text} (clean : Clean φ (lex t)) (kept : EscapesKept φ t)
    (spans : List NamespaceSpan) {heading : Heading} (keyword : KeywordAt (mask true t) heading.start)
    (kind : DeclarationKind) {tail tail' : HeadingTail} (tails : TailFades φ tail tail')
    (plain : Uncommented (blockShell (Source.ofText t) spans heading kind tail).attributeText)
    (list : ∀ x ∈ tail.positional, Uncommented x) (places : Bool) :
    (blockShell (Source.ofText (fade φ t)) spans heading kind tail').seen ⟨φ, false, places⟩ =
      (blockShell (Source.ofText t) spans heading kind tail).seen ⟨φ, false, places⟩ := by
  have document : Source.Fades φ (Source.ofText t) (Source.ofText (fade φ t)) :=
    TextFades.ofText hφ (Or.inl ⟨clean, rfl⟩)
  have region := headerRegion_fades hφ document keyword
  have part : (headerRegion (Source.ofText t) heading).raw <:+: t := slice_within _ _ _
  obtain ⟨words, marks⟩ := attributes_seen hφ region (headerRegion_whole clean keyword) (kept.of_within part) plain
  have lists : tail'.positional.map (List.map φ) = tail.positional.map (List.map φ) := by
    rcases tails.positional with ⟨e, e'⟩ | ⟨x, x', e, e', fades⟩
    · rw [e, e']
    · rw [e, e', Option.map_some, Option.map_some, fades.eq_map hφ (list x e), hφ.idem]
  have bases : ∀ texts : List Text, (texts.map (List.map φ)).map (List.map φ) = texts.map (List.map φ) := by
    intro texts
    rw [List.map_map]
    exact List.map_congr_left fun x _ => hφ.idem x
  simp only [TypeBlock.seen, blockShell_attributeText, words, marks]
  simp only [blockShell, tails.typeParameters, tails.baseTypes, tails.stop, lists, bases, View.doc]
  rfl

/-- With bodies that a brace opens at one place, declarations are seen as the same if they are without. -/
theorem withBody_seen (hφ : BlankMap φ) {t : Text} (document : Source.Fades φ (Source.ofText t) (Source.ofText (fade φ t)))
    (kept : EscapesKept φ t) {brace size : Nat} (opens : ((Source.ofText t).code.drop brace).head? = some '\x7b')
    (closes : closing? '\x7b' '\x7d' ((Source.ofText t).code.drop brace) = some size) {b b' : TypeBlock} {places : Bool}
    (shells : b'.seen ⟨φ, false, places⟩ = b.seen ⟨φ, false, places⟩)
    (plain : ∀ m ∈ (b.withBody (Source.ofText t) brace size).members, m.Uncommented) :
    (b'.withBody (Source.ofText (fade φ t)) brace size).seen ⟨φ, false, places⟩ =
      (b.withBody (Source.ofText t) brace size).seen ⟨φ, false, places⟩ := by
  have kinds : b'.kind = b.kind := congrArg SeenBlock.kind shells
  have closed := closing?_head (by decide) opens closes
  have long : 1 ≤ size := Nat.one_le_iff_ne_zero.2 fun none => by
    rw [none, List.drop_zero, opens] at closed
    exact absurd closed (by decide)
  have front : CutAt ((Source.ofText t).drop brace).code 1 := CutAt.after (n := 0) opens (by decide)
  have body := ((document.drop (CutAt.before opens (by decide))).drop front).take
    ((CutAt.before closed (by decide)).shift long)
  have listed := hφ.enumMembersOf_map (body.raw_fades.mask_eq hφ true)
  have members : (b'.withBody (Source.ofText (fade φ t)) brace size).members.map (MemberBlock.seen ⟨φ, false, places⟩) =
      (b.withBody (Source.ofText t) brace size).members.map (MemberBlock.seen ⟨φ, false, places⟩) := by
    by_cases enumeration : b.kind = .enumType
    · rw [TypeBlock.withBody, TypeBlock.withBody, if_pos enumeration, if_pos (kinds.trans enumeration)]
    · have part : (((Source.ofText t).drop brace).slice 1 size).raw <:+: t :=
        (slice_within _ 1 size).trans (List.drop_suffix brace t).isInfix
      rw [TypeBlock.members_withBody enumeration] at plain ⊢
      rw [TypeBlock.members_withBody (kinds ▸ enumeration)]
      exact membersOf_seen hφ body (kept.of_within part) _ plain places
  -- a declaration with a body is its header with what the body holds
  have filled : ∀ (b : TypeBlock) (document : Source),
      (b.withBody document brace size).seen ⟨φ, false, places⟩ = { b.seen ⟨φ, false, places⟩ with
        stop := brace + size + 1
        listed := enumMembersOf ((document.drop brace).slice 1 size).raw
        members := (b.withBody document brace size).members.map (MemberBlock.seen ⟨φ, false, places⟩) } := fun _ _ => rfl
  rw [filled, filled, shells, members, SeenBlock.mk.injEq]
  exact ⟨rfl, rfl, rfl, rfl, rfl, rfl, rfl, rfl, rfl, rfl, listed, rfl⟩

/-- **Declarations.** The declaration of a heading is seen as the same once comments are blanked and blanks mapped, if
no comment stands where text is read as written. -/
theorem blockOf?_seen (hφ : BlankMap φ) {t : Text} (clean : Clean φ (lex t)) (kept : EscapesKept φ t)
    (spans : List NamespaceSpan) {heading : Heading} (keyword : KeywordAt (mask true t) heading.start)
    (kind : DeclarationKind) (plain : ∀ b, blockOf? (Source.ofText t) spans heading kind = some b → b.Uncommented)
    (places : Bool) :
    (blockOf? (Source.ofText (fade φ t)) spans heading kind).map (TypeBlock.seen ⟨φ, false, places⟩) =
      (blockOf? (Source.ofText t) spans heading kind).map (TypeBlock.seen ⟨φ, false, places⟩) := by
  have document : Source.Fades φ (Source.ofText t) (Source.ofText (fade φ t)) :=
    TextFades.ofText hφ (Or.inl ⟨clean, rfl⟩)
  rcases headingTail_fades hφ document heading.name heading.stop with ⟨problem, e, e'⟩ | ⟨tail, tail', e, e', tails⟩
  · rw [blockOf?, blockOf?, e, e']
  · have code : (Source.ofText (fade φ t)).code.drop tail'.stop = ((Source.ofText t).code.drop tail.stop).map φ := by
      rw [document.code_eq, tails.stop, List.map_drop]
    have brace : ((Source.ofText (fade φ t)).code.drop tail'.stop).head? = some '\x7b' ↔
        ((Source.ofText t).code.drop tail.stop).head? = some '\x7b' :=
      code ▸ hφ.head?_map_eq_some (by decide) (by decide) _
    have closing : closing? '\x7b' '\x7d' ((Source.ofText (fade φ t)).code.drop tail'.stop) =
        closing? '\x7b' '\x7d' ((Source.ofText t).code.drop tail.stop) :=
      code ▸ hφ.closing?_map (by decide) (by decide) _
    have shells := blockShell_seen hφ clean kept spans keyword kind tails
    by_cases opens : ((Source.ofText t).code.drop tail.stop).head? = some '\x7b'
    · cases closes : closing? '\x7b' '\x7d' ((Source.ofText t).code.drop tail.stop) with
      | none =>
        rw [blockOf?_unclosed e opens closes, blockOf?_unclosed e' (brace.2 opens) (closing.trans closes)]
      | some size =>
        have made : blockOf? (Source.ofText t) spans heading kind = some _ := blockOf?_withBody e opens closes
        have uncommented := plain _ made
        rw [made, blockOf?_withBody e' (brace.2 opens) (closing.trans closes), tails.stop]
        exact congrArg some (withBody_seen hφ document kept opens closes
          (shells uncommented.attributes uncommented.positional places) uncommented.members)
    · have made : blockOf? (Source.ofText t) spans heading kind = some _ := blockOf?_shell e opens
      have uncommented := plain _ made
      rw [made, blockOf?_shell e' (brace.not.2 opens)]
      exact congrArg some (shells uncommented.attributes uncommented.positional places)

/-- Texts whose headings are seen as the same have declarations that are seen as the same. -/
theorem blocksOf_seen (hφ : BlankMap φ) {v : View} {t t' : Text}
    (codes : (mask true t').map φ = (mask true t).map φ)
    (kinds : ∀ heading ∈ headings (mask true t),
      declaredKind? (mask true t') heading = declaredKind? (mask true t) heading)
    (each : ∀ heading ∈ headings (mask true t), ∀ kind, declaredKind? (mask true t) heading = some kind →
      (blockOf? (Source.ofText t') (namespaces (mask true t)) heading kind).map (TypeBlock.seen v) =
        (blockOf? (Source.ofText t) (namespaces (mask true t)) heading kind).map (TypeBlock.seen v)) :
    (blocksOf t').map (TypeBlock.seen v) = (blocksOf t).map (TypeBlock.seen v) := by
  have found : headings (mask true t') = headings (mask true t) := by
    rw [← hφ.headings_map, codes, hφ.headings_map]
  have spans : namespaces (mask true t') = namespaces (mask true t) := by
    rw [← hφ.namespaces_map, codes, hφ.namespaces_map]
  simp only [blocksOf, Source.code_ofText, found, spans, List.map_filterMap]
  refine List.filterMap_congr fun heading mem => ?_
  rw [kinds heading mem]
  cases kind : declaredKind? (mask true t) heading with
  | none => rfl
  | some kind' => exact each heading mem kind' kind

end

end EndpointSurvey
