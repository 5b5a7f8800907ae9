/-
What later stages read off members, up to the kind of blanks.

Main statement: `membersOf_seen` (the members of a body and of its image are seen as the same).
-/
import EndpointSurvey.Catalog.Description
import EndpointSurvey.Proofs.Attribute.GroupLines
import EndpointSurvey.Proofs.Attribute.Layout
import EndpointSurvey.Proofs.Declaration.Layout

namespace EndpointSurvey

open Lexeme

/-- how a document is seen: what its blanks are taken for, and whether documentation and places count -/
structure View where
  blanks : Char → Char
  docs : Bool
  places : Bool

/-- the documentation that counts -/
def View.doc (v : View) (doc : Option Text) : Option Text := if v.docs then doc else none

/-- what later stages read off a member -/
structure SeenMember where
  signature : Text
  doc : Option Text
  start : Nat
  terminator : Terminator
  /-- it has an attribute group -/
  attributed : Bool
  /-- it has an accessor that clients can call -/
  settable : Bool
  marks : List Attribute

def MemberBlock.seen (v : View) (m : MemberBlock) : SeenMember :=
  { signature := m.signature
    doc := v.doc m.doc
    start := m.start
    terminator := m.terminator
    attributed := !m.attributeText.isEmpty
    settable := EndpointSurvey.settable m.accessorText
    marks := (attributesOf m.attributeText).map (Attribute.seen v.blanks) }

/-- no attribute group of the member holds a comment -/
def MemberBlock.Uncommented (m : MemberBlock) : Prop :=
  ∀ g ∈ attributeGroups (Source.ofText m.attributeText), EndpointSurvey.Uncommented g

instance : DecidablePred MemberBlock.Uncommented := fun m =>
  inferInstanceAs (Decidable (∀ g ∈ attributeGroups (Source.ofText m.attributeText), EndpointSurvey.Uncommented g))

/-! ## Accessors -/

namespace BlankMap

variable {φ : Char → Char}

theorem startsWith_map (h : BlankMap φ) {start : Text} (feed : '\n' ∉ start) (space : ' ' ∉ start) (t : Text) :
    Text.startsWith start (t.map φ) = Text.startsWith start t := by
  unfold Text.startsWith
  induction start generalizing t with
  | nil => simp
  | cons c cs ih =>
    rw [List.mem_cons, not_or] at feed space
    cases t with
    | nil => rfl
    | cons d ds =>
      have same : (c == φ d) = (c == d) := by
        rw [Bool.eq_iff_iff, beq_iff_eq, beq_iff_eq, eq_comm, h.eq_iff (Ne.symm feed.1) (Ne.symm space.1), eq_comm]
      rw [List.map_cons, List.isPrefixOf_cons_cons, List.isPrefixOf_cons_cons, same, ih feed.2 space.2]

theorem marked_map (h : BlankMap φ) (before : Text) : marked (before.map φ) = marked before := by
  have clear : ∀ word ∈ accessWords, '\n' ∉ word.reverse ∧ ' ' ∉ word.reverse := by decide
  unfold marked
  rw [h.head?_any_map (by decide), h.dropWhile_map (by decide)]
  congr 1
  rw [Bool.eq_iff_iff, List.any_eq_true, List.any_eq_true]
  constructor
  · rintro ⟨word, hw, e⟩
    exact ⟨word, hw, by rwa [h.startsWith_map (clear word hw).1 (clear word hw).2] at e⟩
  · rintro ⟨word, hw, e⟩
    exact ⟨word, hw, by rwa [h.startsWith_map (clear word hw).1 (clear word hw).2]⟩

theorem settable_map (h : BlankMap φ) {x x' : Text} (masks : mask true x' = (mask true x).map φ) :
    settable x' = settable x := by
  unfold settable
  rw [masks, h.runs_map, List.any_map]
  congr 1
  funext run
  simp only [Function.comp, h.marked_map]

end BlankMap

/-! ## Attributes -/

section
variable {φ : Char → Char} {s s' : Source}

theorem groupContents_within (s : Source) : ∀ content ∈ Attribute.groupContents s, content <:+: s.raw := by
  fun_induction Attribute.groupContents s with
  | case1 => simp
  | case2 => simp
  | case3 s cs i _ _ ih =>
    intro content hc
    rcases List.mem_cons.1 hc with rfl | hc
    · exact (List.take_prefix _ _).isInfix.trans (List.drop_suffix _ _).isInfix
    · exact (ih content hc).trans (List.drop_suffix _ _).isInfix
  | case4 s c cs _ _ ih =>
    intro content hc
    exact (ih content hc).trans (List.drop_suffix _ _).isInfix

/-- the attributes between the brackets of some groups -/
def contentAttributes (contents : List Text) : List Attribute :=
  contents.flatMap fun content => (splitTop ',' false content).filterMap Attribute.ofPart?

theorem attributesOf_contents (t : Text) :
    attributesOf t = contentAttributes (Attribute.groupContents (Source.ofText t)) := rfl

theorem contentAttributes_seen (hφ : BlankMap φ) {contents : List Text}
    (kept : ∀ content ∈ contents, EscapesKept φ content) :
    (contentAttributes (contents.map (List.map φ))).map (Attribute.seen φ) =
      (contentAttributes contents).map (Attribute.seen φ) := by
  unfold contentAttributes
  rw [List.flatMap_map, List.map_flatMap, List.map_flatMap]
  exact List.flatMap_congr fun content hc => hφ.contentAttributes_map (kept content hc)

/-- The attributes of a text whose groups hold no comment are seen as those of its image. -/
theorem attributesOf_seen (hφ : BlankMap φ) {x x' : Text} (fades : TextFades φ x x') (kept : EscapesKept φ x)
    (plain : ∀ g ∈ attributeGroups (Source.ofText x), Uncommented g) :
    (attributesOf x').map (Attribute.seen φ) = (attributesOf x).map (Attribute.seen φ) := by
  have groups := (groups_faded hφ (fades.ofText hφ) 0 (by rwa [Source.drop_zero])).2
  rw [Source.drop_zero, Source.drop_zero] at groups
  rw [attributesOf_contents, attributesOf_contents, groups]
  exact contentAttributes_seen hφ fun content hc => kept.of_within (groupContents_within _ content hc)

/-! ## Members -/

theorem slice_within (s : Source) (start stop : Nat) : (s.slice start stop).raw <:+: s.raw :=
  (List.take_prefix _ _).isInfix.trans (List.drop_suffix _ _).isInfix

theorem isEmpty_raw (h : Source.Fades φ s s') : s'.raw.isEmpty = s.raw.isEmpty := by
  have width : s'.raw.length = s.raw.length := by
    rw [s'.aligned, h.code_eq, List.length_map, s.aligned]
  rw [Bool.eq_iff_iff, List.isEmpty_iff_length_eq_zero, List.isEmpty_iff_length_eq_zero, width]

theorem leadingBlanks_drop (t : Text) : Text.leadingBlanks (t.drop (Text.leadingBlanks t)) = 0 := by
  unfold Text.leadingBlanks
  induction t with
  | nil => rfl
  | cons c cs ih =>
    by_cases b : blank c = true
    · rw [List.takeWhile_cons_of_pos b]
      exact ih
    · rw [List.takeWhile_cons_of_neg b, List.length_nil, List.drop_zero, List.takeWhile_cons_of_neg b]
      rfl

/-- The groups of a heading end, and its signature starts, where sources beside each other are cut. -/
theorem headingGroups_fades (h : Source.Fades φ s s') {groupsStop signatureStart : Nat}
    (found : leadingGroups (Text.leadingBlanks s.code) (Text.leadingBlanks s.code)
      (s.code.drop (Text.leadingBlanks s.code)) = .ok (groupsStop, signatureStart)) :
    Source.Fades φ (s.slice (Text.leadingBlanks s.code) groupsStop) (s'.slice (Text.leadingBlanks s.code) groupsStop) ∧
      Source.Fades φ (s.drop signatureStart) (s'.drop signatureStart) := by
  have none := leadingBlanks_drop s.code
  have front := h.dropBlanks
  generalize Text.leadingBlanks s.code = lead at *
  obtain ⟨low, stop, start⟩ := leadingGroups_place found (by rw [Nat.sub_self, List.drop_zero]) (Nat.le_refl lead)
    (by rw [Nat.sub_self]; exact CutAt.start) (by rw [Nat.sub_self, List.drop_zero, none, Nat.add_zero])
  refine ⟨front.take stop, ?_⟩
  have rest := front.drop stop
  rw [Source.drop_drop, Source.drop_drop, Nat.add_sub_cancel' low] at rest
  rw [start, List.drop_drop, Nat.add_sub_cancel' low, ← Source.drop_drop, ← Source.drop_drop]
  exact rest.dropBlanks

/-- The member cut from a body, and the one cut from its image, are seen as the same. -/
theorem memberOf?_seen (hφ : BlankMap φ) (h : Source.Fades φ s s') (kept : EscapesKept φ s.raw) (offset : Nat)
    {cut : MemberCut} (placed : CutPlaces s.code cut)
    (plain : ∀ m, memberOf? offset s cut = some m → m.Uncommented) (places : Bool) :
    (memberOf? offset s' cut).map (MemberBlock.seen ⟨φ, false, places⟩) =
      (memberOf? offset s cut).map (MemberBlock.seen ⟨φ, false, places⟩) := by
  have heading := h.take placed.heading
  have lead : Text.leadingBlanks (s'.take cut.headingStop).code = Text.leadingBlanks (s.take cut.headingStop).code := by
    rw [heading.code_eq, hφ.leadingBlanks_map]
  have width : (s'.take cut.headingStop).length = (s.take cut.headingStop).length := by
    rw [Source.length, heading.code_eq, List.length_map, Source.length]
  have groups : ∀ n, leadingGroups n n ((s'.take cut.headingStop).code.drop n) =
      leadingGroups n n ((s.take cut.headingStop).code.drop n) := by
    intro n
    rw [heading.code_eq, ← List.map_drop, hφ.leadingGroups_map]
  unfold memberOf? at plain ⊢
  simp only [lead, width, groups] at plain ⊢
  split
  · rfl
  · next read =>
    rw [if_neg read] at plain
    cases found : leadingGroups (Text.leadingBlanks (s.take cut.headingStop).code)
        (Text.leadingBlanks (s.take cut.headingStop).code)
        ((s.take cut.headingStop).code.drop (Text.leadingBlanks (s.take cut.headingStop).code)) with
    | error place => rfl
    | ok p =>
      obtain ⟨groupsStop, signatureStart⟩ := p
      simp only [found] at plain ⊢
      obtain ⟨attributed, signed⟩ := headingGroups_fades heading found
      have part := (slice_within (s.take cut.headingStop) (Text.leadingBlanks (s.take cut.headingStop).code)
        groupsStop).trans (List.take_prefix cut.headingStop s.raw).isInfix
      have marks := attributesOf_seen hφ attributed.raw_fades (kept.of_within part) (plain _ rfl)
      have signature := signed.raw_fades.mask_eq hφ false
      simp only [Option.map_some, MemberBlock.seen, marks, isEmpty_raw attributed, signature, hφ.collapse_map]
      rw [Option.some.injEq, SeenMember.mk.injEq]
      refine ⟨rfl, rfl, rfl, rfl, rfl, ?_, rfl⟩
      -- what follows a heading in braces is read for its accessors only
      cases block : cut.blockStart with
      | none => rfl
      | some start =>
        obtain ⟨opens, le⟩ := placed.block start block
        exact hφ.settable_map (((h.drop opens).take (placed.stop.shift le)).raw_fades.mask_eq hφ true)

/-- The members of a body and of its image are seen as the same. -/
theorem membersOf_seen (hφ : BlankMap φ) (h : Source.Fades φ s s') (kept : EscapesKept φ s.raw) (offset : Nat)
    (plain : ∀ m ∈ membersOf offset s, m.Uncommented) (places : Bool) :
    (membersOf offset s').map (MemberBlock.seen ⟨φ, false, places⟩) =
      (membersOf offset s).map (MemberBlock.seen ⟨φ, false, places⟩) := by
  unfold membersOf at plain ⊢
  rw [h.code_eq, hφ.memberCutsFrom_map, List.map_filterMap, List.map_filterMap]
  refine List.filterMap_congr fun entry he => ?_
  obtain ⟨passed, cut⟩ := entry
  obtain ⟨front, placed⟩ := memberCutsFrom_cutAt s.code List.drop_zero.symm CutAt.start _ he
  refine memberOf?_seen hφ (h.drop front) (kept.of_within (List.drop_suffix passed s.raw).isInfix) _ placed ?_ places
  intro m hm
  exact plain m (List.mem_filterMap.2 ⟨(passed, cut), he, hm⟩)

end

end EndpointSurvey
