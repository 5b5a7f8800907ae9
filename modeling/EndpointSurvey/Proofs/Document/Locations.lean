/-
Where a document's endpoints stand. The members of a body take stretches of it one after another, and an action stands
at the bracket of its first attributes, so that its location tells its offset. Every declaration looks for its own body,
though, so that two headings in front of one brace share one body, and each of them reports the actions of that body.

Main statements:
- `shared_start` and `SharesBody.members_eq`: declarations have a member at one place only if their headings stand in
  front of one brace, and then they have the same members;
- `endpoint_locations_nodup_iff`: endpoints have distinct locations exactly if no two controllers share a body with an
  action in it;
- `actionAt_of_mem`: the place of an action in the text and in the body of its controller;
- `endpoint_locations_exact`: the locations of all endpoints, controller by controller.
-/
import EndpointSurvey.Proofs.Attribute.GroupLines
import EndpointSurvey.Proofs.Declaration.CutPlace
import EndpointSurvey.Proofs.Declaration.MemberPlace
import EndpointSurvey.Proofs.Declaration.Shifting
import EndpointSurvey.Proofs.Document.Values
import EndpointSurvey.Proofs.Source.Enclosed

namespace EndpointSurvey

/-! ## Locations -/

theorem locate_lt {t : Text} {p q : Nat} (hp : p < q) (hq : q ≤ t.length) : locate t p ≠ locate t q := by
  intro same
  have cut : t.take q = t.take p ++ (t.drop p).take (q - p) := by
    rw [← List.take_add, Nat.add_sub_cancel' (Nat.le_of_lt hp)]
  have width : ((t.drop p).take (q - p)).length = q - p := by
    rw [List.length_take, List.length_drop]
    omega
  simp only [locate, Location.mk.injEq, cut, List.count_append, List.length_append, width] at same
  obtain ⟨lines, columns⟩ := same
  have none : ∀ c ∈ (t.drop p).take (q - p), (c != '\n') = true := by
    have zero : ((t.drop p).take (q - p)).count '\n' = 0 := by omega
    intro c hc
    rw [bne_iff_ne]
    rintro rfl
    exact List.count_eq_zero.1 zero hc
  rw [Text.takeEnd_append_of_all _ none, List.length_append, width, List.length_take] at columns
  have bound : (Text.takeEnd (· != '\n') (t.take p)).length ≤ (t.take p).length := by
    have := congrArg List.length (Text.dropEnd_append_takeEnd (· != '\n') (t.take p))
    rw [List.length_append] at this
    omega
  rw [List.length_take] at bound
  omega

/-- Different offsets of a text are different places. -/
theorem locate_injective {t : Text} {p q : Nat} (hp : p ≤ t.length) (hq : q ≤ t.length)
    (same : locate t p = locate t q) : p = q := by
  rcases Nat.lt_trichotomy p q with h | h | h
  · exact absurd same (locate_lt h hq)
  · exact h
  · exact absurd same.symm (locate_lt h hp)

/-! ## Bodies -/

/-- the members of a declaration are those between a brace and the one that closes it, which ends the declaration -/
structure BodyAt (document : Source) (b : TypeBlock) (brace size : Nat) : Prop where
  start : b.start ≤ brace
  opens : (document.code.drop brace).head? = some '\x7b'
  closes : closing? '\x7b' '\x7d' (document.code.drop brace) = some size
  stop : b.stop = brace + size + 1
  members : b.members = membersOf (brace + 1) ((document.drop brace).slice 1 size)

theorem blockShell_start_le (document : Source) (spans : List NamespaceSpan) (heading : Heading)
    (kind : DeclarationKind) (tail : HeadingTail) :
    (blockShell document spans heading kind tail).start ≤ heading.start := by
  have region : Text.leadingBlanks (document.slice (regionStart document.code heading) heading.start).raw ≤
      heading.start - regionStart document.code heading := by
    refine Nat.le_trans (List.takeWhile_prefix blank).length_le ?_
    rw [Source.raw_slice, List.length_take]
    exact Nat.min_le_left ..
  have low : regionStart document.code heading ≤ heading.start := Nat.sub_le ..
  unfold blockShell
  dsimp only
  omega

/-- A declaration starts at the latest where its heading does. -/
theorem blockOf?_start_le {document : Source} {spans : List NamespaceSpan} {heading : Heading} {kind : DeclarationKind}
    {b : TypeBlock} (h : blockOf? document spans heading kind = some b) : b.start ≤ heading.start := by
  obtain ⟨tail, -, ⟨size, -, -, rfl⟩ | ⟨-, rfl⟩⟩ := blockOf?_cases h
  · exact blockShell_start_le document spans heading kind tail
  · exact blockShell_start_le document spans heading kind tail

/-- A declaration other than an enumeration either has a body or ends at a semicolon. -/
theorem blockOf?_body {document : Source} {spans : List NamespaceSpan} {heading : Heading} {kind : DeclarationKind}
    {b : TypeBlock} (h : blockOf? document spans heading kind = some b) (order : heading.start ≤ heading.stop)
    (structured : b.kind ≠ .enumType) :
    (∃ brace size, BodyAt document b brace size) ∨
      b.members = [] ∧ (document.code.drop (b.stop - 1)).head? = some ';' := by
  have start := Nat.le_trans (blockOf?_start_le h) order
  obtain ⟨tail, found, ⟨size, opens, closes, rfl⟩ | ⟨semicolon, rfl⟩⟩ := blockOf?_cases h
  · left
    exact ⟨tail.stop, size, Nat.le_trans start (headingTail_stop_ge found), opens, closes, rfl,
      TypeBlock.members_withBody structured ..⟩
  · right
    exact ⟨rfl, (headingTail_stop found).resolve_left semicolon⟩

theorem blockOf?_enumeration {document : Source} {spans : List NamespaceSpan} {heading : Heading}
    {kind : DeclarationKind} {b : TypeBlock} (h : blockOf? document spans heading kind = some b)
    (enumeration : b.kind = .enumType) : b.members = [] := by
  obtain ⟨tail, -, ⟨size, -, -, rfl⟩ | ⟨-, rfl⟩⟩ := blockOf?_cases h
  · exact if_pos enumeration
  · rfl

theorem blocksOf_origin {text : Text} {b : TypeBlock} (h : b ∈ blocksOf text) :
    ∃ heading ∈ headings (mask true text), ∃ kind,
      blockOf? (Source.ofText text) (namespaces (mask true text)) heading kind = some b := by
  obtain ⟨heading, mem, found⟩ := List.mem_filterMap.1 h
  obtain ⟨kind, -, found⟩ := Option.bind_eq_some_iff.1 found
  exact ⟨heading, mem, kind, found⟩

/-- A declaration starts inside the document. -/
theorem blocksOf_start_lt {text : Text} {b : TypeBlock} (h : b ∈ blocksOf text) : b.start < text.length := by
  obtain ⟨heading, mem, kind, found⟩ := blocksOf_origin h
  have keyword := (headings_keywordAt _ heading mem).lt
  rw [mask_length] at keyword
  exact Nat.lt_of_le_of_lt (blockOf?_start_le found) keyword

/-- A declaration with members has a body. -/
theorem blocksOf_body {text : Text} {b : TypeBlock} (h : b ∈ blocksOf text) (inhabited : b.members ≠ []) :
    b.kind ≠ .enumType ∧ ∃ brace size, BodyAt (Source.ofText text) b brace size := by
  obtain ⟨heading, mem, kind, found⟩ := blocksOf_origin h
  have structured : b.kind ≠ .enumType := fun e => inhabited (blockOf?_enumeration found e)
  exact ⟨structured,
    (blockOf?_body found (headings_start_le_stop mem) structured).resolve_right fun e => inhabited e.1⟩

/-- no brace is left open between the character after a place and another place -/
def LevelFrom (code : Text) (brace place : Nat) : Prop :=
  bracesPair ((code.drop (brace + 1)).take (place - (brace + 1)))

theorem not_levelFrom_both {code : Text} {brace brace' place : Nat} (opens : (code.drop brace').head? = some '\x7b')
    (order : brace < brace') (before : brace' < place) (inner : LevelFrom code brace' place) :
    ¬ LevelFrom code brace place := by
  obtain ⟨rest, whole⟩ := List.head?_eq_some_iff.1 opens
  have tail : code.drop (brace' + 1) = rest := by
    rw [← List.drop_drop, whole]
    rfl
  have split : (code.drop (brace + 1)).take (place - (brace + 1)) =
      (code.drop (brace + 1)).take (brace' - (brace + 1)) ++
        '\x7b' :: (code.drop (brace' + 1)).take (place - (brace' + 1)) := by
    rw [show place - (brace + 1) = (brace' - (brace + 1)) + ((place - (brace' + 1)) + 1) by omega, List.take_add,
      List.drop_drop, show brace + 1 + (brace' - (brace + 1)) = brace' by omega, whole, List.take_succ_cons, tail]
  unfold LevelFrom
  rw [split]
  exact nesting_inner_ne inner

/-- A place at level with two opening braces before it is at level with one brace. -/
theorem brace_unique {code : Text} {brace brace' place : Nat} (opens : (code.drop brace).head? = some '\x7b')
    (opens' : (code.drop brace').head? = some '\x7b') (before : brace < place) (before' : brace' < place)
    (level : LevelFrom code brace place) (level' : LevelFrom code brace' place) : brace = brace' := by
  rcases Nat.lt_trichotomy brace brace' with h | h | h
  · exact absurd level (not_levelFrom_both opens' h before' level')
  · exact h
  · exact absurd level' (not_levelFrom_both opens h before level)

namespace BodyAt

variable {document : Source} {b c : TypeBlock} {brace brace' size size' : Nat}

/-- the code from the brace on: the body, the brace that closes it, and what follows -/
theorem body_code (h : BodyAt document b brace size) :
    ∃ inner rest, document.code.drop (brace + 1) = inner ++ '\x7d' :: rest ∧ size = inner.length + 1 ∧
      bracesPair inner ∧ ((document.drop brace).slice 1 size).code = inner := by
  obtain ⟨rest, whole⟩ := List.head?_eq_some_iff.1 h.opens
  have closes := h.closes
  rw [whole] at closes
  obtain ⟨inner, after, rfl, size, pairs⟩ := (closing?_eq_some_iff (by decide)).1 closes
  have tail : document.code.drop (brace + 1) = inner ++ '\x7d' :: after := by
    rw [← List.drop_drop, whole]
    rfl
  refine ⟨inner, after, tail, size, pairs, ?_⟩
  rw [Source.code_slice, Source.code_drop, List.drop_drop, tail, size, Nat.add_sub_cancel]
  exact List.take_left

theorem level_stop (h : BodyAt document b brace size) : brace < brace + size ∧ LevelFrom document.code brace (brace + size) := by
  obtain ⟨inner, rest, whole, rfl, pairs, -⟩ := h.body_code
  refine ⟨by omega, ?_⟩
  unfold LevelFrom
  rw [whole, show brace + (inner.length + 1) - (brace + 1) = inner.length by omega, List.take_left]
  exact pairs

theorem level_member (h : BodyAt document b brace size) {m : MemberBlock} (hm : m ∈ b.members) :
    brace < m.start ∧ m.start < document.length ∧ LevelFrom document.code brace m.start := by
  obtain ⟨inner, rest, whole, rfl, pairs, code⟩ := h.body_code
  rw [h.members] at hm
  obtain ⟨low, high, level⟩ := membersOf_place (by rw [code]; exact pairs) m hm
  rw [code] at high level
  have total := congrArg List.length whole
  rw [List.length_drop, List.length_append, List.length_cons] at total
  refine ⟨low, by unfold Source.length; omega, ?_⟩
  unfold LevelFrom
  rw [whole, List.take_append_of_le_length (by omega)]
  exact level

/-- A member takes a stretch of the body. -/
theorem member_bounds (h : BodyAt document b brace size) {m : MemberBlock} (hm : m ∈ b.members) :
    brace < m.start ∧ m.start < m.stop ∧ m.stop < b.stop := by
  obtain ⟨inner, rest, -, size, -, code⟩ := h.body_code
  rw [h.members] at hm
  have bounds := membersOf_bounds m hm
  rw [Source.length, code] at bounds
  have stop := h.stop
  omega

/-- The attributes of a member are written where it starts. -/
theorem member_attributes (h : BodyAt document b brace size) {m : MemberBlock} (hm : m ∈ b.members)
    (marked : m.attributeText ≠ []) :
    (document.code.drop m.start).head? = some '[' ∧ m.attributeText <+: document.raw.drop m.start := by
  have low := (h.member_bounds hm).1
  rw [h.members] at hm
  obtain ⟨opens, written⟩ := membersOf_attributes hm marked
  rw [Source.code_slice, Source.code_drop, List.drop_drop, List.drop_take, List.drop_drop,
    Nat.add_sub_cancel' low] at opens
  rw [Source.raw_slice, Source.raw_drop, List.drop_drop, List.drop_take, List.drop_drop,
    Nat.add_sub_cancel' low] at written
  refine ⟨?_, written.trans (List.take_prefix _ _)⟩
  obtain ⟨cs, front⟩ := List.head?_eq_some_iff.1 opens
  rw [← List.take_append_drop (size - 1 - (m.start - (brace + 1))) (document.code.drop m.start), front]
  rfl

theorem stop_head (h : BodyAt document b brace size) : (document.code.drop (b.stop - 1)).head? = some '\x7d' := by
  obtain ⟨inner, rest, whole, size, -, -⟩ := h.body_code
  rw [h.stop, size, show brace + (inner.length + 1) + 1 - 1 = brace + 1 + inner.length by omega, ← List.drop_drop, whole,
    List.drop_left]
  rfl

theorem eq_of_brace (h : BodyAt document b brace size) (h' : BodyAt document c brace size') :
    b.stop = c.stop ∧ b.members = c.members := by
  have same : size = size' := Option.some.inj (h.closes.symm.trans h'.closes)
  subst same
  exact ⟨h.stop.trans h'.stop.symm, h.members.trans h'.members.symm⟩

end BodyAt

/-- **Shared members.** Declarations that end at different places have no member that starts at the same place. -/
theorem shared_start {text : Text} {b c : TypeBlock} (hb : b ∈ blocksOf text) (hc : c ∈ blocksOf text)
    {m n : MemberBlock} (hm : m ∈ b.members) (hn : n ∈ c.members) (same : m.start = n.start) : b.stop = c.stop := by
  obtain ⟨-, brace, size, body⟩ := blocksOf_body hb (List.ne_nil_of_mem hm)
  obtain ⟨-, brace', size', body'⟩ := blocksOf_body hc (List.ne_nil_of_mem hn)
  obtain ⟨before, -, level⟩ := body.level_member hm
  obtain ⟨before', -, level'⟩ := body'.level_member hn
  rw [← same] at before' level'
  obtain rfl := brace_unique body.opens body'.opens before before' level level'
  exact (body.eq_of_brace body').1

/-- two declarations whose headings stand in front of one brace -/
def SharesBody (b c : TypeBlock) : Prop := b.kind ≠ .enumType ∧ c.kind ≠ .enumType ∧ b.stop = c.stop

/-- **One body.** Declarations that end at one place have the same members, enumerations apart. -/
theorem SharesBody.members_eq {text : Text} {b c : TypeBlock} (shared : SharesBody b c) (hb : b ∈ blocksOf text)
    (hc : c ∈ blocksOf text) : b.members = c.members := by
  obtain ⟨structured, structured', same⟩ := shared
  obtain ⟨heading, mem, kind, found⟩ := blocksOf_origin hb
  obtain ⟨heading', mem', kind', found'⟩ := blocksOf_origin hc
  have first := blockOf?_body found (headings_start_le_stop mem) structured
  have second := blockOf?_body found' (headings_start_le_stop mem') structured'
  rcases first with ⟨brace, size, body⟩ | ⟨none, semicolon⟩
  · rcases second with ⟨brace', size', body'⟩ | ⟨-, semicolon'⟩
    · obtain ⟨before, level⟩ := body.level_stop
      obtain ⟨before', level'⟩ := body'.level_stop
      have place : brace + size = brace' + size' := by
        have := body.stop
        have := body'.stop
        omega
      rw [← place] at before' level'
      obtain rfl := brace_unique body.opens body'.opens before before' level level'
      exact (body.eq_of_brace body').2
    · rw [← same, body.stop_head] at semicolon'
      cases semicolon'
  · rcases second with ⟨brace', size', body'⟩ | ⟨none', -⟩
    · rw [same, body'.stop_head] at semicolon
      cases semicolon
    · exact none.trans none'.symm

/-! ## Endpoints -/

theorem members_start_lt {text : Text} {b : TypeBlock} (hb : b ∈ blocksOf text) {m : MemberBlock} (hm : m ∈ b.members) :
    m.start < text.length := by
  obtain ⟨-, brace, size, body⟩ := blocksOf_body hb (List.ne_nil_of_mem hm)
  have inside := (body.level_member hm).2.1
  rwa [Source.length, Source.code_ofText, mask_length] at inside

theorem members_sorted {text : Text} {b : TypeBlock} (hb : b ∈ blocksOf text) :
    b.members.Pairwise fun m n => m.start < n.start := by
  by_cases none : b.members = []
  · rw [none]
    exact List.Pairwise.nil
  · obtain ⟨-, brace, size, body⟩ := blocksOf_body hb none
    rw [body.members]
    exact membersOf_sorted _ _

/-- the location of each action among some members -/
def actionLocations (text : Text) (members : List MemberBlock) : List Location :=
  (members.filter (·.isAction)).map fun m => locate text m.start

theorem map_location_endpoints (text : Text) (catalog : Catalog) (controller : Controller) (members : List MemberBlock) :
    (members.filterMap (endpointOf? text catalog controller)).map (·.location) = actionLocations text members := by
  induction members with
  | nil => rfl
  | cons m ms ih =>
    have action := endpointOf?_isSome text catalog controller m
    unfold actionLocations at ih ⊢
    cases found : endpointOf? text catalog controller m with
    | none =>
      rw [found, Option.isSome_none] at action
      rw [List.filterMap_cons_none found, ih, List.filter_cons_of_neg (by rw [← action]; exact Bool.false_ne_true)]
    | some e =>
      rw [found, Option.isSome_some] at action
      rw [List.filterMap_cons_some found, List.filter_cons_of_pos action.symm, List.map_cons, List.map_cons, ih,
        endpointOf?_location found]

theorem endpoint_locations (text : Text) :
    (readDocument text).value.endpoints.map (·.location) =
      (controllerBlocks text).flatMap fun b => actionLocations text b.members := by
  rw [readDocument_endpoints, List.map_flatMap]
  congr 1
  funext b
  exact map_location_endpoints ..

theorem actionLocations_nodup {text : Text} {b : TypeBlock} (hb : b ∈ blocksOf text) :
    (actionLocations text b.members).Nodup := by
  unfold actionLocations List.Nodup
  rw [List.pairwise_map]
  refine ((members_sorted hb).sublist List.filter_sublist).imp_of_mem fun {m n} hm hn order => ?_
  exact locate_lt order (Nat.le_of_lt (members_start_lt hb (List.mem_filter.1 hn).1))

/-- Two declarations report an action at one place exactly if they share a body with an action in it. -/
theorem actionLocations_disjoint_iff {text : Text} {b c : TypeBlock} (hb : b ∈ blocksOf text) (hc : c ∈ blocksOf text) :
    (∀ x ∈ actionLocations text b.members, ∀ y ∈ actionLocations text c.members, x ≠ y) ↔
      (SharesBody b c → ∀ m ∈ b.members, m.isAction = false) := by
  unfold actionLocations
  constructor
  · intro apart shared m hm
    by_contra action
    rw [Bool.not_eq_false] at action
    have hm' : m ∈ c.members := shared.members_eq hb hc ▸ hm
    exact apart _ (List.mem_map_of_mem (List.mem_filter.2 ⟨hm, action⟩)) _
      (List.mem_map_of_mem (List.mem_filter.2 ⟨hm', action⟩)) rfl
  · intro apart x hx y hy same
    obtain ⟨m, hm, rfl⟩ := List.mem_map.1 hx
    obtain ⟨n, hn, rfl⟩ := List.mem_map.1 hy
    obtain ⟨hm, action⟩ := List.mem_filter.1 hm
    obtain ⟨hn, -⟩ := List.mem_filter.1 hn
    have start : m.start = n.start :=
      locate_injective (Nat.le_of_lt (members_start_lt hb hm)) (Nat.le_of_lt (members_start_lt hc hn)) same
    have shared : SharesBody b c :=
      ⟨(blocksOf_body hb (List.ne_nil_of_mem hm)).1, (blocksOf_body hc (List.ne_nil_of_mem hn)).1,
        shared_start hb hc hm hn start⟩
    rw [apart shared m hm] at action
    cases action

/-- **Actions reported once.** The endpoints of a document have distinct locations exactly if no two of its controllers
share a body that holds an action. -/
theorem endpoint_locations_nodup_iff (text : Text) :
    ((readDocument text).value.endpoints.map (·.location)).Nodup ↔
      ((typeBlocks text).value.filter (·.isController)).Pairwise fun b c =>
        SharesBody b c → ∀ m ∈ b.members, m.isAction = false := by
  have read : ∀ b ∈ controllerBlocks text, b ∈ blocksOf text := fun b hb => (List.mem_filter.1 hb).1
  rw [endpoint_locations, List.Nodup, List.pairwise_flatMap, value_typeBlocks]
  constructor
  · rintro ⟨-, apart⟩
    exact apart.imp_of_mem fun {b c} hb hc => (actionLocations_disjoint_iff (read b hb) (read c hc)).1
  · intro apart
    refine ⟨fun b hb => actionLocations_nodup (read b hb), ?_⟩
    exact apart.imp_of_mem fun {b c} hb hc => (actionLocations_disjoint_iff (read b hb) (read c hc)).2

/-! ## Actions and their places -/

/-- Lexing does not change a bracket that a text starts with. -/
theorem mask_bracket (cs : Text) : (mask true ('[' :: cs)).head? = some '[' := by
  rw [mask, lex, Lexeme.lexFrom_none rfl]
  rfl

/-- Attributes that start with a bracket are first those of the group between it and the bracket that closes it. -/
theorem attributes_group {t : Text} (opens : t.head? = some '[') (filled : attributesOf t ≠ []) :
    ∃ content rest, t = '[' :: (content ++ ']' :: rest) ∧
      (splitTop ',' false content).filterMap Attribute.ofPart? <+: attributesOf t := by
  obtain ⟨cs, rfl⟩ := List.head?_eq_some_iff.1 opens
  have head : (Source.ofText ('[' :: cs)).code.head? = some '[' := mask_bracket cs
  obtain ⟨code, whole⟩ := List.head?_eq_some_iff.1 head
  cases found : closing? '[' ']' (Source.ofText ('[' :: cs)).code with
  | none =>
    rw [attributesOf, (groups_of_open head found).2] at filled
    exact absurd rfl filled
  | some i =>
    have groups := (groups_of_closed head found).2
    rw [whole] at found
    refine ⟨_, _, Source.raw_of_closing (Source.blanked_ofText _) (by decide) (by decide) whole found, ?_⟩
    rw [attributesOf, groups, List.flatMap_cons]
    exact List.prefix_append _ _

/-- where an action stands: at one offset of the text, the bracket of its first attribute group, behind the brace that
opens the body of its controller and in front of the one that closes it -/
structure ActionAt (text : Text) (controller : Controller) (m : MemberBlock) (e : Endpoint) : Prop where
  owner : e.controller = controller.name
  location : ∀ offset ≤ text.length, locate text offset = e.location ↔ offset = m.start
  bracket : ∃ content rest, text.drop m.start = '[' :: (content ++ ']' :: rest) ∧
    (Attribute.readGroup e.location content).value <+: (attributes e.location m.attributeText).value
  body : ∃ brace, text[brace]? = some '\x7b' ∧ text[controller.stop - 1]? = some '\x7d' ∧
    controller.start ≤ brace ∧ brace < m.start ∧ m.start < m.stop ∧ m.stop < controller.stop

/-- the actions that a declaration writes: each member that has an endpoint, with its endpoint -/
def actionsOf (text : Text) (catalog : Catalog) (b : TypeBlock) : List (MemberBlock × Endpoint) :=
  b.members.filterMap fun m => (readEndpoint text catalog (readController text b).value m).value.map (m, ·)

theorem actionsOf_endpoints (text : Text) (catalog : Catalog) (b : TypeBlock) :
    (actionsOf text catalog b).map (·.2) = b.members.filterMap (endpointOf? text catalog (controllerOf b)) := by
  simp only [actionsOf, List.map_filterMap, Option.map_map, value_readEndpoint, value_readController,
    Function.comp_def, Option.map_id']

/-- An action has attributes. -/
theorem MemberBlock.action?_marked {m : MemberBlock} (h : m.action?.isSome) :
    m.attributeText ≠ [] ∧ attributesOf m.attributeText ≠ [] := by
  unfold MemberBlock.action? at h
  constructor
  · intro none
    simp [none] at h
  · intro none
    simp only [none] at h
    split at h <;> cases h

theorem endpointOf?_controller {text : Text} {catalog : Catalog} {controller : Controller} {m : MemberBlock}
    {e : Endpoint} (h : endpointOf? text catalog controller m = some e) : e.controller = controller.name := by
  obtain ⟨⟨marks, verbMark, verb, signature⟩, -, rfl⟩ := Option.map_eq_some_iff.1 h
  simp only [buildEndpoint, Traced.value_bind, Traced.value_pure]

/-- An action stands at its place. -/
theorem actionAt_of_mem {text : Text} {catalog : Catalog} {b : TypeBlock} (hb : b ∈ blocksOf text)
    {a : MemberBlock × Endpoint} (ha : a ∈ actionsOf text catalog b) :
    ActionAt text (readController text b).value a.1 a.2 := by
  obtain ⟨m, hm, found⟩ := List.mem_filterMap.1 ha
  obtain ⟨e, read, rfl⟩ := Option.map_eq_some_iff.1 found
  rw [value_readEndpoint] at read
  obtain ⟨-, brace, size, body⟩ := blocksOf_body hb (List.ne_nil_of_mem hm)
  obtain ⟨low, filled, high⟩ := body.member_bounds hm
  have inside := members_start_lt hb hm
  have place := endpointOf?_location read
  obtain ⟨marked, marks⟩ : m.attributeText ≠ [] ∧ attributesOf m.attributeText ≠ [] := by
    apply MemberBlock.action?_marked
    rw [← MemberBlock.isAction, ← endpointOf?_isSome text catalog, read]
    rfl
  have written : ∀ {i : Nat} {c : Char}, c ≠ ' ' → ((Source.ofText text).code.drop i).head? = some c →
      text[i]? = some c := by
    intro i c visible shown
    rw [List.head?_drop] at shown
    exact (Source.blanked_ofText text).getElem? visible shown
  obtain ⟨shown, front⟩ := body.member_attributes hm marked
  obtain ⟨after, split⟩ := front
  have first : m.attributeText.head? = some '[' := by
    obtain ⟨c, cs, attributes⟩ := List.exists_cons_of_ne_nil marked
    have here := written (by decide) shown
    rw [← List.head?_drop, ← Source.raw_ofText text, ← split, attributes] at here
    rw [attributes]
    exact here
  obtain ⟨content, rest, group, leading⟩ := attributes_group first marks
  refine ⟨endpointOf?_controller read, fun offset within => ?_, ⟨content, rest ++ after, ?_, ?_⟩,
    ⟨brace, written (by decide) body.opens, written (by decide) body.stop_head, body.start, low, filled, high⟩⟩
  · rw [place]
    exact ⟨locate_injective within (Nat.le_of_lt inside), fun same => by rw [same]⟩
  · rw [← Source.raw_ofText text, ← split, group]
    simp only [List.cons_append, List.append_assoc]
  · rw [Attribute.value_readGroup, value_attributes]
    exact leading

theorem actionsOf_apart {text : Text} {catalog : Catalog} {b : TypeBlock} (hb : b ∈ blocksOf text) :
    (actionsOf text catalog b).Pairwise fun a a' => a.1.start < a'.1.start ∧ a.1.stop ≤ a'.1.start := by
  have members : b.members.Pairwise fun m n => m.start < n.start ∧ m.stop ≤ n.start := by
    by_cases none : b.members = []
    · rw [none]
      exact List.Pairwise.nil
    · obtain ⟨-, brace, size, body⟩ := blocksOf_body hb none
      refine (members_sorted hb).and ?_
      rw [body.members]
      exact membersOf_apart _ _
  unfold actionsOf
  rw [List.pairwise_filterMap]
  refine members.imp fun {m n} apart a ha a' ha' => ?_
  obtain ⟨e, -, rfl⟩ := Option.map_eq_some_iff.1 ha
  obtain ⟨e', -, rfl⟩ := Option.map_eq_some_iff.1 ha'
  exact apart

/-- **Exact locations.** The endpoints of a document are those of the actions of its controllers, in order. The location
of an action tells one offset of the text, that of the bracket which opens its first attribute group, inside the body of
its controller. The actions of one controller stand one after another, each behind the end of the one before it. -/
theorem endpoint_locations_exact (text : Text) :
    let document := (readDocument text).value
    let controllers := (typeBlocks text).value.filter (·.isController)
    document.controllers = controllers.map (fun b => (readController text b).value) ∧
      document.endpoints = controllers.flatMap (fun b => (actionsOf text document.catalog b).map (·.2)) ∧
      ∀ b ∈ controllers,
        (∀ a ∈ actionsOf text document.catalog b, ActionAt text (readController text b).value a.1 a.2) ∧
          (actionsOf text document.catalog b).Pairwise fun a a' => a.1.start < a'.1.start ∧ a.1.stop ≤ a'.1.start := by
  intro document controllers
  have read : controllers = controllerBlocks text := congrArg _ (value_typeBlocks text)
  refine ⟨?_, ?_, fun b hb => ?_⟩
  · rw [read, readDocument_controllers]
    simp only [value_readController]
  · rw [read, readDocument_endpoints]
    simp only [actionsOf_endpoints]
    rfl
  · rw [read] at hb
    have declared : b ∈ blocksOf text := List.mem_of_mem_filter hb
    exact ⟨fun a ha => actionAt_of_mem declared ha, actionsOf_apart declared⟩

end EndpointSurvey
