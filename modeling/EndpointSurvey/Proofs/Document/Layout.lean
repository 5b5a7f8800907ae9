/-
Layout and what is read off a document: spaces made line feeds and line feeds made spaces change nothing but blanks inside
texts kept as written, and places, as long as they change no decision where a declaration starts.

Main statements: `blockOf?_clear` (in an unbroken text no comment stands in what is read as written, and nothing is
documented), `readDocument_relaid`, and `layout_shows` (the ways in which layout does show).
-/
import EndpointSurvey.Proofs.Declaration.Fading
import EndpointSurvey.Proofs.Document.Seen
import EndpointSurvey.Proofs.Source.Relaying

namespace EndpointSurvey

open Lexeme

/-! ## Attribute groups -/

theorem groups_clear {s : Source} (h : s.Clear) (n : Nat) : ∀ g ∈ attributeGroups (s.drop n), Uncommented g := by
  generalize rest : s.drop n = z
  fun_induction attributeGroups z generalizing n with
  | case1 => intro g hg; cases hg
  | case2 z cs bracket found =>
    have clear := h.drop (CutAt.before (by rw [← Source.code_drop, rest, bracket]; rfl) (by decide))
    rw [rest] at clear
    intro g hg
    obtain rfl := List.mem_singleton.1 hg
    exact clear.uncommented
  | case3 z cs i bracket found ih =>
    have opens : z.code.head? = some '[' := by rw [bracket]; rfl
    have closes : closing? '[' ']' z.code = some i := by rwa [bracket]
    have clear := h.drop (CutAt.before (by rw [← Source.code_drop, rest, opens]) (by decide))
    rw [rest] at clear
    intro g hg
    rcases List.mem_cons.1 hg with rfl | hg
    · exact (clear.take (CutAt.after (closing?_head (by decide) opens closes) (by decide))).uncommented
    · exact ih (n + (i + 1)) (by rw [← rest, Source.drop_drop]) g hg
  | case4 z c cs letter other ih => exact ih (n + 1) (by rw [← rest, Source.drop_drop])

/-- Groups on lines of their own hold no comment if none of them does. -/
theorem groups_join_uncommented {s : Source} (h : s.Clear) :
    Uncommented (Text.join "\n" (attributeGroups s)) := by
  have plain := groups_clear h 0
  have closed := groups_closed h.whole 0
  rw [Source.drop_zero] at plain closed
  intro body mem
  rw [lex_join closed] at mem
  generalize attributeGroups s = groups at plain mem
  clear closed
  induction groups with
  | nil => cases mem
  | cons g gs ih =>
    cases gs with
    | nil => exact plain g List.mem_cons_self body (by simpa [List.intercalate] using mem)
    | cons g' gs =>
      simp only [List.intercalate, List.map_cons, List.intersperse_cons_cons, List.flatten_cons, List.mem_append] at mem
      rcases mem with first | feed | others
      · exact plain g List.mem_cons_self body first
      · exact absurd (List.mem_singleton.1 feed) (by simp)
      · exact ih (fun x hx => plain x (List.mem_cons_of_mem _ hx)) others

/-! ## Members -/

/-- The member that a cut makes in an unbroken body holds no comment, and none documents it. -/
theorem memberOf?_clear {s : Source} (h : s.Clear) {offset : Nat} {cut : MemberCut} (placed : CutPlaces s.code cut)
    {m : MemberBlock} (found : memberOf? offset s cut = some m) : m.Uncommented ∧ m.doc = none := by
  have heading := h.take placed.heading
  have front := heading.dropBlanks
  have none := leadingBlanks_drop (s.take cut.headingStop).code
  unfold memberOf? at found
  simp only at found
  split at found
  · cases found
  · split at found
    · cases found
    · next groupsStop signatureStart groups =>
      cases found
      generalize lead_ : Text.leadingBlanks (s.take cut.headingStop).code = lead at *
      obtain ⟨low, stop, start⟩ := leadingGroups_place groups (by rw [Nat.sub_self, List.drop_zero]) (Nat.le_refl lead)
        (by rw [Nat.sub_self]; exact CutAt.start) (by rw [Nat.sub_self, List.drop_zero, none, Nat.add_zero])
      constructor
      · have part := front.take stop
        show ∀ g ∈ attributeGroups (Source.ofText ((s.take cut.headingStop).slice lead groupsStop).raw), Uncommented g
        rw [Source.slice, ← part.whole.eq_ofText]
        have plain := groups_clear part 0
        rwa [Source.drop_zero] at plain
      · have blanks : NoSlashes ((s.take cut.headingStop).take lead).raw :=
          heading.no_slashes.of_front (List.take_prefix _ _)
        have groups : NoSlashes ((s.take cut.headingStop).slice lead signatureStart).raw :=
          front.no_slashes.of_front (List.take_prefix _ _)
        show docComment? (_ ++ commentLines _) = _
        rw [commentLines_nil groups, List.append_nil, docComment?_none blanks]

theorem membersOf_clear {s : Source} (h : s.Clear) (offset : Nat) :
    ∀ m ∈ membersOf offset s, m.Uncommented ∧ m.doc = none := by
  intro m hm
  obtain ⟨⟨passed, cut⟩, mem, found⟩ := List.mem_filterMap.1 hm
  obtain ⟨front, placed⟩ := memberCutsFrom_cutAt s.code List.drop_zero.symm CutAt.start _ mem
  exact memberOf?_clear (h.drop front) placed found

/-! ## Declarations -/

/-- The parameter list of a heading is cut at brackets. -/
theorem headingTail_positional {document : Source} {name : Text} {offset : Nat} {tail : HeadingTail}
    (h : headingTail document name offset = .ok tail) {list : Text} (given : tail.positional = some list) :
    ∃ a b, CutAt document.code a ∧ CutAt document.code b ∧ a ≤ b ∧ list = (document.slice a b).raw := by
  unfold headingTail at h
  simp only [bind, Except.bind] at h
  split at h
  · cases h
  · next generic _ =>
    split at h
    · cases h
    · next second found =>
      split at h
      · cases h
      · cases h
        obtain ⟨⟨a, b⟩, parts, rfl⟩ := Option.map_eq_some_iff.1 given
        obtain ⟨parts', after⟩ := second
        obtain rfl : parts' = some (a, b) := parts
        cases read : bracketed '(' ')' document.code
            (if generic.1.isSome then skipBlanks document.code generic.2 else skipBlanks document.code offset) with
        | error e =>
          rw [read] at found
          cases found
        | ok p =>
          rw [read] at found
          cases found
          obtain ⟨first, last, le⟩ := bracketed_places (by decide) (by decide) (by decide) read
          exact ⟨a, b, first, last, le, rfl⟩

/-- The declaration of a heading in an unbroken text holds no comment where it is read as written, and nothing documents
it. -/
theorem blockOf?_clear {t : Text} (h : (Source.ofText t).Clear) {spans : List NamespaceSpan} {heading : Heading}
    (keyword : KeywordAt (mask true t) heading.start) {kind : DeclarationKind} {b : TypeBlock}
    (found : blockOf? (Source.ofText t) spans heading kind = some b) :
    b.Uncommented ∧ b.doc = none ∧ ∀ m ∈ b.members, m.doc = none := by
  have region : (headerRegion (Source.ofText t) heading).Clear :=
    (h.drop (regionStart_cutAt keyword.inside)).take (keyword.cutAt.shift (regionStart_le _ _))
  have attributes := groups_join_uncommented region
  have doc : docComment? (headerRegion (Source.ofText t) heading).raw = none := docComment?_none region.no_slashes
  obtain ⟨tail, read, made⟩ := blockOf?_cases found
  have positional : ∀ list ∈ tail.positional, Uncommented list := by
    intro list given
    obtain ⟨a, b, first, last, le, rfl⟩ := headingTail_positional read given
    exact ((h.drop first).take (last.shift le)).uncommented
  rcases made with ⟨i, opens, closes, rfl⟩ | ⟨-, rfl⟩
  · have rest := h.drop (CutAt.before opens (by decide))
    have front : CutAt ((Source.ofText t).drop tail.stop).code 1 := CutAt.after (n := 0) opens (by decide)
    have closed := closing?_head (by decide) opens closes
    have long : 1 ≤ i := Nat.one_le_iff_ne_zero.2 fun none => by
      rw [none, List.drop_zero, opens] at closed
      exact absurd closed (by decide)
    have body := (rest.drop front).take ((CutAt.before closed (by decide)).shift long)
    have members : ∀ m ∈ (if kind = .enumType then []
        else membersOf (tail.stop + 1) (((Source.ofText t).drop tail.stop).slice 1 i)), m.Uncommented ∧ m.doc = none := by
      split
      · simp
      · exact membersOf_clear body _
    exact ⟨⟨attributes, positional, fun m hm => (members m hm).1⟩, doc, fun m hm => (members m hm).2⟩
  · exact ⟨⟨attributes, positional, by simp [blockShell]⟩, doc, by simp [blockShell]⟩

/-! ## Documents -/

/-- line feeds are taken for spaces, documentation counts, and places do not -/
def View.unplaced : View := ⟨flat, true, false⟩

section
variable {t t' : Text}

theorem Unbroken.clean (h : Unbroken t) : Lexeme.Clean flat (lex t) := h.clear.whole.clean

theorem Unbroken.fade_eq (h : Unbroken t) : fade flat t = t.map flat :=
  TextFades.eq_map blankMap_flat (Or.inl ⟨h.clean, rfl⟩) h.clear.uncommented

/-- A declaration that nothing documents is seen as such. -/
theorem seen_undocumented {b : TypeBlock} (doc : b.doc = none) (docs : ∀ m ∈ b.members, m.doc = none) :
    b.seen View.unplaced = b.seen ⟨flat, false, false⟩ := by
  have members : b.members.map (MemberBlock.seen View.unplaced) =
      b.members.map (MemberBlock.seen ⟨flat, false, false⟩) := by
    refine List.map_congr_left fun m hm => ?_
    simp only [MemberBlock.seen, docs m hm]
    rfl
  simp only [TypeBlock.seen, members, doc]
  rfl

/-- The declaration of a heading in an unbroken text is seen as the one in its image. -/
theorem Unbroken.blockOf?_seen (h : Unbroken t) {heading : Heading} (mem : heading ∈ headings (mask true t))
    (spans : List NamespaceSpan) (kind : DeclarationKind) :
    (blockOf? (Source.ofText t) spans heading kind).map (TypeBlock.seen View.unplaced) =
      (blockOf? (Source.ofText (t.map flat)) spans heading kind).map (TypeBlock.seen ⟨flat, false, false⟩) := by
  have keyword := headings_keywordAt _ heading mem
  have clear : ∀ b, blockOf? (Source.ofText t) spans heading kind = some b → _ :=
    fun b found => blockOf?_clear h.clear keyword found
  rw [← h.fade_eq, EndpointSurvey.blockOf?_seen blankMap_flat h.clean h.escapesKept spans keyword kind
    (fun b found => (clear b found).1) false]
  cases found : blockOf? (Source.ofText t) spans heading kind with
  | none => rfl
  | some b =>
    obtain ⟨-, doc, docs⟩ := clear b found
    exact congrArg some (seen_undocumented doc docs)

/-- **Layout.** Let a text without comments and directives, whose literals close on their lines, be laid out anew, so
that the same type keywords start declarations. Then both texts yield the same controllers, but for the
offsets where they start, the same endpoints, but for their places, and the same types, up to the kind of blanks in texts
kept as written. -/
theorem readDocument_relaid (unbroken : Unbroken t) (steps : Relaid t t')
    (kinds : ∀ heading ∈ headings (mask true t),
      declaredKind? (mask true t') heading = declaredKind? (mask true t) heading) :
    (readDocument t').value.controllers.map (Controller.seen View.unplaced) =
        (readDocument t).value.controllers.map (Controller.seen View.unplaced) ∧
      (readDocument t').value.endpoints.map (Endpoint.seen View.unplaced) =
        (readDocument t).value.endpoints.map (Endpoint.seen View.unplaced) ∧
      (readDocument t').value.catalog.types.map (TypeDescriptor.seen View.unplaced) =
        (readDocument t).value.catalog.types.map (TypeDescriptor.seen View.unplaced) := by
  obtain ⟨unbroken', image⟩ := unbroken.relaid steps
  have codes : (mask true t').map flat = (mask true t).map flat := by
    rw [← mask_fade blankMap_flat unbroken'.clean, ← mask_fade blankMap_flat unbroken.clean, unbroken'.fade_eq,
      unbroken.fade_eq, image]
  have found : headings (mask true t') = headings (mask true t) := by
    rw [← blankMap_flat.headings_map, codes, blankMap_flat.headings_map]
  have blocks : (blocksOf t').map (TypeBlock.seen View.unplaced) = (blocksOf t).map (TypeBlock.seen View.unplaced) := by
    refine blocksOf_seen blankMap_flat codes kinds fun heading mem kind _ => ?_
    rw [unbroken.blockOf?_seen mem, unbroken'.blockOf?_seen (found ▸ mem), image]
  exact readDocument_seen (v := View.unplaced) blankMap_flat blocks fun _ => rfl

end

/-! ## Where layout shows -/

/-- the types of a document up to the kind of blanks -/
def typesUnplaced (t : Text) : List TypeDescriptor :=
  (readDocument t).value.catalog.types.map (TypeDescriptor.seen View.unplaced)

def controllersUnplaced (t : Text) : List Controller :=
  (readDocument t).value.controllers.map (Controller.seen View.unplaced)

/-- two declarations, on lines of their own and on one line -/
def declarations (between : Text) : Text := "class A \x7b\x7d" ++ between ++ "class B \x7b\x7d"

/-- a `#` in code, after a blank -/
def hashAfter (between : Text) : Text := "class A \x7b public" ++ between ++ "# int X \x7b get; set; \x7d \x7d"

/-- a blank between two apostrophes, after a brace -/
def apostrophes (between : Text) : Text :=
  "class A \x7b '\x7d" ++ between ++ "' int X \x7b get; set; \x7d \x7d"

/-- a blank after a string that is left open -/
def openString (between : Text) : Text := "class A \x7b int X = \"a" ++ between ++ "; \x7d"

/-- a blank after a backslash of code -/
def backslash (between : Text) : Text := "[Route(\"a\" + \\" ++ between ++ "\"b\")]\nclass AController \x7b\x7d"

/-- a blank after a literal with a line break -/
def brokenLiteral (between : Text) : Text := "[Note(\"\x0b//\")]" ++ between ++ "[Note] class A \x7b\x7d"

/-- Layout shows where a type keyword comes to stand on its line, in front of a `#`, between apostrophes, after an open
string, after a backslash, and after a literal with a line break. -/
theorem layout_shows :
    (Relaid (declarations "\n") (declarations " ") ∧ typesUnplaced (declarations " ") ≠ typesUnplaced (declarations "\n")) ∧
      (Relaid (hashAfter " ") (hashAfter "\n") ∧ typesUnplaced (hashAfter "\n") ≠ typesUnplaced (hashAfter " ")) ∧
      (Relaid (apostrophes "\n") (apostrophes " ") ∧
        typesUnplaced (apostrophes " ") ≠ typesUnplaced (apostrophes "\n")) ∧
      (Relaid (openString "\n") (openString " ") ∧ typesUnplaced (openString " ") ≠ typesUnplaced (openString "\n")) ∧
      (Relaid (backslash "\n") (backslash " ") ∧
        controllersUnplaced (backslash " ") ≠ controllersUnplaced (backslash "\n")) ∧
      Relaid (brokenLiteral "\n") (brokenLiteral " ") ∧
        typesUnplaced (brokenLiteral " ") ≠ typesUnplaced (brokenLiteral "\n") := by
  refine ⟨⟨⟨(lex (declarations "\n")).set 10 (.code ' '), ?_, ?_⟩, ?_⟩,
    ⟨⟨(lex (hashAfter " ")).set 16 (.code '\n'), ?_, ?_⟩, ?_⟩,
    ⟨⟨(lex (apostrophes "\n")).set 12 (.code ' '), ?_, ?_⟩, ?_⟩,
    ⟨⟨(lex (openString "\n")).set 19 (.code ' '), ?_, ?_⟩, ?_⟩,
    ⟨⟨lex (backslash " "), ?_, ?_⟩, ?_⟩, ⟨lex (brokenLiteral " "), ?_, ?_⟩, ?_⟩
  all_goals decide +kernel

/-- an action behind a list of attributes, laid out on some lines, or on others -/
def laidOutAction (between after : Text) : Text :=
  "[Route(\"a b\")," ++ between ++ "Authorize]\nclass AController" ++ between ++ "\x7b" ++
    "[HttpGet(\"\x7bid\x7d\")]" ++ after ++ "public int Get(int" ++ between ++ "id) \x7b \x7d \x7d"

/-- The theorem at an action whose attributes are spread over other lines. -/
theorem readDocument_relaid_action :
    Unbroken (laidOutAction " " "\n") ∧ Relaid (laidOutAction " " "\n") (laidOutAction "\n" " ") ∧
      (∀ heading ∈ headings (mask true (laidOutAction " " "\n")),
        declaredKind? (mask true (laidOutAction "\n" " ")) heading =
          declaredKind? (mask true (laidOutAction " " "\n")) heading) ∧
      (readDocument (laidOutAction "\n" " ")).value.endpoints.map (Endpoint.seen View.unplaced) =
        (readDocument (laidOutAction " " "\n")).value.endpoints.map (Endpoint.seen View.unplaced) := by
  have unbroken : Unbroken (laidOutAction " " "\n") := by decide +kernel
  have steps : Relaid (laidOutAction " " "\n") (laidOutAction "\n" " ") :=
    ⟨lex (laidOutAction "\n" " "), by decide +kernel, by decide +kernel⟩
  have kinds : ∀ heading ∈ headings (mask true (laidOutAction " " "\n")),
      declaredKind? (mask true (laidOutAction "\n" " ")) heading =
        declaredKind? (mask true (laidOutAction " " "\n")) heading := by decide +kernel
  exact ⟨unbroken, steps, kinds, (readDocument_relaid unbroken steps kinds).2.1⟩

end EndpointSurvey
