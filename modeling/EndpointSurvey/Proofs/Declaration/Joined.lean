/-
Declarations in joined texts. A text that is closed keeps its declarations whatever follows it, and what follows declares
what it declares by itself, at offsets counted from the start of the joined text.

Main statements:
- `Source.Seam.headings_append`, `Source.Seam.namespaces_append`: what is found on both sides of a seam;
- `blockOf?_append_left`, `Source.Seam.blockOf?_append_right`: one declaration, in front of it and behind it;
- `exists_blockOf?`: where no structure is warned of, every declaration is read;
- `typeBlocks_append`: the declarations of the joined text.
-/
import EndpointSurvey.Proofs.Declaration.Fading
import EndpointSurvey.Proofs.Declaration.Regions
import EndpointSurvey.Proofs.Declaration.Shifting
import EndpointSurvey.Proofs.Source.Masked

namespace EndpointSurvey

namespace Source.Seam

variable {s : Source} {front : Text} {m : Char} {gap : Source} (h : s.Seam front m gap)
include h

/-! ## Headings and namespaces -/

theorem stops : Stops m := by rcases h.mark with rfl | rfl <;> constructor <;> decide

theorem gap_marks : ∀ c ∈ gap.code, wordChar c = false := fun c hc => not_wordChar_of_blank (h.blankCode c hc)

theorem length_eq : s.length = front.length + 1 + gap.length := by
  have size := congrArg List.length h.code
  rw [List.length_append, List.length_cons] at size
  simp only [Source.length]
  omega

/-- the offset that a scan has reached behind the gap -/
theorem offset_eq : 0 + front.length + 1 + gap.code.length = s.length + 0 := by
  rw [h.length_eq, Source.length]
  omega

theorem code_append (t : Source) : (s ++ t).code = front ++ m :: (gap.code ++ t.code) := by
  rw [Source.code_append, h.code, List.append_assoc, List.cons_append]

/-- The headings behind a seam are those of the second source. -/
theorem headings_append (t : Source) :
    headings (s ++ t).code = headings s.code ++ (headings t.code).map (Heading.shift s.length) := by
  have edge : (some '\n').any wordChar = false := by decide
  have alone : headings s.code = headingsFrom 0 none front := by
    rw [headings, h.code, headingsFrom_append h.stops, headingsFrom_marks h.gap_marks, List.append_nil]
  rw [alone, headings, h.code_append, headingsFrom_append h.stops, headingsFrom_marks_append h.gap_marks, h.feedCode,
    Option.some_or, headingsFrom_edge edge, h.offset_eq, headingsFrom_shift, headings]

/-- Behind a source without namespaces, they are those of the second source. -/
theorem namespaces_append (none : namespaces s.code = []) (t : Source) :
    namespaces (s ++ t).code = (namespaces t.code).map (NamespaceSpan.shift s.length) := by
  have edge : (some '\n').any wordChar = false := by decide
  have size : (s ++ t).code.length = s.length + t.code.length := List.length_append
  rw [namespaces, h.code] at none
  rw [namespaces, size, h.code_append, namespacesFrom_append h.stops none, namespacesFrom_marks_append h.gap_marks,
    h.feedCode, Option.some_or, namespacesFrom_edge edge, h.offset_eq, namespacesFrom_shift, namespaces]

end Source.Seam

/-! ## Header regions -/

/-- blanks in front of a stretch: nothing at all, or whole lines -/
structure Source.Padding (pad : Source) : Prop where
  code : ∀ c ∈ pad.code, blank c = true
  raw : pad.raw = [] ∨ ∃ g, pad.raw = g ++ ['\n'] ∧ ∀ c ∈ g, blank c = true

namespace Source.Padding

variable {pad : Source} (h : pad.Padding)
include h

theorem attributeGroups_eq (s : Source) : attributeGroups (pad ++ s) = attributeGroups s := by
  have free : '[' ∉ pad.code := fun mem => absurd (h.code _ mem) (by decide)
  have behind : (pad ++ s).drop pad.code.length = s := by
    have := Source.drop_append pad s 0
    rwa [Nat.add_zero, Source.drop_zero] at this
  rw [attributeGroups_plain (Source.code_append pad s) free, behind]

theorem docComment?_eq (t : Text) : docComment? (pad.raw ++ t) = docComment? t := by
  rcases h.raw with none | ⟨g, lines, blanks⟩
  · rw [none, List.nil_append]
  · rw [lines]
    exact docComment?_blanks (List.forall_mem_append.2 ⟨blanks, List.forall_mem_singleton.2 (by decide)⟩) t

theorem leadingBlanks_eq (t : Text) : Text.leadingBlanks (pad.raw ++ t) = pad.length + Text.leadingBlanks t := by
  have blanks : ∀ c ∈ pad.raw, blank c = true := by
    rcases h.raw with none | ⟨g, lines, blanks⟩
    · rw [none]
      exact List.forall_mem_nil _
    · rw [lines]
      exact List.forall_mem_append.2 ⟨blanks, Text.forall_of_all (by decide)⟩
  rw [Text.leadingBlanks_append_of_all blanks, Source.raw_length]

end Source.Padding

/-- a character of a header region: neither a brace nor a semicolon -/
def headerChar (c : Char) : Bool := c != ';' && c != '\x7b' && c != '\x7d'

theorem headerChar_of_blank {c : Char} (h : blank c = true) : headerChar c = true := by
  have other {d : Char} : blank d = false → c ≠ d := ne_of_test h
  simp [headerChar, other (d := ';') (by decide), other (d := '\x7b') (by decide), other (d := '\x7d') (by decide)]

namespace Source.Seam

variable {s : Source} {front : Text} {m : Char} {gap : Source} (h : s.Seam front m gap)
include h

theorem padding : gap.Padding := by
  obtain ⟨g, lines⟩ := List.getLast?_eq_some_iff.1 h.feedRaw
  refine ⟨h.blankCode, .inr ⟨g, lines, fun c hc => h.blankRaw c ?_⟩⟩
  rw [lines]
  exact List.mem_append_left _ hc

theorem takeEnd_code : Text.takeEnd headerChar s.code = gap.code := by
  have stop : headerChar m = false := by rcases h.mark with rfl | rfl <;> decide
  have shape : s.code = (front ++ [m]) ++ gap.code := by rw [h.code, List.append_assoc]; rfl
  rw [shape, Text.takeEnd_append_stop (by simpa using stop),
    Text.takeEnd_of_all fun c hc => headerChar_of_blank (h.blankCode c hc)]

/-- The header region of a heading behind the seam is its region in the second source; one that starts there starts with
the blanks of the gap. -/
theorem headerRegion_append {t : Source} {heading : Heading} (inside : heading.start ≤ t.length) :
    ∃ pad : Source, pad.Padding ∧
      regionStart (s ++ t).code (heading.shift s.length) + pad.length = s.length + regionStart t.code heading ∧
      headerRegion (s ++ t) (heading.shift s.length) = pad ++ headerRegion t heading := by
  have taken : (t.code.take heading.start).length = heading.start := List.length_take_of_le inside
  have start : regionStart (s ++ t).code (heading.shift s.length) = s.length + heading.start -
      (Text.takeEnd headerChar (s.code ++ t.code.take heading.start)).length := by
    rw [← code_take_append]
    rfl
  have start' : regionStart t.code heading =
      heading.start - (Text.takeEnd headerChar (t.code.take heading.start)).length := rfl
  rw [Text.takeEnd_append] at start
  split at start
  -- the region reaches the start of the second source, and so the gap in front of it
  · next all =>
    rw [h.takeEnd_code, List.length_append, taken] at start
    rw [Text.takeEnd_of_all (List.all_eq_true.1 all), taken, Nat.sub_self] at start'
    have size := h.length_eq
    have place : regionStart (s ++ t).code (heading.shift s.length) = front.length + 1 := by
      rw [start, size, Source.length]
      omega
    refine ⟨gap, h.padding, by rw [place, start', size]; rfl, ?_⟩
    calc headerRegion (s ++ t) (heading.shift s.length)
      _ = (s ++ t).slice (front.length + 1) (s.length + heading.start) := by rw [headerRegion, place]; rfl
      _ = s.drop (front.length + 1) ++ t.take heading.start := Source.slice_append_seam (by omega) t heading.start
      _ = gap ++ headerRegion t heading := by
        rw [← h.rest, headerRegion, start', Source.slice_eq, Source.drop_zero]
  -- a brace or semicolon of the second source stands before the region
  · have le := Text.takeEnd_length_le headerChar (t.code.take heading.start)
    rw [taken] at le
    have place : regionStart (s ++ t).code (heading.shift s.length) = s.length + regionStart t.code heading := by
      rw [start, start', Nat.add_sub_assoc le]
    refine ⟨⟨[], [], rfl⟩, ⟨List.forall_mem_nil _, .inl rfl⟩, place, ?_⟩
    calc headerRegion (s ++ t) (heading.shift s.length)
      _ = (s ++ t).slice (s.length + regionStart t.code heading) (s.length + heading.start) := by
        rw [headerRegion, place]
        rfl
      _ = headerRegion t heading := Source.slice_append_right ..

/-! ## Behind the seam -/

theorem declaredKind?_append_right {t : Source} (heading : Heading) :
    declaredKind? (s ++ t).code (heading.shift s.length) = declaredKind? t.code heading := by
  have ends : ∀ c ∈ s.code.getLast?, (c != '\n') = false := by
    rw [h.code, List.getLast?_append, List.getLast?_cons, h.feedCode]
    rintro c ⟨⟩
    rfl
  have line : Text.takeEnd (· != '\n') ((s ++ t).code.take (s.length + heading.start)) =
      Text.takeEnd (· != '\n') (t.code.take heading.start) := by
    rw [code_take_append, Text.takeEnd_append_stop ends]
  have start : declarationStart (s ++ t).code (s.length + heading.start) = declarationStart t.code heading.start := by
    rw [declarationStart, line, declarationStart]
  unfold declaredKind? Heading.shift
  rw [start]

theorem blockShell_append_right {t : Source} {heading : Heading} (inside : heading.start ≤ t.length)
    (spans : List NamespaceSpan) (kind : DeclarationKind) (tail : HeadingTail) :
    blockShell (s ++ t) (spans.map (NamespaceSpan.shift s.length)) (heading.shift s.length) kind (tail.shift s.length) =
      (blockShell t spans heading kind tail).shift s.length := by
  obtain ⟨pad, padding, start, region⟩ := h.headerRegion_append inside
  have attributes : attributeGroups (headerRegion (s ++ t) (heading.shift s.length)) =
      attributeGroups (headerRegion t heading) := by rw [region, padding.attributeGroups_eq]
  have doc : docComment? (headerRegion (s ++ t) (heading.shift s.length)).raw =
      docComment? (headerRegion t heading).raw := by rw [region, Source.raw_append, padding.docComment?_eq]
  have first : regionStart (s ++ t).code (heading.shift s.length) +
      Text.leadingBlanks (headerRegion (s ++ t) (heading.shift s.length)).raw =
        s.length + (regionStart t.code heading + Text.leadingBlanks (headerRegion t heading).raw) := by
    rw [region, Source.raw_append, padding.leadingBlanks_eq, ← Nat.add_assoc, start, Nat.add_assoc]
  have covers : namespaceAt (spans.map (NamespaceSpan.shift s.length)) (heading.shift s.length).start =
      namespaceAt spans heading.start := namespaceAt_shift ..
  unfold headerRegion at attributes doc first
  unfold blockShell
  dsimp only
  rw [attributes, doc, first, covers]
  rfl

/-- **A heading behind the seam declares what it declares in the second source**, at offsets counted from the start of the
first. -/
theorem blockOf?_append_right {t : Source} {heading : Heading} (inside : heading.start ≤ t.length)
    (spans : List NamespaceSpan) (kind : DeclarationKind) :
    blockOf? (s ++ t) (spans.map (NamespaceSpan.shift s.length)) (heading.shift s.length) kind =
      (blockOf? t spans heading kind).map (TypeBlock.shift s.length) := by
  have read : headingTail (s ++ t) (heading.shift s.length).name (heading.shift s.length).stop =
      (headingTail t heading.name heading.stop).map (HeadingTail.shift s.length) := headingTail_append_right ..
  unfold blockOf?
  rw [read]
  cases headingTail t heading.name heading.stop with
  | error problem => rfl
  | ok tail =>
    have code : (s ++ t).code.drop (tail.shift s.length).stop = t.code.drop tail.stop := code_drop_append ..
    have rest : (s ++ t).drop (tail.shift s.length).stop = t.drop tail.stop := drop_append ..
    have members (body : Source) : membersOf ((tail.shift s.length).stop + 1) body =
        (membersOf (tail.stop + 1) body).map (MemberBlock.shift s.length) := membersOf_shift s.length (tail.stop + 1) body
    simp only [Except.map]
    rw [h.blockShell_append_right inside, code, rest]
    split
    · rw [Option.map_map]
      congr 1
      funext i
      simp only [Function.comp_apply, TypeBlock.shift, HeadingTail.shift] at members ⊢
      rw [members, apply_ite (List.map _), List.map_nil, Nat.add_assoc, Nat.add_assoc, Nat.add_assoc]
    · rfl

end Source.Seam

/-! ## In front of the seam -/

section
variable {s : Source} {heading : Heading}

theorem declaredKind?_append_left (inside : heading.start ≤ s.length) (t : Source) :
    declaredKind? (s ++ t).code heading = declaredKind? s.code heading := by
  have front : (s ++ t).code.take heading.start = s.code.take heading.start := List.take_append_of_le_length inside
  unfold declaredKind? declarationStart
  rw [front]

theorem blockShell_append_left (inside : heading.start ≤ s.length) (spans : List NamespaceSpan) (kind : DeclarationKind)
    (tail : HeadingTail) (t : Source) :
    blockShell (s ++ t) spans heading kind tail = blockShell s spans heading kind tail := by
  have front : (s ++ t).code.take heading.start = s.code.take heading.start := List.take_append_of_le_length inside
  have start : regionStart (s ++ t).code heading = regionStart s.code heading := by rw [regionStart, front, regionStart]
  have region : (s ++ t).slice (regionStart s.code heading) heading.start =
      s.slice (regionStart s.code heading) heading.start := Source.slice_append_left inside t _
  unfold blockShell
  dsimp only
  rw [start, region]

/-- **A declaration that ends in front of the seam stays as it is**, whatever follows. -/
theorem blockOf?_append_left (inside : heading.start ≤ s.length) {spans : List NamespaceSpan}
    (uncovered : namespaceAt spans heading.start = none) {kind : DeclarationKind} {block : TypeBlock}
    (h : blockOf? s [] heading kind = some block) (t : Source) : blockOf? (s ++ t) spans heading kind = some block := by
  obtain ⟨tail, read, made⟩ := blockOf?_cases h
  obtain ⟨again, stop⟩ := headingTail_append_left read t
  have rest : (s ++ t).drop tail.stop = s.drop tail.stop ++ t := Source.drop_append_left (Nat.le_of_lt stop) t
  have code : (s ++ t).code.drop tail.stop = s.code.drop tail.stop ++ t.code := congrArg Source.code rest
  have head : ((s ++ t).code.drop tail.stop).head? = (s.code.drop tail.stop).head? := by
    rw [code]
    exact List.head?_append_of_ne_nil _ (List.drop_eq_nil_iff.not.2 (Nat.not_le.2 stop))
  have shell : blockShell (s ++ t) spans heading kind tail = blockShell s [] heading kind tail := by
    rw [blockShell_append_left inside, blockShell, uncovered]
    rfl
  rcases made with ⟨size, opens, closes, rfl⟩ | ⟨other, rfl⟩
  · have last : size ≤ (s.drop tail.stop).length := Nat.le_of_lt (closing?_lt closes)
    have closes' : closing? '\x7b' '\x7d' ((s ++ t).code.drop tail.stop) = some size := by
      rw [code]
      exact closing?_append closes t.code
    rw [blockOf?_withBody again (head.trans opens) closes', shell, TypeBlock.withBody, rest,
      Source.slice_append_left last]
    rfl
  · rw [blockOf?_shell again (head ▸ other), shell]

end

/-! ## Warnings -/

/-- A declaration that is not read is warned of. -/
theorem readType_refused {document : Source} {spans : List NamespaceSpan} {heading : Heading} {kind : DeclarationKind}
    (none : blockOf? document spans heading kind = none) :
    ∃ w ∈ (readType document spans heading kind).warnings, w.kind = .structural := by
  unfold blockOf? at none
  unfold readType
  cases read : headingTail document heading.name heading.stop with
  | error problem => exact ⟨_, List.mem_singleton_self _, headingTail_structural read⟩
  | ok tail =>
    rw [read] at none
    dsimp only at none ⊢
    split at none
    · next opens =>
      have unclosed : closing? '\x7b' '\x7d' (document.drop tail.stop).code = Option.none := Option.map_eq_none_iff.1 none
      rw [Source.code_drop] at unclosed ⊢
      rw [if_pos opens, unclosed]
      exact ⟨_, List.mem_singleton_self _, rfl⟩
    · cases none

/-- Where no structure is warned of, every declared heading makes a declaration. -/
theorem exists_blockOf? {text : Text} (sound : ∀ w ∈ (typeBlocks text).warnings, w.kind ≠ .structural)
    {heading : Heading} (found : heading ∈ headings (Source.ofText text).code) {kind : DeclarationKind}
    (declared : declaredKind? (Source.ofText text).code heading = some kind) :
    ∃ block, blockOf? (Source.ofText text) (namespaces (Source.ofText text).code) heading kind = some block := by
  rw [← Option.ne_none_iff_exists']
  intro none
  obtain ⟨w, warned, structural⟩ := readType_refused none
  refine sound w ?_ structural
  unfold declaredKind? at declared
  split at declared
  · cases declared
  · next named =>
    unfold typeBlocks
    rw [Traced.warnings_bind]
    refine List.mem_append_left _ (Traced.mem_warnings_filterMapList found ?_)
    rw [declared]
    dsimp only
    rwa [if_neg named]

/-! ## Joined texts -/

/-- **What follows a closed text neither changes its declarations nor is changed by them**: the joined text declares what
its parts declare, with the offsets of the second counted from the start of the first. -/
theorem typeBlocks_append {a : Text} (closed : Sealed a) (unnamed : namespaces (mask true a) = [])
    (sound : ∀ w ∈ (typeBlocks a).warnings, w.kind ≠ .structural) (b : Text) :
    (typeBlocks (a ++ b)).value = (typeBlocks a).value ++ (typeBlocks b).value.map (TypeBlock.shift a.length) := by
  obtain ⟨front, m, gap, seam⟩ := closed.seam
  have joined := closed.ofText_append b
  have size : (Source.ofText a).length = a.length := mask_length true a
  have unnamed' : namespaces (Source.ofText a).code = [] := unnamed
  rw [value_typeBlocks, value_typeBlocks, value_typeBlocks, blocksOf, blocksOf, blocksOf, joined,
    seam.headings_append, seam.namespaces_append unnamed, List.filterMap_append, List.filterMap_map, List.map_filterMap,
    ← size]
  congr 1
  -- in front of the seam every declaration was read, and stays; behind it they are read alike
  · apply List.filterMap_congr
    intro heading found
    have before : heading.start < (Source.ofText a).length := (headings_keywordAt _ heading found).lt
    have inside := Nat.le_of_lt before
    rw [declaredKind?_append_left inside]
    cases declared : declaredKind? (Source.ofText a).code heading with
    | none => rfl
    | some kind =>
      obtain ⟨block, made⟩ := exists_blockOf? sound found declared
      rw [Option.bind_some, Option.bind_some, made]
      rw [unnamed'] at made
      exact blockOf?_append_left inside (namespaceAt_front before _) made (Source.ofText b)
  · apply List.filterMap_congr
    intro heading found
    have inside : heading.start ≤ (Source.ofText b).length := (headings_keywordAt _ heading found).inside
    rw [Function.comp_apply, seam.declaredKind?_append_right]
    cases declaredKind? (Source.ofText b).code heading with
    | none => rfl
    | some kind => exact seam.blockOf?_append_right inside (namespaces (Source.ofText b).code) kind

/-- a class on a line of its own, without the line feed -/
def cartLine : Text := "class Cart \x7b public int Size() \x7b return 1; \x7d \x7d"

/-- a class with documentation, and one whose body and whose last string do not close -/
def orderClasses : Text := "/// Lines of an order.\nclass Line \x7b int N; \x7d\nclass Open \x7b \"class Hidden \x7b"

/-- The theorem at a class that is followed by another and by one that breaks off. -/
theorem typeBlocks_append_cart :
    Sealed (cartLine ++ ['\n']) ∧ namespaces (mask true (cartLine ++ ['\n'])) = [] ∧
      (∀ w ∈ (typeBlocks (cartLine ++ ['\n'])).warnings, w.kind ≠ .structural) ∧
      (typeBlocks (cartLine ++ ['\n'])).value ≠ [] ∧ (typeBlocks orderClasses).value ≠ [] ∧
      (typeBlocks (cartLine ++ ['\n'] ++ orderClasses)).value = (typeBlocks (cartLine ++ ['\n'])).value ++
        (typeBlocks orderClasses).value.map (TypeBlock.shift (cartLine ++ ['\n']).length) := by
  have line : Masks true cartLine cartLine := masks_plain (Text.forall_of_all (by decide)) true
  have code : mask true (cartLine ++ ['\n']) = cartLine ++ ['\n'] := by decide +kernel
  have blanked : ∀ s, mask true (cartLine ++ ['\n'] ++ s) = mask true (cartLine ++ ['\n']) ++ mask true s := by
    intro s
    rw [code, List.append_assoc, List.append_assoc]
    exact mask_lines line s
  have brace : (mask true (cartLine ++ ['\n']))[cartLine.dropLast.length]? = some '\x7d' := by
    rw [code]
    decide
  have closed : Sealed (cartLine ++ ['\n']) :=
    ⟨blanked, cartLine.dropLast, '\x7d', ['\n'], by decide, .inl rfl, brace, List.forall_mem_singleton.2 (by decide), rfl⟩
  have unnamed : namespaces (mask true (cartLine ++ ['\n'])) = [] := by decide +kernel
  have sound : ∀ w ∈ (typeBlocks (cartLine ++ ['\n'])).warnings, w.kind ≠ .structural := by decide +kernel
  exact ⟨closed, unnamed, sound, by decide +kernel, by decide +kernel,
    typeBlocks_append closed unnamed sound orderClasses⟩

end EndpointSurvey
