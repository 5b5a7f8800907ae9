/-
Attributes do not depend on the kind of blanks, but for the blanks inside their arguments.

Main statements: `Attribute.ofPart?_map` (one entry) and `contentAttributes_map` (the attributes of a group).
-/
import EndpointSurvey.Proofs.Attribute.GroupContents
import EndpointSurvey.Proofs.Source.Splitting
import Mathlib.Data.List.Basic

namespace EndpointSurvey

/-- an attribute with the blanks of what it holds mapped -/
def Attribute.seen (φ : Char → Char) (a : Attribute) : Attribute :=
  { a with
    arguments := a.arguments.map (List.map φ)
    namedArguments := a.namedArguments.map fun (key, value) => (key, value.map φ)
    raw := a.raw.map φ }

/-- no backslash stands in front of a line feed, unless line feeds are kept -/
def EscapesKept (φ : Char → Char) (t : Text) : Prop := φ '\n' = '\n' ∨ ¬ ['\\', '\n'] <:+: t

theorem EscapesKept.of_within {φ : Char → Char} {t u : Text} (h : EscapesKept φ t) (part : u <:+: t) :
    EscapesKept φ u := h.imp_right fun absent found => absent (found.trans part)

/-! ## Parts of a text -/

theorem dropEnd_front (p : Char → Bool) (t : Text) : Text.dropEnd p t <+: t :=
  ⟨Text.takeEnd p t, Text.dropEnd_append_takeEnd p t⟩

theorem trim_within (t : Text) : t.trim <:+: t :=
  (dropEnd_front blank _).isInfix.trans (List.dropWhile_suffix blank).isInfix

theorem segmentsFrom_within (separator : Char) (angle : Bool) (s : Splitter) (t : Text) :
    ∃ first rest, segmentsFrom separator angle s t = first :: rest ∧ first <+: t ∧ ∀ part ∈ rest, part <:+: t := by
  induction t generalizing s with
  | nil => exact ⟨[], [], rfl, List.nil_prefix, by simp⟩
  | cons c cs ih =>
    obtain ⟨first, rest, e, front, others⟩ := ih (s.step angle c)
    rw [segmentsFrom, e]
    split
    · refine ⟨[], first :: rest, rfl, List.nil_prefix, fun part hp => ?_⟩
      rcases List.mem_cons.1 hp with rfl | hp
      · exact front.isInfix.trans (List.suffix_cons c cs).isInfix
      · exact (others part hp).trans (List.suffix_cons c cs).isInfix
    · refine ⟨c :: first, rest, rfl, (List.prefix_cons_inj c).2 front, fun part hp => ?_⟩
      exact (others part hp).trans (List.suffix_cons c cs).isInfix

theorem splitTop_within {separator : Char} {angle : Bool} {t part : Text} (h : part ∈ splitTop separator angle t) :
    part <:+: t := by
  have trimmed : part ∈ (segments separator angle t).map Text.trim := by
    unfold splitTop at h
    simp only at h
    split at h
    · exact (List.dropLast_sublist _).subset h
    · exact h
  obtain ⟨segment, hs, rfl⟩ := List.mem_map.1 trimmed
  obtain ⟨first, rest, e, front, others⟩ := segmentsFrom_within separator angle .start t
  rw [segments, e] at hs
  refine (trim_within segment).trans ?_
  rcases List.mem_cons.1 hs with rfl | hs
  · exact front.isInfix
  · exact others segment hs

theorem stringLiteral?_within {t marks body : Text} (h : stringLiteral? t = some (marks, body)) : body <:+: t := by
  unfold stringLiteral? at h
  split at h
  · next rest e =>
    split at h
    · cases h
      have tail : rest <:+ t := (List.suffix_cons '"' rest).trans (e ▸ List.dropWhile_suffix stringMark)
      exact (List.dropLast_prefix rest).isInfix.trans tail.isInfix
    · cases h
  · cases h

theorem keyAndValue?_within {t key value : Text} (h : Attribute.keyAndValue? t = some (key, value)) : value <:+: t := by
  unfold Attribute.keyAndValue? at h
  split at h
  · split at h
    · next mark rest e =>
      simp only at h
      split at h
      · cases h
        have tail : rest <:+ t := ((List.suffix_cons mark rest).trans (e ▸ List.dropWhile_suffix blank)).trans
          (List.dropWhile_suffix wordChar)
        exact ((List.dropWhile_suffix blank).trans tail).isInfix
      · cases h
    · cases h
  · cases h

theorem nameAndArguments?_within {t name list : Text} (h : Attribute.nameAndArguments? t = some (name, list)) :
    list <:+: t := by
  unfold Attribute.nameAndArguments? at h
  cases t with
  | nil => cases h
  | cons c cs =>
    simp only at h
    split at h
    · obtain ⟨rest, hr, h⟩ := Option.bind_eq_some_iff.1 h
      have tail : rest <:+ cs := by
        have after : rest <:+ (cs.dropWhile dottedChar).dropWhile blank := by
          unfold Attribute.afterTypeArguments? at hr
          simp only at hr
          split at hr
          · split at hr
            · cases hr
            · cases hr
              exact (List.dropWhile_suffix blank).trans (List.drop_suffix _ _)
          · cases hr
            exact List.suffix_rfl
        exact (after.trans (List.dropWhile_suffix blank)).trans (List.dropWhile_suffix dottedChar)
      split at h
      · cases h
        exact List.nil_infix
      · next inside =>
        split at h
        · cases h
          exact (List.dropLast_prefix inside).isInfix.trans
            (((List.suffix_cons '(' inside).trans tail).trans (List.suffix_cons c cs)).isInfix
        · cases h
      · cases h
    · cases h

theorem afterTarget?_within {t rest : Text} (h : Attribute.afterTarget? t = some rest) : rest <:+: t := by
  obtain ⟨word, -, h⟩ := List.exists_of_findSome?_eq_some h
  obtain ⟨after, ha, h⟩ := Option.bind_eq_some_iff.1 h
  have tail : after <:+ t := ⟨word, Lexeme.after?_append ha⟩
  split at h
  · next rest' e =>
    split at h
    · cases h
    · cases h
      have colon : rest' <:+ after := (List.suffix_cons ':' rest').trans (e ▸ List.dropWhile_suffix blank)
      exact ((List.dropWhile_suffix blank).trans (colon.trans tail)).isInfix
  · cases h

namespace BlankMap

variable {φ : Char → Char}

theorem idem (h : BlankMap φ) (t : Text) : (t.map φ).map φ = t.map φ := by
  have once : ∀ c, φ (φ c) = φ c := by
    intro c
    by_cases feed : c = '\n'
    · subst feed
      rcases h.feed with e | e
      · rw [e, e]
      · rw [e, h.fixes ' ' (by decide)]
    · rw [h.fixes c feed, h.fixes c feed]
  rw [List.map_map]
  exact List.map_congr_left fun c _ => once c

/-! ## Names -/

theorem findSome?_image {α β : Type} {f f' : α → Option β} {g : β → β} {l : List α}
    (same : ∀ a ∈ l, f' a = (f a).map g) : l.findSome? f' = (l.findSome? f).map g := by
  rw [List.map_findSome?]
  induction l with
  | nil => rfl
  | cons a l ih =>
    rw [List.findSome?_cons, List.findSome?_cons, same a List.mem_cons_self, ih fun b hb => same b (List.mem_cons_of_mem a hb)]
    rfl

theorem afterTarget?_map (h : BlankMap φ) (t : Text) :
    Attribute.afterTarget? (t.map φ) = (Attribute.afterTarget? t).map (List.map φ) := by
  have clear : ∀ word ∈ Attribute.targets, '\n' ∉ word ∧ ' ' ∉ word := by decide
  refine findSome?_image fun word hw => ?_
  rw [h.after?_map (clear word hw).1 (clear word hw).2]
  cases Text.after? word t with
  | none => rfl
  | some after =>
    simp only [Option.map_some, Option.bind_eq_bind, Option.bind_some, h.dropWhile_map (p := blank) (by decide)]
    cases after.dropWhile blank with
    | nil => rfl
    | cons c cs =>
      by_cases colon : c = ':'
      · subst colon
        rw [List.map_cons, h.fixes ':' (by decide)]
        simp only [h.head?_map_eq_some (show ':' ≠ '\n' by decide) (show ':' ≠ ' ' by decide),
          h.dropWhile_map (p := blank) (by decide)]
        split <;> rfl
      · have colon' : φ c ≠ ':' := by rwa [Ne, h.eq_iff (by decide) (by decide)]
        simp [colon, colon']

theorem afterTypeArguments?_map (h : BlankMap φ) (t : Text) :
    Attribute.afterTypeArguments? (t.map φ) = (Attribute.afterTypeArguments? t).map (List.map φ) := by
  unfold Attribute.afterTypeArguments?
  simp only [h.head?_map_eq_some (show '<' ≠ '\n' by decide) (show '<' ≠ ' ' by decide),
    h.takeWhile_map (p := fun c => c != '(' && c != ')') (by decide), h.dropEnd_map (p := (· != '>')) (by decide),
    List.isEmpty_map, List.length_map, ← List.map_drop, h.dropWhile_map (p := blank) (by decide)]
  split
  · split <;> rfl
  · rfl

theorem nameAndArguments?_map (h : BlankMap φ) (t : Text) :
    Attribute.nameAndArguments? (t.map φ) =
      (Attribute.nameAndArguments? t).map fun (name, list) => (name, list.map φ) := by
  cases t with
  | nil => rfl
  | cons c cs =>
    have start := h.test (p := fun c => identifierStart c || c == '@') (by decide) c
    have dotted : (cs.takeWhile dottedChar).map φ = cs.takeWhile dottedChar :=
      h.map_of_all (p := dottedChar) (by decide) fun d hd => List.mem_takeWhile_imp hd
    simp only [List.map_cons, Attribute.nameAndArguments?] at start ⊢
    rw [start]
    by_cases first : (identifierStart c || c == '@') = true
    · have visible : φ c = c := by
        apply h.fixes
        rintro rfl
        exact absurd first (by decide)
      simp only [first, if_true, visible, h.takeWhile_map (p := dottedChar) (by decide),
        h.dropWhile_map (p := dottedChar) (by decide), h.dropWhile_map (p := blank) (by decide), dotted,
        h.afterTypeArguments?_map]
      cases Attribute.afterTypeArguments? ((cs.dropWhile dottedChar).dropWhile blank) with
      | none => rfl
      | some rest =>
        simp only [Option.map_some, Option.bind_eq_bind, Option.bind_some]
        cases rest with
        | nil => rfl
        | cons d ds =>
          by_cases open_ : d = '('
          · subst open_
            rw [List.map_cons, h.fixes '(' (by decide)]
            simp only [h.getLast?_map_eq_some (show ')' ≠ '\n' by decide) (show ')' ≠ ' ' by decide)]
            split
            · rw [← List.map_dropLast]
              rfl
            · rfl
          · have open' : φ d ≠ '(' := by rwa [Ne, h.eq_iff (by decide) (by decide)]
            simp [open_, open']
    · simp only [first]
      rfl

/-! ## Values -/

theorem stringLiteral?_map (h : BlankMap φ) (t : Text) :
    stringLiteral? (t.map φ) = (stringLiteral? t).map fun (marks, body) => (marks, body.map φ) := by
  have marks : (t.takeWhile stringMark).map φ = t.takeWhile stringMark :=
    h.map_of_all (p := stringMark) (by decide) fun d hd => List.mem_takeWhile_imp hd
  unfold stringLiteral?
  rw [h.dropWhile_map (p := stringMark) (by decide), h.takeWhile_map (p := stringMark) (by decide), marks]
  cases t.dropWhile stringMark with
  | nil => rfl
  | cons c cs =>
    by_cases quote : c = '"'
    · subst quote
      rw [List.map_cons, h.fixes '"' (by decide)]
      simp only [h.getLast?_map_eq_some (show '"' ≠ '\n' by decide) (show '"' ≠ ' ' by decide)]
      split
      · rw [← List.map_dropLast]
        rfl
      · rfl
    · have quote' : φ c ≠ '"' := by rwa [Ne, h.eq_iff (by decide) (by decide)]
      simp [quote, quote']

theorem afterLast_map (h : BlankMap φ) {sep : Char} (feed : sep ≠ '\n') (space : sep ≠ ' ') (t : Text) :
    Text.afterLast sep (t.map φ) = (Text.afterLast sep t).map φ := by
  refine h.takeEnd_map ?_ t
  rw [bne_iff_ne.2 feed.symm, bne_iff_ne.2 space.symm]

/-- Names inside `nameof` hold no blank. -/
theorem symbolName?_map (h : BlankMap φ) (t : Text) : symbolName? (t.map φ) = symbolName? t := by
  unfold symbolName?
  rw [h.after?_map (by decide) (by decide)]
  cases Text.after? "nameof" t with
  | none => rfl
  | some rest =>
    simp only [Option.map_some, Option.bind_eq_bind, Option.bind_some, h.dropWhile_map (p := blank) (by decide)]
    cases rest.dropWhile blank with
    | nil => rfl
    | cons c cs =>
      by_cases open_ : c = '('
      · subst open_
        rw [List.map_cons, h.fixes '(' (by decide)]
        simp only [← List.map_dropLast, h.trim_map, h.afterLast_map (show '.' ≠ '\n' by decide) (by decide),
          h.getLast?_map_eq_some (show ')' ≠ '\n' by decide) (show ')' ≠ ' ' by decide), List.all_map,
          h.comp_test (p := dottedChar) (by decide), List.isEmpty_map, List.length_map]
        generalize Text.trim cs.dropLast = path
        by_cases dotted : path.all dottedChar = true
        · have same : path.map φ = path :=
            h.map_of_all (p := dottedChar) (by decide) (by simpa using dotted)
          have name : (Text.afterLast '.' path).map φ = Text.afterLast '.' path := by
            rw [← h.afterLast_map (by decide) (by decide), same]
          rw [name, same]
        · simp [dotted]
      · have open' : φ c ≠ '(' := by rwa [Ne, h.eq_iff (by decide) (by decide)]
        simp [open_, open']

theorem replace_map (h : BlankMap φ) {piece into : Text} (feed : '\n' ∉ piece) (space : ' ' ∉ piece)
    (same : into.map φ = into) (t : Text) :
    Text.replace piece into (t.map φ) = (Text.replace piece into t).map φ := by
  fun_induction Text.replace piece into t with
  | case1 => rw [List.map_nil, Text.replace]
  | case2 c cs none ih =>
    have none' := h.after?_map feed space (c :: cs)
    rw [none, Option.map_none, List.map_cons] at none'
    rw [List.map_cons, Text.replace]
    split
    · rw [ih]
      rfl
    · simp_all
  | case3 c cs rest found empty ih =>
    have found' := h.after?_map feed space (c :: cs)
    rw [found, Option.map_some, List.map_cons] at found'
    rw [List.map_cons, Text.replace]
    split
    · simp_all
    · rw [if_pos empty, ih]
      rfl
  | case4 c cs rest found filled ih =>
    have found' := h.after?_map feed space (c :: cs)
    rw [found, Option.map_some, List.map_cons] at found'
    rw [List.map_cons, Text.replace]
    split
    · simp_all
    · next rest' e =>
      obtain rfl : rest.map φ = rest' := Option.some.inj (found'.symm.trans e)
      rw [if_neg filled, ih, List.map_append, same]

/-- Escapes stand for the same characters; a line feed behind a backslash alone is seen. -/
theorem unescape_map (h : BlankMap φ) {t : Text} (kept : EscapesKept φ t) :
    (unescape (t.map φ)).map φ = (unescape t).map φ := by
  fun_induction unescape t with
  | case1 cs ih =>
    have keeps : φ '\n' = '\n' := kept.resolve_right fun absent => absent ⟨[], cs, rfl⟩
    have rest := ih (kept.of_within ⟨['\\', '\n'], [], by simp⟩)
    rw [List.map_cons, List.map_cons, h.fixes '\\' (by decide), keeps, unescape, if_pos rfl, List.map_cons, List.map_cons,
      List.map_cons, List.map_cons, rest]
  | case2 c cs visible ih =>
    have rest := ih (kept.of_within ⟨['\\', c], [], by simp⟩)
    rw [List.map_cons, List.map_cons, h.fixes '\\' (by decide), h.fixes c visible, unescape, if_neg visible, List.map_cons,
      List.map_cons, rest]
  | case3 c cs plain ih =>
    have rest := ih (kept.of_within ⟨[c], [], by simp⟩)
    have once := h.idem [c]
    have plain' : ∀ d ds, φ c = '\\' → cs.map φ = d :: ds → False := by
      intro d ds e e'
      rw [h.eq_iff (by decide) (by decide)] at e
      cases cs with
      | nil => cases e'
      | cons d' ds' => exact plain d' ds' e rfl
    rw [List.map_cons, unescape.eq_2 _ _ plain', List.map_cons, List.map_cons, rest]
    congr 1
    simpa using once
  | case4 => rfl

theorem literalValue_map (h : BlankMap φ) {t : Text} (kept : EscapesKept φ t) :
    (literalValue (t.map φ)).map φ = (literalValue t).map φ := by
  have inner := kept.of_within (trim_within t)
  unfold literalValue
  simp only [h.trim_map, h.stringLiteral?_map]
  generalize t.trim = u at inner
  cases found : stringLiteral? u with
  | none =>
    simp only [Option.map_none, h.symbolName?_map]
    cases symbolName? u with
    | none => exact h.idem u
    | some name => rfl
  | some p =>
    obtain ⟨marks, body⟩ := p
    simp only [Option.map_some]
    split
    · rw [h.replace_map (by decide) (by decide) (by rw [List.map_cons, h.fixes '"' (by decide)]; rfl), h.idem]
    · exact h.unescape_map (inner.of_within (stringLiteral?_within found))

/-! ## Arguments -/

theorem keyAndValue?_map (h : BlankMap φ) (t : Text) :
    Attribute.keyAndValue? (t.map φ) = (Attribute.keyAndValue? t).map fun (key, value) => (key, value.map φ) := by
  have word : (t.takeWhile wordChar).map φ = t.takeWhile wordChar :=
    h.map_of_all (p := wordChar) (by decide) fun d hd => List.mem_takeWhile_imp hd
  unfold Attribute.keyAndValue?
  simp only [h.head?_any_map (p := identifierStart) (by decide), h.takeWhile_map (p := wordChar) (by decide), word,
    h.dropWhile_map (p := wordChar) (by decide), h.dropWhile_map (p := blank) (by decide)]
  split
  · cases (t.dropWhile wordChar).dropWhile blank with
    | nil => rfl
    | cons mark rest =>
      have marks : (φ mark = '=' ∨ φ mark = ':') ↔ (mark = '=' ∨ mark = ':') := by
        rw [h.eq_iff (by decide) (by decide), h.eq_iff (by decide) (by decide)]
      have same : (mark = '=' ∨ mark = ':') → (((rest.map φ).head? ≠ some (φ mark)) ↔ rest.head? ≠ some mark) := by
        rintro (rfl | rfl)
        · rw [h.fixes '=' (by decide), Ne, h.head?_map_eq_some (by decide) (by decide)]
        · rw [h.fixes ':' (by decide), Ne, h.head?_map_eq_some (by decide) (by decide)]
      have filled : (rest.map φ).dropWhile blank ≠ [] ↔ rest.dropWhile blank ≠ [] := by
        rw [h.dropWhile_map (p := blank) (by decide), Ne, List.map_eq_nil_iff]
      simp only [List.map_cons]
      by_cases accepted : (mark = '=' ∨ mark = ':') ∧ rest.head? ≠ some mark ∧ rest.dropWhile blank ≠ []
      · rw [if_pos accepted, if_pos ⟨marks.2 accepted.1, (same accepted.1).2 accepted.2.1, filled.2 accepted.2.2⟩,
          h.dropWhile_map (p := blank) (by decide)]
        rfl
      · rw [if_neg accepted, if_neg]
        · rfl
        · intro accepted'
          have first := marks.1 accepted'.1
          exact accepted ⟨first, (same first).1 accepted'.2.1, filled.1 accepted'.2.2⟩
  · rfl

/-- an argument with the blanks of its value mapped -/
def argument (φ : Char → Char) : Attribute.Argument → Attribute.Argument
  | .positional value => .positional (value.map φ)
  | .named key value => .named key (value.map φ)

theorem argument_map (h : BlankMap φ) {t : Text} (kept : EscapesKept φ t) :
    argument φ (.ofText (t.map φ)) = argument φ (.ofText t) := by
  have whole := h.literalValue_map kept
  unfold Attribute.Argument.ofText
  rw [h.stringLiteral?_map, h.keyAndValue?_map]
  cases stringLiteral? t with
  | some p => exact congrArg Attribute.Argument.positional whole
  | none =>
    cases found : Attribute.keyAndValue? t with
    | none => exact congrArg Attribute.Argument.positional whole
    | some p =>
      obtain ⟨key, value⟩ := p
      exact congrArg (Attribute.Argument.named key) (h.literalValue_map (kept.of_within (keyAndValue?_within found)))

/-! ## Entries and groups -/

theorem arguments_map (h : BlankMap φ) {list : Text} (kept : EscapesKept φ list) :
    ((splitTop ',' false (list.map φ)).map Attribute.Argument.ofText).map (argument φ) =
      ((splitTop ',' false list).map Attribute.Argument.ofText).map (argument φ) := by
  rw [h.splitTop_map (by decide) (by decide), List.map_map, List.map_map, List.map_map]
  exact List.map_congr_left fun part hp => h.argument_map (kept.of_within (splitTop_within hp))

theorem filterMap_argument {β : Type} {f : Attribute.Argument → Option β} {g : β → β}
    (step : ∀ a, (f a).map g = f (argument φ a)) {found found' : List Attribute.Argument}
    (same : found'.map (argument φ) = found.map (argument φ)) :
    (found'.filterMap f).map g = (found.filterMap f).map g := by
  have each : ∀ as : List Attribute.Argument, (as.filterMap f).map g = (as.map (argument φ)).filterMap f := by
    intro as
    rw [List.map_filterMap, List.filterMap_map]
    exact List.filterMap_congr fun a _ => step a
  rw [each, each, same]

theorem ofEntry?_map (h : BlankMap φ) {t : Text} (kept : EscapesKept φ t) :
    (Attribute.ofEntry? (t.map φ)).map (Attribute.seen φ) = (Attribute.ofEntry? t).map (Attribute.seen φ) := by
  unfold Attribute.ofEntry?
  rw [h.nameAndArguments?_map]
  cases found : Attribute.nameAndArguments? t with
  | none => rfl
  | some p =>
    obtain ⟨name, list⟩ := p
    have arguments := h.arguments_map (kept.of_within (nameAndArguments?_within found))
    simp only [Option.map_some, Option.some.injEq, List.all_map, h.comp_test (p := blank) (by decide), Attribute.seen,
      h.idem]
    split
    · rfl
    · congr 1
      · exact filterMap_argument (fun a => by cases a <;> rfl) arguments
      · exact filterMap_argument (fun a => by cases a <;> rfl) arguments

theorem ofPart?_map (h : BlankMap φ) {t : Text} (kept : EscapesKept φ t) :
    (Attribute.ofPart? (t.map φ)).map (Attribute.seen φ) = (Attribute.ofPart? t).map (Attribute.seen φ) := by
  unfold Attribute.ofPart?
  rw [h.afterTarget?_map]
  cases found : Attribute.afterTarget? t with
  | none =>
    simp only [Option.map_none, Option.getD_none, List.isEmpty_map]
    split
    · rfl
    · exact h.ofEntry?_map kept
  | some rest =>
    simp only [Option.map_some, Option.getD_some, List.isEmpty_map]
    split
    · rfl
    · exact h.ofEntry?_map (kept.of_within (afterTarget?_within found))

/-- The attributes of a group and of its image are seen as the same. -/
theorem contentAttributes_map (h : BlankMap φ) {content : Text} (kept : EscapesKept φ content) :
    ((splitTop ',' false (content.map φ)).filterMap Attribute.ofPart?).map (Attribute.seen φ) =
      ((splitTop ',' false content).filterMap Attribute.ofPart?).map (Attribute.seen φ) := by
  rw [h.splitTop_map (by decide) (by decide), List.filterMap_map, List.map_filterMap, List.map_filterMap]
  exact List.filterMap_congr fun part hp => h.ofPart?_map (kept.of_within (splitTop_within hp))

end BlankMap

end EndpointSurvey
