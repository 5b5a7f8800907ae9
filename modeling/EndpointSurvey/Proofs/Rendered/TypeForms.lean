/-
Types as they are written: a dotted name, behind which stand lists of type arguments, pairs of square brackets and
question marks, with a space or none on either side of each mark. Each fact about the text of a type is proved along the
ways to build it; a list of type arguments is no type, and has the fact from those of its arguments.

Main statements: `TypeForm.tidyType_eq` (the canonical spelling has a space after each comma and no other),
`TypeForm.onePiece`, `TypeForm.spaced` and `TypeForm.exists_word`.
-/
import EndpointSurvey.Binding.ParameterList
import EndpointSurvey.Proofs.Rendered.Identifiers

namespace EndpointSurvey

/-! ## Canonical spellings -/

/-- the text of a type from its characters: a space follows each comma -/
def afterCommas (dense : Text) : Text := dense.flatMap fun c => if c = ',' then ", " else [c]

theorem afterCommas_append (s t : Text) : afterCommas (s ++ t) = afterCommas s ++ afterCommas t := List.flatMap_append

theorem afterCommas_solid {t : Text} (h : ',' ∉ t) : afterCommas t = t := by
  induction t with
  | nil => rfl
  | cons c cs ih =>
    simp only [List.mem_cons, not_or] at h
    rw [afterCommas, List.flatMap_cons, if_neg (Ne.symm h.1)]
    exact congrArg (c :: ·) (ih h.2)

theorem not_blank_of_typeMark {c : Char} (h : typeMark c = true) : blank c = false := by
  simp only [typeMark, Bool.or_eq_true, beq_iff_eq] at h
  rcases h with ((((rfl | rfl) | rfl) | rfl) | rfl) | rfl <;> decide

theorem closeUp_mark {m : Char} (mark : typeMark m = true) (afterMark : Bool) (rest : Text) :
    closeUp afterMark (m :: rest) = m :: closeUp true rest := by
  rw [closeUp, not_blank_of_typeMark mark, mark, if_neg Bool.false_ne_true]

theorem closeUp_solid {t : Text} (filled : t ≠ []) (h : ∀ c ∈ t, blank c = false ∧ typeMark c = false)
    (afterMark : Bool) (rest : Text) : closeUp afterMark (t ++ rest) = t ++ closeUp false rest := by
  induction t generalizing afterMark with
  | nil => exact absurd rfl filled
  | cons c cs ih =>
    obtain ⟨⟨solid, plain⟩, later⟩ := List.forall_mem_cons.1 h
    rw [List.cons_append, closeUp, solid, if_neg Bool.false_ne_true, plain]
    cases cs with
    | nil => rfl
    | cons d ds => rw [ih (List.cons_ne_nil d ds) later]; rfl

namespace Rendered

/-- one space or none -/
def gap (wide : Bool) : Text := if wide then [' '] else []

/-! ## Types and their texts -/

/-- a type argument as it stands between two marks -/
structure TypeArgument where
  left : Bool
  written : Text
  canonical : Text
  right : Bool

def TypeArgument.text (a : TypeArgument) : Text := gap a.left ++ (a.written ++ gap a.right)

/-- what stands between angle brackets -/
def argumentList (arguments : List TypeArgument) : Text := Text.join "," (arguments.map TypeArgument.text)

/-- a type as it is written, and its canonical spelling; a keyword that may precede a type is the name of none -/
inductive TypeForm : Text → Text → Prop where
  | name (first : Identifier) (rest : List Identifier) (free : dottedName (first :: rest) ∉ RawParameter.modifiers) :
    TypeForm (dottedName (first :: rest)) (dottedName (first :: rest))
  | generic {t c : Text} (wide : Bool) {arguments : List TypeArgument} (filled : arguments ≠ [])
    (each : ∀ a ∈ arguments, TypeForm a.written a.canonical) (type : TypeForm t c) :
    TypeForm (t ++ (gap wide ++ '<' :: (argumentList arguments ++ ['>'])))
      (c ++ '<' :: (Text.join ", " (arguments.map TypeArgument.canonical) ++ ['>']))
  | array {t c : Text} (wide inner : Bool) (type : TypeForm t c) :
    TypeForm (t ++ (gap wide ++ '[' :: (gap inner ++ [']']))) (c ++ ['[', ']'])
  | nullable {t c : Text} (wide : Bool) (type : TypeForm t c) : TypeForm (t ++ (gap wide ++ ['?'])) (c ++ ['?'])

theorem argumentList_cons (a b : TypeArgument) (arguments : List TypeArgument) :
    argumentList (a :: b :: arguments) = a.text ++ ',' :: argumentList (b :: arguments) := Text.join_cons _ _ _ _

theorem forall_mem_gap {p : Char → Prop} (space : p ' ') (wide : Bool) : ∀ c ∈ gap wide, p c := by
  cases wide
  · exact fun _ hc => absurd hc List.not_mem_nil
  · exact List.forall_mem_singleton.2 space

/-! ## The canonical spelling -/

theorem not_typeMark_of_bareChar {d : Char} (h : bareChar d = true) : typeMark d = false := by
  simp [typeMark, ne_of_bareChar h (d := '<') (by decide), ne_of_bareChar h (d := '>') (by decide),
    ne_of_bareChar h (d := ',') (by decide), ne_of_bareChar h (d := '[') (by decide),
    ne_of_bareChar h (d := ']') (by decide), ne_of_bareChar h (d := '?') (by decide)]

theorem closeUp_gap (wide : Bool) (t : Text) : closeUp true (gap wide ++ t) = closeUp true t := by
  cases wide
  · rfl
  · rw [gap, if_pos rfl, List.singleton_append, closeUp, if_pos (by decide), Bool.true_or, if_pos rfl]

theorem closeUp_gap_mark {m : Char} (mark : typeMark m = true) (afterMark wide : Bool) (rest : Text) :
    closeUp afterMark (gap wide ++ m :: rest) = m :: closeUp true rest := by
  cases wide
  · exact closeUp_mark mark afterMark rest
  · have next : ((m :: rest).dropWhile blank).head?.any typeMark = true := by
      rw [List.dropWhile_cons_of_neg (by rw [not_blank_of_typeMark mark]; exact Bool.false_ne_true)]
      exact mark
    rw [gap, if_pos rfl, List.singleton_append, closeUp, if_pos (by decide), next, Bool.or_true, if_pos rfl,
      closeUp_mark mark]

/-- the text closes up to these characters at the end, and in front of a mark -/
structure ClosesTo (t dense : Text) : Prop where
  ends (afterMark : Bool) : closeUp afterMark t = dense
  inside (afterMark wide : Bool) {m : Char} (rest : Text) (mark : typeMark m = true) :
    closeUp afterMark (t ++ (gap wide ++ m :: rest)) = dense ++ m :: closeUp true rest

/-- A text grows by marks that close up behind it. -/
theorem ClosesTo.grow {t dense more : Text} {m : Char} (h : ClosesTo t dense) (mark : typeMark m = true) {x : Text}
    (ends : closeUp true x = more)
    (inside : ∀ (wide : Bool) {d : Char} (rest : Text), typeMark d = true →
      closeUp true (x ++ (gap wide ++ d :: rest)) = more ++ d :: closeUp true rest) (wide : Bool) :
    ClosesTo (t ++ (gap wide ++ m :: x)) (dense ++ m :: more) where
  ends afterMark := by rw [h.inside afterMark wide x mark, ends]
  inside afterMark wide' d rest mark' := by
    rw [List.append_assoc, List.append_assoc, List.cons_append, h.inside afterMark wide _ mark, inside wide' rest mark',
      List.append_assoc, List.cons_append]

/-- A name closes up to itself. -/
theorem Bare.exists_closesTo {t : Text} (h : Bare t) : ∃ dense, t = afterCommas dense ∧ ClosesTo t dense := by
  have solid : ∀ d ∈ t, blank d = false ∧ typeMark d = false := fun d hd =>
    ⟨not_blank_of_bareChar (h.chars d hd), not_typeMark_of_bareChar (h.chars d hd)⟩
  refine ⟨t, (afterCommas_solid fun comma => h.ne_of_mem comma (by decide) rfl).symm, ⟨fun afterMark => ?_, ?_⟩⟩
  · have := closeUp_solid h.filled solid afterMark []
    rwa [List.append_nil, closeUp, List.append_nil] at this
  · intro afterMark wide m rest mark
    rw [closeUp_solid h.filled solid, closeUp_gap_mark mark]

/-- Type arguments close up in front of the mark behind them. -/
theorem closeUp_argumentList {arguments : List TypeArgument} (filled : arguments ≠ [])
    (each : ∀ a ∈ arguments, ∃ dense, a.canonical = afterCommas dense ∧ ClosesTo a.written dense) :
    ∃ dense, Text.join ", " (arguments.map TypeArgument.canonical) = afterCommas dense ∧
      ∀ {m : Char} (rest : Text), typeMark m = true →
        closeUp true (argumentList arguments ++ m :: rest) = dense ++ m :: closeUp true rest := by
  induction arguments with
  | nil => exact absurd rfl filled
  | cons a arguments ih =>
    obtain ⟨⟨first, spelled, closes⟩, later⟩ := List.forall_mem_cons.1 each
    have here {m : Char} (rest : Text) (mark : typeMark m = true) :
        closeUp true (a.text ++ m :: rest) = first ++ m :: closeUp true rest := by
      rw [TypeArgument.text, List.append_assoc, List.append_assoc, closeUp_gap, closes.inside true _ rest mark]
    cases arguments with
    | nil =>
      refine ⟨first, by simpa [Text.join] using spelled, fun rest mark => ?_⟩
      simpa [argumentList, Text.join] using here rest mark
    | cons b arguments =>
      obtain ⟨others, spelled', closes'⟩ := ih (List.cons_ne_nil b arguments) later
      refine ⟨first ++ ',' :: others, ?_, fun rest mark => ?_⟩
      · rw [List.map_cons, List.map_cons, Text.join_cons, ← List.map_cons, spelled, spelled', afterCommas_append]
        rfl
      · rw [argumentList_cons, List.append_assoc, List.cons_append, here _ (by decide), closes' rest mark,
          List.append_assoc, List.cons_append]

/-- A name in front of a space or a mark is the first word or starts it: the first word is none of those without a mark
that the name is not. -/
theorem Bare.exists_word {name tail : Text} (bare : Bare name) (edge : ∀ d ∈ tail.head?, d = ' ' ∨ typeMark d = true)
    {kept : List Text} (unmarked : ∀ word ∈ kept, word.any typeMark = false) (free : name ∉ kept) :
    ∃ word rest, Text.words (name ++ tail) = word :: rest ∧ word ∉ kept := by
  have solid : ∀ x ∈ name, (!blank x) = true := fun x hx => by
    rw [not_blank_of_bareChar (bare.chars x hx)]
    rfl
  have words : Text.words (name ++ tail) =
      (name ++ tail.takeWhile (!blank ·)) :: Text.words (tail.dropWhile (!blank ·)) := by
    obtain ⟨d, ds, rfl⟩ := List.exists_cons_of_ne_nil bare.filled
    obtain ⟨visible, later⟩ := List.forall_mem_cons.1 solid
    rw [List.cons_append, Text.words_cons (by simpa using visible), List.takeWhile_append_of_pos later,
      List.dropWhile_append_of_pos later]
    rfl
  refine ⟨_, _, words, ?_⟩
  cases tail with
  | nil => simpa using free
  | cons m ms =>
    rcases edge m rfl with rfl | mark
    · rw [List.takeWhile_cons_of_neg (by decide), List.append_nil]
      exact free
    · intro member
      have inside : m ∈ name ++ (m :: ms).takeWhile (!blank ·) := by simp [not_blank_of_typeMark mark]
      exact List.any_eq_false.1 (unmarked _ member) m inside mark

namespace TypeForm

variable {t c : Text}

theorem exists_closesTo (h : TypeForm t c) : ∃ dense, c = afterCommas dense ∧ ClosesTo t dense := by
  induction h with
  | name first rest free => exact (dottedName_bare first rest).exists_closesTo
  | generic wide filled _ _ each ih =>
    obtain ⟨dense, rfl, closes⟩ := ih
    obtain ⟨inner, spelled, closes'⟩ := closeUp_argumentList filled each
    refine ⟨dense ++ '<' :: (inner ++ ['>']), ?_, closes.grow (by decide) (closes' [] (by decide)) ?_ wide⟩
    · rw [spelled, ← List.singleton_append, ← List.singleton_append (l := inner ++ _), afterCommas_append,
        afterCommas_append, afterCommas_append]
      rfl
    · intro wide' m rest mark
      rw [List.append_assoc, List.singleton_append, closes' _ (by decide), closeUp_gap_mark mark, List.append_assoc]
      rfl
  | array wide inner _ ih =>
    obtain ⟨dense, rfl, closes⟩ := ih
    refine ⟨dense ++ ['[', ']'], by rw [afterCommas_append]; rfl, closes.grow (by decide) ?_ ?_ wide⟩
    · exact closeUp_gap_mark (by decide) true inner []
    · intro wide' m rest mark
      rw [List.append_assoc, List.singleton_append, closeUp_gap_mark (by decide), closeUp_gap_mark mark]
      rfl
  | nullable wide _ ih =>
    obtain ⟨dense, rfl, closes⟩ := ih
    refine ⟨dense ++ ['?'], by rw [afterCommas_append]; rfl, closes.grow (by decide) rfl ?_ wide⟩
    intro wide' m rest mark
    exact closeUp_gap_mark mark true wide' rest

/-- **The canonical spelling of a type.** -/
theorem tidyType_eq (h : TypeForm t c) : tidyType t = c := by
  obtain ⟨dense, rfl, closes⟩ := h.exists_closesTo
  rw [tidyType, closes.ends false]
  rfl

/-! ## Characters -/

/-- A test on characters that names and the marks of types pass holds all over the text of a type. -/
theorem forall_mem {p : Char → Prop} (name : ∀ d, bareChar d = true → p d) (marks : ∀ d, typeMark d = true → p d)
    (space : p ' ') (h : TypeForm t c) : ∀ d ∈ t, p d := by
  induction h with
  | name first rest free => exact fun d hd => name d ((dottedName_bare first rest).chars d hd)
  | generic wide _ _ _ each ih =>
    have inside : ∀ a ∈ _, ∀ d ∈ TypeArgument.text a, p d := fun a ha => List.forall_mem_append.2
      ⟨forall_mem_gap space _, List.forall_mem_append.2 ⟨each a ha, forall_mem_gap space _⟩⟩
    have list := Text.forall_mem_join (List.forall_mem_singleton.2 (marks ',' (by decide))) (List.forall_mem_map.2 inside)
    exact List.forall_mem_append.2 ⟨ih, List.forall_mem_append.2 ⟨forall_mem_gap space wide,
      List.forall_mem_cons.2 ⟨marks _ (by decide), List.forall_mem_append.2
        ⟨list, List.forall_mem_singleton.2 (marks _ (by decide))⟩⟩⟩⟩
  | array wide inner _ ih =>
    exact List.forall_mem_append.2 ⟨ih, List.forall_mem_append.2 ⟨forall_mem_gap space wide,
      List.forall_mem_cons.2 ⟨marks _ (by decide), List.forall_mem_append.2
        ⟨forall_mem_gap space inner, List.forall_mem_singleton.2 (marks _ (by decide))⟩⟩⟩⟩
  | nullable wide _ ih =>
    exact List.forall_mem_append.2 ⟨ih, List.forall_mem_append.2
      ⟨forall_mem_gap space wide, List.forall_mem_singleton.2 (marks _ (by decide))⟩⟩

/-! ## Spaces -/

theorem spaced_gap_mark {m : Char} (solid : blank m = false) (wide : Bool) (rest : Text) :
    Text.spaced false (gap wide ++ m :: rest) = Text.spaced false rest := by
  have mark (afterBlank : Bool) : Text.spaced afterBlank (m :: rest) = Text.spaced false rest := by
    rw [Text.spaced, solid, if_neg Bool.false_ne_true]
  cases wide
  · exact mark false
  · exact (show Text.spaced false (' ' :: m :: rest) = _ by rw [Text.spaced, if_pos (by decide)]; exact mark true)

theorem spaced_argumentList {arguments : List TypeArgument} (filled : arguments ≠ [])
    (each : ∀ a ∈ arguments, ∀ afterBlank, Text.spaced afterBlank a.written = true) {m : Char} (solid : blank m = false)
    (rest : Text) : Text.spaced false (argumentList arguments ++ m :: rest) = Text.spaced false rest := by
  induction arguments with
  | nil => exact absurd rfl filled
  | cons a arguments ih =>
    obtain ⟨first, later⟩ := List.forall_mem_cons.1 each
    have here {m : Char} (solid : blank m = false) (rest : Text) :
        Text.spaced false (a.text ++ m :: rest) = Text.spaced false rest := by
      have behind (afterBlank : Bool) : Text.spaced afterBlank (a.written ++ (gap a.right ++ m :: rest)) =
          Text.spaced false rest := by rw [Text.spaced_append (first afterBlank), spaced_gap_mark solid]
      rw [TypeArgument.text, List.append_assoc, List.append_assoc]
      cases a.left
      · exact behind false
      · exact behind true
    cases arguments with
    | nil => simpa [argumentList, Text.join] using here solid rest
    | cons b arguments =>
      rw [argumentList_cons, List.append_assoc, List.cons_append, here (by decide),
        ih (List.cons_ne_nil b arguments) later]

/-- The words of a type stand one space apart. -/
theorem spaced (h : TypeForm t c) : ∀ afterBlank, Text.spaced afterBlank t = true := by
  induction h with
  | name first rest free =>
    have bare := dottedName_bare first rest
    have solid := Text.spaced_solid fun d hd => not_blank_of_bareChar (bare.chars d hd)
    obtain ⟨d, ds, e⟩ := List.exists_cons_of_ne_nil bare.filled
    have visible : blank d = false := not_blank_of_bareChar (bare.chars d (by rw [e]; exact List.mem_cons_self))
    intro afterBlank
    rw [e, Text.spaced, visible] at solid ⊢
    exact solid
  | generic wide filled _ _ each ih =>
    intro afterBlank
    rw [Text.spaced_append (ih afterBlank), spaced_gap_mark (by decide), spaced_argumentList filled each (by decide)]
    rfl
  | array wide inner _ ih =>
    intro afterBlank
    rw [Text.spaced_append (ih afterBlank), spaced_gap_mark (by decide), spaced_gap_mark (by decide)]
    rfl
  | nullable wide _ ih =>
    intro afterBlank
    rw [Text.spaced_append (ih afterBlank), spaced_gap_mark (by decide)]
    rfl

/-! ## The name in front -/

/-- A type starts with a name, after which it ends or has a mark or a space. -/
theorem exists_head (h : TypeForm t c) : ∃ first rest tail, t = dottedName (first :: rest) ++ tail ∧
    dottedName (first :: rest) ∉ RawParameter.modifiers ∧ ∀ d ∈ tail.head?, d = ' ' ∨ typeMark d = true := by
  have grow {t x : Text} {m : Char} (wide : Bool) (mark : typeMark m = true)
      (h : ∃ first rest tail, t = dottedName (first :: rest) ++ tail ∧
        dottedName (first :: rest) ∉ RawParameter.modifiers ∧ ∀ d ∈ tail.head?, d = ' ' ∨ typeMark d = true) :
      ∃ first rest tail, t ++ (gap wide ++ m :: x) = dottedName (first :: rest) ++ tail ∧
        dottedName (first :: rest) ∉ RawParameter.modifiers ∧ ∀ d ∈ tail.head?, d = ' ' ∨ typeMark d = true := by
    obtain ⟨first, rest, tail, rfl, free, edge⟩ := h
    refine ⟨first, rest, tail ++ (gap wide ++ m :: x), List.append_assoc .., free, ?_⟩
    cases tail with
    | nil => cases wide <;> simp [gap, mark]
    | cons d ds => simpa using edge
  induction h with
  | name first rest free => exact ⟨first, rest, [], (List.append_nil _).symm, free, by simp⟩
  | generic wide _ _ _ _ ih => exact grow wide (by decide) ih
  | array wide _ _ ih => exact grow wide (by decide) ih
  | nullable wide _ ih => exact grow wide (by decide) ih

theorem exists_start (h : TypeForm t c) : ∃ d ds, t = d :: ds ∧ bareChar d = true := by
  obtain ⟨first, rest, tail, rfl, -, -⟩ := h.exists_head
  have bare := dottedName_bare first rest
  obtain ⟨d, ds, e⟩ := List.exists_cons_of_ne_nil bare.filled
  exact ⟨d, ds ++ tail, by rw [e, List.cons_append], bare.chars d (by rw [e]; exact List.mem_cons_self)⟩

/-- A type that a space follows is cut off without it. -/
theorem trim_append_space (h : TypeForm t c) : Text.trim (t ++ [' ']) = t := by
  obtain ⟨d, ds, e, bare⟩ := h.exists_start
  have first : ∀ x ∈ t.head?, blank x = false := by
    rw [e]
    rintro _ ⟨⟩
    exact not_blank_of_bareChar bare
  exact Text.trim_padded (s := []) (u := [' ']) (by simp) (Text.forall_of_all (by decide)) first
    (Text.spaced_last (h.spaced false))

theorem isEmpty_eq (h : TypeForm t c) : t.isEmpty = false := by
  obtain ⟨d, ds, rfl, -⟩ := h.exists_start
  rfl

/-- The first word of a type is no keyword that may precede it. -/
theorem exists_word (h : TypeForm t c) : ∃ word rest, Text.words t = word :: rest ∧ word ∉ RawParameter.modifiers := by
  obtain ⟨first, rest, tail, rfl, free, edge⟩ := h.exists_head
  exact (dottedName_bare first rest).exists_word edge (by decide) free

/-! ## Commas -/

theorem onePiece_gap (wide : Bool) (depth : Nat) : OnePiece true depth (gap wide) :=
  onePiece_even (forall_mem_gap (by decide) wide) (.inr fun comma => by cases wide <;> simp [gap] at comma)

/-- A space may precede a piece. -/
theorem onePiece_gap_append {t : Text} {depth : Nat} (piece : OnePiece true depth t) (wide : Bool) :
    OnePiece true depth (gap wide ++ t) :=
  piece.plain_append (forall_mem_gap (by decide) wide) (.inr fun comma => by cases wide <;> simp [gap] at comma)

theorem head?_gap_append {t : Text} (first : t.head? ≠ some '"') (wide : Bool) : (gap wide ++ t).head? ≠ some '"' := by
  cases wide
  · exact first
  · simp [gap]

/-- A splitter passes over a type in one piece: its commas stand inside angle brackets. -/
theorem onePiece (h : TypeForm t c) : ∀ depth, OnePiece true depth t := by
  have behind {t x : Text} {depth : Nat} {m : Char} (piece : OnePiece true depth t) (wide : Bool)
      (more : OnePiece true depth (m :: x)) (other : m ≠ '"') : OnePiece true depth (t ++ (gap wide ++ m :: x)) :=
    piece.append (onePiece_gap_append more wide) (head?_gap_append (by simpa using other) wide)
  induction h with
  | name first rest free => exact (dottedName_bare first rest).onePiece true
  | @generic _ _ wide arguments _ _ _ each ih =>
    intro depth
    have pieces : ∀ a ∈ arguments, OnePiece true (depth + 1) a.text := fun a ha =>
      onePiece_gap_append ((each a ha _).append (onePiece_gap _ _) (by cases a.right <;> simp [gap])) _
    have list : OnePiece true (depth + 1) (argumentList arguments) :=
      onePiece_join (Text.forall_of_all (by decide)) (by simp) (List.forall_mem_map.2 pieces)
    exact behind (ih depth) wide (list.group (by decide) (by decide) (by decide) (by decide)) (by decide)
  | array wide inner _ ih =>
    intro depth
    have square :=
      (onePiece_gap inner (depth + 1)).group (o := '[') (c := ']') (by decide) (by decide) (by decide) (by decide)
    exact behind (ih depth) wide square (by decide)
  | nullable wide _ ih =>
    intro depth
    exact behind (ih depth) wide (onePiece_even (Text.forall_of_all (by decide)) (.inr (by decide))) (by decide)

end TypeForm

end Rendered

end EndpointSurvey
