/-
Headers of type declarations as they are rendered: type parameters, bases and constraints, over any number of lines. The
bases of a declaration are looked for behind the first colon of its header, up to the first constraint behind that. So
they are found where there are any, or no constraints; where a header has constraints and no bases, the first colon is
that of a constraint, and the types of the first constraint are taken for bases.

Main statements: `TypeHeader.baseTypesOf_tail` (what is found in a header), `TypeHeader.headingTail_text` (the header is
read up to its end) and `baseTypes_headers`.
-/
import EndpointSurvey.Proofs.Catalog.PositionalRecords
import EndpointSurvey.Proofs.Declaration.Shifting

namespace EndpointSurvey

namespace Rendered

/-! ## Headers -/

/-- an entry of a list in a header, with the blanks around it -/
structure Listed (α : Type) where
  left : Blanks
  item : α
  right : Blanks

/-- entries with commas between them -/
def listForm {α : Type} (text : α → Text) (items : List (Listed α)) : Text :=
  Text.join "," (items.map fun i => i.left.text ++ (text i.item ++ i.right.text))

/-- what a type parameter is constrained to: a type, or a word such as `class`, or to have a constructor -/
inductive Constraint where
  | type (t : TypeTree)
  | constructor

def Constraint.text : Constraint → Text
  | .type t => t.text
  | .constructor => "new()"

/-- `where T : constraints`; at least one blank stands in front of each of the words -/
structure Clause where
  above : Blanks
  apart : above.text ≠ []
  gap : Blanks
  wide : gap.text ≠ []
  parameter : Identifier
  before : Blanks
  constraints : List (Listed Constraint)
  filled : constraints ≠ []
  plain : ∀ i ∈ constraints, Text.Without ["where"] i.item.text

/-- what stands in a clause up to its colon -/
def Clause.front (c : Clause) : Text :=
  c.above.text ++ ("where" ++ (c.gap.text ++ (c.parameter.text ++ c.before.text)))

def Clause.text (c : Clause) : Text := c.front ++ ':' :: listForm Constraint.text c.constraints

/-- what follows the name of a declaration up to its body: type parameters, bases and constraints -/
structure TypeHeader where
  gap : Blanks
  parameters : List (Listed Identifier)
  above : Blanks
  bases : List (Listed TypeTree)
  plain : ∀ i ∈ bases, Text.Without ["where"] i.item.text
  clauses : List Clause
  below : Blanks

namespace TypeHeader

variable (h : TypeHeader)

/-- the type parameters in angle brackets, if there are any -/
def parameterForm : Text :=
  if h.parameters = [] then [] else '<' :: (listForm Identifier.text h.parameters ++ ['>'])

/-- a colon and the bases, if there are any -/
def baseForm : Text := if h.bases = [] then [] else ':' :: listForm TypeTree.text h.bases

/-- what follows the type parameters -/
def tail : Text := h.above.text ++ (h.baseForm ++ (h.clauses.flatMap Clause.text ++ h.below.text))

def text : Text := h.gap.text ++ (h.parameterForm ++ h.tail)

/-- the bases that are declared -/
def declared : List Text := h.bases.map (·.item.text)

/-- the types that are taken for bases -/
def found : List Text :=
  if h.bases = [] then (h.clauses.head?.map fun c => c.constraints.map (·.item.text)).getD [] else h.declared

end TypeHeader

/-! ## Lists in a header -/

/-- a character that no header ends with -/
def headChar (c : Char) : Bool := c != '\x7b' && c != ';'

/-- a text that a list in a header may hold -/
structure HeadText (t : Text) : Prop where
  piece : OnePiece true 0 t
  first : ∀ c ∈ t.head?, blank c = false
  last : ∀ c ∈ t.getLast?, blank c = false
  filled : t ≠ []
  free : Text.Without ["where"] t
  chars : ∀ c ∈ t, headChar c = true

theorem headChar_of_blank {c : Char} (h : blank c = true) : headChar c = true := by
  have not {d : Char} : blank d = false → c ≠ d := ne_of_test h
  simp [headChar, not (d := '\x7b') (by decide), not (d := ';') (by decide)]

theorem headChar_of_wordChar {c : Char} (h : wordChar c = true) : headChar c = true := by
  have not {d : Char} : wordChar d = false → c ≠ d := ne_of_test h
  simp [headChar, not (d := '\x7b') (by decide), not (d := ';') (by decide)]

theorem TypeTree.headText {t : TypeTree} (free : Text.Without ["where"] t.text) : HeadText t.text where
  piece := t.onePiece 0
  first := t.head_solid
  last := t.last_solid
  filled := t.ne_nil
  free := free
  chars := by
    refine (TypeTree.property_all (p := fun c => headChar c = true) (fun c dotted => ?_) (by decide)).tree t
    simp only [dottedChar, Bool.or_eq_true, beq_iff_eq] at dotted
    rcases dotted with letter | rfl
    · exact headChar_of_wordChar letter
    · decide

theorem Constraint.headText {c : Constraint} (free : Text.Without ["where"] c.text) : HeadText c.text := by
  cases c with
  | type t => exact TypeTree.headText free
  | constructor =>
    have word : Bare ("new".toList) := ⟨by decide, Text.forall_of_all (by decide)⟩
    have brackets : OnePiece true 0 ("()".toList) :=
      onePiece_nil.group (by decide) (by decide) (by decide) (by decide)
    exact ⟨(word.onePiece true 0).append brackets (by decide), by rintro c ⟨⟩; decide, by rintro c ⟨⟩; decide,
      by decide, free, Text.forall_of_all (by decide)⟩

theorem onePiece_padded {left right t : Text} (before : ∀ c ∈ left, blank c = true) (after : ∀ c ∈ right, blank c = true)
    (piece : OnePiece true 0 t) : OnePiece true 0 (left ++ (t ++ right)) := by
  have even {c : Char} (space : blank c = true) := Splitter.evenMark_of_blank space true
  have other {c d : Char} (space : blank c = true) (solid : blank d = false) : c ≠ d := ne_of_test space solid
  have ends : OnePiece true 0 right :=
    onePiece_even (fun c hc => even (after c hc)) (.inr fun comma => other (after _ comma) (by decide) rfl)
  refine (piece.append ends ?_).plain_append (fun c hc => ⟨even (before c hc), other (before c hc) (by decide)⟩)
    (.inr fun comma => other (before _ comma) (by decide) rfl)
  intro quote
  exact other (after _ (List.mem_of_head? quote)) (by decide) rfl

section
variable {α : Type} {text : α → Text} {items : List (Listed α)}

/-- A list is split into its entries, whatever blanks stand behind it. -/
theorem splitTop_listForm (filled : items ≠ []) (each : ∀ i ∈ items, HeadText (text i.item)) {after : Text}
    (blanks : ∀ c ∈ after, blank c = true) :
    splitTop ',' true (listForm text items ++ after) = items.map (text ·.item) := by
  obtain ⟨front, last, e⟩ := (List.eq_nil_or_concat items).resolve_left filled
  rw [List.concat_eq_append] at e
  subst e
  have read (i : Listed α) (member : i ∈ front ++ [last]) {right : Text} (pad : ∀ c ∈ right, blank c = true) :
      OnePiece true 0 (i.left.text ++ (text i.item ++ right)) ∧
        (i.left.text ++ (text i.item ++ right)).trim = text i.item :=
    ⟨onePiece_padded i.left.all pad (each i member).piece,
      Text.trim_padded i.left.all pad (each i member).first (each i member).last⟩
  -- the blanks behind the list are blanks behind its last entry
  let parts : List Text := front.map (fun i => i.left.text ++ (text i.item ++ i.right.text)) ++
    [last.left.text ++ (text last.item ++ (last.right.text ++ after))]
  have whole : listForm text (front ++ [last]) ++ after = Text.join "," parts := by
    rw [listForm, List.map_append, List.map_singleton, Text.join_append_last, List.append_assoc, List.append_assoc]
  have pad : ∀ c ∈ last.right.text ++ after, blank c = true := List.forall_mem_append.2 ⟨last.right.all, blanks⟩
  have trimmed : parts.map Text.trim = (front ++ [last]).map (text ·.item) := by
    rw [List.map_append, List.map_append, List.map_map, List.map_singleton, List.map_singleton,
      (read last (by simp) pad).2]
    congr 1
    exact List.map_congr_left fun i member => (read i (by simp [member]) i.right.all).2
  rw [whole, ← trimmed]
  apply splitTop_commas (by simp [parts])
  · refine List.forall_mem_append.2 ⟨List.forall_mem_map.2 fun i member => ?_, List.forall_mem_singleton.2 ?_⟩
    · exact (read i (by simp [member]) i.right.all).1
    · exact (read last (by simp) pad).1
  · intro t member
    have kept : t.trim ∈ (front ++ [last]).map (text ·.item) := trimmed ▸ List.mem_map_of_mem member
    obtain ⟨i, member, e⟩ := List.mem_map.1 kept
    rw [← e]
    exact (each i member).filled

/-- No entry of a list holds the word that starts a clause. -/
theorem without_listForm (each : ∀ i ∈ items, HeadText (text i.item)) : Text.Without ["where"] (listForm text items) := by
  rw [Text.Without, listForm]
  have comma : (",".toList) = [','] := rfl
  rw [comma, Text.runWords_join (by decide)]
  intro word member
  obtain ⟨part, listed, member⟩ := List.mem_flatMap.1 member
  obtain ⟨i, here, rfl⟩ := List.mem_map.1 listed
  exact (Text.Without.marks_append i.left.marks ((each i here).free.append_marks i.right.marks)) word member

theorem headChar_listForm (each : ∀ i ∈ items, HeadText (text i.item)) : ∀ c ∈ listForm text items, headChar c = true := by
  refine Text.forall_mem_join (Text.forall_of_all (by decide)) (List.forall_mem_map.2 fun i member => ?_)
  have pad (g : Blanks) : ∀ c ∈ g.text, headChar c = true := fun c hc => headChar_of_blank (g.all c hc)
  exact List.forall_mem_append.2 ⟨pad i.left, List.forall_mem_append.2 ⟨(each i member).chars, pad i.right⟩⟩

end

namespace TypeHeader

variable (h : TypeHeader)

theorem headText_base : ∀ i ∈ h.bases, HeadText i.item.text := fun i member => TypeTree.headText (h.plain i member)

end TypeHeader

theorem Clause.headText (c : Clause) : ∀ i ∈ c.constraints, HeadText i.item.text :=
  fun i member => Constraint.headText (c.plain i member)

/-! ## What is found in a header -/

/-- clauses and blanks -/
def clausesForm (clauses : List Clause) (below : Blanks) : Text := clauses.flatMap Clause.text ++ below.text

/-- The entries of a list stand in front of the first clause. -/
theorem splitTop_beforeWord {α : Type} {text : α → Text} {items : List (Listed α)} (filled : items ≠ [])
    (each : ∀ i ∈ items, HeadText (text i.item)) (clauses : List Clause) (below : Blanks) :
    splitTop ',' true (Text.beforeWord "where" (listForm text items ++ clausesForm clauses below)) =
      items.map (text ·.item) := by
  have free := without_listForm each
  cases clauses with
  | nil =>
    rw [clausesForm, List.flatMap_nil, List.nil_append, (free.append_marks below.marks).beforeWord]
    exact splitTop_listForm filled each below.all
  | cons c cs =>
    obtain ⟨blanks, x, above⟩ := (List.eq_nil_or_concat c.above.text).resolve_left c.apart
    obtain ⟨d, ds, gap⟩ := List.exists_cons_of_ne_nil c.wide
    rw [List.concat_eq_append] at above
    have spaces : ∀ y ∈ blanks ++ [x], blank y = true := above ▸ c.above.all
    have space : blank d = true := c.gap.all d (gap ▸ List.mem_cons_self)
    have first := (List.forall_mem_append.1 spaces).1
    have last : blank x = true := spaces x (by simp)
    obtain ⟨rest, shape⟩ : ∃ rest, clausesForm (c :: cs) below = blanks ++ x :: ("where".toList ++ d :: rest) := by
      refine ⟨ds ++ (c.parameter.text ++ (c.before.text ++ ':' :: (listForm Constraint.text c.constraints ++
        (cs.flatMap Clause.text ++ below.text)))), ?_⟩
      rw [clausesForm, List.flatMap_cons, Clause.text, Clause.front, above, gap]
      simp only [List.append_assoc, List.cons_append, List.nil_append]
    have marks : ∀ y ∈ blanks, wordChar y = false := fun y hy => not_wordChar_of_blank (first y hy)
    rw [shape, ← List.append_assoc, Text.beforeWord_found (free.append_marks marks) (not_wordChar_of_blank last)
      (by decide) (Text.forall_of_all (by decide)) (not_wordChar_of_blank space), List.append_assoc]
    exact splitTop_listForm filled each spaces

/-- The entries behind the first colon are taken for bases. -/
theorem baseTypesOf_colon {α : Type} {text : α → Text} {items : List (Listed α)} (filled : items ≠ [])
    (each : ∀ i ∈ items, HeadText (text i.item)) {front : Text} (colonless : ':' ∉ front) (clauses : List Clause)
    (below : Blanks) :
    baseTypesOf (front ++ ':' :: (listForm text items ++ clausesForm clauses below)) = items.map (text ·.item) := by
  have found : Text.splitFirst? ":" (front ++ ':' :: (listForm text items ++ clausesForm clauses below)) =
      some (front, listForm text items ++ clausesForm clauses below) := by
    refine Lexeme.splitFirst?_of_absent fun s tail filled starts => ?_
    obtain ⟨c, cs, rfl⟩ := List.exists_cons_of_ne_nil filled
    have colon : ':' = c := (List.cons_prefix_cons.1 starts).1
    exact colonless (tail.subset (colon ▸ List.mem_cons_self))
  rw [baseTypesOf, found]
  dsimp only
  rw [splitTop_beforeWord filled each clauses below, List.filter_eq_self]
  intro t member
  obtain ⟨i, here, rfl⟩ := List.mem_map.1 member
  simpa using (each i here).filled

/-- Blanks in front of a header change nothing. -/
theorem baseTypesOf_blanks {g : Text} (blanks : ∀ c ∈ g, blank c = true) (t : Text) :
    baseTypesOf (g ++ t) = baseTypesOf t := by
  induction g with
  | nil => rfl
  | cons c cs ih =>
    obtain ⟨here, later⟩ := List.forall_mem_cons.1 blanks
    have other : ':' ≠ c := Ne.symm (ne_of_test here (by decide))
    have passed : Text.after? ":" (c :: (cs ++ t)) = none := if_neg other
    rw [← ih later, baseTypesOf, baseTypesOf, List.cons_append, Text.splitFirst?, passed]
    cases Text.splitFirst? ":" (cs ++ t) <;> rfl

theorem Clause.colonless (c : Clause) : ':' ∉ c.front := by
  have blanks (g : Blanks) : ':' ∉ g.text := fun colon => g.ne (by decide) _ colon rfl
  have word : ':' ∉ c.parameter.text := fun colon => absurd (c.parameter.wordChars _ colon) (by decide)
  simp [front, blanks, word]

namespace TypeHeader

variable (h : TypeHeader)

/-- **What is found in a header**: its bases, or for lack of them the types of its first constraint. -/
theorem baseTypesOf_tail : baseTypesOf h.tail = h.found := by
  have blanks (g : Blanks) : ':' ∉ g.text := fun colon => g.ne (by decide) _ colon rfl
  by_cases baseless : h.bases = []
  · rw [tail, baseForm, if_pos baseless, found, if_pos baseless, List.nil_append]
    cases clauses : h.clauses with
    | nil =>
      rw [List.flatMap_nil, List.nil_append, baseTypesOf_blanks h.above.all, ← List.append_nil h.below.text,
        baseTypesOf_blanks h.below.all]
      rfl
    | cons c cs =>
      have shape : h.above.text ++ ((c :: cs).flatMap Clause.text ++ h.below.text) =
          (h.above.text ++ c.front) ++ ':' :: (listForm Constraint.text c.constraints ++ clausesForm cs h.below) := by
        simp [Clause.text, clausesForm]
      rw [shape]
      exact baseTypesOf_colon c.filled c.headText (by simp [blanks, c.colonless]) cs h.below
  · rw [tail, baseForm, if_neg baseless, found, if_neg baseless, List.cons_append]
    exact baseTypesOf_colon baseless h.headText_base (blanks h.above) h.clauses h.below

/-- The bases are all that is found where there are any, and where nothing is constrained. -/
theorem found_eq_declared_iff : h.found = h.declared ↔ h.bases ≠ [] ∨ h.clauses = [] := by
  by_cases baseless : h.bases = []
  · have none : h.declared = [] := by rw [declared, baseless]; rfl
    rw [none, found, if_pos baseless, baseless]
    cases clauses : h.clauses with
    | nil => simp
    | cons c cs => simpa using c.filled
  · simp [found, baseless]

/-! ## Reading a header -/

/-- What follows the type parameters starts, blanks aside, with a colon or a word, and does not end the heading. -/
theorem exists_tail : ∃ g t, h.tail = g ++ t ∧ (∀ c ∈ g, blank c = true) ∧ (∀ c ∈ t.head?, c = ':' ∨ c = 'w') := by
  by_cases baseless : h.bases = []
  · cases clauses : h.clauses with
    | nil =>
      refine ⟨h.above.text ++ h.below.text, [], ?_, List.forall_mem_append.2 ⟨h.above.all, h.below.all⟩, by simp⟩
      simp [tail, baseForm, baseless, clauses]
    | cons c cs =>
      refine ⟨h.above.text ++ c.above.text, "where".toList ++ ((c.gap.text ++ (c.parameter.text ++ c.before.text)) ++
        ':' :: listForm Constraint.text c.constraints ++ (cs.flatMap Clause.text ++ h.below.text)), ?_,
        List.forall_mem_append.2 ⟨h.above.all, c.above.all⟩, fun d first => .inr ?_⟩
      · rw [tail, baseForm, if_pos baseless, clauses, List.flatMap_cons, Clause.text, Clause.front]
        simp only [List.append_assoc, List.nil_append]
      · exact (Option.some.inj first).symm
  · refine ⟨h.above.text, h.baseForm ++ (h.clauses.flatMap Clause.text ++ h.below.text), rfl, h.above.all, ?_⟩
    rw [baseForm, if_neg baseless]
    simp

theorem headChar_tail : ∀ c ∈ h.tail, headChar c = true := by
  have pad (g : Blanks) : ∀ c ∈ g.text, headChar c = true := fun c hc => headChar_of_blank (g.all c hc)
  have bases : ∀ c ∈ h.baseForm, headChar c = true := by
    rw [baseForm]
    split
    · simp
    · exact List.forall_mem_cons.2 ⟨by decide, headChar_listForm h.headText_base⟩
  have clause (k : Clause) : ∀ c ∈ k.text, headChar c = true := by
    have word : ∀ c ∈ k.parameter.text, headChar c = true := fun c hc => headChar_of_wordChar (k.parameter.wordChars c hc)
    rw [Clause.text, Clause.front]
    refine List.forall_mem_append.2 ⟨?_, List.forall_mem_cons.2 ⟨by decide, headChar_listForm k.headText⟩⟩
    exact List.forall_mem_append.2 ⟨pad k.above, List.forall_mem_append.2 ⟨Text.forall_of_all (by decide),
      List.forall_mem_append.2 ⟨pad k.gap, List.forall_mem_append.2 ⟨word, pad k.before⟩⟩⟩⟩
  refine List.forall_mem_append.2 ⟨pad h.above, List.forall_mem_append.2 ⟨bases, List.forall_mem_append.2 ⟨?_, pad h.below⟩⟩⟩
  intro c hc
  obtain ⟨k, -, here⟩ := List.mem_flatMap.1 hc
  exact clause k c here

section
variable {document : Source} {offset : Nat} {rest : Text}

theorem skipBlanks_padded {g t : Text} (blanks : ∀ c ∈ g, blank c = true) (solid : ∀ c ∈ t.head?, blank c = false)
    {code : Text} (here : code.drop offset = g ++ t) : skipBlanks code offset = offset + g.length := by
  rw [skipBlanks, here, Text.leadingBlanks_padded blanks solid]

/-- What follows the type parameters is neither a bracket nor an end of the heading, up to the body. -/
theorem exists_start (ends : ∃ c ∈ rest.head?, c = '\x7b' ∨ c = ';') {g : Text} (blanks : ∀ c ∈ g, blank c = true)
    (here : document.code.drop offset = g ++ (h.tail ++ rest)) :
    ∃ c t, (document.code.drop (skipBlanks document.code offset)).head? = some c ∧ c ≠ '<' ∧ c ≠ '(' ∧
      (document.code.drop (skipBlanks document.code offset)).takeWhile (fun c => c != '\x7b' && c != ';') = t ∧
      baseTypesOf t = h.found ∧ document.code.drop (skipBlanks document.code offset + t.length) = rest := by
  obtain ⟨g', t, shape, blanks', starts⟩ := h.exists_tail
  obtain ⟨e, es, body⟩ : ∃ e es, rest = e :: es := by
    obtain ⟨e, head, -⟩ := ends
    obtain ⟨es, body⟩ := List.head?_eq_some_iff.1 head
    exact ⟨e, es, body⟩
  subst body
  have last : e = '\x7b' ∨ e = ';' := by simpa using ends
  have stop : headChar e = false := by rcases last with rfl | rfl <;> decide
  obtain ⟨c, cs, head, first⟩ : ∃ c cs, t ++ e :: es = c :: cs ∧ (c = ':' ∨ c = 'w' ∨ c = '\x7b' ∨ c = ';') := by
    cases t with
    | nil => exact ⟨e, es, rfl, .inr (.inr last)⟩
    | cons c cs => exact ⟨c, cs ++ e :: es, rfl, (starts c rfl).imp_right .inl⟩
  have solid : blank c = false ∧ c ≠ '<' ∧ c ≠ '(' := by rcases first with rfl | rfl | rfl | rfl <;> decide
  have here' : document.code.drop offset = (g ++ g') ++ (t ++ e :: es) := by
    rw [here, shape]
    simp only [List.append_assoc]
  have skipped : skipBlanks document.code offset = offset + (g ++ g').length :=
    skipBlanks_padded (List.forall_mem_append.2 ⟨blanks, blanks'⟩) (by rw [head]; simpa using solid.1) here'
  have behind : document.code.drop (skipBlanks document.code offset) = t ++ e :: es := by
    rw [skipped, ← List.drop_drop, here', List.drop_left]
  have plain : ∀ c ∈ t, headChar c = true := fun c hc => h.headChar_tail c (shape ▸ List.mem_append_right g' hc)
  refine ⟨c, t, by rw [behind, head]; rfl, solid.2.1, solid.2.2, ?_, ?_, ?_⟩
  · rw [behind]
    exact (Text.takeWhile_append_stop stop t es).trans (List.takeWhile_eq_self_iff.2 plain)
  · rw [← h.baseTypesOf_tail, shape, baseTypesOf_blanks blanks']
  · rw [← List.drop_drop, behind, List.drop_left]

theorem typeParameters_listForm {items : List (Listed Identifier)} (filled : items ≠ []) :
    ((Text.splitOn ',' (listForm Identifier.text items)).map Text.trim).filter (!·.isEmpty) =
      items.map (·.item.text) := by
  have plain : ∀ part ∈ items.map (fun i => i.left.text ++ (i.item.text ++ i.right.text)), ',' ∉ part := by
    refine List.forall_mem_map.2 fun i _ comma => ?_
    have word : ',' ∉ i.item.text := fun hc => absurd (i.item.wordChars _ hc) (by decide)
    have pad (g : Blanks) : ',' ∉ g.text := fun hc => g.ne (by decide) _ hc rfl
    simp [word, pad] at comma
  have named (i : Listed Identifier) : Text.trim (i.left.text ++ (i.item.text ++ i.right.text)) = i.item.text :=
    Text.trim_padded i.left.all i.right.all
      (fun c hc => not_blank_of_wordChar (i.item.wordChars c (List.mem_of_mem_head? hc)))
      fun c hc => not_blank_of_wordChar (i.item.wordChars c (List.mem_of_getLast? hc))
  have parts : Text.splitOn ',' (listForm Identifier.text items) = _ := Text.splitOn_join plain (by simpa using filled)
  rw [parts, List.map_map, List.filter_eq_self.2]
  · exact List.map_congr_left fun i _ => named i
  · refine List.forall_mem_map.2 fun i _ => ?_
    rw [Function.comp_apply, named]
    simpa using i.item.bare.filled

/-- **A header is read up to its end**: its type parameters are, and what is found in it. -/
theorem headingTail_text (ends : ∃ c ∈ rest.head?, c = '\x7b' ∨ c = ';')
    (here : document.code.drop offset = h.text ++ rest) (name : Text) :
    ∃ stop, headingTail document name offset = .ok ⟨h.parameters.map (·.item.text), none, h.found, stop⟩ ∧
      document.code.drop stop = rest := by
  have inside (n : Nat) (behind : document.code.drop n = rest) : ¬ document.code.length ≤ n := by
    intro short
    rw [List.drop_eq_nil_of_le short] at behind
    obtain ⟨c, head, -⟩ := ends
    rw [← behind] at head
    cases head
  by_cases none : h.parameters = []
  · have shape : document.code.drop offset = h.gap.text ++ (h.tail ++ rest) := by
      rw [here, text, parameterForm, if_pos none, List.nil_append, List.append_assoc]
    obtain ⟨c, t, head, angle, round, taken, bases, behind⟩ := h.exists_start ends h.gap.all shape
    refine ⟨_, ?_, behind⟩
    rw [headingTail_eq, bracketed_none head angle]
    simp only [listStart, Option.isSome_none, Bool.false_eq_true, if_false, bracketed_none head round, tailBetween,
      Option.map_none, taken, bases, none, List.map_nil, if_neg (inside _ behind)]
  · have shape : document.code.drop offset =
        h.gap.text ++ ('<' :: (listForm Identifier.text h.parameters ++ '>' :: (h.tail ++ rest))) := by
      rw [here, text, parameterForm, if_neg none]
      simp only [List.append_assoc, List.cons_append, List.nil_append]
    have skipped : skipBlanks document.code offset = offset + h.gap.text.length :=
      skipBlanks_padded h.gap.all (by rintro c ⟨⟩; decide) shape
    have opened : document.code.drop (skipBlanks document.code offset) =
        '<' :: (listForm Identifier.text h.parameters ++ '>' :: (h.tail ++ rest)) := by
      rw [skipped, ← List.drop_drop, shape, List.drop_left]
    have free : Paired '<' '>' (listForm Identifier.text h.parameters) := by
      have plain : ∀ c ∈ listForm Identifier.text h.parameters, c ≠ '<' ∧ c ≠ '>' := by
        refine Text.forall_mem_join (Text.forall_of_all (by decide)) (List.forall_mem_map.2 fun i _ => ?_)
        have pad (g : Blanks) : ∀ c ∈ g.text, c ≠ '<' ∧ c ≠ '>' :=
          fun c hc => ⟨g.ne (by decide) c hc, g.ne (by decide) c hc⟩
        exact List.forall_mem_append.2 ⟨pad i.left, List.forall_mem_append.2
          ⟨fun c hc => ⟨i.item.bare.ne_of_mem hc (by decide), i.item.bare.ne_of_mem hc (by decide)⟩, pad i.right⟩⟩
      exact .of_free plain
    have found : closing? '<' '>' (document.code.drop (skipBlanks document.code offset)) =
        some ((listForm Identifier.text h.parameters).length + 1) := by
      rw [opened]
      exact (closing?_eq_some_iff (by decide)).2 ⟨_, _, rfl, rfl, free⟩
    have angles := bracketed_some (by rw [opened]; rfl) found
    have after : document.code.drop (skipBlanks document.code offset +
        ((listForm Identifier.text h.parameters).length + 1) + 1) = [] ++ (h.tail ++ rest) := by
      rw [Nat.add_assoc, ← List.drop_drop, opened, List.drop_succ_cons, ← List.drop_drop, List.drop_left]
      rfl
    have between : (document.slice (skipBlanks document.code offset + 1) (skipBlanks document.code offset +
        ((listForm Identifier.text h.parameters).length + 1))).code = listForm Identifier.text h.parameters := by
      have width (n m : Nat) : n + (m + 1) - (n + 1) = m := by omega
      rw [Source.code_slice, width, ← List.drop_drop, opened, List.drop_succ_cons, List.drop_zero, List.take_left]
    obtain ⟨c, t, head, angle, round, taken, bases, behind⟩ := h.exists_start ends (by simp) after
    refine ⟨_, ?_, behind⟩
    rw [headingTail_eq, angles]
    simp only [listStart, Option.isSome_some, if_true, bracketed_none head round, tailBetween, Option.map_none, taken,
      bases, between, typeParameters_listForm none, if_neg (inside _ behind)]

end

end TypeHeader

/-! ## The bases of a declaration -/

/-- A document has a declaration with this header, that ends with a semicolon or has a body that closes. -/
structure Heads (text : Text) (heading : Heading) (kind : DeclarationKind) (h : TypeHeader) : Prop where
  listed : heading ∈ headings (mask true text)
  declares : declaredKind? (mask true text) heading = some kind
  header : ∃ rest, (mask true text).drop heading.stop = h.text ++ rest ∧
    (rest.head? = some ';' ∨ rest.head? = some '\x7b' ∧ (closing? '\x7b' '\x7d' rest).isSome = true)

/-- **The bases of a declaration** are found where it has any, and where nothing is constrained. Otherwise the types of
the first constraint are taken for its bases, and the first class of them for the one that it inherits from. -/
theorem baseTypes_headers {text : Text} {heading : Heading} {kind : DeclarationKind} {h : TypeHeader}
    (heads : Heads text heading kind h) :
    ∃ b, (readType (Source.ofText text) (namespaces (mask true text)) heading kind).value = some b ∧
      b ∈ (typeBlocks text).value ∧ b.kind = kind ∧ b.name = heading.name ∧
      b.typeParameters = h.parameters.map (·.item.text) ∧ b.positional = none ∧ b.baseTypes = h.found ∧
      (b.baseTypes = h.declared ↔ h.bases ≠ [] ∨ h.clauses = []) ∧
      (kind ≠ .enumType → (describe b).value.baseType = baseClass? h.found) := by
  obtain ⟨listed, declares, rest, here, body⟩ := heads
  have ends : ∃ c ∈ rest.head?, c = '\x7b' ∨ c = ';' := by
    rcases body with head | ⟨head, -⟩
    · exact ⟨';', head, .inr rfl⟩
    · exact ⟨'\x7b', head, .inl rfl⟩
  have code : (Source.ofText text).code.drop heading.stop = h.text ++ rest := here
  obtain ⟨stop, read, behind⟩ := h.headingTail_text ends code heading.name
  obtain ⟨b, found, same⟩ : ∃ b, blockOf? (.ofText text) (namespaces (mask true text)) heading kind = some b ∧
      b.kind = kind ∧ b.name = heading.name ∧ b.typeParameters = h.parameters.map (·.item.text) ∧
      b.positional = none ∧ b.baseTypes = h.found := by
    rw [blockOf?, read]
    dsimp only
    rw [behind]
    rcases body with head | ⟨head, closed⟩
    · rw [if_neg (by rw [head]; decide)]
      exact ⟨_, rfl, rfl, rfl, rfl, rfl, rfl⟩
    · obtain ⟨i, closing⟩ := Option.isSome_iff_exists.1 closed
      rw [if_pos head, closing]
      exact ⟨_, rfl, rfl, rfl, rfl, rfl, rfl⟩
  obtain ⟨sort, name, parameters, list, bases⟩ := same
  refine ⟨b, (value_readType ..).trans found, ?_, sort, name, parameters, list, bases, ?_, ?_⟩
  · rw [value_typeBlocks, blocksOf]
    exact List.mem_filterMap.2 ⟨heading, listed, by rw [Source.code_ofText, declares]; exact found⟩
  · rw [bases]
    exact h.found_eq_declared_iff
  · intro enumeration
    rw [value_describe_baseType (sort ▸ enumeration), bases]

/-- A name is followed by a mark, whatever the header. -/
theorem TypeHeader.exists_mark (h : TypeHeader) {c : Char} (mark : wordChar c = false) (rest : Text) :
    ∃ m code, h.text ++ c :: rest = m :: code ∧ wordChar m = false := by
  have blanks (g : Blanks) (filled : g.text ≠ []) (t : Text) : ∃ m code, g.text ++ t = m :: code ∧ wordChar m = false := by
    obtain ⟨d, ds, e⟩ := List.exists_cons_of_ne_nil filled
    exact ⟨d, ds ++ t, by rw [e]; rfl, not_wordChar_of_blank (g.all d (e ▸ List.mem_cons_self))⟩
  rw [text, List.append_assoc]
  by_cases gap : h.gap.text = []
  · rw [gap, List.nil_append, parameterForm]
    split
    · rw [List.nil_append, tail, List.append_assoc]
      by_cases above : h.above.text = []
      · rw [above, List.nil_append, baseForm]
        split
        · cases clauses : h.clauses with
          | nil =>
            by_cases below : h.below.text = []
            · exact ⟨c, rest, by rw [below]; rfl, mark⟩
            · exact blanks h.below below _
          | cons k ks =>
            rw [List.nil_append, List.flatMap_cons, Clause.text, Clause.front]
            simp only [List.append_assoc]
            exact blanks k.above k.apart _
        · exact ⟨':', _, rfl, by decide⟩
      · exact blanks h.above above _
    · exact ⟨'<', _, rfl, by decide⟩
  · exact blanks h.gap gap _

/-- Every rendered declaration that has a body is one with its header, whatever else the document has. -/
theorem heads_declarationForm {text : Text} {kind : DeclarationKind} {name : Identifier} (free : name.text ∉ nonTypeNames)
    (h : TypeHeader) {rest : Text}
    (body : rest.head? = some ';' ∨ rest.head? = some '\x7b' ∧ (closing? '\x7b' '\x7d' rest).isSome = true)
    (code : mask true text = declarationForm kind name (h.text ++ rest)) : Heads text (headingOf kind name) kind h := by
  obtain ⟨c, more, shape, mark⟩ : ∃ c more, rest = c :: more ∧ wordChar c = false := by
    rcases body with head | ⟨head, -⟩
    all_goals
      obtain ⟨more, shape⟩ := List.head?_eq_some_iff.1 head
      exact ⟨_, more, shape, by decide⟩
  obtain ⟨m, tail, behind, edge⟩ := h.exists_mark mark more
  refine ⟨?_, ?_, rest, ?_, body⟩
  · rw [code, shape, behind, headings_declarationForm_cons edge free]
    exact List.mem_cons_self
  · rw [code]
    exact declaredKind?_declarationForm free _
  · rw [code]
    exact drop_declarationForm _

/-- `<T> where T : ControllerBase` -/
def constrained : TypeHeader :=
  let parameter : Identifier := ⟨"T", by decide, by decide⟩
  let base : TypeTree := .name ⟨[], ⟨"ControllerBase", by decide, by decide⟩⟩
  { gap := .empty
    parameters := [⟨.empty, parameter, .empty⟩]
    above := .empty
    bases := []
    plain := by simp
    clauses := [⟨.single, Blanks.single_ne_nil, .single, Blanks.single_ne_nil, parameter, .single,
      [⟨.single, .type base, .single⟩], by simp,
      List.forall_mem_singleton.2 (.single (by decide) (Text.forall_of_all (by decide)) (by decide))⟩]
    below := .empty }

/-- A class is taken for a controller for the sake of a constraint. -/
theorem baseTypes_headers_constrained :
    let text : Text := "public class Handlers<T> where T : ControllerBase \x7b \x7d"
    let heading := headingOf .classType ⟨"Handlers", by decide, by decide⟩
    let base : Text := "ControllerBase"
    constrained.text = "<T> where T : ControllerBase " ∧ Heads text heading .classType constrained ∧
      constrained.declared = [] ∧ ∃ b ∈ (typeBlocks text).value, b.name = "Handlers" ∧ b.baseTypes = [base] ∧
        (describe b).value.baseType = some base ∧ b.isController = true := by
  intro text heading base
  have plain : mask true text = text := (masks_plain (Text.forall_of_all (by decide)) true).mask_eq
  have shape : mask true text = declarationForm .classType ⟨"Handlers", by decide, by decide⟩ (constrained.text ++ "\x7b \x7d") := by
    rw [plain]
    decide
  have heads : Heads text heading .classType constrained :=
    heads_declarationForm (by decide) constrained (.inr ⟨by decide, by decide⟩) shape
  have found : constrained.found = [base] := by decide
  have controller : namesController base = true := by
    have words : Text.runWords base = [base] := Text.runWords_single (by decide) (Text.forall_of_all (by decide))
    have listed : base ∈ Text.runWords base := words ▸ List.mem_cons_self
    obtain ⟨run, member, word⟩ := List.mem_map.1 listed
    refine List.any_eq_true.2 ⟨run, member, ?_⟩
    rw [word]
    decide
  obtain ⟨b, -, member, kind, name, -, -, bases, -, told⟩ := baseTypes_headers heads
  refine ⟨by decide, heads, by decide, b, member, name, bases.trans found, ?_, ?_⟩
  · rw [told (by decide), found]
    decide
  · rw [TypeBlock.isController, kind, bases, found]
    simp [controller]

end Rendered

end EndpointSurvey
