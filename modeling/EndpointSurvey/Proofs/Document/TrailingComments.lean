/-
Comments behind a member, on the line that it ends on. The documentation of a member is read off all that stands between
it and the member before it, the rest of the line that one ends on included. So a plain comment there is taken for the
start of the documentation of the next member, unless that has documentation of its own, or other comments or code
between it and the member before it.

Main statements: `LineEnd.ofText_commented` (how the comment is blanked), `LineEnd.adopted_doc` (the documentation of the
next member) and `trailing_comment_iff`.
-/
import EndpointSurvey.Proofs.Declaration.Neighbours
import EndpointSurvey.Proofs.Document.Locations
import EndpointSurvey.Proofs.Source.Quotation

namespace EndpointSurvey

open Lexeme

/-! ## The end of a line -/

/-- a document cut at the end of a line: blanks behind what the line holds, a line feed, and what follows -/
structure LineEnd where
  before : Text
  gap : Text
  rest : Text
  after : Text
  blanks : ∀ c ∈ gap ++ rest, blank c = true ∧ c ≠ '\n'

namespace LineEnd

variable (d : LineEnd)

def text : Text := d.before ++ ((d.gap ++ d.rest ++ ['\n']) ++ d.after)

/-- the blanks with a comment between them -/
def remark (x : Text) : Text := d.gap ++ '/' :: '/' :: (x ++ d.rest)

/-- the document with a comment at the end of the line -/
def commented (x : Text) : Text := d.before ++ ((d.remark x ++ ['\n']) ++ d.after)

/-- where the next line starts -/
def next : Nat := d.before.length + (d.gap ++ d.rest ++ ['\n']).length

/-- the blanks at the end of the line, which are code -/
def blankEnd : Source := ⟨d.gap ++ d.rest ++ ['\n'], d.gap ++ d.rest ++ ['\n'], rfl⟩

/-- the end of the line with the comment, blanked -/
def commentEnd (x : Text) : Source :=
  ⟨d.remark x ++ ['\n'], d.gap ++ blankOut ('/' :: '/' :: (x ++ d.rest)) ++ ['\n'], by simp [remark, blankOut]⟩

theorem blankEnd_blank : ∀ c ∈ d.blankEnd.code, blank c = true :=
  List.forall_mem_append.2 ⟨fun c hc => (d.blanks c hc).1, List.forall_mem_singleton.2 (by decide)⟩

theorem gap_blank : ∀ c ∈ d.gap, blank c = true := fun c hc => (d.blanks c (List.mem_append_left _ hc)).1

theorem rest_blank : ∀ c ∈ d.rest, blank c = true := fun c hc => (d.blanks c (List.mem_append_right _ hc)).1

theorem commentEnd_blank (x : Text) : ∀ c ∈ (d.commentEnd x).code, blank c = true := by
  have spaces : ∀ t : Text, ∀ c ∈ blankOut t, blank c = true := by
    intro t c hc
    obtain ⟨d, -, rfl⟩ := List.mem_map.1 hc
    split <;> decide
  exact List.forall_mem_append.2 ⟨List.forall_mem_append.2 ⟨d.gap_blank, spaces _⟩,
    List.forall_mem_singleton.2 (by decide)⟩

theorem commentEnd_length (x : Text) : (d.commentEnd x).length = 2 + x.length + d.blankEnd.length := by
  simp [Source.length, commentEnd, blankEnd, blankOut]
  omega

section
variable {d} {m : Char} (last : (lex d.before).getLast? = some (code m)) (mark : codeMark m = true)
  (backslash : m ≠ '\\')
include last mark backslash

/-- What stands behind a mark of code is blanked on its own. -/
theorem ofText_behind {line code : Text} (size : line.length = code.length)
    (closed : Lexeme.code '\'' ∈ lex d.before → Unquoted (line ++ '\n' :: d.after))
    (blanked : ∀ lineBlank, (lexFrom lineBlank (line ++ '\n' :: d.after)).flatMap (masked true) =
      code ++ '\n' :: mask true d.after) :
    Source.ofText (d.before ++ ((line ++ ['\n']) ++ d.after)) = Source.ofText d.before ++
      (⟨line ++ ['\n'], code ++ ['\n'], by rw [List.length_append, List.length_append, size]⟩ ++
        Source.ofText d.after) := by
  obtain ⟨lineBlank, parts⟩ := lexFrom_append last mark backslash
  refine Source.ext rfl ?_
  have whole := parts (line ++ '\n' :: d.after) closed
  show mask true _ = mask true d.before ++ ((code ++ ['\n']) ++ mask true d.after)
  rw [List.append_assoc, List.append_assoc, List.singleton_append, List.singleton_append, mask, lex, whole,
    List.flatMap_append, blanked]
  rfl

/-- Blanks at the end of a line stay blanks. -/
theorem ofText_text : Source.ofText d.text = Source.ofText d.before ++ (d.blankEnd ++ Source.ofText d.after) := by
  have blanks : ∀ c ∈ d.gap ++ d.rest, blank c = true := fun c hc => (d.blanks c hc).1
  refine ofText_behind last mark backslash rfl (fun _ => ⟨_, _, rfl, fun c hc => ?_⟩) fun lineBlank => ?_
  · exact ⟨ne_of_test (blanks c hc) (by decide), ne_of_test (blanks c hc) (by decide)⟩
  · obtain ⟨lineBlank', whole⟩ :=
      masks_plain (fun c hc => codeMark_of_blank (blanks c hc)) true lineBlank ('\n' :: d.after)
    rw [whole, lexFrom_feed]

/-- **A comment at the end of a line** is blanked, and what follows is as it was. -/
theorem ofText_commented {x : Text} (line : ∀ c ∈ x, lineBreak c = false)
    (closed : code '\'' ∈ lex d.before → ∀ c ∈ x, c ≠ '\'' ∧ c ≠ '\\') :
    Source.ofText (d.commented x) = Source.ofText d.before ++ (d.commentEnd x ++ Source.ofText d.after) := by
  have apart : ∀ {c : Char}, blank c = true → c ≠ '\'' ∧ c ≠ '\\' :=
    fun space => ⟨ne_of_test space (by decide), ne_of_test space (by decide)⟩
  refine ofText_behind last mark backslash (by simp [remark, blankOut]) (fun open_ => ⟨_, _, rfl, ?_⟩)
    fun lineBlank => ?_
  · simp only [remark, List.forall_mem_append, List.forall_mem_cons]
    exact ⟨fun c hc => apart (d.gap_blank c hc), by decide, by decide, closed open_,
      fun c hc => apart (d.rest_blank c hc)⟩
  · have single : '\n' ∉ x ++ d.rest := by
      rw [List.mem_append]
      rintro (mem | mem)
      · exact absurd (line _ mem) (by decide)
      · exact (d.blanks _ (List.mem_append_right _ mem)).2 rfl
    have found : ∀ lineBlank, special? lineBlank ('/' :: '/' :: (x ++ d.rest) ++ '\n' :: d.after) =
        some (.remark ('/' :: '/' :: (x ++ d.rest)), '\n' :: d.after) :=
      fun lineBlank => congrArg some (Piece.lineRemark_words single d.after)
    obtain ⟨lineBlank', whole⟩ := masks_plain (fun c hc => codeMark_of_blank (d.gap_blank c hc)) true lineBlank
      ('/' :: '/' :: (x ++ d.rest) ++ '\n' :: d.after)
    rw [remark, List.append_assoc, whole, lexFrom_some (found lineBlank'), List.flatMap_cons, lexFrom_feed,
      List.append_assoc]
    rfl

end

/-- is a comment at the end of the line taken for documentation of the member that stands below it in a declaration? -/
def adopted (b : TypeBlock) : Bool :=
  (firstRegion? ((Source.ofText d.text).slice d.next (b.stop - 1))).any openAbove

variable {d}

/-- What the region of a member says with a comment above it. -/
theorem docComment?_commentEnd {x : Text} (line : ∀ c ∈ x, lineBreak c = false) (plain : x.head? ≠ some '/')
    (region : Text) : docComment? ((d.commentEnd x).raw ++ region) =
      if openAbove region then DocComment.nonEmpty? (Text.collapse (x ++ ' ' :: (docComment? region).getD []))
      else docComment? region := by
  have shape : (d.commentEnd x).raw ++ region = d.gap ++ '/' :: '/' :: (x ++ d.rest) ++ '\n' :: region := by
    simp [commentEnd, remark]
  rw [shape]
  exact docComment?_comment d.gap_blank d.rest_blank line plain region

/-- The documentation that a member below the line has with the comment, told by the region that starts on the line
below. -/
theorem adopted_doc {x : Text} (line : ∀ c ∈ x, lineBreak c = false) (plain : x.head? ≠ some '/') {b : TypeBlock}
    {s : Source} (below : (Source.ofText d.text).slice d.before.length (b.stop - 1) = d.blankEnd ++ s)
    {doc : Option Text} (docs : ∀ region ∈ firstRegion? s, doc = docComment? (d.blankEnd.raw ++ region)) :
    let doc' := ((firstRegion? s).map fun region => docComment? ((d.commentEnd x).raw ++ region)).getD doc
    (d.adopted b = true → doc' = DocComment.nonEmpty? (Text.collapse (x ++ ' ' :: doc.getD []))) ∧
      (doc' ≠ doc ↔ d.adopted b = true ∧ x.words ≠ []) := by
  have behind : (d.blankEnd ++ s).drop d.blankEnd.length = s := by
    have whole := Source.drop_append d.blankEnd s 0
    rwa [Nat.add_zero, Source.drop_zero] at whole
  have adopted : d.adopted b = (firstRegion? s).any openAbove := by
    have place : d.next = d.before.length + d.blankEnd.length := rfl
    rw [LineEnd.adopted, place, Source.slice_eq, ← Source.drop_drop, ← Source.slice_eq, below, behind]
  dsimp only
  rw [adopted]
  cases found : firstRegion? s with
  | none => simp
  | some region =>
    have own : doc = docComment? region := (docs region found).trans (docComment?_blanks d.blankEnd_blank region)
    rw [Option.map_some, Option.getD_some, Option.any_some, docComment?_commentEnd line plain, ← own]
    cases openAbove region with
    | false => simp
    | true =>
      refine ⟨fun _ => rfl, ?_⟩
      rw [if_pos rfl, own, docComment?_comment_ne]
      simp

end LineEnd

/-! ## The member in front of the comment -/

/-- A member in front of others ends with a brace or a semicolon. -/
theorem BodyAt.member_last {document : Source} {b : TypeBlock} {brace size : Nat} (h : BodyAt document b brace size)
    {m : MemberBlock} (hm : m ∈ b.members) (short : m.stop + 1 < b.stop) :
    ∃ c, (document.code.drop (m.stop - 1)).head? = some c ∧ (c = '\x7d' ∨ c = ';') := by
  obtain ⟨low, filled, -⟩ := h.member_bounds hm
  obtain ⟨inner, rest, whole, size', -, code⟩ := h.body_code
  have stop := h.stop
  rw [h.members] at hm
  obtain ⟨c, here, last⟩ := membersOf_last hm (by rw [Source.length, code]; omega)
  rw [Source.code_slice, Source.code_drop, List.drop_drop, List.drop_take, List.drop_drop, List.head?_take,
    Nat.add_sub_cancel' (by omega)] at here
  split at here
  · cases here
  · exact ⟨c, here, last⟩

/-- A text that ends with a structural character of a longer one has the lexemes that this has up to there. -/
theorem lex_front {front tail : Text} {c : Char} (filled : 0 < front.length)
    (here : (mask true (front ++ tail))[front.length - 1]? = some c) (sharp : structural c = true)
    (room : 2 < tail.length) : (lex front).getLast? = some (code c) ∧ lex front <+: lex (front ++ tail) := by
  obtain ⟨pre, suf, found, place⟩ := lex_code_of_structural here sharp (by rw [List.length_append]; omega)
  have written : (text pre ++ [c]) ++ text suf = front ++ tail := by
    have whole := text_lexFrom true (front ++ tail)
    rw [← lex, found, text_append, text_cons] at whole
    rw [← whole, List.append_assoc]
    rfl
  obtain ⟨same, -⟩ := List.append_inj written (by rw [List.length_append, List.length_singleton]; omega)
  have parts : lexFrom true (front ++ tail) = (pre ++ [code c]) ++ suf := by
    rw [← lex, found, List.append_assoc]
    rfl
  obtain ⟨lineBlank, e⟩ := lexFrom_truncate parts List.nil_prefix
  have front_eq : text (pre ++ [code c]) ++ [] = front := by
    rw [List.append_nil, text_append, ← same]
    rfl
  rw [front_eq, lexFrom_nil, List.append_nil] at e
  rw [lex, e, lex, parts]
  exact ⟨List.getLast?_concat, List.prefix_append _ _⟩

/-- In front of the end of a declaration there is room for a member that stands behind another one. -/
theorem BodyAt.next_room {document : Source} {b : TypeBlock} {brace size : Nat} (h : BodyAt document b brace size)
    {front back : List MemberBlock} {m n : MemberBlock} (members : b.members = front ++ m :: n :: back) :
    0 < m.stop ∧ m.stop + 2 < b.stop ∧ b.stop ≤ document.code.length := by
  have hm : m ∈ b.members := by rw [members]; simp
  have hn : n ∈ b.members := by rw [members]; simp
  obtain ⟨-, filled, -⟩ := h.member_bounds hm
  obtain ⟨-, -, high⟩ := h.member_bounds hn
  have order := membersOf_next (h.members.symm.trans members)
  have width : n.start + 2 ≤ n.stop := by
    rw [h.members] at hn
    exact membersOf_width n hn
  have last : b.stop - 1 < document.code.length := by
    have here := h.stop_head
    rw [List.head?_drop] at here
    exact (List.getElem?_eq_some_iff.1 here).1
  omega

/-- The code of a document around the end of a member's line, without a comment there and with one. -/
theorem LineEnd.parts_of_member {d : LineEnd} {x : Text} (line : ∀ c ∈ x, lineBreak c = false)
    (closed : code '\'' ∈ lex d.text → ∀ c ∈ x, c ≠ '\'' ∧ c ≠ '\\') {b : TypeBlock} {brace size : Nat}
    (body : BodyAt (Source.ofText d.text) b brace size) {front back : List MemberBlock} {m n : MemberBlock}
    (members : b.members = front ++ m :: n :: back) (ends : m.stop = d.before.length) :
    Source.ofText d.text = Source.ofText d.before ++ (d.blankEnd ++ Source.ofText d.after) ∧
      Source.ofText (d.commented x) = Source.ofText d.before ++ (d.commentEnd x ++ Source.ofText d.after) := by
  obtain ⟨filled, room, inside⟩ := body.next_room members
  rw [Source.code_ofText, mask_length] at inside
  have long := congrArg List.length (show d.text = d.before ++ _ from rfl)
  rw [List.length_append] at long
  obtain ⟨c, here, mark⟩ := body.member_last (by rw [members]; simp) (show m.stop + 1 < b.stop by omega)
  rw [Source.code_ofText, ends, List.head?_drop] at here
  have sharp : structural c = true ∧ codeMark c = true ∧ c ≠ '\\' := by rcases mark with rfl | rfl <;> decide
  obtain ⟨last, start⟩ := lex_front (by omega) here sharp.1 (by omega)
  exact ⟨ofText_text last sharp.2.1 sharp.2.2,
    ofText_commented last sharp.2.1 sharp.2.2 line fun open_ => closed (start.subset open_)⟩

/-! ## The member behind the comment -/

theorem buildEndpoint_summary (catalog : Catalog) (controller : Controller) (m : MemberBlock) (location : Location)
    (marks : List Attribute) (verbMark : Attribute) (verb : Verb) (signature : Signature) :
    (buildEndpoint catalog controller m location marks verbMark verb signature).value.summary = m.doc := by
  simp only [buildEndpoint, Traced.value_bind, Traced.value_pure]

/-- The summary of an endpoint is the documentation of its member. -/
theorem map_summary_endpointOf? (document : Text) (catalog : Catalog) (controller : Controller) (m : MemberBlock) :
    (endpointOf? document catalog controller m).map (·.summary) = m.action?.map fun _ => m.doc := by
  unfold endpointOf?
  rw [Option.map_map]
  exact congrArg (m.action?.map ·) (funext fun read => buildEndpoint_summary ..)

/-- The comment of a property is the documentation of its member. -/
theorem map_comment_propertyOf {m m' : MemberBlock} {k : Nat} (same : m' = { m.shift k with doc := m'.doc }) :
    (propertyOf m').value.map (·.comment) = (propertyOf m).value.map fun _ => m'.doc := by
  have signature : m'.signature = m.signature := by rw [same]; rfl
  have terminator : m'.terminator = m.terminator := by rw [same]; rfl
  have accessors : m'.accessorText = m.accessorText := by rw [same]; rfl
  have isMethod : m'.isMethod = m.isMethod := by
    unfold MemberBlock.isMethod
    rw [signature]
  unfold propertyOf
  simp only [isMethod, signature, terminator, accessors]
  split
  · rfl
  · simp only [Traced.value_bind, Traced.value_pure, Option.map_some]

/-- **A comment behind a member** is taken for the start of the documentation of the next member, exactly if that has no
documentation of its own and only blank lines, comments of two slashes and directives stand between it and the member in
front of it. All else of the declaration stays as it is. (Behind an apostrophe in the code, which opens no literal, the
comment may hold none that would close it.) -/
theorem trailing_comment_iff (d : LineEnd) {x : Text} (line : ∀ c ∈ x, lineBreak c = false) (plain : x.head? ≠ some '/')
    (closed : code '\'' ∈ lex d.text → ∀ c ∈ x, c ≠ '\'' ∧ c ≠ '\\') {b : TypeBlock}
    (hb : b ∈ (typeBlocks d.text).value) {front back : List MemberBlock} {m n : MemberBlock}
    (members : b.members = front ++ m :: n :: back) (ends : m.stop = d.before.length) :
    ∃ b' ∈ (typeBlocks (d.commented x)).value, ∃ n',
      (b'.kind = b.kind ∧ b'.name = b.name ∧ b'.start = b.start ∧
        b'.members = front ++ m :: n' :: back.map (MemberBlock.shift (2 + x.length))) ∧
      n' = { n.shift (2 + x.length) with doc := n'.doc } ∧
      (n'.doc ≠ n.doc ↔ d.adopted b = true ∧ x.words ≠ []) ∧
      (d.adopted b = true → n'.doc = DocComment.nonEmpty? (Text.collapse (x ++ ' ' :: n.doc.getD []))) ∧
      (∀ catalog controller, (readEndpoint (d.commented x) catalog controller n').value.map (·.summary) =
        (readEndpoint d.text catalog controller n).value.map fun _ => n'.doc) ∧
      (propertyOf n').value.map (·.comment) = (propertyOf n).value.map fun _ => n'.doc := by
  rw [value_typeBlocks] at hb ⊢
  obtain ⟨-, brace, size, body⟩ := blocksOf_body hb (by rw [members]; simp)
  obtain ⟨parts, parts'⟩ := LineEnd.parts_of_member line closed body members ends
  have width : (Source.ofText d.before).length = d.before.length := mask_length true d.before
  obtain ⟨s, below, docs, b', hb', kind, name, start, members'⟩ := blocksOf_gap d.blankEnd_blank (d.commentEnd_blank x)
    (d.commentEnd_length x) parts parts' hb members (ends.trans width.symm)
  rw [width] at below
  obtain ⟨taken, differs⟩ := LineEnd.adopted_doc line plain below docs
  refine ⟨b', hb', _, ⟨kind, name, start, members'⟩, rfl, differs, taken, fun catalog controller => ?_,
    map_comment_propertyOf rfl⟩
  rw [value_readEndpoint, value_readEndpoint, map_summary_endpointOf?]
  unfold endpointOf?
  rw [Option.map_map]
  rfl

/-- two properties on lines of their own -/
def propertyLines : LineEnd where
  before := "class A\x7bint X\x7bget;set;\x7d"
  gap := " "
  rest := []
  after := "int Y\x7bget;set;\x7d\x7d"
  blanks := by decide

/-- the two properties -/
def upperProperty : MemberBlock := ⟨[], "int X", none, 8, 23, .block, "\x7bget;set;\x7d"⟩
def lowerProperty : MemberBlock := ⟨[], "int Y", none, 25, 40, .block, "\x7bget;set;\x7d"⟩

/-- A comment behind the upper property becomes the documentation of the lower one. -/
theorem trailing_comment_iff_properties :
    ∃ b ∈ (typeBlocks propertyLines.text).value, b.members = [upperProperty, lowerProperty] ∧
      ∃ b' ∈ (typeBlocks (propertyLines.commented " a".toList)).value, ∃ n,
        b'.members = [upperProperty, n] ∧ n.doc = some "a".toList := by
  obtain ⟨b, hb, members, adopted⟩ : ∃ b ∈ (typeBlocks propertyLines.text).value,
      b.members = [upperProperty, lowerProperty] ∧ propertyLines.adopted b = true := by decide +kernel
  have pair : b.members = [] ++ upperProperty :: lowerProperty :: [] := members
  obtain ⟨b', hb', n, ⟨-, -, -, read⟩, -, -, doc, -⟩ := trailing_comment_iff propertyLines (x := " a".toList)
    (by decide) (by decide) (by decide +kernel) hb pair (by decide)
  exact ⟨b, hb, members, b', hb', n, read, (doc adopted).trans (by decide +kernel)⟩

end EndpointSurvey
