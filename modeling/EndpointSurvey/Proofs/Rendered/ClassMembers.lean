/-
Bodies of classes as they are rendered from members of any kind: properties with accessors, methods with bodies, members
with an arrow and an expression, and statements without braces, such as fields. Each member is told apart from its
neighbours by itself, so a body tells what its members tell, in order.

Main statements: `isMethod_front`, `ClassMember.tells` (what one member tells) and `ClassBody.toldOf_eq` (what a body
tells).
-/
import EndpointSurvey.Proofs.Rendered.AutoProperties

namespace EndpointSurvey

namespace Rendered

open Lexeme

/-! ## Signatures of methods -/

/-- **A signature with a parenthesis is that of a method**, whatever stands behind the parenthesis, where nothing in front
of it declares something else. -/
theorem isMethod_front {front t : Text} {m : MemberBlock} (marks : ∀ c ∈ front, codeMark c = true ∧ c ≠ '(' ∧ c ≠ '=')
    (free : Text.Without nonMethodWords front) (signature : m.signature = (mask false (front ++ '(' :: t)).collapse) :
    m.isMethod = true := by
  obtain ⟨more, shown⟩ : ∃ more, mask false (front ++ '(' :: t) = front ++ '(' :: more := by
    have plain : ∀ c ∈ front ++ ['('], codeMark c = true :=
      List.forall_mem_append.2 ⟨fun c hc => (marks c hc).1, by decide⟩
    obtain ⟨lineBlank, whole⟩ := masks_plain plain false true t
    rw [List.append_assoc, List.append_assoc] at whole
    exact ⟨_, whole⟩
  obtain ⟨rest, line⟩ := Text.exists_collapse_append (s := front) (c := '(') (by decide) more
  have absent {d : Char} (none : ∀ c ∈ front, c ≠ d) (space : ' ' ≠ d) : d ∉ Text.settle true front := by
    intro hd
    rcases Text.mem_settle hd with e | hd
    · exact space e.symm
    · exact none d hd rfl
  have paren : '(' ∉ Text.settle true front := absent (fun c hc => (marks c hc).2.1) (by decide)
  have equals : '=' ∉ Text.settle true front ++ ['('] := by
    simp [absent (fun c hc => (marks c hc).2.2) (show ' ' ≠ '=' by decide)]
  have words : ∀ w ∈ nonMethodWords, Text.hasWord w (Text.settle true front) = false := by
    refine Text.Without.iff_hasWord.1 ?_
    rw [Text.Without, Text.runWords_settle]
    exact free
  have told (behind : Text) : ((Text.settle true front ++ '(' :: behind).elem '(' && !nonMethodWords.any fun w =>
      Text.hasWord w (Text.beforeFirst '(' (Text.settle true front ++ '(' :: behind))) = true := by
    have before : Text.beforeFirst '(' (Text.settle true front ++ '(' :: behind) = Text.settle true front := by
      rw [Text.beforeFirst, Text.takeWhile_append_stop (by decide), List.takeWhile_eq_self_iff]
      intro c hc
      exact bne_iff_ne.2 fun e => paren (e ▸ hc)
    rw [before, List.any_eq_false.2 fun w hw => by rw [words w hw]; exact Bool.false_ne_true]
    simp
  have whole : m.signature = (Text.settle true front ++ ['(']) ++ rest := by
    rw [signature, shown, line, List.append_assoc]
    rfl
  -- an arrow can only stand behind the parenthesis
  rw [MemberBlock.isMethod, whole]
  split
  · next before later found =>
    have stretch : before ++ ['='] <+: (Text.settle true front ++ ['(']) ++ rest := by
      rw [← splitFirst?_append found, List.append_assoc]
      exact ⟨'>' :: later, by simp⟩
    obtain ⟨behind, rfl, -⟩ := Text.prefix_behind equals stretch
    rw [List.append_assoc]
    exact told behind
  · rw [List.append_assoc]
    exact told rest

/-! ## Methods -/

/-- a method with a body: what stands up to its parameters, what follows up to the body, and what stands in it -/
structure Method where
  groups : AttributeGroups
  above : Blanks
  front : Text
  marks : ∀ c ∈ front, codeMark c = true ∧ c ≠ '(' ∧ c ≠ '='
  start : ∀ c ∈ front.head?, EndpointSurvey.blank c = false ∧ c ≠ '['
  undeclaring : Text.Without nonMethodWords front
  list : Closed '\x7b'
  plain : Plain (front ++ list.code)
  arrowless : ¬ ['=', '>'] <:+: list.code
  square : Paired '[' ']' (front ++ '(' :: list.code)
  round : Paired '(' ')' (front ++ '(' :: list.code)
  body : Closed '\x7d'
  pairs : Paired '\x7b' '\x7d' body.code

namespace Method

variable (m : Method)

def form : Text :=
  m.groups.form ++ (m.above.text ++ (m.front ++ '(' :: m.list.text)) ++ '\x7b' :: (m.body.text ++ ['\x7d'])

/-- a heading without its groups -/
def headCode : Text := m.above.text ++ (m.front ++ '(' :: m.list.code)

def code : Text := m.groups.code ++ m.headCode ++ '\x7b' :: (m.body.code ++ ['\x7d'])

theorem masks : Masks true m.form m.code := by
  have front : Masks true (m.front ++ ['(']) (m.front ++ ['(']) :=
    masks_plain (List.forall_mem_append.2 ⟨fun c hc => (m.marks c hc).1, by decide⟩) true
  have whole := m.groups.masks.append ((m.above.masks true).append (front.append (m.list.masks.append m.body.masks)))
  simpa [form, code, headCode] using whole

theorem plain_headCode : Plain m.headCode := by
  obtain ⟨front, list⟩ := List.forall_mem_append.1 m.plain
  have blanks : Plain m.above.text := fun c hc =>
    ⟨m.above.ne (by decide) c hc, m.above.ne (by decide) c hc, m.above.ne (by decide) c hc⟩
  exact List.forall_mem_append.2 ⟨blanks, List.forall_mem_append.2 ⟨front, List.forall_mem_cons.2 ⟨by decide, list⟩⟩⟩

theorem bracesPair_code : Paired '\x7b' '\x7d' m.code :=
  (m.groups.plain.paired.append m.plain_headCode.paired).append (m.pairs.group (by decide))

theorem exists_head : ∃ c, (m.front ++ '(' :: m.list.code).head? = some c ∧ c ≠ '[' ∧ EndpointSurvey.blank c = false := by
  have start := m.start
  cases front : m.front with
  | nil => exact ⟨'(', rfl, by decide, by decide⟩
  | cons c cs =>
    obtain ⟨solid, other⟩ := start c (by rw [front]; rfl)
    exact ⟨c, rfl, other, solid⟩

/-- **A method tells nothing**, whatever stands in its body. -/
theorem tells : Tells m.form m.code [] := by
  obtain ⟨c, head, other, solid⟩ := m.exists_head
  have pad {opener closer : Char} (start : EndpointSurvey.blank opener = false) (stop : EndpointSurvey.blank closer = false)
      {t : Text} (pairs : Paired opener closer t) : Paired opener closer (m.above.text ++ t) :=
    (Paired.of_free fun c hc => ⟨m.above.ne start c hc, m.above.ne stop c hc⟩).append pairs
  have arrowless : ¬ ['=', '>'] <:+: m.headCode := by
    have front : '=' ∉ m.above.text ++ (m.front ++ ['(']) := by
      have blanks : '=' ∉ m.above.text := fun hc => m.above.ne (by decide) _ hc rfl
      have plain : '=' ∉ m.front := fun hc => (m.marks _ hc).2.2 rfl
      simp [blanks, plain]
    have shape : m.headCode = (m.above.text ++ (m.front ++ ['('])) ++ m.list.code := by simp [headCode]
    rw [shape, Text.cons_infix_append_iff front]
    exact m.arrowless
  have size : (m.front ++ '(' :: m.list.text).length = (m.front ++ '(' :: m.list.code).length := by
    simp [m.list.length_eq]
  show Tells m.form m.code (none : Option Property).toList
  exact tells_block head other solid size m.plain_headCode arrowless (pad (by decide) (by decide) m.square)
    (pad (by decide) (by decide) m.round) m.pairs m.body.length_eq
    fun _ _ signature _ _ => told_of_isMethod (isMethod_front m.marks m.undeclaring signature)

end Method

/-! ## Members that end with a semicolon -/

/-- a member with an arrow and an expression, and what stands in front of the arrow -/
structure ArrowMember where
  head : Closed '='
  plain : Plain head.code
  arrowless : ¬ ['=', '>'] <:+: head.code
  square : Paired '[' ']' head.code
  round : Paired '(' ')' head.code
  expression : Closed ';'
  pass : Expression expression.code

/-- a field, or any other member without braces that ends with a semicolon -/
structure Statement where
  text : Closed ';'
  plain : Plain text.code

namespace ArrowMember

variable (a : ArrowMember)

def form : Text := a.head.text ++ ('=' :: '>' :: a.expression.text) ++ [';']

def code : Text := a.head.code ++ ('=' :: '>' :: a.expression.code) ++ [';']

theorem masks : Masks true a.form a.code := by
  have mark : Masks true ['>'] ['>'] := masks_plain (by decide) true
  have whole := a.head.masks.append (mark.append a.expression.masks)
  simpa [form, code] using whole

theorem bracesPair_code : Paired '\x7b' '\x7d' a.code :=
  (a.plain.paired.append ((a.pass.paired.cons (by decide) (by decide)).cons (by decide) (by decide))).append
    (.of_free (by decide))

theorem tells : Tells a.form a.code [] :=
  tells_arrow (by simp [a.head.length_eq, a.expression.length_eq]) a.plain a.arrowless a.square a.round a.pass

end ArrowMember

namespace Statement

variable (s : Statement)

def form : Text := s.text.text ++ [';']

def code : Text := s.text.code ++ [';']

theorem bracesPair_code : Paired '\x7b' '\x7d' s.code := s.plain.paired.append (.of_free (by decide))

theorem tells : Tells s.form s.code [] := tells_statement s.text.length_eq s.plain

end Statement

/-! ## Members of any kind -/

/-- a member of a class -/
inductive ClassMember where
  | property (p : AutoProperty)
  | method (m : Method)
  | arrow (a : ArrowMember)
  | statement (s : Statement)

namespace ClassMember

def form : ClassMember → Text
  | property p => p.form
  | method m => m.form
  | arrow a => a.form
  | statement s => s.form

def code : ClassMember → Text
  | property p => p.code
  | method m => m.code
  | arrow a => a.code
  | statement s => s.code

/-- what is told of a member: a property that is kept -/
def told : ClassMember → Option Property
  | property p => p.told
  | method _ | arrow _ | statement _ => none

variable (m : ClassMember)

theorem masks : Masks true m.form m.code := by
  cases m with
  | property p => exact p.masks
  | method m => exact m.masks
  | arrow a => exact a.masks
  | statement s => exact s.text.masks

theorem bracesPair_code : Paired '\x7b' '\x7d' m.code := by
  cases m with
  | property p => exact p.bracesPair_code
  | method m => exact m.bracesPair_code
  | arrow a => exact a.bracesPair_code
  | statement s => exact s.bracesPair_code

/-- **What a member tells**, whatever follows it. -/
theorem tells : Tells m.form m.code m.told.toList := by
  cases m with
  | property p => exact p.tells
  | method m => exact m.tells
  | arrow a => exact a.tells
  | statement s => exact s.tells

end ClassMember

/-! ## Bodies -/

/-- members, and the blanks behind them -/
structure ClassBody where
  members : List ClassMember
  bottom : Blanks

namespace ClassBody

variable (b : ClassBody)

def form : Text := b.members.flatMap ClassMember.form ++ b.bottom.text

def code : Text := b.members.flatMap ClassMember.code ++ b.bottom.text

/-- the properties of the members, in order -/
def told : List Property := b.members.filterMap ClassMember.told

theorem masks : Masks true b.form b.code := (masks_flatMap fun m _ => m.masks).append (b.bottom.masks true)

theorem bracesPair_code : Paired '\x7b' '\x7d' b.code :=
  (Paired.flatMap fun m _ => m.bracesPair_code).append
    (.of_free fun c hc => ⟨b.bottom.ne (by decide) c hc, b.bottom.ne (by decide) c hc⟩)

/-- **A body tells what its members tell**, in order. -/
theorem toldOf_eq {body : Source} (raw : body.raw = b.form) (code : body.code = b.code) (offset : Nat) :
    toldOf offset body = b.told := by
  have front : Tells (b.members.flatMap ClassMember.form) (b.members.flatMap ClassMember.code)
      (b.members.flatMap fun m => m.told.toList) := .flatMap fun m _ => m.tells
  have last : nextCut? (body.drop (b.members.flatMap ClassMember.code).length).code = none := by
    rw [Source.code_drop, code, ClassBody.code, List.drop_left]
    exact b.bottom.nextCut?
  rw [front.reads raw code offset, toldOf, membersOf_none last, List.filterMap_nil, List.append_nil, told,
    List.filterMap_eq_flatMap_toList]

end ClassBody

end Rendered

end EndpointSurvey
