/-
Literals as they are written, and code with literals in it. Between the quotes of a regular string or the apostrophes of
a character literal stand characters that mean themselves and characters behind a backslash; in a verbatim string any
characters, with quotes doubled. The lexer takes each of them for one literal, whatever its content, unless a quote
follows it.

A passage of well-formed code has one literal or comment between each two of its stretches, which hold no mark that could
start one. Blanking keeps the stretches and the marks around literals and blanks what those marks enclose, and it blanks
comments whole.

Main statements: `special?_regular`, `special?_verbatim`, `special?_character` and `mask_passage`.
-/
import EndpointSurvey.Proofs.Source.Masked
import EndpointSurvey.Proofs.Source.Settling
import EndpointSurvey.Proofs.Text.Spacing

namespace EndpointSurvey

/-- what stands between two quotes of a kind on one line: characters that mean themselves, and escapes -/
inductive QuotedBody (quote : Char) : Text → Prop where
  | nil : QuotedBody quote []
  | plain {c : Char} {t : Text} (free : c ≠ quote ∧ c ≠ '\\' ∧ c ≠ '\n') (rest : QuotedBody quote t) :
    QuotedBody quote (c :: t)
  | escape {c : Char} {t : Text} (line : c ≠ '\n') (rest : QuotedBody quote t) : QuotedBody quote ('\\' :: c :: t)

/-- the text with every quote written twice -/
def doubled (t : Text) : Text := t.flatMap fun c => if c = '"' then ['"', '"'] else [c]

section
variable {quote : Char} {body t u : Text}

theorem QuotedBody.append (ht : QuotedBody quote t) (hu : QuotedBody quote u) : QuotedBody quote (t ++ u) := by
  induction ht with
  | nil => exact hu
  | plain free _ ih => exact .plain free ih
  | escape line _ ih => exact .escape line ih

theorem doubled_cons (c : Char) (t : Text) : doubled (c :: t) = (if c = '"' then ['"', '"'] else [c]) ++ doubled t :=
  List.flatMap_cons

end

namespace Lexeme

variable {body rest : Text}

/-! ## Bodies up to their closing quotes -/

theorem regularBody_quoted (h : QuotedBody '"' body) (rest : Text) :
    regularBody (body ++ '"' :: rest) = (body, '"' :: rest) := by
  induction h with
  | nil => rfl
  | @plain c t free _ ih =>
    rw [List.cons_append, regularBody, ih]
    · simp [free.1, free.2.2]
    · exact fun d ds e => absurd e free.2.1
  | escape line _ ih => rw [List.cons_append, List.cons_append, regularBody, ih]

theorem verbatimBody_doubled (content : Text) (after : rest.head? ≠ some '"') :
    verbatimBody (doubled content ++ '"' :: rest) = (doubled content, '"' :: rest) := by
  induction content with
  | nil =>
    have single : verbatimBody ('"' :: rest) = ([], '"' :: rest) := by
      rw [verbatimBody]
      · rfl
      · rintro cs - rfl
        exact after rfl
    exact single
  | cons c cs ih =>
    rw [doubled_cons]
    by_cases quote : c = '"'
    · rw [if_pos quote, List.append_assoc, List.cons_append, List.cons_append, List.nil_append, verbatimBody, ih]
      rfl
    · rw [if_neg quote, List.append_assoc, List.singleton_append, verbatimBody, if_neg quote, ih]
      · rfl
      · exact fun ds e => absurd e quote

theorem characterBody?_quoted (h : QuotedBody '\'' body) {room : Nat} (short : body.length < room) (rest : Text) :
    characterBody? room (body ++ '\'' :: rest) = some (body, rest) := by
  induction h generalizing room with
  | nil =>
    obtain ⟨room, rfl⟩ := Nat.exists_eq_succ_of_ne_zero (Nat.ne_of_gt short)
    rfl
  | @plain c t free _ ih =>
    obtain ⟨room, rfl⟩ := Nat.exists_eq_succ_of_ne_zero (Nat.ne_of_gt (Nat.zero_lt_of_lt short))
    rw [List.cons_append, characterBody?, if_neg free.1, if_neg free.2.2, ih (Nat.lt_of_succ_lt_succ short)]
    · rfl
    · exact fun d ds e => absurd e free.2.1
  | @escape c t line _ ih =>
    obtain ⟨room, rfl⟩ := Nat.exists_eq_succ_of_ne_zero (Nat.ne_of_gt (Nat.zero_lt_of_lt short))
    simp only [List.length_cons] at short
    rw [List.cons_append, List.cons_append, characterBody?, ih (by omega)]
    rfl

/-! ## Literals -/

theorem plainLiteral_regular (marks : Text) (listed : marks ∈ regularMarks) (h : QuotedBody '"' body)
    (after : rest.head? ≠ some '"') : PlainLiteral (marks ++ (body ++ '"' :: rest)) (literal marks body ['"']) rest := by
  refine .regular listed rfl (regularBody_quoted h rest) fun _ two => ?_
  -- three quotes in a row would be an empty body and a quote behind the string
  obtain ⟨more, e⟩ := two
  cases h with
  | nil =>
    obtain rfl : '"' :: more = rest := (List.cons.inj e).2
    exact after rfl
  | plain free _ => exact free.1 (List.cons.inj e).1.symm
  | escape _ _ => exact absurd (List.cons.inj e).1 (by decide)

theorem plainLiteral_verbatim (marks : Text) (listed : marks ∈ verbatimMarks) (content : Text)
    (after : rest.head? ≠ some '"') :
    PlainLiteral (marks ++ (doubled content ++ '"' :: rest)) (literal marks (doubled content) ['"']) rest :=
  .verbatim listed rfl (verbatimBody_doubled content after)

/-- A plain literal is recognised where it stands. -/
theorem PlainLiteral.special? {t : Text} {l : Lexeme} (h : PlainLiteral t l rest) (lineBlank : Bool) :
    special? lineBlank t = some (l, rest) := by
  cases h with
  | @regular marks body x rest listed whole inside two =>
    subst whole
    have closed : stringAfter marks regularBody x = (literal marks body ['"'], rest) := stringAfter_of_body inside
    simp only [regularMarks, List.mem_cons, List.not_mem_nil, or_false] at listed
    rcases listed with rfl | rfl | rfl
    · exact (special?_quote (two rfl)).trans (congrArg some closed)
    · exact congrArg some closed
    · exact congrArg some closed
  | @verbatim marks body x rest listed whole inside =>
    subst whole
    have closed : stringAfter marks verbatimBody x = (literal marks body ['"'], rest) := stringAfter_of_body inside
    simp only [verbatimMarks, List.mem_cons, List.not_mem_nil, or_false] at listed
    rcases listed with rfl | rfl | rfl <;> exact congrArg some closed
  | @character body x rest whole free inside =>
    subst whole
    show (characterBody? characterRoom x).map _ = _
    rw [inside]
    rfl

variable {lineBlank : Bool}

/-- A regular string is one lexeme, unless a quote follows it. -/
theorem special?_regular (marks : Text) (listed : marks ∈ regularMarks) (h : QuotedBody '"' body)
    (after : rest.head? ≠ some '"') :
    special? lineBlank (marks ++ (body ++ '"' :: rest)) = some (literal marks body ['"'], rest) :=
  (plainLiteral_regular marks listed h after).special? lineBlank

/-- A verbatim string is one lexeme, unless a quote follows it. -/
theorem special?_verbatim (marks : Text) (listed : marks ∈ ['@', '$', '"'] :: verbatimMarks) (content : Text)
    (after : rest.head? ≠ some '"') : special? lineBlank (marks ++ (doubled content ++ '"' :: rest)) =
      some (literal marks (doubled content) ['"'], rest) := by
  rcases List.mem_cons.1 listed with rfl | listed
  · exact congrArg some (stringAfter_of_body (verbatimBody_doubled content after))
  · exact (plainLiteral_verbatim marks listed content after).special? lineBlank

/-- A character literal of twelve characters at most is one lexeme, a quote between its apostrophes or not. -/
theorem special?_character (h : QuotedBody '\'' body) (short : body.length < characterRoom) :
    special? lineBlank ('\'' :: (body ++ '\'' :: rest)) = some (literal ['\''] body ['\''], rest) := by
  show (characterBody? characterRoom (body ++ '\'' :: rest)).map _ = _
  rw [characterBody?_quoted h short rest]
  rfl

end Lexeme

/-! ## Passages -/

open Lexeme

/-- a stretch of code, free of the marks that start comments, directives and literals -/
structure Run where
  text : Text
  filled : text ≠ []
  plain : ∀ c ∈ text, codeMark c = true

/-- a literal or a comment -/
inductive Piece where
  | string (interpolated : Bool) (body : Text) (quoted : QuotedBody '"' body)
  | verbatim (marks : Text) (listed : marks ∈ [['@', '"'], ['$', '@', '"'], ['@', '$', '"']]) (content : Text)
  | character (body : Text) (quoted : QuotedBody '\'' body) (short : body.length + 2 ≤ 12)
  | lineComment (words : Text) (line : '\n' ∉ words)
  | blockComment (words : Text) (inside : ¬ ['*', '/'] <:+: words)

namespace Piece

/-- the prefix of a literal and its opening quote, or what opens a comment -/
def opening : Piece → Text
  | string true _ _ => ['$', '"']
  | string false _ _ => ['"']
  | verbatim marks _ _ => marks
  | character .. => ['\'']
  | lineComment .. => ['/', '/']
  | blockComment .. => ['/', '*']

def body : Piece → Text
  | string _ body _ => body
  | verbatim _ _ content => doubled content
  | character body _ _ => body
  | lineComment words _ => words
  | blockComment words _ => words

def closing : Piece → Text
  | string .. => ['"']
  | verbatim .. => ['"']
  | character .. => ['\'']
  | lineComment .. => []
  | blockComment .. => ['*', '/']

def isComment : Piece → Bool
  | lineComment .. => true
  | blockComment .. => true
  | _ => false

def isLineComment : Piece → Bool
  | lineComment .. => true
  | _ => false

def text (p : Piece) : Text := p.opening ++ p.body ++ p.closing

/-- the piece blanked: a comment whole, a literal, if `literals`, between its marks -/
def code (literals : Bool) (p : Piece) : Text :=
  if p.isComment then blankOut p.text
  else p.opening ++ (if literals then blankOut p.body else p.body) ++ p.closing

/-- the one lexeme that a piece is -/
def lexeme (p : Piece) : Lexeme :=
  if p.isComment then .remark p.text else .literal p.opening p.body p.closing

theorem masked_lexeme (literals : Bool) (p : Piece) : p.lexeme.masked literals = p.code literals := by
  rw [lexeme, code]
  split <;> rfl

/-- what may stand behind a piece: code, and behind a line comment the end of its line -/
structure Before (p : Piece) (rest : Text) : Prop where
  code : ∃ c cs, rest = c :: cs ∧ codeMark c = true
  line : p.isLineComment = true → rest.head? = some '\n'

theorem text_append (p : Piece) (rest : Text) : p.text ++ rest = p.opening ++ (p.body ++ (p.closing ++ rest)) := by
  rw [text, List.append_assoc, List.append_assoc]

theorem lineRemark_words {words : Text} (line : '\n' ∉ words) (rest : Text) :
    lineRemark ('/' :: '/' :: words ++ '\n' :: rest) = (.remark ('/' :: '/' :: words), '\n' :: rest) := by
  have feed : ('\n' != '\n') = false := by decide
  have inside : ∀ c ∈ '/' :: '/' :: words, (c != '\n') = true := by
    simp only [List.mem_cons, forall_eq_or_imp, bne_iff_ne]
    exact ⟨by decide, by decide, fun c hc e => line (e ▸ hc)⟩
  rw [lineRemark, Text.takeWhile_append_stop (p := (· != '\n')) feed, Text.dropWhile_append_stop (p := (· != '\n')) feed,
    List.takeWhile_eq_self_iff.2 inside, List.dropWhile_eq_nil_iff.2 inside, List.nil_append]

theorem blockAfter_words {words : Text} (inside : ¬ ['*', '/'] <:+: words) (rest : Text) :
    blockAfter (words ++ (['*', '/'] ++ rest)) = (.remark ('/' :: '*' :: words ++ ['*', '/']), rest) := by
  -- the closing mark begins nowhere in the words: not inside them, and a star at their end is followed by a star
  have absent : ∀ s, s <:+ words → s ≠ [] → ¬ ['*', '/'] <+: s ++ (['*', '/'] ++ rest) := by
    rintro s tail filled ⟨more, e⟩
    match s with
    | [] => exact filled rfl
    | [c] => simp at e
    | c :: d :: ds =>
      simp only [List.cons_append, List.nil_append, List.cons.injEq] at e
      obtain ⟨rfl, rfl, -⟩ := e
      exact inside ((List.prefix_append ['*', '/'] ds).isInfix.trans tail.isInfix)
  rw [blockAfter, splitFirst?_of_absent absent]

/-- A piece is recognised in front of code. -/
theorem special?_text {p : Piece} {rest : Text} (h : p.Before rest) (lineBlank : Bool) :
    special? lineBlank (p.text ++ rest) = some (p.lexeme, rest) := by
  have after : rest.head? ≠ some '"' := by
    obtain ⟨c, cs, rfl, plain⟩ := h.code
    rintro ⟨⟩
    cases plain
  rw [text_append]
  cases p with
  | string interpolated body quoted =>
    cases interpolated with
    | true => exact special?_regular ['$', '"'] (by decide) quoted after
    | false => exact special?_regular ['"'] (by decide) quoted after
  | verbatim marks listed content =>
    have known : marks ∈ ['@', '$', '"'] :: verbatimMarks := by
      simp only [List.mem_cons, List.not_mem_nil, or_false] at listed
      rcases listed with rfl | rfl | rfl <;> decide
    exact special?_verbatim marks known content after
  | character body quoted short =>
    exact special?_character quoted (Nat.lt_of_succ_le (Nat.le_of_succ_le_succ short))
  | lineComment words line =>
    obtain ⟨cs, rfl⟩ := List.head?_eq_some_iff.1 (h.line rfl)
    show some (lineRemark ('/' :: '/' :: words ++ '\n' :: cs)) = _
    rw [lineRemark_words line]
    simp [lexeme, isComment, text, opening, body, closing]
  | blockComment words inside =>
    show some (blockAfter (words ++ (['*', '/'] ++ rest))) = _
    rw [blockAfter_words inside]
    rfl

/-- A piece is blanked with the code that follows it. -/
theorem masks_text {p : Piece} {r : Run} (line : p.isLineComment = true → r.text.head? = some '\n') (literals : Bool) :
    Masks literals (p.text ++ r.text) (p.code literals ++ r.text) := by
  have before : ∀ rest, p.Before (r.text ++ rest) := by
    intro rest
    obtain ⟨c, cs, e⟩ := List.exists_cons_of_ne_nil r.filled
    have plain := r.plain
    rw [e] at plain line ⊢
    exact ⟨⟨c, cs ++ rest, rfl, plain c List.mem_cons_self⟩, line⟩
  have whole := (masks_plain r.plain literals).lexeme fun lineBlank rest => special?_text (before rest) lineBlank
  rwa [masked_lexeme] at whole

end Piece

/-- stretches of code with a piece between each two of them; a line comment goes up to the end of its line -/
structure Passage where
  first : Run
  rest : List (Piece × Run)
  lines : ∀ x ∈ rest, x.1.isLineComment = true → x.2.text.head? = some '\n'

namespace Passage

def text (p : Passage) : Text := p.first.text ++ p.rest.flatMap fun (piece, run) => piece.text ++ run.text

/-- the passage with its comments, and its literals if `literals`, blanked -/
def code (literals : Bool) (p : Passage) : Text :=
  p.first.text ++ p.rest.flatMap fun (piece, run) => piece.code literals ++ run.text

end Passage

/-- **Exactly literals and comments are blanked.** In every passage the code stands as it is, a literal keeps its prefix
and its quotes, and all other characters of literals and comments become spaces, but for line feeds; with literals kept,
only those of comments do. -/
theorem mask_passage (literals : Bool) (p : Passage) : mask literals p.text = p.code literals := by
  have first : Masks literals p.first.text p.first.text := masks_plain p.first.plain literals
  have rest := masks_flatMap fun x hx => Piece.masks_text (p.lines x hx) literals
  exact (first.append rest).mask_eq

end EndpointSurvey
