/-
The lexemes of C# text that hide its structure: comments, directive lines, and string and character literals. Blanking
them keeps every offset and every line, so that a bracket found in the blanked text is a bracket of the code.

Main statements: `lex_raw` (the lexemes concatenate to the text) and `mask_length` (blanking keeps the length).
-/
import EndpointSurvey.Text.Blank

namespace EndpointSurvey

/-- A character of code, a comment or directive, or a literal between its opening and closing marks. A literal cut off
by the end of its line or of the text has fewer closing marks, or none. -/
inductive Lexeme where
  | code (c : Char)
  | remark (body : Text)
  | literal (opening body closing : Text)
  deriving DecidableEq, Repr

namespace Lexeme

/-- spaces for every character but line feeds -/
def blankOut (t : Text) : Text := t.map fun c => if c = '\n' then '\n' else ' '

def raw : Lexeme → Text
  | code c => [c]
  | remark body => body
  | literal opening body closing => opening ++ body ++ closing

/-- the lexeme with comments, and literal bodies if `literals`, blanked -/
def masked (literals : Bool) : Lexeme → Text
  | code c => [c]
  | remark body => blankOut body
  | literal opening body closing => opening ++ (if literals then blankOut body else body) ++ closing

theorem masked_length (literals : Bool) (l : Lexeme) : (l.masked literals).length = l.raw.length := by
  cases l <;> cases literals <;> simp [masked, raw, blankOut]

end Lexeme

/-! ## Recognising one lexeme -/

namespace Lexeme

/-- the body of a string up to its closing quote or the end of its line; a backslash hides the next character -/
def regularBody : Text → Text × Text
  | [] => ([], [])
  | '\\' :: c :: cs => let (body, rest) := regularBody cs; ('\\' :: c :: body, rest)
  | c :: cs =>
    if c = '"' || c = '\n' then ([], c :: cs)
    else let (body, rest) := regularBody cs; (c :: body, rest)

/-- the body of a verbatim string up to its closing quote; a quote written twice belongs to the body -/
def verbatimBody : Text → Text × Text
  | [] => ([], [])
  | '"' :: '"' :: cs => let (body, rest) := verbatimBody cs; ('"' :: '"' :: body, rest)
  | c :: cs =>
    if c = '"' then ([], c :: cs)
    else let (body, rest) := verbatimBody cs; (c :: body, rest)

/-- the body of a character literal, closed within `room` characters on its line -/
def characterBody? : Nat → Text → Option (Text × Text)
  | 0, _ => none
  | _ + 1, [] => none
  | room + 1, '\\' :: c :: cs => (characterBody? (room - 1) cs).map fun (body, rest) => ('\\' :: c :: body, rest)
  | room + 1, c :: cs =>
    if c = '\'' then some ([], cs)
    else if c = '\n' then none
    else (characterBody? room cs).map fun (body, rest) => (c :: body, rest)

/-- how many characters a character literal may have after its opening quote -/
def characterRoom : Nat := 11

/-- a string literal whose opening marks have been read -/
def stringAfter (opening : Text) (bodyOf : Text → Text × Text) (t : Text) : Lexeme × Text :=
  let (body, rest) := bodyOf t
  match rest with
  | '"' :: rest => (literal opening body ['"'], rest)
  | rest => (literal opening body [], rest)

/-- a raw literal after its three opening quotes: up to the next three quotes, or, when there are none, all of the text,
whose last three characters then stand for the closing ones -/
def rawAfter (t : Text) : Lexeme × Text :=
  match Text.splitFirst? ['"', '"', '"'] t with
  | some (body, rest) => (literal ['"', '"', '"'] body ['"', '"', '"'], rest)
  | none => (literal ['"', '"', '"'] (t.take (t.length - 3)) (t.drop (t.length - 3)), [])

/-- a block comment after its opening mark -/
def blockAfter (t : Text) : Lexeme × Text :=
  match Text.splitFirst? ['*', '/'] t with
  | some (body, rest) => (remark ('/' :: '*' :: body ++ ['*', '/']), rest)
  | none => (remark ('/' :: '*' :: t), [])

/-- a remark that takes the rest of its line -/
def lineRemark (t : Text) : Lexeme × Text := (remark (t.takeWhile (· != '\n')), t.dropWhile (· != '\n'))

/-- The comment, directive or literal that starts the text, and what follows it; nothing where a character of code
stands. `lineBlank` says that only blanks precede on the line, where alone a `#` starts a directive. -/
def special? (lineBlank : Bool) : Text → Option (Lexeme × Text)
  | '/' :: '/' :: cs => some (lineRemark ('/' :: '/' :: cs))
  | '#' :: cs => if lineBlank then some (lineRemark ('#' :: cs)) else none
  | '/' :: '*' :: cs => some (blockAfter cs)
  | '"' :: '"' :: '"' :: cs => some (rawAfter cs)
  | '@' :: '"' :: cs => some (stringAfter ['@', '"'] verbatimBody cs)
  | '$' :: '"' :: cs => some (stringAfter ['$', '"'] regularBody cs)
  | '@' :: '@' :: '"' :: cs => some (stringAfter ['@', '@', '"'] verbatimBody cs)
  | '@' :: '$' :: '"' :: cs => some (stringAfter ['@', '$', '"'] verbatimBody cs)
  | '$' :: '@' :: '"' :: cs => some (stringAfter ['$', '@', '"'] verbatimBody cs)
  | '$' :: '$' :: '"' :: cs => some (stringAfter ['$', '$', '"'] regularBody cs)
  | '"' :: cs => some (stringAfter ['"'] regularBody cs)
  | '\'' :: cs => (characterBody? characterRoom cs).map fun (body, rest) => (literal ['\''] body ['\''], rest)
  | _ => none

/-! ## A lexeme and what follows it make up the text -/

theorem regularBody_append (t : Text) : (regularBody t).1 ++ (regularBody t).2 = t := by
  fun_induction regularBody t <;> simp_all

theorem verbatimBody_append (t : Text) : (verbatimBody t).1 ++ (verbatimBody t).2 = t := by
  fun_induction verbatimBody t <;> simp_all

theorem characterBody?_append {room : Nat} {t body rest : Text} (h : characterBody? room t = some (body, rest)) :
    body ++ '\'' :: rest = t := by
  fun_induction characterBody? room t generalizing body rest with
  | case1 => cases h
  | case2 => cases h
  | case3 room c cs ih =>
    obtain ⟨⟨b, r⟩, hb, he⟩ := Option.map_eq_some_iff.1 h
    cases he
    simp [ih hb]
  | case4 room cs hne => cases h; simp
  | case5 => cases h
  | case6 room c cs _ _ _ ih =>
    obtain ⟨⟨b, r⟩, hb, he⟩ := Option.map_eq_some_iff.1 h
    cases he
    simp [ih hb]

theorem after?_append {start t rest : Text} (h : Text.after? start t = some rest) : start ++ rest = t := by
  fun_induction Text.after? start t with
  | case1 t => cases h; rfl
  | case2 => cases h
  | case3 c cs ds ih => simp [ih h]
  | case4 => cases h

theorem splitFirst?_append {piece t before rest : Text} (h : Text.splitFirst? piece t = some (before, rest)) :
    before ++ piece ++ rest = t := by
  induction t generalizing before rest with
  | nil =>
    unfold Text.splitFirst? at h
    split at h
    · next he => cases h; simpa using he
    · cases h
  | cons c cs ih =>
    unfold Text.splitFirst? at h
    split at h
    · next r hr => cases h; simpa using after?_append hr
    · obtain ⟨⟨b, r⟩, hb, he⟩ := Option.map_eq_some_iff.1 h
      cases he
      simpa using ih hb

theorem stringAfter_append (opening : Text) (bodyOf : Text → Text × Text) (t : Text)
    (h : (bodyOf t).1 ++ (bodyOf t).2 = t) :
    (stringAfter opening bodyOf t).1.raw ++ (stringAfter opening bodyOf t).2 = opening ++ t := by
  unfold stringAfter
  rcases hb : bodyOf t with ⟨body, rest⟩
  rw [hb] at h
  simp only at h ⊢
  split <;> simp_all [raw]

theorem rawAfter_append (t : Text) : (rawAfter t).1.raw ++ (rawAfter t).2 = '"' :: '"' :: '"' :: t := by
  unfold rawAfter
  split
  · next body rest h => simpa [raw] using splitFirst?_append h
  · simp [raw]

theorem blockAfter_append (t : Text) : (blockAfter t).1.raw ++ (blockAfter t).2 = '/' :: '*' :: t := by
  unfold blockAfter
  split
  · next body rest h => simpa [raw] using splitFirst?_append h
  · simp [raw]

theorem lineRemark_append (t : Text) : (lineRemark t).1.raw ++ (lineRemark t).2 = t := by
  simp [lineRemark, raw]

theorem special?_append {lineBlank : Bool} {t : Text} {p : Lexeme × Text} (h : special? lineBlank t = some p) :
    p.1.raw ++ p.2 = t := by
  unfold special? at h
  split at h
  · cases h; exact lineRemark_append _
  · split at h
    · cases h; exact lineRemark_append _
    · cases h
  · cases h; exact blockAfter_append _
  · cases h; exact rawAfter_append _
  · cases h; exact stringAfter_append _ _ _ (verbatimBody_append _)
  · cases h; exact stringAfter_append _ _ _ (regularBody_append _)
  · cases h; exact stringAfter_append _ _ _ (verbatimBody_append _)
  · cases h; exact stringAfter_append _ _ _ (verbatimBody_append _)
  · cases h; exact stringAfter_append _ _ _ (verbatimBody_append _)
  · cases h; exact stringAfter_append _ _ _ (regularBody_append _)
  · cases h; exact stringAfter_append _ _ _ (regularBody_append _)
  · obtain ⟨⟨body, r⟩, hb, he⟩ := Option.map_eq_some_iff.1 h
    cases he
    simpa [raw] using characterBody?_append hb
  · cases h

theorem special?_shorter {lineBlank : Bool} {t : Text} {p : Lexeme × Text} (h : special? lineBlank t = some p) :
    p.2.length < t.length := by
  have e := special?_append h
  have positive : 0 < p.1.raw.length := by
    unfold special? at h
    split at h
    · cases h; simp [lineRemark, raw]
    · split at h
      · cases h; simp [lineRemark, raw]
      · cases h
    · cases h; unfold blockAfter; split <;> simp [raw]
    · cases h; unfold rawAfter; split <;> simp [raw]
    · cases h; unfold stringAfter; simp only; split <;> simp [raw]
    · cases h; unfold stringAfter; simp only; split <;> simp [raw]
    · cases h; unfold stringAfter; simp only; split <;> simp [raw]
    · cases h; unfold stringAfter; simp only; split <;> simp [raw]
    · cases h; unfold stringAfter; simp only; split <;> simp [raw]
    · cases h; unfold stringAfter; simp only; split <;> simp [raw]
    · cases h; unfold stringAfter; simp only; split <;> simp [raw]
    · obtain ⟨⟨body, r⟩, _, he⟩ := Option.map_eq_some_iff.1 h
      cases he; simp [raw]
    · cases h
  have := congrArg List.length e
  simp at this
  omega

/-! ## All lexemes of a text -/

/-- whether the line is still blank after a character of code -/
def lineBlankAfter (lineBlank : Bool) (c : Char) : Bool := c == '\n' || (lineBlank && blank c)

/-- the lexemes of a text whose line has only blanks before it iff `lineBlank` -/
def lexFrom (lineBlank : Bool) (t : Text) : List Lexeme :=
  match t with
  | [] => []
  | c :: cs =>
    match _h : special? lineBlank (c :: cs) with
    | some (l, rest) => l :: lexFrom false rest
    | none => code c :: lexFrom (lineBlankAfter lineBlank c) cs
  termination_by t.length
  decreasing_by
    · exact special?_shorter (p := (l, rest)) ‹_›
    · simp

end Lexeme

/-- the lexemes of a text -/
def lex (t : Text) : List Lexeme := Lexeme.lexFrom true t

/-- the text with comments and directive lines blanked, and the bodies of literals too if `literals` -/
def mask (literals : Bool) (t : Text) : Text := (lex t).flatMap (Lexeme.masked literals)

theorem lexFrom_raw (lineBlank : Bool) (t : Text) : (Lexeme.lexFrom lineBlank t).flatMap Lexeme.raw = t := by
  fun_induction Lexeme.lexFrom lineBlank t with
  | case1 => rfl
  | case2 lineBlank c cs l rest h ih => rw [List.flatMap_cons, ih]; exact Lexeme.special?_append (p := (l, rest)) h
  | case3 lineBlank c cs h ih => rw [List.flatMap_cons, ih]; rfl

theorem lex_raw (t : Text) : (lex t).flatMap Lexeme.raw = t := lexFrom_raw true t

theorem mask_length (literals : Bool) (t : Text) : (mask literals t).length = t.length := by
  conv => rhs; rw [← lex_raw t]
  simp only [mask, List.length_flatMap]
  congr 1
  exact List.map_congr_left fun l _ => Lexeme.masked_length literals l

end EndpointSurvey
