/-
Replacement templates: texts put in for a matched place, in which a backslash starts an escape. Known escapes stand for
control characters, digits for an octal code or a group, `\g<0>` for the matched text; there are no other groups.

Main statements: `ofText?_plain` (a text without a backslash is a template for itself) and `expand_plain`.
-/
import EndpointSurvey.Number.Integer
import EndpointSurvey.Text.Quoted

namespace EndpointSurvey

namespace Template

/-- what is wrong with a template -/
inductive Fault where
  | unknownEscape (c : Char)
  | danglingEscape
  | missingAngle
  | missingGroupName
  | openGroupName
  | malformedGroupName (name : Text)
  | noSuchGroup (number : Text)
  | noSuchGroupName (name : Text)
  | octalTooLarge (digits : Text)
  deriving DecidableEq, Repr

/-- a fault, the template it is in, and the offset it is found at -/
structure Error where
  fault : Fault
  template : Text
  offset : Nat
  deriving DecidableEq, Repr

def Fault.message : Fault → Text
  | unknownEscape c => "bad escape \\" ++ [c]
  | danglingEscape => "bad escape (end of pattern)"
  | missingAngle => "missing <"
  | missingGroupName => "missing group name"
  | openGroupName => "missing >, unterminated name"
  | malformedGroupName name => "bad character in group name " ++ Text.quoted name
  | noSuchGroup number => "invalid group reference " ++ number
  | noSuchGroupName name => "unknown group name " ++ Text.quoted name
  | octalTooLarge digits => "octal escape value \\" ++ digits ++ " outside of range 0-0o377"

/-- the words of an error; a template of several lines has the line and column named too -/
def Error.message (e : Error) : Text :=
  match e.fault with
  | .noSuchGroupName _ => e.fault.message
  | fault =>
    let place := fault.message ++ " at position " ++ Text.ofNat e.offset
    if e.template.elem '\n' then
      let before := e.template.take e.offset
      let column := (Text.takeEnd (· != '\n') before).length + 1
      place ++ " (line " ++ Text.ofNat (before.count '\n' + 1) ++ ", column " ++ Text.ofNat column ++ ")"
    else place

/-- a piece of a template: characters, or the matched text -/
inductive Piece where
  | plain (t : Text)
  | matched
  deriving DecidableEq, Repr

/-- one token of a template: a character, or a backslash with the character after it -/
inductive Token where
  | plain (c : Char)
  | escaped (c : Char)
  deriving DecidableEq, Repr

def Token.text : Token → Text
  | .plain c => [c]
  | .escaped c => ['\\', c]

/-- the tokens of a template; a lone backslash at the end is left over -/
def tokens : Text → List Token × Bool
  | [] => ([], false)
  | ['\\'] => ([], true)
  | '\\' :: c :: cs => let (us, dangling) := tokens cs; (.escaped c :: us, dangling)
  | c :: cs => let (us, dangling) := tokens cs; (.plain c :: us, dangling)

/-- the escapes with a meaning of their own -/
def controlEscape? : Char → Option Char
  | 'a' => some '\x07'
  | 'b' => some '\x08'
  | 'f' => some '\x0c'
  | 'n' => some '\n'
  | 'r' => some '\r'
  | 't' => some '\t'
  | 'v' => some '\x0b'
  | '\\' => some '\\'
  | _ => none

def octalDigit (c : Char) : Bool := '0' ≤ c && c ≤ '7'

def octalValue (digits : Text) : Nat := digits.foldl (fun n c => n * 8 + (c.toNat - 48)) 0

/-- the plain characters that start the tokens, no more than `limit`, as long as they satisfy `p` -/
def plainRun (p : Char → Bool) : Nat → List Token → Text
  | 0, _ => []
  | limit + 1, .plain c :: us => if p c then c :: plainRun p limit us else []
  | _, _ => []

/-- the name of a group up to `>`, and the tokens after it -/
def groupName? : List Token → Option (Text × List Token)
  | [] => none
  | .plain '>' :: us => some ([], us)
  | u :: us => (groupName? us).map fun (name, rest) => (u.text ++ name, rest)

/-- a name as an identifier: a letter or underscore, then word characters -/
def identifier (name : Text) : Bool :=
  (name.head?.any fun c => wordChar c && !decimalDigit c) && name.all wordChar

theorem groupName?_rest_lt {us rest : List Token} {name : Text} (h : groupName? us = some (name, rest)) :
    rest.length < us.length := by
  fun_induction groupName? us generalizing name with
  | case1 => cases h
  | case2 us => cases h; simp
  | case3 u us hu ih =>
    obtain ⟨⟨n, r⟩, hr, he⟩ := Option.map_eq_some_iff.1 h
    cases he
    have := ih hr
    simp; omega

/-- Reads the tokens of a template from an offset on. `dangling` says that a lone backslash follows them all: it is met
as soon as the unit before it has been taken. -/
def read? (template : Text) (dangling : Bool) (offset : Nat) (us : List Token) : Except Error (List Piece) :=
  let lone : Error := ⟨.danglingEscape, template, template.length - 1⟩
  match us with
  | [] => if dangling then .error lone else .ok []
  | .plain c :: us => do
    let rest ← read? template dangling (offset + 1) us
    pure (.plain [c] :: rest)
  | .escaped c :: us =>
    let next := offset + 2
    let fail := fun fault place => Except.error (if dangling && us.isEmpty then lone else ⟨fault, template, place⟩)
    if c = 'g' then
      match us with
      | .plain '<' :: us =>
        match _h : groupName? us with
        | none =>
          if dangling then .error lone
          else if us.isEmpty then fail .missingGroupName (next + 1)
          else fail .openGroupName (next + 1)
        | some (name, rest) =>
          let start := next + 1
          if dangling && rest.isEmpty then .error lone
          else if name.isEmpty then .error ⟨.missingGroupName, template, start⟩
          else if identifier name then .error ⟨.noSuchGroupName name, template, start⟩
          else
            match Integer.read? name with
            | some 0 => do
              let pieces ← read? template dangling (start + name.length + 1) rest
              pure (.matched :: pieces)
            | some (.ofNat n) => .error ⟨.noSuchGroup (Text.ofNat n), template, start⟩
            | _ => .error ⟨.malformedGroupName name, template, start⟩
      | _ => fail .missingAngle next
    else if c = '0' then do
      let digits := plainRun octalDigit 2 us
      let rest ← read? template dangling (next + digits.length) (us.drop digits.length)
      pure (.plain [Char.ofNat (octalValue digits)] :: rest)
    else if c.isDigit then
      let more := plainRun Char.isDigit 1 us
      let octal := plainRun octalDigit 2 us
      if octalDigit c && octal.length = 2 then
        let digits := c :: octal
        if dangling && (us.drop 2).isEmpty then .error lone
        else if octalValue digits > 255 then .error ⟨.octalTooLarge digits, template, offset⟩
        else do
          let rest ← read? template dangling (next + 2) (us.drop 2)
          pure (.plain [Char.ofNat (octalValue digits)] :: rest)
      else if dangling && (us.drop more.length).isEmpty then .error lone
      else .error ⟨.noSuchGroup (c :: more), template, offset + 1⟩
    else
      match controlEscape? c with
      | some d => do
        let rest ← read? template dangling next us
        pure (.plain [d] :: rest)
      | none =>
        if c.isAlpha then fail (.unknownEscape c) offset
        else do
          let rest ← read? template dangling next us
          pure (.plain ['\\', c] :: rest)
  termination_by us.length
  decreasing_by
    all_goals try simp only [List.length_cons, List.length_drop]
    all_goals try omega
    have := groupName?_rest_lt _h
    omega

end Template

/-- a replacement template, taken apart -/
structure Template where
  pieces : List Template.Piece
  deriving DecidableEq, Repr

namespace Template

/-- a template that puts in a text as it is -/
def plain (t : Text) : Template := ⟨t.map fun c => .plain [c]⟩

def ofText? (t : Text) : Except Error Template := do
  let (us, dangling) := tokens t
  let pieces ← read? t dangling 0 us
  pure ⟨pieces⟩

/-- what the template puts in for a matched text -/
def expand (template : Template) (matched : Text) : Text :=
  template.pieces.flatMap fun
    | .plain t => t
    | .matched => matched

theorem expand_plain (t matched : Text) : (plain t).expand matched = t := by
  induction t with
  | nil => rfl
  | cons c cs ih => simpa [plain, expand] using ih

theorem tokens_plain (t : Text) (h : '\\' ∉ t) : tokens t = (t.map .plain, false) := by
  induction t with
  | nil => rfl
  | cons c cs ih =>
    have hc : c ≠ '\\' := by rintro rfl; exact h (by simp)
    have := ih fun hm => h (by simp [hm])
    unfold tokens
    split <;> simp_all

theorem read?_plain (template t : Text) (offset : Nat) :
    read? template false offset (t.map .plain) = .ok (t.map fun c => .plain [c]) := by
  induction t generalizing offset with
  | nil => simp [read?]
  | cons c cs ih => simp [read?, ih, pure, Except.pure, bind, Except.bind]

/-- A text without a backslash is a template for itself. -/
theorem ofText?_plain (t : Text) (h : '\\' ∉ t) : ofText? t = .ok (plain t) := by
  simp [ofText?, tokens_plain t h, read?_plain, plain, pure, Except.pure, bind, Except.bind]

end Template

end EndpointSurvey
