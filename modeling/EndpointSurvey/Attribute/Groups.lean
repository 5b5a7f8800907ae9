/-
Reading the attributes of bracketed groups. What stands between the groups is passed over, a group that does not close
ends the reading, and an entry that is no name with arguments is left out; both are warned of.

Main statement: `attributes_no_bracket` (a text without a bracket holds no attribute and gives no warning).
-/
import EndpointSurvey.Attribute.Basic
import EndpointSurvey.Attribute.Literal
import EndpointSurvey.Diagnostic.Event
import EndpointSurvey.Source.Bracket

namespace EndpointSurvey

namespace Attribute

/-! ## One entry of a group -/

/-- the words that may say, before a colon, what an attribute applies to -/
def targets : List Text :=
  ["assembly", "module", "field", "event", "method", "param", "property", "return", "type"]

/-- what follows one of these words and its colon; a double colon belongs to a name -/
def afterTarget? (entry : Text) : Option Text :=
  targets.findSome? fun word => do
    let rest ← Text.after? word entry
    match rest.dropWhile blank with
    | ':' :: rest => if rest.head? = some ':' then none else some (rest.dropWhile blank)
    | _ => none

/-- what follows the type arguments of a name: they hold no parenthesis and go up to the last closing angle bracket in
front of one -/
def afterTypeArguments? (t : Text) : Option Text :=
  if t.head? = some '<' then
    let list := Text.dropEnd (· != '>') (t.takeWhile fun c => c != '(' && c != ')')
    if list.isEmpty then none else some ((t.drop list.length).dropWhile blank)
  else some t

/-- the name of an entry and the text of its argument list; nothing for an entry of another form -/
def nameAndArguments? (entry : Text) : Option (Text × Text) := do
  match entry with
  | [] => none
  | c :: cs =>
    if identifierStart c || c == '@' then
      let name := c :: cs.takeWhile dottedChar
      let rest ← afterTypeArguments? ((cs.dropWhile dottedChar).dropWhile blank)
      match rest with
      | [] => some (name, [])
      | '(' :: inside => if inside.getLast? = some ')' then some (name, inside.dropLast) else none
      | _ => none
    else none

/-- an argument of an attribute -/
inductive Argument where
  | positional (value : Text)
  | named (key value : Text)
  deriving DecidableEq, Repr

/-- the key and the value of `key = value` or `key: value`; a doubled mark belongs to an expression -/
def keyAndValue? (t : Text) : Option (Text × Text) :=
  if t.head?.any identifierStart then
    match (t.dropWhile wordChar).dropWhile blank with
    | mark :: rest =>
      let value := rest.dropWhile blank
      if (mark = '=' ∨ mark = ':') ∧ rest.head? ≠ some mark ∧ value ≠ [] then some (t.takeWhile wordChar, value)
      else none
    | [] => none
  else none

def Argument.ofText (t : Text) : Argument :=
  match stringLiteral? t, keyAndValue? t with
  | none, some (key, value) => .named key (literalValue value)
  | _, _ => .positional (literalValue t)

/-- the attribute that an entry writes, its target word aside -/
def ofEntry? (entry : Text) : Option Attribute :=
  (nameAndArguments? entry).map fun (name, list) =>
    let arguments := if list.all blank then [] else (splitTop ',' false list).map Argument.ofText
    { name := shortName name
      arguments := arguments.filterMap fun
        | .positional value => some value
        | .named .. => none
      namedArguments := arguments.filterMap fun
        | .named key value => some (key, value)
        | .positional _ => none
      raw := entry }

/-! ## Groups -/

/-- how much of a malformed entry a warning cites -/
def citedLength : Nat := 40

/-- the attributes of one group, from the text between its brackets -/
def readGroup (location : Option Location) (content : Text) : Traced (List Attribute) :=
  Traced.filterMapList (fun part =>
    let entry := (afterTarget? part).getD part
    if entry.isEmpty then pure none
    else match ofEntry? entry with
      | some a => pure (some a)
      | none => do
        let cited := entry.take citedLength
        Traced.warn (.malformedAttribute cited) location cited
        pure none) (splitTop ',' false content)

/-- the attributes of every group of a source, in order -/
def readGroups (location : Option Location) (s : Source) : Traced (List Attribute) :=
  match _h : s.code with
  | [] => pure []
  | c :: cs =>
    if c = '[' then
      match closing? '[' ']' (c :: cs) with
      | none => do
        Traced.warn .openAttributeList location (Text.firstWords 4 s.raw)
        pure []
      | some i => do
        let found ← readGroup location (s.slice 1 i).raw
        let rest ← readGroups location (s.drop (i + 1))
        pure (found ++ rest)
    else readGroups location (s.drop 1)
  termination_by s.length
  decreasing_by
    all_goals
      rw [Source.length_drop]
      simp only [Source.length, _h, List.length_cons]
      omega

end Attribute

/-- the attributes written in a text, with the place to cite in warnings -/
def attributes (location : Option Location) (t : Text) : Traced (List Attribute) :=
  Attribute.readGroups location (Source.ofText t)

theorem Attribute.readGroups_no_bracket (location : Option Location) (s : Source) (h : '[' ∉ s.code) :
    Attribute.readGroups location s = pure [] := by
  fun_induction Attribute.readGroups location s with
  | case1 => rfl
  | case2 s cs hs => simp_all
  | case3 s cs hs => simp_all
  | case4 s c cs hs hc ih =>
    apply ih
    simp only [Source.drop, hs, List.drop_one, List.tail_cons]
    intro hm
    exact h (by rw [hs]; simp [hm])

theorem attributes_no_bracket (location : Option Location) (t : Text) (h : '[' ∉ mask true t) :
    attributes location t = pure [] := Attribute.readGroups_no_bracket location (Source.ofText t) h

end EndpointSurvey
