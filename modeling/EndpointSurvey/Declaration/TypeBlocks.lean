/-
The type declarations of a document: each heading that starts a declaration, with its parameters, bases, body, members,
attributes and documentation.
-/
import EndpointSurvey.Declaration.Heading
import EndpointSurvey.Declaration.Members

namespace EndpointSurvey

/-- words that follow a type keyword without naming a type -/
def nonTypeNames : List Text := ["where", "new", "struct", "class"]

/-- the words that may precede a type keyword on its line -/
def typeModifiers : List Text :=
  ["public", "private", "protected", "internal", "static", "sealed", "abstract", "partial", "readonly", "unsafe",
    "new", "file", "ref"]

/-- Does a keyword at this offset start a declaration? On its line, attribute groups aside, only modifiers precede
it. -/
def declarationStart (code : Text) (offset : Nat) : Bool :=
  let line := Text.takeEnd (· != '\n') (code.take offset)
  (replaceGroups " " line).words.all (typeModifiers.contains ·)

/-- the bracketed groups of a stretch as written; one that does not close takes the rest -/
def attributeGroups (s : Source) : List Text :=
  match _h : s.code with
  | [] => []
  | c :: cs =>
    if c = '[' then
      match closing? '[' ']' (c :: cs) with
      | none => [s.raw]
      | some i => (s.take (i + 1)).raw :: attributeGroups (s.drop (i + 1))
    else attributeGroups (s.drop 1)
  termination_by s.length
  decreasing_by
    all_goals
      rw [Source.length_drop]
      simp only [Source.length, _h, List.length_cons]
      omega

/-- the base types between a colon and the first constraint of a heading's tail -/
def baseTypesOf (tail : Text) : List Text :=
  match Text.splitFirst? ":" tail with
  | none => []
  | some (_, bases) => (splitTop ',' true (Text.beforeWord "where" bases)).filter (!·.isEmpty)

/-- the offset of the next character that is not blank -/
def skipBlanks (code : Text) (offset : Nat) : Nat := offset + Text.leadingBlanks (code.drop offset)

/-- what lies between two brackets, and the offset past the closing one; empty where no such bracket opens -/
def bracketed (opener closer : Char) (code : Text) (offset : Nat) : Except Unit (Option (Nat × Nat) × Nat) :=
  let rest := code.drop offset
  if rest.head? = some opener then
    match closing? opener closer rest with
    | none => .error ()
    | some i => .ok (some (offset + 1, offset + i), offset + i + 1)
  else .ok (none, offset)

/-- the parts of a heading after the declared name -/
structure HeadingTail where
  typeParameters : List Text
  positional : Option Text
  baseTypes : List Text
  /-- the offset of the brace or semicolon that ends the heading -/
  stop : Nat

/-- reads the rest of a heading from the offset after the name, or tells what is wrong with it -/
def headingTail (document : Source) (name : Text) (offset : Nat) : Except Problem HeadingTail := do
  let code := document.code
  let start := skipBlanks code offset
  let (generic, afterGeneric) ← (bracketed '<' '>' code start).mapError fun _ => .openTypeParameters name
  let typeParameters := match generic with
    | some (a, b) => ((Text.splitOn ',' (document.slice a b).code).map Text.trim).filter (!·.isEmpty)
    | none => []
  let next := if generic.isSome then skipBlanks code afterGeneric else start
  let (list, afterList) ← (bracketed '(' ')' code next).mapError fun _ => .openParameters name
  let tail := (code.drop afterList).takeWhile fun c => c != '\x7b' && c != ';'
  let stop := afterList + tail.length
  if code.length ≤ stop then .error (.missingBody name)
  else
    .ok
      { typeParameters := typeParameters
        positional := list.map fun (a, b) => (document.slice a b).raw
        baseTypes := baseTypesOf tail
        stop := stop }

/-- reads the declaration of a heading; nothing, and a warning, when it does not close -/
def readType (document : Source) (spans : List NamespaceSpan) (heading : Heading) (kind : DeclarationKind) :
    Traced (Option TypeBlock) :=
  let give := fun problem => do
    Traced.warn problem (locate document.raw heading.start) heading.name
    pure none
  match headingTail document heading.name heading.stop with
  | .error problem => give problem
  | .ok tail =>
    let before := (document.code.take heading.start)
    let lead := Text.takeEnd (fun c => c != ';' && c != '\x7b' && c != '\x7d') before
    let regionStart := heading.start - lead.length
    let region := document.slice regionStart heading.start
    let block : TypeBlock :=
      { kind := kind
        name := heading.name
        attributeText := Text.join "\n" (attributeGroups region)
        doc := docComment? region.raw
        namespaceName := namespaceAt spans heading.start
        start := regionStart + Text.leadingBlanks region.raw
        stop := tail.stop + 1
        typeParameters := tail.typeParameters
        baseTypes := tail.baseTypes
        positional := tail.positional
        body := []
        members := [] }
    let rest := document.drop tail.stop
    if rest.code.head? = some '\x7b' then
      match closing? '\x7b' '\x7d' rest.code with
      | none => give (.openBody heading.name)
      | some i => do
        let body := rest.slice 1 i
        let found ← if kind = .enumType then pure [] else members document.raw (tail.stop + 1) body
        pure (some { block with stop := tail.stop + i + 1, body := body.raw, members := found })
    else pure (some block)

/-- the type declarations of a document, in the order of their headings -/
def typeBlocks (text : Text) : Traced (List TypeBlock) := do
  let document := Source.ofText text
  let spans := namespaces document.code
  let blocks ← Traced.filterMapList (fun heading =>
    match heading.kind with
    | some kind =>
      if nonTypeNames.contains heading.name || !declarationStart document.code heading.start then pure none
      else readType document spans heading kind
    | none => pure none) (headings document.code)
  Traced.emit (.segmented blocks.length)
  pure blocks

end EndpointSurvey
