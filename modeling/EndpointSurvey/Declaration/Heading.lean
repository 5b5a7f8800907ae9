/-
The headings of type declarations and namespaces, found in blanked text: a keyword at the start of a word, and a name
after it.

Main statement: `headings_sorted` (headings come in the order of their offsets and do not overlap).
-/
import EndpointSurvey.Declaration.Block
import EndpointSurvey.Source.Bracket

namespace EndpointSurvey

/-- a keyword and at least one blank after it -/
def keyword? (word t : Text) : Option Text := do
  let rest ← Text.after? word t
  if rest.head?.any blank then some (rest.dropWhile blank) else none

/-- a name: a letter or underscore, then word characters -/
def name? (t : Text) : Option (Text × Text) :=
  if t.head?.any identifierStart then some (t.takeWhile wordChar, t.dropWhile wordChar) else none

/-- the keywords that introduce a declaration, the longer first; an interface has no kind -/
def declarationKeywords : List (List Text × Option DeclarationKind) :=
  [(["record", "class"], some .recordType), (["record", "struct"], some .recordType), (["class"], some .classType),
    (["struct"], some .structType), (["record"], some .recordType), (["enum"], some .enumType), (["interface"], none)]

/-- the declaration heading that a text starts with: its kind, its name and what follows -/
def declaration? (t : Text) : Option (Option DeclarationKind × Text × Text) :=
  declarationKeywords.findSome? fun (words, kind) => do
    let rest ← words.foldlM (fun rest word => keyword? word rest) t
    let (name, rest) ← name? rest
    some (kind, name, rest)

/-- a declaration heading between two offsets; its kind is missing for an interface -/
structure Heading where
  start : Nat
  stop : Nat
  kind : Option DeclarationKind
  name : Text
  deriving DecidableEq, Repr

theorem after?_rest_le {word t rest : Text} (h : Text.after? word t = some rest) : rest.length ≤ t.length := by
  have := Text.after?_length h
  omega

theorem keyword?_rest_le {word t rest : Text} (h : keyword? word t = some rest) : rest.length ≤ t.length := by
  obtain ⟨r, hr, h⟩ := Option.bind_eq_some_iff.1 h
  split at h
  · cases h
    have := (List.dropWhile_suffix (l := r) blank).length_le
    have := after?_rest_le hr
    omega
  · cases h

theorem name?_rest_lt {t name rest : Text} (h : name? t = some (name, rest)) : rest.length < t.length := by
  unfold name? at h
  split at h
  · next hs =>
    cases h
    cases t with
    | nil => simp at hs
    | cons c cs =>
      have word : wordChar c = true := identifierStart_wordChar (by simpa using hs)
      have := (List.dropWhile_suffix (l := cs) wordChar).length_le
      simp [word]
      omega
  · cases h

theorem foldlM_keyword?_le {words : List Text} {t rest : Text}
    (h : words.foldlM (fun rest word => keyword? word rest) t = some rest) : rest.length ≤ t.length := by
  induction words generalizing t with
  | nil => cases h; exact Nat.le_refl _
  | cons w ws ih =>
    rw [List.foldlM_cons] at h
    obtain ⟨r, hr, h⟩ := Option.bind_eq_some_iff.1 h
    exact Nat.le_trans (ih h) (keyword?_rest_le hr)

theorem declaration?_rest_lt {t : Text} {found : Option DeclarationKind × Text × Text}
    (h : declaration? t = some found) : found.2.2.length < t.length := by
  obtain ⟨entry, _, he⟩ := List.exists_of_findSome?_eq_some h
  obtain ⟨r, hr, he⟩ := Option.bind_eq_some_iff.1 he
  obtain ⟨p, hp, he⟩ := Option.bind_eq_some_iff.1 he
  cases he
  exact Nat.lt_of_lt_of_le (name?_rest_lt hp) (foldlM_keyword?_le hr)

/-- the headings of a text that starts at an offset and follows a character; what a heading takes is not read again -/
def headingsFrom (offset : Nat) (before : Option Char) (t : Text) : List Heading :=
  match t with
  | [] => []
  | c :: cs =>
    match _h : (if Text.wordEdge before c then declaration? (c :: cs) else none) with
    | some (kind, name, rest) =>
      let stop := offset + ((c :: cs).length - rest.length)
      ⟨offset, stop, kind, name⟩ :: headingsFrom stop name.getLast? rest
    | none => headingsFrom (offset + 1) c cs
  termination_by t.length
  decreasing_by
    · split at _h
      · exact @declaration?_rest_lt _ (kind, name, rest) _h
      · cases _h
    · simp

def headings (code : Text) : List Heading := headingsFrom 0 none code

/-- the part of a document that a namespace covers -/
structure NamespaceSpan where
  start : Nat
  stop : Nat
  name : Text
  deriving DecidableEq, Repr

/-- a dotted name and the brace or semicolon after it -/
def namespace? (t : Text) : Option (Text × Char × Text) := do
  let rest ← keyword? "namespace" t
  let name := rest.takeWhile dottedChar
  match name, (rest.dropWhile dottedChar).dropWhile blank with
  | [], _ => none
  | _, '\x7b' :: rest => some (name, '\x7b', rest)
  | _, ';' :: rest => some (name, ';', rest)
  | _, _ => none

/-- the namespaces of the text from an offset on; one with a brace lasts up to the closing brace, any other up to the
end -/
def namespacesFrom (size offset : Nat) (before : Option Char) (t : Text) : List NamespaceSpan :=
  match t with
  | [] => []
  | c :: cs =>
    let rest := namespacesFrom size (offset + 1) c cs
    match (if Text.wordEdge before c then namespace? (c :: cs) else none) with
    | some (name, '\x7b', body) =>
      let brace := offset + ((c :: cs).length - body.length) - 1
      let stop := match closing? '\x7b' '\x7d' ('\x7b' :: body) with
        | some i => brace + i
        | none => size
      ⟨offset, stop, name⟩ :: rest
    | some (name, _, _) => ⟨offset, size, name⟩ :: rest
    | none => rest

def namespaces (code : Text) : List NamespaceSpan := namespacesFrom code.length 0 none code

/-- the name of the last namespace that covers an offset -/
def namespaceAt (spans : List NamespaceSpan) (offset : Nat) : Option Text :=
  ((spans.filter fun s => s.start ≤ offset && offset < s.stop).getLast?).map (·.name)

theorem headingsFrom_start_le (offset : Nat) (before : Option Char) (t : Text) :
    ∀ h ∈ headingsFrom offset before t, offset ≤ h.start := by
  fun_induction headingsFrom offset before t with
  | case1 => simp
  | case2 offset before c cs kind name rest hm stop ih =>
    intro h hh
    rcases List.mem_cons.1 hh with rfl | hh
    · exact Nat.le_refl _
    · have := ih h hh; omega
  | case3 offset before c cs hm ih =>
    intro h hh
    have := ih h hh
    omega

theorem headings_sorted (code : Text) : (headings code).Pairwise fun a b => a.stop ≤ b.start := by
  unfold headings
  generalize (0 : Nat) = offset
  generalize (none : Option Char) = before
  fun_induction headingsFrom offset before code with
  | case1 => exact List.Pairwise.nil
  | case2 offset before c cs kind name rest hm stop ih =>
    exact List.Pairwise.cons (fun h hh => headingsFrom_start_le _ _ _ h hh) ih
  | case3 offset before c cs hm ih => exact ih

end EndpointSurvey
