/-
Reading a command line: tokens take effect one after another. The first plain argument is the target; help and the
version are given as soon as they are asked for, and a fault counts when it is met, save for arguments that nothing
takes, which count at the end.

Main statements: `ofList_target` (a single argument without a dash in front is the target) and `bundle_unknown` (a
letter that names no option is a fault wherever it stands among letters written together).
-/
import EndpointSurvey.Attribute.Basic
import EndpointSurvey.CommandLine.Token

namespace EndpointSurvey.CommandLine

/-- which endpoints a command line asks for, by their method -/
inductive Selection where
  | every
  | only (method : Text)
  /-- a method was due where there is only the mark for plain arguments: no endpoint can be held against it -/
  | unusable
  deriving DecidableEq, Repr

structure Arguments where
  target : Text
  output : Option Text
  showWarnings : Bool
  selection : Selection
  generate : Bool
  environments : Option Text
  environment : Option Text
  config : Option Text
  verbose : Bool
  quiet : Bool
  deriving DecidableEq, Repr

/-- why a command line leads to no run -/
inductive Ending where
  | help
  | version
  | usage (e : UsageError)
  deriving DecidableEq, Repr

/-- what has been read of a command line -/
structure Reading where
  target : Option Text
  arguments : Arguments
  /-- the arguments that nothing takes -/
  extras : List Text
  deriving DecidableEq, Repr

namespace Reading

def blank : Reading := ⟨none, ⟨[], none, false, .every, false, none, none, none, false, false⟩, []⟩

def withExtra (r : Reading) (t : Text) : Reading := { r with extras := r.extras ++ [t] }

/-- a switch turned on -/
def switched (r : Reading) : Switch → Reading
  | .showWarnings => { r with arguments := { r.arguments with showWarnings := true } }
  | .generate => { r with arguments := { r.arguments with generate := true } }
  | .verbose => { r with arguments := { r.arguments with verbose := true } }
  | .quiet => { r with arguments := { r.arguments with quiet := true } }

/-- the endpoints that a method selects; it is taken in any case -/
def selection? (value : Text) : Except Ending Selection :=
  let method := value.upper
  if value = markText then .ok .unusable
  else if Verb.all.any (·.name == method) then .ok (.only method)
  else .error (.usage (.unknownMethod method))

/-- a setting with its value; the mark for plain arguments is no value -/
def set (r : Reading) (s : Setting) (value : Text) : Except Ending Reading :=
  let given := if value = markText then none else some value
  match s with
  | .output => .ok { r with arguments := { r.arguments with output := given } }
  | .method => (selection? value).map fun chosen => { r with arguments := { r.arguments with selection := chosen } }
  | .environments => .ok { r with arguments := { r.arguments with environments := given } }
  | .environment => .ok { r with arguments := { r.arguments with environment := given } }
  | .config => .ok { r with arguments := { r.arguments with config := given } }

/-- an option without a value takes effect -/
def act (r : Reading) : Meaning → Except Ending Reading
  | .help => .error .help
  | .version => .error .version
  | .switch s => .ok (r.switched s)
  | .setting _ => .error (.usage .missingValue)

end Reading

/-! ## Options written together -/

/-- how one argument with options ends -/
inductive Tail where
  | nothing
  /-- the next argument is the value -/
  | awaits (s : Setting)
  | value (s : Setting) (value : Text)
  deriving DecidableEq, Repr

/-- the options that one argument holds -/
structure Bundle where
  meanings : List Meaning
  tail : Tail
  deriving DecidableEq, Repr

/-- a bundle with one more option in front -/
def Bundle.after (meaning : Meaning) (b : Bundle) : Bundle := { b with meanings := meaning :: b.meanings }

/-- the options in letters written together; what follows the letter of a setting is its value -/
def bundle : Text → Except UsageError Bundle
  | [] => .ok ⟨[], .nothing⟩
  | c :: rest =>
    match meaning? ['-', c], rest with
    | none, _ => .error (.needlessValue (c :: rest))
    | some (.setting s), [] => .ok ⟨[], .awaits s⟩
    | some (.setting s), value => .ok ⟨[], .value s value⟩
    | some meaning, rest => (bundle rest).map (Bundle.after meaning)

/-- A letter that names no option is a fault, however many switches stand before it. -/
theorem bundle_unknown {switches : Text} (h : ∀ c ∈ switches, ∃ s, meaning? ['-', c] = some (.switch s)) {c : Char}
    (unknown : meaning? ['-', c] = none) (rest : Text) :
    bundle (switches ++ c :: rest) = .error (.needlessValue (c :: rest)) := by
  induction switches with
  | nil => simp [bundle, unknown]
  | cons d ds ih =>
    obtain ⟨s, hs⟩ := h d (by simp)
    have inner := ih fun e he => h e (by simp [he])
    rw [List.cons_append, bundle.eq_def]
    simp [hs, inner, Except.map]

/-- the options of one argument; letters may be written onto a switch of one letter -/
def bundleOf (name : Text) (meaning : Meaning) (attached : Option Text) : Except UsageError Bundle :=
  match meaning, attached with
  | .setting s, none => .ok ⟨[], .awaits s⟩
  | .setting s, some value => .ok ⟨[], .value s value⟩
  | meaning, none => .ok ⟨[meaning], .nothing⟩
  | meaning, some letters =>
    if Text.startsWith ['-', '-'] name || letters.isEmpty then .error (.needlessValue letters)
    else (bundle letters).map (Bundle.after meaning)

/-! ## Taking effect -/

/-- the options of one argument take effect, after the value that the last one awaits has been found -/
def takeBundle (r : Reading) (b : Bundle) (rest : List Token) : Except Ending (Reading × List Token) := do
  match b.tail with
  | .nothing => pure (← b.meanings.foldlM Reading.act r, rest)
  | .value s value =>
    let r ← b.meanings.foldlM Reading.act r
    pure (← r.set s value, rest)
  | .awaits s =>
    match rest with
    | .plain value :: rest =>
      let r ← b.meanings.foldlM Reading.act r
      pure (← r.set s value, rest)
    | _ => throw (.usage .missingValue)

theorem takeBundle_length {r after : Reading} {b : Bundle} {rest left : List Token}
    (h : takeBundle r b rest = .ok (after, left)) : left.length ≤ rest.length := by
  have open_bind : ∀ {α β : Type} {x : Except Ending α} {f : α → Except Ending β} {y : β},
      (x >>= f) = .ok y → ∃ a, x = .ok a ∧ f a = .ok y := by
    intro α β x f y hx
    cases x with
    | error e => cases hx
    | ok a => exact ⟨a, rfl, hx⟩
  unfold takeBundle at h
  split at h
  · obtain ⟨_, _, hr⟩ := open_bind h
    cases hr
    exact Nat.le_refl _
  · obtain ⟨_, _, hr⟩ := open_bind h
    obtain ⟨_, _, hr⟩ := open_bind hr
    cases hr
    exact Nat.le_refl _
  · split at h
    · obtain ⟨_, _, hr⟩ := open_bind h
      obtain ⟨_, _, hr⟩ := open_bind hr
      cases hr
      simp
    · cases h

/-- tokens take effect one after another; the mark is dropped next to the target -/
def takeTokens (r : Reading) (tokens : List Token) : Except Ending Reading :=
  match tokens with
  | [] => .ok r
  | .plain t :: .plainMark :: rest =>
    match r.target with
    | none => takeTokens { r with target := some t } rest
    | some _ => takeTokens (r.withExtra t) (.plainMark :: rest)
  | .plain t :: rest =>
    match r.target with
    | none => takeTokens { r with target := some t } rest
    | some _ => takeTokens (r.withExtra t) rest
  | .plainMark :: .plain t :: rest =>
    match r.target with
    | none => takeTokens { r with target := some t } rest
    | some _ => takeTokens (r.withExtra markText) (.plain t :: rest)
  | .plainMark :: rest => takeTokens (r.withExtra markText) rest
  | .unknown t :: rest => takeTokens (r.withExtra t) rest
  | .named name meaning attached :: rest =>
    match bundleOf name meaning attached with
    | .error e => .error (.usage e)
    | .ok b =>
      match _taken : takeBundle r b rest with
      | .error ending => .error ending
      | .ok (r, left) => takeTokens r left
  termination_by tokens.length
  decreasing_by
    all_goals simp only [List.length_cons]
    all_goals first
      | omega
      | exact Nat.lt_succ_of_le (takeBundle_length _taken)

/-- the arguments of a command line -/
def Arguments.ofList (texts : List Text) : Except Ending Arguments := do
  let tokens ← (scan texts).mapError .usage
  let r ← takeTokens .blank tokens
  match r.target with
  | none => throw (.usage .missingTarget)
  | some target =>
    if r.extras.isEmpty then pure { r.arguments with target := target }
    else throw (.usage (.unrecognized r.extras))

theorem Arguments.ofList_target {t : Text} (h : t.head? ≠ some '-') :
    (Arguments.ofList [t]).map (·.target) = .ok t := by
  have tokens : scan [t] = .ok [.plain t] := scan_plain [t] (by simpa using h)
  simp only [Arguments.ofList, tokens]
  have taken : takeTokens .blank [.plain t] = .ok { Reading.blank with target := some t } := by
    simp [takeTokens, Reading.blank]
  show (takeTokens .blank [.plain t] >>= _).map _ = _
  rw [taken]
  rfl

end EndpointSurvey.CommandLine
