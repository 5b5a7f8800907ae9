/-
The options of the command line, and what each argument is before any option takes effect: a plain argument, the mark
after which all arguments are plain, an option with what is written onto it, or an option that there is not. A long
option may be cut short while no other starts the same way.

Main statement: `scan_plain` (arguments without a dash in front are plain).
-/
import EndpointSurvey.Entries
import EndpointSurvey.Text.Quoted
import EndpointSurvey.Text.WordChar

namespace EndpointSurvey.CommandLine

/-! ## Options -/

inductive Switch where
  | showWarnings
  | generate
  | verbose
  | quiet
  deriving DecidableEq, Repr

/-- an option that takes a value -/
inductive Setting where
  | output
  | method
  | environments
  | environment
  | config
  deriving DecidableEq, Repr

inductive Meaning where
  | help
  | version
  | switch (s : Switch)
  | setting (s : Setting)
  deriving DecidableEq, Repr

/-- the options by their names -/
def options : List (Text × Meaning) :=
  [("-h", .help), ("--help", .help), ("-o", .setting .output), ("--output", .setting .output),
    ("--show-warnings", .switch .showWarnings), ("--method", .setting .method), ("--generate", .switch .generate),
    ("--environments", .setting .environments), ("--env", .setting .environment), ("--config", .setting .config),
    ("-v", .switch .verbose), ("--verbose", .switch .verbose), ("--version", .version), ("--quiet", .switch .quiet),
    ("-q", .switch .quiet)]

def meaning? (name : Text) : Option Meaning := Entries.lookup? name options

/-! ## Arguments -/

inductive Token where
  | plain (t : Text)
  /-- the mark after which every argument is plain -/
  | plainMark
  /-- an option with the text that is written onto it, after an equals sign or at once -/
  | named (name : Text) (meaning : Meaning) (attached : Option Text)
  | unknown (t : Text)
  deriving DecidableEq, Repr

/-- how the mark after which every argument is plain is written -/
def markText : Text := ['-', '-']

/-- what is wrong with a command line -/
inductive UsageError where
  | ambiguous (argument : Text) (candidates : List Text)
  | missingValue
  | needlessValue (value : Text)
  | unknownMethod (value : Text)
  | missingTarget
  | unrecognized (arguments : List Text)
  deriving DecidableEq, Repr

def UsageError.message : UsageError → Text
  | ambiguous argument candidates =>
    "ambiguous option: " ++ argument ++ " could match " ++ Text.join ", " candidates
  | missingValue => "expected one argument"
  | needlessValue value => "ignored explicit argument " ++ Text.quoted value
  | unknownMethod value => "argument --method: invalid choice: " ++ Text.quoted value
  | missingTarget => "the following arguments are required: target"
  | unrecognized arguments => "unrecognized arguments: " ++ Text.join " " arguments

/-- the options that an argument may be short for, or that it is written onto -/
def candidates (t : Text) : List Token :=
  match t with
  | '-' :: '-' :: _ =>
    let (start, attached) := Text.cutFirst '=' t
    (options.filter fun (name, _) => Text.startsWith start name).map fun (name, meaning) => .named name meaning attached
  | '-' :: c :: rest =>
    match meaning? ['-', c] with
    | some meaning => [.named ['-', c] meaning (some rest)]
    | none => []
  | _ => []

/-- is an argument a number below zero? One line feed may end it. -/
def negativeNumber (t : Text) : Bool :=
  let line := match t.getLast? with
    | some '\n' => t.dropLast
    | _ => t
  match line with
  | '-' :: number =>
    let fraction := number.dropWhile decimalDigit
    match fraction with
    | [] => !number.isEmpty
    | '.' :: places => !places.isEmpty && places.all decimalDigit
    | _ => false
  | _ => false

def Token.nameOf : Token → Text
  | .named name _ _ => name
  | .plain t => t
  | .unknown t => t
  | .plainMark => markText

/-- what an argument before the mark is -/
def tokenOf (t : Text) : Except UsageError Token :=
  match t with
  | '-' :: _ :: _ =>
    match meaning? t with
    | some meaning => .ok (.named t meaning none)
    | none =>
      let (name, attached) := Text.cutFirst '=' t
      match attached, meaning? name with
      | some attached, some meaning => .ok (.named name meaning (some attached))
      | _, _ =>
        match candidates t with
        | [token] => .ok token
        | [] => .ok (if negativeNumber t || t.any (· == ' ') then .plain t else .unknown t)
        | several => .error (.ambiguous t (several.map Token.nameOf))
  | _ => .ok (.plain t)

/-- what the arguments are, up to the first that could be several options -/
def scan : List Text → Except UsageError (List Token)
  | [] => .ok []
  | t :: rest =>
    if t = markText then .ok (.plainMark :: rest.map .plain)
    else do
      let token ← tokenOf t
      pure (token :: (← scan rest))

theorem scan_plain (ts : List Text) (h : ∀ t ∈ ts, t.head? ≠ some '-') : scan ts = .ok (ts.map .plain) := by
  induction ts with
  | nil => rfl
  | cons t rest ih =>
    have ht := h t (by simp)
    have noMark : t ≠ markText := by
      rintro rfl
      exact ht rfl
    have plain : tokenOf t = .ok (.plain t) := by
      unfold tokenOf
      split
      · next c cs => exact absurd rfl ht
      · rfl
    rw [scan, if_neg noMark, plain, ih fun u hu => h u (by simp [hu])]
    rfl

end EndpointSurvey.CommandLine
