/-
What settings mean where they are used: which names are passed over, which files are too large, how many documents the
cache keeps, what a log keeps. A value that means nothing is a fault.

Main statements: `ignores_names` (a list passes over exactly the names it holds) and `newCache_int` (a whole number
makes a cache when it is positive).
-/
import EndpointSurvey.Cache.Basic
import EndpointSurvey.Settings.Basic
import EndpointSurvey.Text.LowerCase

namespace EndpointSurvey.Settings

/-! ## Files -/

def isText (name : Text) : Json → Bool
  | .string t => t == name
  | _ => false

/-- is a name passed over? A text passes over the names it contains, an object its keys. -/
def ignores (s : Settings) (name : Text) : Except SettingFault Bool :=
  match s.ignored with
  | .array entries => .ok (entries.any (isText name))
  | .object members => .ok ((Entries.keys members).contains name)
  | .string t => .ok (Text.contains name t)
  | other => .error (.holdsNothing other.typeName)

theorem ignores_names {s : Settings} {names : List Text} (h : s.ignored = Json.texts names) (name : Text) :
    s.ignores name = .ok (names.contains name) := by
  have same : (isText name ∘ Json.string) = fun t => t == name := rfl
  simp [ignores, h, Json.texts, List.any_map, same, List.any_beq']

/-- the unit in which the size limit counts -/
def sizeUnit : Nat := 1048576

/-- is a file of so many bytes too large? -/
def exceedsLimit (s : Settings) (bytes : Nat) : Except SettingFault Bool :=
  match s.maxFileSize with
  | .int n => .ok (n * (sizeUnit : Nat) < (bytes : Int))
  | .bool b => .ok (b.toNat * sizeUnit < bytes)
  | .float v => .ok (v.ltRatio bytes sizeUnit)
  | other => .error (.unordered ['>'] "float" other.typeName)

/-- the size of a file in units, with one place -/
def sizeText (bytes : Nat) : Text := Binary64.fixedRatio 1 bytes sizeUnit

/-! ## Cache -/

/-- a cache for a number of documents -/
def cacheFor (α : Type) (n : Nat) : Except SettingFault (DocumentCache α) :=
  match DocumentCache.ofCapacity? n with
  | some c => .ok c
  | none => .error .noRoom

/-- an empty cache of the size set; parts of an entry do not count -/
def newCache (α : Type) (s : Settings) : Except SettingFault (DocumentCache α) :=
  match s.cacheSize with
  | .int n => cacheFor α n.toNat
  | .bool b => cacheFor α b.toNat
  | .float (.finite true _ _) => .error .noRoom
  | .float (.finite false m e) => let (num, den) := Binary64.ratio m e; cacheFor α (num / den)
  | .float (.infinite true) => .error .noRoom
  | .float _ => .ok .unbounded
  | other => .error (.unordered ['<'] other.typeName "int")

theorem newCache_int (α : Type) {s : Settings} {n : Int} (h : s.cacheSize = .int n) :
    (∃ c, s.newCache α = .ok c ∧ c.size = 0 ∧ c.capacity = some n.toNat) ↔ 0 < n := by
  simp only [newCache, h, cacheFor, DocumentCache.ofCapacity?]
  split
  · next c hc =>
    split at hc
    · next pos => cases hc; simp [DocumentCache.size]; omega
    · cases hc
  · next hc =>
    split at hc
    · cases hc
    · next pos => simp; omega

/-! ## Log -/

/-- the levels of a log and their weights; the weightless level leaves the usual one in force -/
def levelWeights : List (Text × Nat) :=
  [("CRITICAL", 50), ("FATAL", 50), ("ERROR", 40), ("WARNING", 30), ("WARN", 30), ("INFO", 20), ("DEBUG", 10),
    ("NOTSET", 30)]

/-- the weight of the level in force when none is named -/
def usualWeight : Nat := 30

/-- the layout of records; its name is found among the levels' names though it is none -/
def layoutName : Text := "BASIC_FORMAT"

def layoutText : Text := "%(levelname)s:%(name)s:%(message)s"

/-- the table of layouts, whose name is found there too -/
def tableName : Text := "_STYLES"

/-- the layouts of records by the sign of their placeholders, each with the name of its style -/
def layouts : List (Char × Text × Text) :=
  [('%', "logging.PercentStyle", layoutText),
    ('\x7b', "logging.StrFormatStyle", "\x7blevelname\x7d:\x7bname\x7d:\x7bmessage\x7d"),
    ('$', "logging.StringTemplateStyle", "$\x7blevelname\x7d:$\x7bname\x7d:$\x7bmessage\x7d")]

/-- the table as it is shown -/
def tableText : Text :=
  let shown := fun ((sign, style, layout) : Char × Text × Text) =>
    Text.quoted [sign] ++ ": (<class " ++ Text.quoted style ++ ">, " ++ Text.quoted layout ++ ")"
  '\x7b' :: Text.join ", " (layouts.map shown) ++ ['\x7d']

/-- the least weight of a record that a log keeps -/
def threshold (s : Settings) : Except SettingFault Nat :=
  match s.logLevel with
  | .string t =>
    if t.upper = layoutName then .error (.unknownLevel layoutText)
    else if t.upper = tableName then .error (.noLevel tableText)
    else .ok ((Entries.lookup? t.upper levelWeights).getD usualWeight)
  | other => .error (.notText other.typeName "upper")

/-- the path that a value names, nothing for one that counts as absent -/
def path? (v : Json) : Except SettingFault (Option Text) :=
  if v.isEmpty then .ok none
  else match v with
    | .string t => .ok (some t)
    | other => .error (.notPath other.typeName)

end EndpointSurvey.Settings
