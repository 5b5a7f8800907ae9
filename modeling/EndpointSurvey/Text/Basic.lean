/-
Text as a list of characters, so that offsets, columns and lengths count code points, and the list operations every
stage of the survey is written with: splitting at a character, joining, replacing, searching.

Main statements: `intercalate_splitOn` (splitting at a character loses nothing) and `dropEnd_append_takeEnd` (a text is
cut in two by its longest tail of a kind).
-/
namespace EndpointSurvey

/-- a text, one entry per code point -/
abbrev Text := List Char

instance : Coe String Text := ⟨String.toList⟩

namespace Text

/-- the longest tail whose characters all satisfy `p` -/
def takeEnd (p : Char → Bool) (t : Text) : Text := (t.reverse.takeWhile p).reverse

/-- what stands before the longest tail whose characters all satisfy `p` -/
def dropEnd (p : Char → Bool) (t : Text) : Text := (t.reverse.dropWhile p).reverse

theorem dropEnd_append_takeEnd (p : Char → Bool) (t : Text) : dropEnd p t ++ takeEnd p t = t := by
  simp [dropEnd, takeEnd, ← List.reverse_append]

theorem takeEnd_append_of_all {p : Char → Bool} (s : Text) {t : Text} (h : ∀ c ∈ t, p c = true) :
    takeEnd p (s ++ t) = takeEnd p s ++ t := by
  unfold takeEnd
  rw [List.reverse_append, List.takeWhile_append_of_pos fun c hc => h c (List.mem_reverse.1 hc), List.reverse_append,
    List.reverse_reverse]

/-- The longest tail of a kind does not reach past a character of another kind. -/
theorem takeEnd_append_within {p : Char → Bool} {s : Text} (h : ∀ c ∈ s.getLast?, p c = false) (t : Text) :
    takeEnd p (s ++ t) <:+ t := by
  have stop : s.reverse.takeWhile p = [] := by
    cases e : s.reverse with
    | nil => rfl
    | cons c cs =>
      refine List.takeWhile_cons_of_neg ?_
      rw [h c (by rw [← List.head?_reverse, e]; rfl)]
      exact Bool.false_ne_true
  unfold takeEnd
  rw [List.reverse_append, List.takeWhile_append, stop]
  split
  · exact ⟨[], by rw [List.append_nil, List.reverse_reverse, List.nil_append]⟩
  · rw [← List.reverse_prefix, List.reverse_reverse]
    exact List.takeWhile_prefix p

/-- drops characters that satisfy `p` at both ends -/
def stripBoth (p : Char → Bool) (t : Text) : Text := dropEnd p (t.dropWhile p)

def startsWith (start t : Text) : Bool := start.isPrefixOf t

def endsWith (tail t : Text) : Bool := tail.isSuffixOf t

/-- what follows `start`, if the text starts with it -/
def after? : Text → Text → Option Text
  | [], t => some t
  | _ :: _, [] => none
  | c :: cs, d :: ds => if c = d then after? cs ds else none

/-- what precedes the first place where `piece` stands, and what follows it -/
def splitFirst? (piece : Text) : Text → Option (Text × Text)
  | [] => if piece.isEmpty then some ([], []) else none
  | c :: cs =>
    match after? piece (c :: cs) with
    | some rest => some ([], rest)
    | none => (splitFirst? piece cs).map fun (before, rest) => (c :: before, rest)

/-- does `piece` stand anywhere in the text? -/
def contains (piece t : Text) : Bool := (splitFirst? piece t).isSome

/-- the parts between the characters `sep`: always at least one -/
def splitOn (sep : Char) : Text → List Text
  | [] => [[]]
  | c :: cs =>
    if c = sep then [] :: splitOn sep cs
    else match splitOn sep cs with
      | [] => [[c]]
      | part :: parts => (c :: part) :: parts

/-- joins parts with a separator between them -/
def join (sep : Text) (parts : List Text) : Text := sep.intercalate parts

theorem splitOn_ne_nil (sep : Char) (t : Text) : splitOn sep t ≠ [] := by
  cases t with
  | nil => simp [splitOn]
  | cons c cs => unfold splitOn; split <;> (try split) <;> simp

/-- Splitting at a character loses nothing: joining the parts with it gives the text back. -/
theorem intercalate_splitOn (sep : Char) (t : Text) : join [sep] (splitOn sep t) = t := by
  induction t with
  | nil => simp [splitOn, join]
  | cons c cs ih =>
    unfold splitOn
    cases h : splitOn sep cs with
    | nil => exact absurd h (splitOn_ne_nil sep cs)
    | cons part parts =>
      rw [h] at ih
      split
      · next hc => subst hc; simpa [join, List.intercalate] using ih
      · cases parts <;> simpa [join, List.intercalate] using ih

/-- the part after the last `sep`, the whole text when there is none -/
def afterLast (sep : Char) (t : Text) : Text := takeEnd (· != sep) t

/-- the part before the first `sep`, the whole text when there is none -/
def beforeFirst (sep : Char) (t : Text) : Text := t.takeWhile (· != sep)

theorem beforeFirst_of_not_mem {sep : Char} {t : Text} (h : sep ∉ t) : beforeFirst sep t = t := by
  unfold beforeFirst
  induction t with
  | nil => rfl
  | cons c cs ih =>
    rw [List.mem_cons, not_or] at h
    rw [List.takeWhile_cons_of_pos (p := (· != sep)) (bne_iff_ne.2 (Ne.symm h.1)), ih h.2]

/-- a text cut at its first `sep`; nothing follows where there is none -/
def cutFirst (sep : Char) (t : Text) : Text × Option Text :=
  match t.dropWhile (· != sep) with
  | _ :: rest => (beforeFirst sep t, some rest)
  | [] => (t, none)

theorem after?_length {start t rest : Text} (h : after? start t = some rest) :
    t.length = start.length + rest.length := by
  fun_induction after? start t with
  | case1 t => cases h; simp
  | case2 => cases h
  | case3 c cs ds ih => simp [ih h]; omega
  | case4 => cases h

/-- replaces every non-overlapping place of a non-empty `piece`, from the left -/
def replace (piece into : Text) (t : Text) : Text :=
  match t with
  | [] => []
  | c :: cs =>
    match _h : after? piece (c :: cs) with
    | none => c :: replace piece into cs
    | some rest => if piece.isEmpty then c :: replace piece into cs else into ++ replace piece into rest
  termination_by t.length
  decreasing_by
    all_goals simp_wf
    have := after?_length ‹_›
    cases piece with
    | nil => simp_all
    | cons d ds => simp at this; omega

/-- decimal digits of a number -/
def ofNat (n : Nat) : Text := Nat.toDigits 10 n

theorem isDigit_of_mem_ofNat {n : Nat} {c : Char} (h : c ∈ ofNat n) : c.isDigit = true :=
  Nat.isDigit_of_mem_toDigits (by decide) (by decide) h

def ofInt : Int → Text
  | .ofNat n => ofNat n
  | .negSucc n => '-' :: ofNat (n + 1)

/-- lexicographic order by code point, used wherever names are listed in order -/
def le : Text → Text → Bool
  | [], _ => true
  | _ :: _, [] => false
  | a :: as, b :: bs => a < b || (a = b && le as bs)

end Text

end EndpointSurvey
