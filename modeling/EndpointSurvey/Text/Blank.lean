/-
Blank characters and line breaks, and the operations that cut a text at them.

Main statements: `blank_of_isWhitespace` (core's whitespace is blank here), `words_blank_free` (words hold no blank).
-/
import EndpointSurvey.Text.Basic

namespace EndpointSurvey

/-- the blank characters: the control blanks, the separators FS to US, NEL and the Unicode spaces; not U+FEFF -/
def blank (c : Char) : Bool :=
  let n := c.toNat
  n == 32 || (9 ≤ n && n ≤ 13) || (28 ≤ n && n ≤ 31) ||
    (128 ≤ n && (n == 0x85 || n == 0xA0 || n == 0x1680 || (0x2000 ≤ n && n ≤ 0x200A) || n == 0x2028 || n == 0x2029 ||
      n == 0x202F || n == 0x205F || n == 0x3000))

theorem blank_of_isWhitespace {c : Char} (h : c.isWhitespace = true) : blank c = true := by
  simp only [Char.isWhitespace, Bool.or_eq_true, decide_eq_true_eq] at h
  rcases h with ((rfl | rfl) | rfl) | rfl <;> decide

/-- the characters at which a line ends -/
def lineBreak (c : Char) : Bool :=
  let n := c.toNat
  (10 ≤ n && n ≤ 13) || (28 ≤ n && n ≤ 30) || n == 0x85 || n == 0x2028 || n == 0x2029

namespace Text

def trimLeft (t : Text) : Text := t.dropWhile blank

def trimRight (t : Text) : Text := dropEnd blank t

/-- drops blanks at both ends -/
def trim (t : Text) : Text := trimRight (trimLeft t)

theorem trim_of_blank {t : Text} (blanks : ∀ c ∈ t, blank c = true) : t.trim = [] := by
  have front : t.dropWhile blank = [] := by
    induction t with
    | nil => rfl
    | cons c cs ih =>
      rw [List.dropWhile_cons_of_pos (blanks c List.mem_cons_self), ih fun d hd => blanks d (.tail c hd)]
  rw [trim, trimLeft, front]
  rfl

theorem trim_of_solid {t : Text} (solid : ∀ c ∈ t, blank c = false) : t.trim = t := by
  have front : ∀ t : Text, (∀ c ∈ t, blank c = false) → t.dropWhile blank = t := by
    intro t solid
    cases t with
    | nil => rfl
    | cons c cs => exact List.dropWhile_cons_of_neg (by simp [solid c List.mem_cons_self])
  rw [trim, trimLeft, trimRight, dropEnd, front t solid, front _ fun c hc => solid c (List.mem_reverse.1 hc),
    List.reverse_reverse]

/-- how many blanks the text starts with -/
def leadingBlanks (t : Text) : Nat := (t.takeWhile blank).length

/-- the maximal runs without a blank -/
def words (t : Text) : List Text :=
  match t with
  | [] => []
  | c :: cs =>
    if blank c then words cs
    else (c :: cs.takeWhile (!blank ·)) :: words (cs.dropWhile (!blank ·))
  termination_by t.length
  decreasing_by
    · simp
    · have := (List.dropWhile_suffix (l := cs) (!blank ·)).length_le
      simp; omega

theorem words_blank_free (t : Text) : ∀ w ∈ words t, ∀ c ∈ w, blank c = false := by
  have taken : ∀ (cs : Text), ∀ x ∈ cs.takeWhile (!blank ·), blank x = false := by
    intro cs
    induction cs with
    | nil => simp
    | cons d ds ih =>
      intro x hx
      rw [List.takeWhile_cons] at hx
      split at hx
      · next hd =>
        rcases List.mem_cons.1 hx with rfl | hx
        · simpa using hd
        · exact ih x hx
      · simp at hx
  fun_induction words t with
  | case1 => simp
  | case2 c cs h ih => exact ih
  | case3 c cs h ih =>
    intro w hw
    rcases List.mem_cons.1 hw with rfl | hw
    · intro x hx
      rcases List.mem_cons.1 hx with rfl | hx
      · simpa using h
      · exact taken cs x hx
    · exact ih w hw

/-- blanks at the ends dropped, each inner run of blanks made one space -/
def collapse (t : Text) : Text := join " " (words t)

/-- the first words of a text on one line -/
def firstWords (count : Nat) (t : Text) : Text := join " " ((words t).take count)

/-- the lines of a text without their breaks; a carriage return and the line feed after it are one break -/
def lines : Text → List Text
  | [] => []
  | '\r' :: '\n' :: cs => [] :: lines cs
  | c :: cs =>
    if lineBreak c then [] :: lines cs
    else match lines cs with
      | [] => [[c]]
      | line :: rest => (c :: line) :: rest

theorem mem_of_mem_lines {t line : Text} (h : line ∈ lines t) {c : Char} (hc : c ∈ line) : c ∈ t := by
  fun_induction lines t generalizing line with
  | case1 => cases h
  | case2 cs ih =>
    rcases List.mem_cons.1 h with rfl | h
    · cases hc
    · exact .tail _ (.tail _ (ih h hc))
  | case3 d cs other feed ih =>
    rcases List.mem_cons.1 h with rfl | h
    · cases hc
    · exact .tail _ (ih h hc)
  | case4 d cs other inside none ih =>
    rw [List.mem_singleton.1 h] at hc
    rw [List.mem_singleton.1 hc]
    exact .head _
  | case5 d cs other inside line' rest found ih =>
    rcases List.mem_cons.1 h with rfl | h
    · rcases List.mem_cons.1 hc with rfl | hc
      · exact .head _
      · exact .tail _ (ih (found ▸ .head _) hc)
    · exact .tail _ (ih (found ▸ .tail _ h) hc)

end Text

end EndpointSurvey
