/-
Quoted text for messages. The quote is the apostrophe, unless the text holds an apostrophe and no double quote;
backslash, the quote, line feed, carriage return and tab are escaped with a backslash, and what cannot be printed by its
code point in the shortest of three widths.

Main statement: `quoted_plain` (a text of printable characters without quotes and backslashes stands between
apostrophes as it is).
-/
import EndpointSurvey.Text.Printable

namespace EndpointSurvey.Text

/-- a number in lower-case hexadecimal, filled up with zeros to a width -/
def hexPadded (width n : Nat) : Text :=
  let digits := Nat.toDigits 16 n
  List.replicate (width - digits.length) '0' ++ digits

/-- one character inside the quote `q` -/
def quotedChar (q c : Char) : Text :=
  if c = '\\' || c = q then ['\\', c]
  else if c = '\n' then "\\n"
  else if c = '\r' then "\\r"
  else if c = '\t' then "\\t"
  else if printable c then [c]
  else if c.toNat < 0x100 then "\\x" ++ hexPadded 2 c.toNat
  else if c.toNat < 0x10000 then "\\u" ++ hexPadded 4 c.toNat
  else "\\U" ++ hexPadded 8 c.toNat

/-- the text between quotes -/
def quoted (t : Text) : Text :=
  let q := if t.elem '\'' && !t.elem '"' then '"' else '\''
  q :: t.flatMap (quotedChar q) ++ [q]

theorem quoted_plain (t : Text) (h : ∀ c ∈ t, printable c = true ∧ c ≠ '\\' ∧ c ≠ '\'') :
    quoted t = '\'' :: t ++ ['\''] := by
  have noApostrophe : t.elem '\'' = false := by
    rw [Bool.eq_false_iff]
    exact fun hm => (h '\'' (by simpa using hm)).2.2 rfl
  have each : t.flatMap (quotedChar '\'') = t := by
    clear noApostrophe
    induction t with
    | nil => rfl
    | cons c cs ih =>
      obtain ⟨hp, hb, hq⟩ := h c (by simp)
      have hn : c ≠ '\n' := by rintro rfl; exact absurd hp (by decide)
      have hr : c ≠ '\r' := by rintro rfl; exact absurd hp (by decide)
      have ht : c ≠ '\t' := by rintro rfl; exact absurd hp (by decide)
      rw [List.flatMap_cons, ih fun d hd => h d (by simp [hd])]
      simp [quotedChar, hp, hb, hq, hn, hr, ht]
  simp only [quoted, noApostrophe, Bool.false_and, Bool.false_eq_true, if_false, each]

end EndpointSurvey.Text
