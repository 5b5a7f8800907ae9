/-
Whole numbers as settings write them: blanks around, a sign, decimal digits of any script, single underscores between
digits; leading zeros are fine. There is a limit to the digits that are read.

Main statement: `read?_ofNat` (a number's own digits are read as that number, if there are not too many).
-/
import EndpointSurvey.Text.Blank
import EndpointSurvey.Text.WordChar

namespace EndpointSurvey.Integer

/-- digits with single underscores between them, after `value` has been read -/
def digitsFrom? (value : Nat) : Text → Option Nat
  | [] => some value
  | '_' :: c :: cs => (digitValue? c).bind fun d => digitsFrom? (value * 10 + d) cs
  | c :: cs => (digitValue? c).bind fun d => digitsFrom? (value * 10 + d) cs

/-- a non-empty run of digits -/
def digits? : Text → Option Nat
  | [] => none
  | c :: cs => (digitValue? c).bind fun d => digitsFrom? d cs

/-- is there a minus sign in front, and what follows the sign? -/
def afterSign (t : Text) : Bool × Text :=
  match t.trim with
  | '-' :: cs => (true, cs)
  | '+' :: cs => (false, cs)
  | cs => (false, cs)

/-- how many digits may write a number -/
def digitLimit : Nat := 4300

/-- how many digits the number in front has, if they are too many -/
def excess? (t : Text) : Option Nat :=
  let run := (afterSign t).2.takeWhile fun c => c == '_' || (digitValue? c).isSome
  let count := (run.filter (· != '_')).length
  if digitLimit < count && (digits? run).isSome then some count else none

/-- the number that a text writes, if it writes one -/
def read? (t : Text) : Option Int :=
  let (negative, digits) := afterSign t
  if (excess? t).isSome then none
  else (digits? digits).map fun n => if negative then -(n : Int) else n

/-! ## Numbers that are written in digits -/

theorem not_blank_of_isDigit {c : Char} (h : c.isDigit = true) : blank c = false := by
  have := isDigit_bounds h
  rw [Bool.eq_false_iff]
  simp only [blank, ne_eq, Bool.or_eq_true, Bool.and_eq_true, beq_iff_eq, decide_eq_true_eq]
  omega

theorem digitsFrom?_of_digits {t : Text} (digits : ∀ c ∈ t, c.isDigit = true) (value : Nat) :
    digitsFrom? value t = some (Nat.ofDigitChars 10 t value) := by
  induction t generalizing value with
  | nil => rfl
  | cons c cs ih =>
    obtain ⟨digit, others⟩ := List.forall_mem_cons.1 digits
    rw [digitsFrom?, digitValue?_of_isDigit digit, Option.bind_some, ih others, Nat.mul_comm]
    · rfl
    · rintro _ _ rfl
      cases digit

theorem digits?_ofNat (n : Nat) : digits? (Text.ofNat n) = some n := by
  have digits : ∀ c ∈ Text.ofNat n, c.isDigit = true := fun c => Text.isDigit_of_mem_ofNat
  have value : Nat.ofDigitChars 10 (Text.ofNat n) 0 = n := Nat.ofDigitChars_toDigits (by decide) (by decide)
  cases e : Text.ofNat n with
  | nil => exact absurd e Nat.toDigits_ne_nil
  | cons c cs =>
    rw [e] at digits value
    obtain ⟨digit, others⟩ := List.forall_mem_cons.1 digits
    rw [digits?, digitValue?_of_isDigit digit, Option.bind_some, digitsFrom?_of_digits others, ← value]
    simp [Nat.ofDigitChars]

/-- **A number's own digits are read as that number**, if there are not too many. -/
theorem read?_ofNat {n : Nat} (few : (Text.ofNat n).length ≤ digitLimit) : read? (Text.ofNat n) = some (n : Int) := by
  have digits : ∀ c ∈ Text.ofNat n, c.isDigit = true := fun c => Text.isDigit_of_mem_ofNat
  have sign : afterSign (Text.ofNat n) = (false, Text.ofNat n) := by
    rw [afterSign, Text.trim_of_solid fun c hc => not_blank_of_isDigit (digits c hc)]
    split
    · next e => exact absurd (digits '-' (by rw [e]; exact List.mem_cons_self)) (by decide)
    · next e => exact absurd (digits '+' (by rw [e]; exact List.mem_cons_self)) (by decide)
    · rfl
  have within : excess? (Text.ofNat n) = none := by
    have run : (((Text.ofNat n).takeWhile fun c => c == '_' || (digitValue? c).isSome).filter (· != '_')).Sublist
        (Text.ofNat n) := List.filter_sublist.trans (List.takeWhile_sublist _)
    have count := Nat.le_trans run.length_le few
    rw [excess?, sign]
    dsimp only
    rw [decide_eq_false (Nat.not_lt.2 count), Bool.false_and, if_neg Bool.false_ne_true]
  rw [read?, sign]
  simp [within, digits?_ofNat]

end EndpointSurvey.Integer
