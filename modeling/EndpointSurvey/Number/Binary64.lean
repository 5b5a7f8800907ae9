/-
Binary floating-point numbers of 64 bits as exact values: a sign, a whole mantissa and a power of two, the infinities
and the undefined number. Ratios and decimals are rounded to the nearest such number, a half to the even mantissa, and a
number is written with the fewest decimal digits that are read back as it.

Main statements: `roundDiv_bounds` (rounding a quotient moves it by at most half a unit) and `writes_back` (the digits
chosen for a number are read back as it, when any of seventeen lengths is).
-/
import EndpointSurvey.Text.Basic

namespace EndpointSurvey

/-- `finite negative m e` is the number ± m · 2^e -/
inductive Binary64 where
  | finite (negative : Bool) (mantissa : Nat) (exponent : Int)
  | infinite (negative : Bool)
  | undefined
  deriving DecidableEq, Repr

namespace Binary64

/-- the quotient rounded to the nearest whole number, a half to the even one -/
def roundDiv (num den : Nat) : Nat :=
  let q := num / den
  let r := num % den
  if 2 * r < den then q else if 2 * r = den then (if q % 2 = 0 then q else q + 1) else q + 1

/-- Rounding a quotient moves it by at most half a unit. -/
theorem roundDiv_bounds (num den : Nat) (h : 0 < den) :
    2 * (roundDiv num den * den) ≤ 2 * num + den ∧ 2 * num ≤ 2 * (roundDiv num den * den) + den := by
  have split := Nat.div_add_mod num den
  have small := Nat.mod_lt num h
  have comm : den * (num / den) = num / den * den := Nat.mul_comm _ _
  have next : (num / den + 1) * den = num / den * den + den := by rw [Nat.add_mul, Nat.one_mul]
  unfold roundDiv
  simp only
  split
  · omega
  · split
    · split <;> omega
    · omega

/-- the two sides of a ratio scaled by a power of two: `num / den` counted in units of 2^e -/
def scaled (num den : Nat) (e : Int) : Nat × Nat :=
  if 0 ≤ e then (num, den * Nat.pow 2 e.toNat) else (num * Nat.pow 2 (-e).toNat, den)

/-- the exponent for which a ratio has a mantissa of 53 binary digits, no less than the smallest there is -/
def exponentFor (num den : Nat) : Int :=
  let guess : Int := (Nat.log2 num : Int) - (Nat.log2 den : Int) - 52
  let fits := fun (e : Int) => let (n, d) := scaled num den e; n / d < Nat.pow 2 53
  max (-1074) (if fits (guess - 1) then guess - 1 else if fits guess then guess else guess + 1)

/-- the number nearest to a ratio of whole numbers -/
def ofRatio (negative : Bool) (num den : Nat) : Binary64 :=
  if num = 0 then .finite negative 0 (-1074)
  else
    let e := exponentFor num den
    let (n, d) := scaled num den e
    let m := roundDiv n d
    let (m, e) := if m = Nat.pow 2 53 then (Nat.pow 2 52, e + 1) else (m, e)
    if e > 971 then .infinite negative else .finite negative m e

/-- the number nearest to `digits` · 10^exponent -/
def ofDecimal (negative : Bool) (digits : Nat) (exponent : Int) : Binary64 :=
  let size := (Nat.toDigits 10 digits).length
  if digits = 0 then .finite negative 0 (-1074)
  else if exponent + size > 400 then .infinite negative
  else if exponent + size < -400 then .finite negative 0 (-1074)
  else if 0 ≤ exponent then ofRatio negative (digits * Nat.pow 10 exponent.toNat) 1
  else ofRatio negative digits (Nat.pow 10 (-exponent).toNat)

/-- the size of m · 2^e as a ratio of whole numbers -/
def ratio (m : Nat) (e : Int) : Nat × Nat :=
  if 0 ≤ e then (m * Nat.pow 2 e.toNat, 1) else (m, Nat.pow 2 (-e).toNat)

/-- is the number less than the ratio `num / den`? -/
def ltRatio (v : Binary64) (num den : Nat) : Bool :=
  match v with
  | .finite true m _ => 0 < m || 0 < num
  | .finite false m e => let (n, d) := ratio m e; n * den < num * d
  | .infinite negative => negative
  | .undefined => false

/-- decimal digits and their power of ten -/
structure Decimal where
  digits : Nat
  exponent : Int
  deriving DecidableEq, Repr

/-- the power of ten of the first digit of a ratio: 10^p ≤ num / den < 10^(p+1) -/
def leadingPower (num den : Nat) : Int :=
  let guess : Int := ((Nat.toDigits 10 num).length : Int) - (Nat.toDigits 10 den).length
  let reaches := fun (p : Int) => if 0 ≤ p then den * Nat.pow 10 p.toNat ≤ num else den ≤ num * Nat.pow 10 (-p).toNat
  if reaches guess then guess else guess - 1

/-- the ratio counted in units of 10^p -/
def inUnits (num den : Nat) (p : Int) : Nat × Nat :=
  if 0 ≤ p then (num, den * Nat.pow 10 p.toNat) else (num * Nat.pow 10 (-p).toNat, den)

/-- of the two decimals with `count` digits around m · 2^e the nearer one that is read back as it -/
def withDigits? (m : Nat) (e : Int) (count : Nat) : Option Decimal :=
  let (num, den) := ratio m e
  let p := leadingPower num den - (count : Int) + 1
  let (n, d) := inUnits num den p
  let near := roundDiv n d
  let far := if near = n / d then near + 1 else n / d
  ([near, far].find? fun c => ofDecimal false c p == .finite false m e).map (⟨·, p⟩)

/-- the fewest digits that are read back as m · 2^e -/
def shortest (m : Nat) (e : Int) : Decimal :=
  ((List.range' 1 17).findSome? (withDigits? m e)).getD ⟨m, e⟩

theorem withDigits?_back {m : Nat} {e : Int} {count : Nat} {d : Decimal} (h : withDigits? m e count = some d) :
    ofDecimal false d.digits d.exponent = .finite false m e := by
  obtain ⟨c, hc, rfl⟩ := Option.map_eq_some_iff.1 h
  simpa using List.find?_some hc

theorem writes_back {m : Nat} {e : Int} (h : ∃ count ∈ List.range' 1 17, (withDigits? m e count).isSome) :
    ofDecimal false (shortest m e).digits (shortest m e).exponent = .finite false m e := by
  obtain ⟨count, hc, hs⟩ := h
  unfold shortest
  cases hf : (List.range' 1 17).findSome? (withDigits? m e) with
  | none =>
    rw [List.findSome?_eq_none_iff] at hf
    simp [hf count hc] at hs
  | some d =>
    obtain ⟨c, _, hd⟩ := List.exists_of_findSome?_eq_some hf
    exact withDigits?_back hd

/-- How a number is written: positional while the power of ten of its first digit lies between `lowest` and `highest`,
else with an exponent of at least `exponentWidth` digits; a whole number keeps `.0`. -/
structure Layout where
  lowest : Int
  highest : Int
  exponentWidth : Nat

/-- the layout of every number the survey prints: positional from 10^-4 up to below 10^16, exponents of two digits -/
def layout : Layout := ⟨-4, 15, 2⟩

/-- drops zeros at the end of the digits -/
def trimZeros (digits : Text) : Text :=
  match Text.dropEnd (· == '0') digits with
  | [] => "0"
  | kept => kept

/-- the digits of a positive decimal in a layout -/
def Layout.write (l : Layout) (d : Decimal) : Text :=
  let all := Text.ofNat d.digits
  let power : Int := d.exponent + all.length - 1
  let digits := trimZeros all
  if l.lowest ≤ power ∧ power ≤ l.highest then
    if power < 0 then "0." ++ List.replicate ((-power).toNat - 1) '0' ++ digits
    else
      let whole := power.toNat + 1
      if digits.length ≤ whole then digits ++ List.replicate (whole - digits.length) '0' ++ ".0"
      else digits.take whole ++ "." ++ digits.drop whole
  else
    let front := match digits with
      | c :: [] => [c]
      | c :: cs => c :: '.' :: cs
      | [] => "0"
    let size := Text.ofNat power.natAbs
    front ++ (if power < 0 then "e-" else "e+") ++ List.replicate (l.exponentWidth - size.length) '0' ++ size

def sign (negative : Bool) : Text := if negative then ['-'] else []

/-- a number written with the fewest digits that are read back as it; `special` names the infinity and the undefined -/
def write (special : Text × Text) : Binary64 → Text
  | .finite negative m e =>
    sign negative ++ (if m = 0 then ['0', '.', '0'] else layout.write (shortest m e))
  | .infinite negative => sign negative ++ special.1
  | .undefined => special.2

/-- a ratio written with a fixed number of places, a half going to the even digit -/
def fixedRatio (places num den : Nat) : Text :=
  let units := Text.ofNat (roundDiv (num * Nat.pow 10 places) den)
  let filled := List.replicate (places + 1 - units.length) '0' ++ units
  filled.take (filled.length - places) ++ (if places = 0 then [] else '.' :: filled.drop (filled.length - places))

end Binary64

end EndpointSurvey
