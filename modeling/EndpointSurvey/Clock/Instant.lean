/-
Instants in coordinated universal time, counted in seconds from the start of 1970, and their calendar text.

Main statements: `civil_bounds` (dates have months and days of the month) and `daysBefore_civil` (a date tells its
day).
-/
import EndpointSurvey.Text.Basic

namespace EndpointSurvey

structure Instant where
  seconds : Int
  deriving DecidableEq, Repr

namespace Instant

/-- the days from the start of 1970 to a date; years begin in March, so that the leap day ends one -/
def daysBefore (year : Int) (month day : Nat) : Int :=
  let year := if month ≤ 2 then year - 1 else year
  let era := year.fdiv 400
  let yearOfEra := year - era * 400
  let monthIndex : Nat := (month + 9) % 12
  let dayOfYear : Int := (153 * monthIndex + 2) / 5 + day - 1
  let dayOfEra := yearOfEra * 365 + yearOfEra / 4 - yearOfEra / 100 + dayOfYear
  era * 146097 + dayOfEra - 719468

/-- the year, month and day of a day counted from the start of 1970 -/
def civil (days : Int) : Int × Nat × Nat :=
  let days := days + 719468
  let era := days.fdiv 146097
  let dayOfEra := (days - era * 146097).toNat
  let yearOfEra := (dayOfEra - dayOfEra / 1460 + dayOfEra / 36524 - dayOfEra / 146096) / 365
  let dayOfYear := dayOfEra - (365 * yearOfEra + yearOfEra / 4 - yearOfEra / 100)
  let monthIndex := (5 * dayOfYear + 2) / 153
  let month := if monthIndex < 10 then monthIndex + 3 else monthIndex - 9
  let year := era * 400 + yearOfEra
  (if month ≤ 2 then year + 1 else year, month, dayOfYear - (153 * monthIndex + 2) / 5 + 1)

/-- the instant of a date and a time of day that is ahead of universal time by `offset` seconds -/
def ofCivil (year : Int) (month day hour minute second : Nat) (offset : Int) : Instant :=
  ⟨daysBefore year month day * 86400 + hour * 3600 + minute * 60 + second - offset⟩

/-- a number below 100 with two digits -/
def twoDigits (n : Nat) : Text := if n < 10 then '0' :: Text.ofNat n else Text.ofNat n

/-- the date, year first -/
def date (i : Instant) : Text :=
  let (year, month, day) := civil (i.seconds.fdiv 86400)
  Text.ofInt year ++ '-' :: twoDigits month ++ '-' :: twoDigits day

/-- the time of day in hours, minutes and seconds -/
def timeOfDay (i : Instant) : Text :=
  let second := (i.seconds.fmod 86400).toNat
  twoDigits (second / 3600) ++ ':' :: twoDigits (second / 60 % 60) ++ ':' :: twoDigits (second % 60)

/-- date and time of day, marked as universal time -/
def stamp (i : Instant) : Text := i.date ++ 'T' :: i.timeOfDay ++ ['Z']

/-! ## Days and dates

The days of an era are counted from March, so a day is told by the start of its year, the start of its month and what is
left. -/

/-- the year of an era that a day of the era lies in -/
def eraYear (day : Nat) : Nat := (day - day / 1460 + day / 36524 - day / 146096) / 365

/-- the day of an era that a year of it starts with -/
def yearStart (year : Nat) : Nat := 365 * year + year / 4 - year / 100

/-- A day that `e` centuries, `q` times four years and `j` years of an era precede lies in the year after them. -/
theorem eraYear_eq {e q u j : Nat} (e3 : e ≤ 3) (q24 : q ≤ 24) (j3 : j ≤ 3) (low : 365 * j ≤ u)
    (high : u < 365 * j + 365 ∨ j = 3 ∧ u ≤ 1460) (short : 1461 * q + u < 36524) :
    eraYear (36524 * e + (1461 * q + u)) = 100 * e + 4 * q + j := by
  have fours : (36524 * e + (1461 * q + u)) / 1460 = 25 * e + q + (24 * e + q + u) / 1460 := by omega
  have hundreds : (36524 * e + (1461 * q + u)) / 36524 = e := by omega
  have none : (36524 * e + (1461 * q + u)) / 146096 = 0 := by omega
  unfold eraYear
  rw [fours, hundreds, none]
  have days : 36524 * e + (1461 * q + u) - (25 * e + q + (24 * e + q + u) / 1460) + e - 0 =
      365 * (100 * e + 4 * q) + (u - (24 * e + q + u) / 1460) := by omega
  rw [days, Nat.mul_add_div (by decide)]
  omega

theorem yearStart_eq {e q j : Nat} (q24 : q ≤ 24) (j3 : j ≤ 3) :
    yearStart (100 * e + 4 * q + j) = 36524 * e + (1461 * q + 365 * j) := by
  unfold yearStart
  omega

/-- A day of an era lies between the start of its year and the end of it. -/
theorem eraYear_spec {day : Nat} (h : day < 146097) :
    eraYear day ≤ 399 ∧ yearStart (eraYear day) ≤ day ∧ day ≤ yearStart (eraYear day) + 365 := by
  by_cases last : day = 146096
  · subst last
    decide
  · obtain ⟨e, r, rfl, hr⟩ : ∃ e r, day = 36524 * e + r ∧ r < 36524 :=
      ⟨day / 36524, day % 36524, (Nat.div_add_mod ..).symm, Nat.mod_lt _ (by decide)⟩
    obtain ⟨q, u, rfl, hu⟩ : ∃ q u, r = 1461 * q + u ∧ u < 1461 :=
      ⟨r / 1461, r % 1461, (Nat.div_add_mod ..).symm, Nat.mod_lt _ (by decide)⟩
    obtain ⟨j, j3, low, high⟩ : ∃ j ≤ 3, 365 * j ≤ u ∧ (u < 365 * j + 365 ∨ j = 3 ∧ u ≤ 1460) :=
      ⟨min 3 (u / 365), by omega, by omega, by omega⟩
    rw [eraYear_eq (by omega) (by omega) j3 low high hr, yearStart_eq (by omega) j3]
    omega

/-- the days before a month of a year that begins in March -/
def monthStart (index : Nat) : Nat := (153 * index + 2) / 5

/-- A day of such a year lies in a month, on the 31st at most. -/
theorem month_spec {day : Nat} (h : day ≤ 365) : (5 * day + 2) / 153 ≤ 11 ∧
    monthStart ((5 * day + 2) / 153) ≤ day ∧ day ≤ monthStart ((5 * day + 2) / 153) + 30 := by
  unfold monthStart
  omega

theorem daysBefore_march (era : Int) {year index : Nat} (years : year ≤ 399) (early : index < 10) (day : Nat) :
    daysBefore (era * 400 + year) (index + 3) (day + 1) =
      era * 146097 + (yearStart year + (monthStart index + day) : Nat) - 719468 := by
  have eras : (era * 400 + year).fdiv 400 = era := by
    rw [Int.fdiv_eq_ediv_of_nonneg _ (by decide)]
    omega
  have months : (index + 3 + 9) % 12 = index := by omega
  unfold daysBefore yearStart monthStart
  rw [if_neg (show ¬ index + 3 ≤ 2 by omega)]
  dsimp only
  rw [eras, months]
  omega

theorem daysBefore_january (era : Int) {year index : Nat} (years : year ≤ 399) (late : 10 ≤ index) (last : index ≤ 11)
    (day : Nat) : daysBefore (era * 400 + year + 1) (index - 9) (day + 1) =
      era * 146097 + (yearStart year + (monthStart index + day) : Nat) - 719468 := by
  have eras : (era * 400 + year + 1 - 1).fdiv 400 = era := by
    rw [Int.fdiv_eq_ediv_of_nonneg _ (by decide)]
    omega
  have months : (index - 9 + 9) % 12 = index := by omega
  unfold daysBefore yearStart monthStart
  rw [if_pos (show index - 9 ≤ 2 by omega)]
  dsimp only
  rw [eras, months]
  omega

theorem civil_era (era : Int) {day : Nat} (h : day < 146097) : civil (era * 146097 + day - 719468) =
    let year := eraYear day
    let inside := day - yearStart year
    let index := (5 * inside + 2) / 153
    let month := if index < 10 then index + 3 else index - 9
    (if month ≤ 2 then era * 400 + year + 1 else era * 400 + year, month, inside - monthStart index + 1) := by
  have eras : (era * 146097 + day - 719468 + 719468).fdiv 146097 = era := by
    rw [Int.fdiv_eq_ediv_of_nonneg _ (by decide)]
    omega
  have place : (era * 146097 + day - 719468 + 719468 - era * 146097).toNat = day := by omega
  unfold civil
  dsimp only
  rw [eras, place]
  rfl

/-- The date of a day is the year and month that the day lies in. -/
theorem civil_spec (era : Int) {day : Nat} (h : day < 146097) : ∃ year index rest, year ≤ 399 ∧ index ≤ 11 ∧ rest ≤ 30 ∧
    day = yearStart year + (monthStart index + rest) ∧ civil (era * 146097 + day - 719468) =
      if index < 10 then (era * 400 + year, index + 3, rest + 1) else (era * 400 + year + 1, index - 9, rest + 1) := by
  obtain ⟨years, low, high⟩ := eraYear_spec h
  have date := civil_era era h
  dsimp only at date
  generalize inside_ : day - yearStart (eraYear day) = inside at date
  obtain ⟨months, start, stop⟩ := month_spec (show inside ≤ 365 by omega)
  generalize (5 * inside + 2) / 153 = index at date months start stop
  refine ⟨eraYear day, index, inside - monthStart index, years, months, by omega, by omega, ?_⟩
  rw [date]
  by_cases early : index < 10
  · rw [if_pos early, if_pos early, if_neg (by omega)]
  · rw [if_neg early, if_neg early, if_pos (by omega)]

theorem exists_era (days : Int) : ∃ (era : Int) (day : Nat), day < 146097 ∧ days = era * 146097 + day - 719468 :=
  ⟨(days + 719468) / 146097, ((days + 719468) % 146097).toNat, by omega, by omega⟩

/-- A date has one of twelve months, and a day up to the 31st. -/
theorem civil_bounds (days : Int) :
    (1 ≤ (civil days).2.1 ∧ (civil days).2.1 ≤ 12) ∧ 1 ≤ (civil days).2.2 ∧ (civil days).2.2 ≤ 31 := by
  obtain ⟨era, day, h, rfl⟩ := exists_era days
  obtain ⟨year, index, rest, -, months, short, -, date⟩ := civil_spec era h
  rw [date]
  split
  all_goals dsimp only; omega

/-- **A date tells its day**: the days before the date of a day are those that the day counts. -/
theorem daysBefore_civil (days : Int) : daysBefore (civil days).1 (civil days).2.1 (civil days).2.2 = days := by
  obtain ⟨era, day, h, rfl⟩ := exists_era days
  obtain ⟨year, index, rest, years, months, -, parts, date⟩ := civil_spec era h
  rw [date]
  split
  · next early => rw [daysBefore_march era years early, ← parts]
  · next late => rw [daysBefore_january era years (Nat.not_lt.1 late) months, ← parts]

example : date ⟨0⟩ = "1970-01-01".toList := by decide

/-! ## Reading -/

def number? (t : Text) : Option Nat :=
  if !t.isEmpty && t.all Char.isDigit then some (t.foldl (fun n c => n * 10 + (c.toNat - 48)) 0) else none

/-- an offset such as `+05:30`, in seconds -/
def offset? (t : Text) : Option Int := do
  let (negative, rest) ← match t with
    | '+' :: rest => some (false, rest)
    | '-' :: rest => some (true, rest)
    | _ => none
  let parts ← (Text.splitOn ':' rest).mapM number?
  match parts with
  | hours :: minutes :: _ =>
    let size : Int := hours * 3600 + minutes * 60
    some (if negative then -size else size)
  | _ => none

/-- an instant such as `2024-01-02T03:04:05.25+00:00`; parts of seconds are dropped -/
def ofText? (t : Text) : Option Instant := do
  let (day, time) ← Text.splitFirst? ['T'] t
  let dateParts ← (Text.splitOn '-' day).mapM number?
  let clock := time.takeWhile fun c => c != '+' && c != '-'
  let offset ← offset? (time.drop clock.length)
  let timeParts ← (Text.splitOn ':' (Text.beforeFirst '.' clock)).mapM number?
  match dateParts, timeParts with
  | [year, month, day], [hour, minute, second] => some (ofCivil year month day hour minute second offset)
  | _, _ => none

end Instant

end EndpointSurvey
