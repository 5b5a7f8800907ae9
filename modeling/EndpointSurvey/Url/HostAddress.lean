/-
Numeric host addresses: four decimal octets, or eight groups of hexadecimal digits of which one run may be left out and
the last two be written as octets.

Main statement: `octets?_four` (an accepted address has four octets).
-/
import EndpointSurvey.Text.Basic

namespace EndpointSurvey.Url

/-- a decimal octet: no more than three digits, no leading zero -/
def octet? (t : Text) : Option Nat :=
  if t.isEmpty || !t.all Char.isDigit || 3 < t.length || (t.head? = some '0' && 1 < t.length) then none
  else
    let n := t.foldl (fun n c => n * 10 + (c.toNat - 48)) 0
    if n < 256 then some n else none

/-- the octets of an address of the short kind -/
def octets? (t : Text) : Option (List Nat) :=
  match Text.splitOn '.' t with
  | [a, b, c, d] => do
    let a ← octet? a
    let b ← octet? b
    let c ← octet? c
    let d ← octet? d
    some [a, b, c, d]
  | _ => none

theorem octets?_four {t : Text} {octets : List Nat} (h : octets? t = some octets) : octets.length = 4 := by
  unfold octets? at h
  split at h
  · simp only [bind, Option.bind_eq_some_iff] at h
    obtain ⟨_, _, _, _, _, _, _, _, h⟩ := h
    cases h
    rfl
  · cases h

def hexGroup (t : Text) : Bool :=
  !t.isEmpty && t.length ≤ 4 && t.all fun c => c.isDigit || ('a' ≤ c && c ≤ 'f') || ('A' ≤ c && c ≤ 'F')

/-- the groups of an address of the long kind, octets at its end counted as two groups -/
def withoutOctets? (groups : List Text) : Option (List Text) :=
  match groups.getLast? with
  | some last =>
    if last.elem '.' then (octets? last).map fun _ => groups.dropLast ++ [['0'], ['0']] else some groups
  | none => none

/-- is the list of what stands between colons an address of the long kind? An empty group inside stands for the groups
left out; at an end it may stand only beside such a one. -/
def groupsFit (groups : List Text) : Bool :=
  let inner := (groups.drop 1).dropLast
  let gaps := inner.filter (·.isEmpty)
  if groups.length < 3 || 9 < groups.length then false
  else match gaps with
    | [] => groups.length == 8 && groups.all hexGroup
    | [_] =>
      let before := groups.take (inner.takeWhile (!·.isEmpty)).length.succ
      let after := groups.drop ((inner.takeWhile (!·.isEmpty)).length + 2)
      let high := if before = [[]] then [] else before
      let low := if after = [[]] then [] else after
      high.all hexGroup && low.all hexGroup && high.length + low.length < 8
    | _ => false

/-- is the text an address of the long kind? It may name a zone after a percent sign. -/
def longAddress (t : Text) : Bool :=
  let address := Text.beforeFirst '%' t
  let zone := t.drop (address.length + 1)
  let zoned := address.length = t.length || (!zone.isEmpty && !zone.elem '%')
  zoned && match withoutOctets? (Text.splitOn ':' address) with
    | some groups => 3 ≤ (Text.splitOn ':' address).length && groupsFit groups
    | none => false

end EndpointSurvey.Url
