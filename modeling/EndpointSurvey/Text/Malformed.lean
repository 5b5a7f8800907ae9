/-
Reading bytes that have to be well-formed UTF-8: the first bytes that are not stand in the way, and are named with their
offset. Bytes are read as a whole or a piece at a time; then the offset counts within the piece, and the start of a
character that a piece breaks off is carried over to the next one.

Main statements: `faultFrom?_ascii` and `pieceFault?_ascii` (bytes below 128 have no fault, however they are read).
-/
import EndpointSurvey.Text.Quoted
import EndpointSurvey.Text.Utf8

namespace EndpointSurvey.Utf8

/-- why bytes stand for no character -/
inductive Flaw where
  /-- no character starts with the byte -/
  | badStart
  /-- the byte after them does not continue the character -/
  | badContinuation
  /-- the bytes end within the character -/
  | cutOff
  deriving DecidableEq, Repr

def Flaw.message : Flaw → Text
  | badStart => "invalid start byte"
  | badContinuation => "invalid continuation byte"
  | cutOff => "unexpected end of data"

/-- the first bytes that stand for no character, and where they start -/
structure Fault where
  flaw : Flaw
  first : UInt8
  /-- how many further bytes belong to the fault -/
  further : Nat
  offset : Nat
  deriving DecidableEq, Repr

def Fault.message (f : Fault) : Text :=
  let place := if f.further = 0 then " 0x" ++ Text.hexPadded 2 f.first.toNat ++ " in position " ++ Text.ofNat f.offset
    else "s in position " ++ Text.ofNat f.offset ++ '-' :: Text.ofNat (f.offset + f.further)
  "'utf-8' codec can't decode byte" ++ place ++ ": " ++ f.flaw.message

/-- how many bytes follow the first one of a character -/
def tailLength? (a : UInt8) : Option Nat :=
  if a < 0x80 then some 0
  else if 0xC2 ≤ a && a ≤ 0xDF then some 1
  else if 0xE0 ≤ a && a ≤ 0xEF then some 2
  else if 0xF0 ≤ a && a ≤ 0xF4 then some 3
  else none

/-- how many of the bytes after the first one continue its character -/
def fitting (a : UInt8) : List UInt8 → Nat
  | [] => 0
  | b :: rest => if second a b then 1 + (rest.takeWhile continues).length else 0

/-- the first fault of bytes that start at an offset -/
def faultFrom? (offset : Nat) : List UInt8 → Option Fault
  | [] => none
  | a :: rest =>
    match tailLength? a with
    | none => some ⟨.badStart, a, 0, offset⟩
    | some length =>
      let found := fitting a (rest.take length)
      if found = length then faultFrom? (offset + 1 + length) (rest.drop length)
      else some ⟨if found = rest.length then .cutOff else .badContinuation, a, found, offset⟩
  termination_by bytes => bytes.length
  decreasing_by
    rw [List.length_drop, List.length_cons]
    omega

theorem faultFrom?_ascii (bytes : List UInt8) (h : ∀ b ∈ bytes, b < 0x80) (offset : Nat) :
    faultFrom? offset bytes = none := by
  induction bytes generalizing offset with
  | nil => simp [faultFrom?]
  | cons a rest ih =>
    have tail : tailLength? a = some 0 := by simp [tailLength?, h a (by simp)]
    rw [faultFrom?, tail]
    simpa [fitting] using ih (fun b hb => h b (by simp [hb])) (offset + 1)

/-- how many bytes a piece has -/
def pieceSize : Nat := 8192

/-- the first fault of bytes that are read a piece at a time, with what the piece before them has left over -/
def pieceFault? (carried bytes : List UInt8) : Option Fault :=
  if bytes.isEmpty then faultFrom? 0 carried
  else
    let piece := carried ++ bytes.take pieceSize
    match faultFrom? 0 piece with
    | none => pieceFault? [] (bytes.drop pieceSize)
    | some fault =>
      if fault.flaw = .cutOff then pieceFault? (piece.drop fault.offset) (bytes.drop pieceSize) else some fault
  termination_by bytes.length
  decreasing_by
    all_goals
      rw [List.length_drop]
      have := List.length_pos_iff.2 (by simpa using ‹¬bytes.isEmpty = true›)
      simp only [pieceSize]
      omega

theorem pieceFault?_ascii (bytes : List UInt8) (h : ∀ b ∈ bytes, b < 0x80) : pieceFault? [] bytes = none := by
  rw [pieceFault?]
  split
  · simp [faultFrom?]
  · next some =>
    have := List.length_pos_iff.2 (by simpa using some)
    have piece := faultFrom?_ascii (bytes.take pieceSize) (fun b hb => h b (List.mem_of_mem_take hb)) 0
    simpa [piece] using pieceFault?_ascii (bytes.drop pieceSize) fun b hb => h b (List.mem_of_mem_drop hb)
  termination_by bytes.length
  decreasing_by
    rw [List.length_drop]
    simp only [pieceSize]
    omega

/-- the text of bytes in which no fault has been found -/
def textUnless (fault : Option Fault) (bytes : List UInt8) : Except Fault Text :=
  match fault with
  | some fault => .error fault
  | none => .ok (decode bytes)

/-- the text of bytes that are read as a whole -/
def ofBytes? (bytes : List UInt8) : Except Fault Text := textUnless (faultFrom? 0 bytes) bytes

/-- the text of bytes that are read a piece at a time -/
def ofPieces? (bytes : List UInt8) : Except Fault Text := textUnless (pieceFault? [] bytes) bytes

end EndpointSurvey.Utf8
