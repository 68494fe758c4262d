import Mathlib.Tactic

/-!
# Numbers of a variable length

Go's `binary.AppendUvarint` and `binary.Uvarint`: seven bits a byte, the lowest first, and a bit that
says whether more bytes follow.  No number has more than ten of them.
-/

namespace Seagull.Varint

/-- `binary.AppendUvarint` of a number, with a bound on its length. -/
def appendWithin : ℕ → ℕ → List UInt8
  | 0, _ => []
  | length + 1, number =>
    if number < 128 then [UInt8.ofNat number]
    else UInt8.ofNat (number % 128 + 128) :: appendWithin length (number / 128)

/-- `binary.AppendUvarint` of a number to nothing. -/
def append (number : ℕ) : List UInt8 := appendWithin 10 number

/-- The number that bytes start with, from an index in it, and the bytes behind. -/
def readFrom : ℕ → List UInt8 → Option (ℕ × List UInt8)
  | _, [] => none
  | index, byte :: behind =>
    if index = 10 then none
    else if byte.toNat < 128 then
      if index = 9 ∧ 1 < byte.toNat then none else some (byte.toNat, behind)
    else (readFrom (index + 1) behind).map fun (number, rest) =>
      (byte.toNat % 128 + 128 * number, rest)

/-- `binary.Uvarint`. -/
def read (bytes : List UInt8) : Option (ℕ × List UInt8) := readFrom 0 bytes

end Seagull.Varint
