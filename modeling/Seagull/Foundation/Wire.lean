import Mathlib.Tactic

/-!
# The size of an encoded message

How many bytes a protobuf message encodes to, field by field.  A field costs its tag and its
payload; a scalar that is zero is not written.
-/

namespace Seagull.Wire

/-- `bits.Len64`. -/
def bitLength (number : ℕ) : ℕ := if number = 0 then 0 else number.log2 + 1

/-- `protowire.SizeVarint`. -/
def varintSize (number : ℕ) : ℕ := (9 * bitLength number + 64) / 64

/-- A payload behind its tag and its length. -/
def delimited (tag size : ℕ) : ℕ := tag + varintSize size + size

def textSize (tag : ℕ) (text : String) : ℕ :=
  if text = "" then 0 else delimited tag text.utf8ByteSize

def truthSize (tag : ℕ) (truth : Bool) : ℕ := if truth then tag + 1 else 0

def numberSize (tag number : ℕ) : ℕ := if number = 0 then 0 else tag + varintSize number

/-- A number that may be negative, which is written in 64 bits. -/
def integerSize (tag : ℕ) (number : ℤ) : ℕ := numberSize tag (number % 2 ^ 64).toNat

def messageSize (tag : ℕ) : Option ℕ → ℕ
  | none => 0
  | some size => delimited tag size

/-- Payloads one after another, each behind the tag. -/
def repeatedSize (tag : ℕ) (sizes : List ℕ) : ℕ := (sizes.map (delimited tag)).sum

end Seagull.Wire
