import Seagull.Foundation.Text

/-!
# Addresses

The texts `netip.ParseAddr` reads: four decimal numbers, or eight hexadecimal groups of which a row
of zeros may be left out and the last two may be written as four decimal numbers, and behind them a
zone.
-/

namespace Seagull.Address

open Text

/-- What is left of four decimal numbers, behind some of them. -/
def isDotted : List Char → (value digits whole : ℕ) → Bool
  | [], _, digits, whole => digits ≠ 0 && whole = 3
  | letter :: rest, value, digits, whole =>
    if isDigit letter then
      !(digits = 1 && value = 0) && value * 10 + (letter.toNat - '0'.toNat) ≤ 255 &&
        isDotted rest (value * 10 + (letter.toNat - '0'.toNat)) (digits + 1) whole
    else letter = '.' && digits ≠ 0 && whole ≠ 3 && isDotted rest 0 0 (whole + 1)

def isHex (letter : Char) : Bool :=
  isDigit letter || ('a' ≤ letter && letter ≤ 'f') || ('A' ≤ letter && letter ≤ 'F')

/-- What is left of the groups of an address, and whether zeros were left out. -/
def isGroups : (left : ℕ) → List Char → (elided : Bool) → Bool
  | 0, _, _ => false
  | left + 1, letters, elided =>
    let digits := (letters.takeWhile isHex).length
    if digits = 0 ∨ 4 < digits then false
    else match letters.dropWhile isHex with
      | [] => elided = decide (left ≠ 0)
      | '.' :: _ => left ≠ 0 && elided = decide (left ≠ 1) && isDotted letters 0 0 0
      | [':'] => false
      | [':', ':'] => !elided && left ≠ 0
      | ':' :: ':' :: rest => !elided && isGroups left rest true
      | ':' :: rest => isGroups left rest elided
      | _ => false

/-- An address in hexadecimal groups, with a zone if there is one. -/
def isGrouped (letters : List Char) : Bool :=
  letters.dropWhile (· ≠ '%') ≠ ['%'] &&
    match letters.takeWhile (· ≠ '%') with
    | [':', ':'] => true
    | ':' :: ':' :: rest => isGroups 8 rest true
    | address => isGroups 8 address false

/-- Whether `netip.ParseAddr` reads a text. -/
def isAddress (text : String) : Bool :=
  match text.toList.find? (· ∈ ['.', ':', '%']) with
  | some '.' => isDotted text.toList 0 0 0
  | some ':' => isGrouped text.toList
  | _ => false

example : isAddress "fe80::1%eth0" && isAddress "::ffff:10.0.0.1" && isAddress "10.0.0.1" &&
    !isAddress "fe80::1%" && !isAddress "10.0.0.01" && !isAddress "1:2:3:4:5:6:7::8" := by
  decide +kernel

end Seagull.Address
