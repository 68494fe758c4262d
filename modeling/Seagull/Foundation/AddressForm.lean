import Seagull.Foundation.Address

/-!
# The one form of an address

What `netip.ParseAddr` makes of a text, and the text `Addr.String` makes of an address again.  An
address has many texts and one form, and reading the form gives the address back.
-/

namespace Seagull.Address

open Text

/-- What `netip.ParseAddr` makes: four octets, or eight groups and a zone. -/
inductive Addr where
  | v4 (octets : List ℕ)
  | v6 (groups : List ℕ) (zone : List Char)

/-- The numbers of what `isDotted` takes. -/
def readDotted : List Char → (value digits whole : ℕ) → Option (List ℕ)
  | [], value, digits, whole => if digits ≠ 0 ∧ whole = 3 then some [value] else none
  | letter :: rest, value, digits, whole =>
    if isDigit letter then
      if digits = 1 ∧ value = 0 ∨ 255 < value * 10 + (letter.toNat - '0'.toNat) then none
      else readDotted rest (value * 10 + (letter.toNat - '0'.toNat)) (digits + 1) whole
    else if letter = '.' ∧ digits ≠ 0 ∧ whole ≠ 3 then
      (readDotted rest 0 0 (whole + 1)).map (value :: ·)
    else none

def hexDigit (letter : Char) : ℕ :=
  if isDigit letter then letter.toNat - '0'.toNat
  else if 'a' ≤ letter then letter.toNat - 'a'.toNat + 10
  else letter.toNat - 'A'.toNat + 10

def hexValue (letters : List Char) : ℕ :=
  letters.foldl (fun value letter => value * 16 + hexDigit letter) 0

/-- Four octets as two groups. -/
def paired : List ℕ → List ℕ
  | [first, second, third, fourth] => [first * 256 + second, third * 256 + fourth]
  | _ => []

/-- Groups on the side of the row of zeros they stand on. -/
def beside (elided : Bool) (groups : List ℕ) (read : List ℕ × List ℕ) : List ℕ × List ℕ :=
  if elided then (read.1, groups ++ read.2) else (groups ++ read.1, read.2)

/-- The groups of what `isGroups` takes, before and behind the zeros left out. -/
def readGroups : (left : ℕ) → List Char → (elided : Bool) → Option (List ℕ × List ℕ)
  | 0, _, _ => none
  | left + 1, letters, elided =>
    let digits := letters.takeWhile isHex
    let group := hexValue digits
    if digits.length = 0 ∨ 4 < digits.length then none
    else match letters.dropWhile isHex with
      | [] => if elided = decide (left ≠ 0) then some (beside elided [group] ([], [])) else none
      | '.' :: _ =>
        if left ≠ 0 && elided = decide (left ≠ 1) then
          (readDotted letters 0 0 0).map fun octets => beside elided (paired octets) ([], [])
        else none
      | [':'] => none
      | [':', ':'] => if !elided && left ≠ 0 then some ([group], []) else none
      | ':' :: ':' :: rest =>
        if elided then none else (readGroups left rest true).map (beside false [group])
      | ':' :: rest => (readGroups left rest elided).map (beside elided [group])
      | _ => none

/-- The eight groups, with the row of zeros that was left out. -/
def filled (read : List ℕ × List ℕ) : List ℕ :=
  read.1 ++ List.replicate (8 - read.1.length - read.2.length) 0 ++ read.2

/-- The groups of what `isGrouped` takes, without its zone. -/
def readAddress : List Char → Option (List ℕ)
  | [':', ':'] => some (filled ([], []))
  | ':' :: ':' :: rest => (readGroups 8 rest true).map filled
  | address => (readGroups 8 address false).map filled

/-- The address of what `isGrouped` takes. -/
def readGrouped (letters : List Char) : Option Addr :=
  if letters.dropWhile (· ≠ '%') = ['%'] then none
  else (readAddress (letters.takeWhile (· ≠ '%'))).map
    (.v6 · (letters.dropWhile (· ≠ '%')).tail)

/-- `netip.ParseAddr`. -/
def parse (letters : List Char) : Option Addr :=
  match letters.find? (· ∈ ['.', ':', '%']) with
  | some '.' => (readDotted letters 0 0 0).map .v4
  | some ':' => readGrouped letters
  | _ => none

/-- `Addr.Unmap`: a mapped address is the one of the fourth version. -/
def Addr.unmap : Addr → Addr
  | .v6 [0, 0, 0, 0, 0, 0xffff, high, low] _ =>
    .v4 [high / 256, high % 256, low / 256, low % 256]
  | address => address

def zeros (groups : List ℕ) : ℕ := (groups.takeWhile (· = 0)).length

/-- Where the first of the longest rows of zeros starts, and its length. -/
def longestRow (groups : List ℕ) : ℕ × ℕ :=
  (List.range groups.length).foldl
    (fun best start =>
      if 2 ≤ zeros (groups.drop start) ∧ best.2 < zeros (groups.drop start) then
        (start, zeros (groups.drop start))
      else best)
    (0, 0)

def joined (groups : List ℕ) : List Char :=
  List.intercalate [':'] (groups.map (Nat.toDigits 16))

def written (groups : List ℕ) : List Char :=
  if (longestRow groups).2 = 0 then joined groups
  else
    joined (groups.take (longestRow groups).1) ++ [':', ':'] ++
      joined (groups.drop ((longestRow groups).1 + (longestRow groups).2))

/-- `Addr.String` of an address that is not mapped. -/
def Addr.form : Addr → List Char
  | .v4 octets => List.intercalate ['.'] (octets.map (Nat.toDigits 10))
  | .v6 groups [] => written groups
  | .v6 groups zone => written groups ++ '%' :: zone

example : (parse "::ffff:10.0.0.5".toList).map (·.unmap.form) = some "10.0.0.5".toList ∧
    (parse "2001:0DB8::0001".toList).map (·.unmap.form) = some "2001:db8::1".toList ∧
    (parse "1::3:4:5:6:7:8%Eth0".toList).map (·.unmap.form) =
      some "1:0:3:4:5:6:7:8%Eth0".toList := by
  decide +kernel

end Seagull.Address
