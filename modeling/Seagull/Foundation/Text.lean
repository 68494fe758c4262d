import Mathlib.Data.List.DropRight
import Mathlib.Data.String.Basic
import Mathlib.Tactic

/-!
# Text

The pieces of Go's `strings`, `unicode` and `time` that texts are checked and written with.
-/

namespace Seagull

namespace Text

/-- `unicode.IsSpace`. -/
def isSpace (letter : Char) : Bool :=
  letter ∈ ['\t', '\n', '\x0b', '\x0c', '\r', ' ', '\u0085', '\u00a0', '\u1680', '\u2028',
    '\u2029', '\u202f', '\u205f', '\u3000'] ||
    ('\u2000' ≤ letter && letter ≤ '\u200a')

def trimmed (letters : List Char) : List Char := (letters.dropWhile isSpace).rdropWhile isSpace

/-- `strings.TrimSpace`. -/
def trimSpace (text : String) : String := String.ofList (trimmed text.toList)

def isBlank (text : String) : Bool := trimSpace text == ""

def indexed (part : String) (index : ℕ) : String := part ++ "[" ++ toString index ++ "]"

def isDigit (letter : Char) : Bool := '0' ≤ letter && letter ≤ '9'

def isLower (letter : Char) : Bool := 'a' ≤ letter && letter ≤ 'z'

def isAlphanumeric (letter : Char) : Bool :=
  isLower letter || ('A' ≤ letter && letter ≤ 'Z') || isDigit letter

/-- A letter or a digit, and up to 63 more or marks: `^[A-Za-z0-9][A-Za-z0-9…]{0,63}$`. -/
def isName (marks : List Char) (text : String) : Bool :=
  match text.toList with
  | [] => false
  | first :: rest =>
    isAlphanumeric first && rest.length ≤ 63 &&
      rest.all fun letter => isAlphanumeric letter || letter ∈ marks

end Text

namespace Duration

/-- The fraction of a number without its last zeros, before what is written; and the number without
it. -/
def fmtFrac : ℕ → ℕ → Bool → List Char → List Char × ℕ
  | 0, number, printed, behind => (if printed then '.' :: behind else behind, number)
  | precision + 1, number, printed, behind =>
    let printed := printed || number % 10 != 0
    fmtFrac precision (number / 10) printed
      (if printed then Nat.digitChar (number % 10) :: behind else behind)

/-- A number before what is already written. -/
def fmtInt (number : ℕ) (behind : List Char) : List Char := Nat.toDigits 10 number ++ behind

/-- The letters of a duration that is not negative, in nanoseconds. -/
def format (nanoseconds : ℕ) : List Char :=
  if nanoseconds < 1000000000 then
    if nanoseconds = 0 then ['0', 's']
    else if nanoseconds < 1000 then fmtInt nanoseconds ['n', 's']
    else if nanoseconds < 1000000 then
      let split := fmtFrac 3 nanoseconds false ['µ', 's']
      fmtInt split.2 split.1
    else
      let split := fmtFrac 6 nanoseconds false ['m', 's']
      fmtInt split.2 split.1
  else
    let split := fmtFrac 9 nanoseconds false ['s']
    let seconds := fmtInt (split.2 % 60) split.1
    let minutes := split.2 / 60
    if 0 < minutes then
      let written := fmtInt (minutes % 60) ('m' :: seconds)
      let hours := minutes / 60
      if 0 < hours then fmtInt hours ('h' :: written) else written
    else
      seconds

/-- `Duration.String`. -/
def written (duration : ℤ) : String :=
  if duration < 0 then String.ofList ('-' :: format duration.natAbs)
  else String.ofList (format duration.natAbs)

example : written (90 * 60000000000 + 1500000000) = "1h30m1.5s" := by decide +kernel

end Duration
end Seagull
