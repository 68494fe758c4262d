import Seagull.Foundation.Text

/-!
# The version a release is named by

A semantic version with a leading `v`, ordered by semantic version precedence: by its three numbers,
then a release before none of its own prereleases, then prerelease identifiers one by one.  Build
metadata orders nothing.
-/

namespace Seagull.AgentUpdate

def maxVersionLength : ℕ := 128

/-- A version, as far as it is ordered, and the text it was written as. -/
structure Version where
  major : ℕ
  minor : ℕ
  patch : ℕ
  prerelease : List (List Char)
  text : String
  deriving DecidableEq

/-- What stands before the first separator, and behind it if one stands. -/
def cut (separator : Char) (letters : List Char) : List Char × Option (List Char) :=
  match letters.dropWhile (· ≠ separator) with
  | [] => (letters, none)
  | _ :: behind => (letters.takeWhile (· ≠ separator), some behind)

/-- A number of 64 bits, written without a leading zero. -/
def numeric (part : List Char) : Option ℕ :=
  if part = [] ∨ (1 < part.length ∧ part.head? = some '0') ∨ ¬ part.all Text.isDigit then none
  else
    let number := part.foldl (fun number digit => 10 * number + (digit.toNat - '0'.toNat)) 0
    if number < 2 ^ 64 then some number else none

/-- Identifiers between dots; where they order, none of digits has a leading zero. -/
def identifiers (dotted : List Char) (ordered : Bool) : Bool :=
  (dotted.splitOn '.').all fun identifier =>
    !identifier.isEmpty && identifier.all (fun letter => Text.isAlphanumeric letter || letter == '-') &&
      !(ordered && 1 < identifier.length && identifier.head? == some '0' &&
        identifier.all Text.isDigit)

def parseVersion (text : String) : Option Version :=
  if maxVersionLength < text.utf8ByteSize then none
  else
    match text.toList with
    | 'v' :: letters =>
      let (rest, build) := cut '+' letters
      let (core, prerelease) := cut '-' rest
      if build.any (fun named => !identifiers named false) ||
          prerelease.any (fun named => !identifiers named true) then none
      else
        match (core.splitOn '.').map numeric with
        | [some major, some minor, some patch] =>
          some ⟨major, minor, patch, (prerelease.map (·.splitOn '.')).getD [], text⟩
        | _ => none
    | _ => none

/-- Numbers by value and before any other identifier. -/
def compareIdentifiers (left right : List Char) : Ordering :=
  match numeric left, numeric right with
  | some left, some right => compare left right
  | some _, none => .lt
  | none, some _ => .gt
  | none, none => compare (String.ofList left) (String.ofList right)

def comparePrereleases : List (List Char) → List (List Char) → Ordering
  | [], [] => .eq
  | [], _ :: _ => .lt
  | _ :: _, [] => .gt
  | left :: lefts, right :: rights =>
    (compareIdentifiers left right).then (comparePrereleases lefts rights)

def Version.compare (version other : Version) : Ordering :=
  (Ord.compare version.major other.major).then <|
    (Ord.compare version.minor other.minor).then <|
      (Ord.compare version.patch other.patch).then <|
        match version.prerelease, other.prerelease with
        | [], [] => .eq
        | [], _ => .gt
        | _, [] => .lt
        | prerelease, others => comparePrereleases prerelease others

example : (parseVersion "v1.2.3-rc.1+linux").map (fun version =>
    (version.major, version.minor, version.patch, version.prerelease)) =
      some (1, 2, 3, [['r', 'c'], ['1']]) := by decide +kernel

end Seagull.AgentUpdate
