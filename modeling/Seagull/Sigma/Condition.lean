import Seagull.Foundation.Wildcard
import Seagull.Sigma.Question

/-!
# Sigma conditions

A condition puts selections together with `not`, `and`, `or`, brackets and quantifiers, and may
count behind a pipe.  It is read by recursive descent.  The depth is counted as the source counts
it: one more behind a `not`, inside a bracket and on every term of a row but the first.
-/

namespace Seagull.Sigma

open Detection Text

/-- A word that ends here, before what is behind it. -/
def flush (built : List Char) (tokens : List String) : List String :=
  if built = [] then tokens else String.ofList built :: tokens

def tokensFrom : (built : List Char) → List Char → List String
  | built, [] => flush built []
  | built, letter :: rest =>
    if letter ∈ [' ', '\t', '\n', '\r'] then flush built (tokensFrom [] rest)
    else if letter ∈ ['(', ')', '|', ','] then
      flush built (String.ofList [letter] :: tokensFrom [] rest)
    else if letter ∈ ['>', '<', '=', '!'] then
      match rest with
      | '=' :: behind => flush built (String.ofList [letter, '='] :: tokensFrom [] behind)
      | rest => flush built (String.ofList [letter] :: tokensFrom [] rest)
    else tokensFrom (built ++ [letter]) rest

def tokensOf (condition : String) : List String := tokensFrom [] condition.toList

/-- `strings.EqualFold` against a keyword; none has a letter that folds beyond ASCII. -/
def equalFold (token keyword : String) : Bool :=
  token.toList.map Char.toLower == keyword.toList.map Char.toLower

def globs (pattern name : String) : Bool :=
  match pattern.toList.splitOn '*' with
  | [] | [_] => pattern == name
  | first :: parts =>
    first.isPrefixOf name.toList && Wildcard.inOrder parts (name.toList.drop first.length)

/-- The selections of a detection, in the order they are written. -/
abbrev Selections := List (String × Expression)

def Selections.names (selections : Selections) : List String := selections.map Prod.fst

/-- The tokens a parser has not read, and the selections it named. -/
structure Reading where
  tokens : List String
  used : List String

namespace Reading

def peek (reading : Reading) : String := reading.tokens.headD ""

def next (reading : Reading) : Reading := { reading with tokens := reading.tokens.tail }

def use (reading : Reading) (names : List String) : Reading :=
  { reading with used := names ++ reading.used }

end Reading

/-- A part of a parser. -/
abbrev Parses (α : Type) := Reading → Except Fault (α × Reading)

def refuseCondition (reason : String) : Fault := ⟨"detection.condition", reason⟩

def tooDeep : Fault :=
  refuseCondition ("nests deeper than " ++ toString maxDepth ++
    ", which is deeper than a condition anybody can read")

/-- The terms of a row behind its first, of which there are no more than tokens. -/
def gatherRest (joiner : String) (read : Parses Expression) : ℕ → Parses (List Expression)
  | 0, reading => .ok ([], reading)
  | left + 1, reading =>
    if equalFold reading.peek joiner then do
      let (term, reading) ← read reading.next
      let (terms, reading) ← gatherRest joiner read left reading
      return (term :: terms, reading)
    else .ok ([], reading)

def gather (joiner : String) (first following : Parses Expression) : Parses (List Expression) :=
  fun reading => do
    let (term, reading) ← first reading
    let (terms, reading) ← gatherRest joiner following reading.tokens.length reading
    return (term :: terms, reading)

def collapse (join : List Expression → Expression) : List Expression → Expression
  | [term] => term
  | terms => join terms

section

variable (platform : Platform) (selections : Selections)

def matching (target : String) (reading : Reading) : Except Fault (List Expression × Reading) :=
  if equalFold target "them" then
    .ok (selections.map Prod.snd, reading.use selections.names)
  else match selections.filter (fun selection => globs target selection.1) with
    | [] => .error (refuseCondition ("names " ++ quoted platform target ++
        ", which matches none of " ++ String.intercalate ", " selections.names))
    | matched => .ok (matched.map Prod.snd, reading.use (matched.map Prod.fst))

/-- How many selections have to hold: `1 of them`, `any of them`, `all of them`. -/
def quantified : Parses Expression := fun reading => do
  let quantity := reading.peek
  let target := reading.next.next.peek
  refuse (target = "") (refuseCondition ("says " ++ quoted platform quantity ++ " of nothing"))
  let (matched, reading) ← matching platform selections target reading.next.next.next
  if equalFold quantity "all" then
    return (collapse .all matched, reading)
  else if quantity = "1" ∨ equalFold quantity "any" then
    return (collapse .any matched, reading)
  else .error (refuseCondition ("says " ++ quoted platform quantity ++ " of " ++
    quoted platform target ++ ", and this reads 1, any and all: how many of several terms held is " ++
    "not a question the rule language asks"))

def named (token : String) (reading : Reading) : Except Fault (Expression × Reading) :=
  match selections.lookup token with
  | none => .error (refuseCondition ("names " ++ quoted platform token ++
      ", which is not one of " ++ String.intercalate ", " selections.names))
  | some term => .ok (term, reading.use [token])

/-- Whether the token behind the next is `of`. -/
def Reading.quantifies (reading : Reading) : Bool :=
  match reading.tokens with
  | _ :: second :: _ => equalFold second "of"
  | _ => false

-- The three readers call each other, so each call is given one less of a number that starts out
-- larger than the calls the depth leaves room for.
mutual

/-- Terms joined by `or`. -/
def expressionWithin : (fuel : ℕ) → (depth : ℕ) → Parses Expression
  | 0, _ => fun _ => .error tooDeep
  | fuel + 1, depth => fun reading =>
    if maxDepth < depth then .error tooDeep
    else do
      let (terms, reading) ← gather "or" (conjunctionWithin fuel depth)
        (conjunctionWithin fuel (depth + 1)) reading
      return (collapse .any terms, reading)

/-- Terms joined by `and`. -/
def conjunctionWithin : (fuel : ℕ) → (depth : ℕ) → Parses Expression
  | 0, _ => fun _ => .error tooDeep
  | fuel + 1, depth => fun reading => do
      let (terms, reading) ← gather "and" (factorWithin fuel depth)
        (factorWithin fuel (depth + 1)) reading
      return (collapse .all terms, reading)

/-- A term: `not` a term, a condition in brackets, a quantifier or a selection. -/
def factorWithin : (fuel : ℕ) → (depth : ℕ) → Parses Expression
  | 0, _ => fun _ => .error tooDeep
  | fuel + 1, depth => fun reading =>
    if maxDepth < depth then .error tooDeep
    else if reading.peek = "" then
      .error (refuseCondition "ends where it needs a selection")
    else if equalFold reading.peek "not" then do
      let (term, reading) ← factorWithin fuel (depth + 1) reading.next
      return (.not term, reading)
    else if reading.peek = "(" then do
      let (term, reading) ← expressionWithin fuel (depth + 1) reading.next
      refuse (reading.peek ≠ ")") (refuseCondition "opens a bracket it never closes")
      return (term, reading.next)
    else if reading.quantifies then quantified platform selections reading
    else named platform selections reading.peek reading.next

end

/-- Three calls for each depth that is not too deep, and one more. -/
def fuelAt (depth : ℕ) : ℕ := 3 * (maxDepth + 2 - depth)

/-- The condition a parser stands before, at a depth. -/
def expression (depth : ℕ) : Parses Expression :=
  expressionWithin platform selections (fuelAt depth) depth

def grouped (name : String) (reading : Reading) : Except Fault (List Field) :=
  match taxonomy.lookup name with
  | none => .error (refuseCondition ("groups its count by " ++ quoted platform name ++
      ", which this build does not translate: it reads " ++ fieldsNamed))
  | some held =>
    if reading.peek = "," then
      .error (refuseCondition ("groups its count by more than one field, and Sigma groups by " ++
        "one: " ++ quoted platform reading.next.peek ++ " is written after it"))
    else .ok [held.field]

def groupedBy : Parses (List Field) := fun reading =>
  if equalFold reading.peek "by" then do
    let fields ← grouped platform reading.next.peek reading.next.next
    return (fields, reading.next.next)
  else .ok ([], reading)

/-- The smallest count that satisfies a comparison, as computed in 64 bits. -/
def atLeastOf (comparison : String) (threshold : ℤ) : Except Fault ℤ :=
  if comparison = ">" then .ok ((threshold + 1).bmod (2 ^ 64))
  else if comparison = ">=" then .ok threshold
  else .error (refuseCondition ("asks for a count " ++ comparison ++ " " ++ toString threshold ++
    ", and a rule here fires when a window holds at least so many: fewer than a threshold is not " ++
    "something a window can answer"))

def aggregation (reading : Reading) : Except Fault Count := do
  refuse (reading.peek ≠ "|") (refuseCondition "does not read as a condition")
  let reading := reading.next
  refuse (equalFold reading.peek "count" = false)
    (refuseCondition ("aggregates with " ++ quoted platform reading.peek ++
      ", and this translates count() alone"))
  let reading := reading.next
  refuse (reading.peek ≠ "(") (refuseCondition "aggregates with a count that opens no bracket")
  let reading := reading.next
  refuse (reading.peek ≠ ")")
    (refuseCondition ("counts distinct " ++ reading.peek ++
      ", and the rule language counts events rather than the values they carried"))
  let (fields, reading) ← groupedBy platform reading.next
  match Decimal.parseInt reading.next.peek.toList with
  | none => .error (refuseCondition
      "compares its count against something that is not a whole number")
  | some threshold =>
    let atLeast ← atLeastOf reading.peek threshold
    let left := reading.next.next.peek
    refuse (left ≠ "")
      (refuseCondition ("carries " ++ quoted platform left ++ " after its aggregation"))
    return ⟨atLeast, 0, fields⟩

end

end Seagull.Sigma
