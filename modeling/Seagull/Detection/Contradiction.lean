import Seagull.Detection.Validate
import Seagull.Detection.Written

/-!
# What a rule cannot ask

A conjunction whose questions cannot all hold never matches, and a disjunction that asks a question
and its opposite matches everything.  What of that can be told from the rule alone is refused.
-/

namespace Seagull.Detection

open Contract Text

/-- One comparison as a node asks it, with the negation that stands over it. -/
structure Asked where
  compare : Comparison
  negated : Bool

def Asked.written (platform : Platform) (question : Asked) : String :=
  if question.negated then "not " ++ question.compare.written platform
  else question.compare.written platform

mutual

def Node.directly (conjunctive : Bool) : Node → List Asked
  | .comparison compare => [⟨compare, false⟩]
  | .negation (.comparison compare) => [⟨compare, true⟩]
  | .negation _ => []
  | .conjunction terms => if conjunctive then Node.directlyAll conjunctive terms else []
  | .disjunction terms => if conjunctive then [] else Node.directlyAll conjunctive terms

/-- The comparisons a node asks directly, nested ones of its kind folded in. -/
def Node.directlyAll (conjunctive : Bool) : List Node → List Asked
  | [] => []
  | term :: terms => Node.directly conjunctive term ++ Node.directlyAll conjunctive terms

end

def ranged : Operator → Bool
  | .above | .atLeast | .below | .atMost => true
  | _ => false

/-- The values an equality still allows, and the range left open. -/
structure FieldWindow where
  /-- The values left, once something has pinned the field. -/
  allowed : Option (List Scalar)
  origin : String
  low : Float64
  high : Float64
  lowOpen : Bool
  highOpen : Bool
  bounded : String

namespace FieldWindow

/-- The window nothing has narrowed yet. -/
def whole : FieldWindow := ⟨none, "", .infinite true, .infinite false, false, false, ""⟩

/-- Keep what an equality or a list allows. -/
def allow (platform : Platform) (window : FieldWindow) (question : Asked) :
    Except String FieldWindow :=
  match window.allowed with
  | none =>
    .ok { window with
      allowed := some question.compare.literals, origin := question.written platform }
  | some allowed =>
    let kept := question.compare.literals.filter fun literal => allowed.contains literal
    if kept.isEmpty then
      .error ("asks " ++ window.origin ++ " and " ++ question.written platform ++
        ", which nothing satisfies")
    else
      .ok { window with
        allowed := some kept, origin := window.origin ++ " and " ++ question.written platform }

/-- Move an end of the range to where a comparison puts it. -/
def moved (window : FieldWindow) (operator : Operator) (against : Float64) : FieldWindow :=
  match operator with
  | .above =>
    if window.low.below against || (against.same window.low && !window.lowOpen) then
      { window with low := against, lowOpen := true }
    else window
  | .atLeast =>
    if window.low.below against then { window with low := against, lowOpen := false } else window
  | .below =>
    if against.below window.high || (against.same window.high && !window.highOpen) then
      { window with high := against, highOpen := true }
    else window
  | .atMost =>
    if against.below window.high then { window with high := against, highOpen := false }
    else window
  | _ => window

def limit (platform : Platform) (window : FieldWindow) (question : Asked) :
    Except String FieldWindow :=
  let moved := window.moved question.compare.operator (numberIn question.compare.literal)
  let bounded :=
    if window.bounded = "" then question.written platform
    else window.bounded ++ " and " ++ question.written platform
  if moved.high.below moved.low || (moved.low.same moved.high && (moved.lowOpen || moved.highOpen))
  then .error ("asks " ++ bounded ++ ", which nothing satisfies")
  else .ok { moved with bounded := bounded }

/-- Whether a value lies in the range. -/
def holds (window : FieldWindow) (literal : Scalar) : Bool :=
  let value := numberIn literal
  if value = .nan then true
  else if value.below window.low || (value.same window.low && window.lowOpen) then false
  else (value.below window.high || value.same window.high) &&
    !(value.same window.high && window.highOpen)

end FieldWindow

/-- Whether a value answers a question, where that can be told. -/
def satisfies (literal : Scalar) (question : Asked) : Bool :=
  let answer := answers literal question.compare
  if answer.2 then answer.1 != question.negated else true

/-- Whether two affirmative ends of a text exclude one another. -/
def exclude (question against : Asked) : Bool :=
  let one := question.compare.literal.printed.toList
  let other := against.compare.literal.printed.toList
  if against.negated || against.compare.operator != question.compare.operator then false
  else match question.compare.operator with
    | .startsWith => !other.isPrefixOf one && !one.isPrefixOf other
    | .endsWith => !other.isSuffixOf one && !one.isSuffixOf other
    | _ => false

/-- Two ends of a field that is not pinned exclude one another. -/
def conflicting (platform : Platform) : List Asked → Option String
  | [] => none
  | question :: rest =>
    let conflict := if question.negated then none else rest.find? (exclude question)
    match conflict with
    | some against =>
      some ("asks " ++ question.written platform ++ " and " ++ against.written platform ++
        ", which nothing satisfies")
    | none => conflicting platform rest

/-- Whether what the equality allows can answer everything else. -/
def FieldWindow.leaves (platform : Platform) (window : FieldWindow) (rest : List Asked) :
    Option String :=
  match window.allowed with
  | none => conflicting platform rest
  | some allowed =>
    if window.bounded ≠ "" ∧ allowed.any window.holds = false then
      some ("asks " ++ window.origin ++ " and " ++ window.bounded ++ ", which nothing satisfies")
    else
      (rest.find? fun question => !(allowed.any fun literal => satisfies literal question)).map
        fun question => "asks " ++ window.origin ++ " and " ++ question.written platform ++
          ", which nothing satisfies"

/-- Walk the questions asked of one field, narrowing what it may hold. -/
def emptied (platform : Platform) : FieldWindow → List Asked → List Asked → Option String
  | window, rest, [] => window.leaves platform rest.reverse
  | window, rest, question :: questions =>
    if question.compare.operator = .present then emptied platform window rest questions
    else if question.negated then emptied platform window (question :: rest) questions
    else if question.compare.operator = .equals ∨ question.compare.operator = .oneOf then
      match window.allow platform question with
      | .error reason => some reason
      | .ok narrowed => emptied platform narrowed rest questions
    else if ranged question.compare.operator then
      match window.limit platform question with
      | .error reason => some reason
      | .ok narrowed => emptied platform narrowed rest questions
    else emptied platform window (question :: rest) questions

/-- Why nothing satisfies the questions asked of one field, if nothing does. -/
def empty (platform : Platform) (questions : List Asked) : Option String :=
  emptied platform .whole [] questions

namespace Rule

/-- Refuse a question asked both ways, given the way each was asked so far. -/
def opposedFrom (platform : Platform) (rule : Rule) (part because : String) :
    List (String × Bool) → List Asked → Option Violation
  | _, [] => none
  | polarity, question :: questions =>
    let written := question.compare.written platform
    rule.refuse (polarity.lookup written = some (!question.negated)) part
      ("asks " ++ written ++ " and also that it does not, so it " ++ because) <|>
    opposedFrom platform rule part because ((written, question.negated) :: polarity) questions

def opposed (platform : Platform) (rule : Rule) (part : String) (questions : List Asked)
    (because : String) : Option Violation :=
  rule.opposedFrom platform part because [] questions

/-- Refuse questions that leave a field nothing to hold, field by field. -/
def narrowed (platform : Platform) (rule : Rule) (part : String) (questions : List Asked) :
    Option Violation :=
  let order := (questions.map fun question => question.compare.field).eraseDups
  (order.findSome? fun field =>
    empty platform (questions.filter fun question => question.compare.field == field)).map
    (rule.violation part)

mutual

def satisfiable (platform : Platform) (rule : Rule) : String → Node → Option Violation
  | part, .conjunction terms =>
    rule.opposed platform (part ++ ".all") (Node.directlyAll true terms) "can never match" <|>
    rule.narrowed platform (part ++ ".all") (Node.directlyAll true terms) <|>
    eachOf platform rule (part ++ ".all") 0 terms
  | part, .disjunction terms =>
    rule.opposed platform (part ++ ".any") (Node.directlyAll false terms)
      "matches every event" <|>
    eachOf platform rule (part ++ ".any") 0 terms
  | part, .negation term => satisfiable platform rule (part ++ ".not") term
  | _, .comparison _ => none

/-- Refuse any of the terms, counted from the given one. -/
def eachOf (platform : Platform) (rule : Rule) : String → ℕ → List Node → Option Violation
  | _, _, [] => none
  | part, index, term :: terms =>
    satisfiable platform rule (indexed part index) term <|>
    eachOf platform rule part (index + 1) terms

end

end Rule
end Seagull.Detection
