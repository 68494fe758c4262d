import Seagull.Contract.Event

/-!
# The hunt contract

The messages of `seagull.hunt.v1` that a question is asked in.
-/

namespace Seagull.Contract.HuntV1

/-- What a predicate asks; `undeclared` is an unknown number. -/
inductive Operator where
  | unspecified
  | equals
  | oneOf
  | contains
  | startsWith
  | endsWith
  | above
  | atLeast
  | below
  | atMost
  | present
  | undeclared (number : ℤ)

/-- A question about one field. -/
structure Predicate where
  field : String
  operator : Operator
  values : List String

/-- A term of a question.  `absent` is unset, and `formless` set to nothing. -/
inductive Expression where
  | absent
  | formless
  | predicate (predicate : Predicate)
  | all (terms : List Expression)
  | any (terms : List Expression)
  | negated (term : Expression)

/-- The window of a question. -/
structure TimeRange where
  start : Option Timestamp
  stop : Option Timestamp

/-- A question. -/
structure Query where
  range : Option TimeRange
  filter : Expression
  limit : ℕ
  cursor : String

end Seagull.Contract.HuntV1
