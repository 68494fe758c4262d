import Mathlib.Data.String.Basic
import Seagull.Contract.Detection
import Seagull.Detection.Rule
import Seagull.Foundation.FiniteMap

/-!
# The ruleset contract

The messages of `seagull.ruleset.v1` a published ruleset and its activations are written as.  A
message whose absence is asked for is an `Option`; where an unset message reads as an empty one, the
empty one stands for both.
-/

namespace Seagull.RulesetV1

open Contract

/-- Where a rule is in its life. -/
inductive Status where
  | unspecified
  | draft
  | active
  | disabled
  | deprecated
  /-- A number the contract does not declare. -/
  | undeclared (number : ℤ)

/-- What a case expects a rule to say. -/
inductive Expectation where
  | unspecified
  | matching
  | noMatch
  /-- A number the contract does not declare. -/
  | undeclared (number : ℤ)

/-- A literal of a rule. -/
inductive Value where
  | unset
  | text (text : String)
  | number (number : Detection.Float64)
  | truth (truth : Bool)

/-- What a rule matches with.  An unset one and one without a term read alike. -/
inductive Expression where
  | unset
  | predicate (field operator : String) (values : List Value)
  | all (terms : List Expression)
  | any (terms : List Expression)
  | negated (term : Expression)

/-- How many matching events, sharing what, inside what window. -/
structure Count where
  /-- A 32-bit number. -/
  atLeast : ℕ
  within : Option Span
  groupBy : List String

/-- One stage of a sequence. -/
structure Stage where
  name : String
  asks : Expression

/-- Stages satisfied in the order they are written, inside one window. -/
structure Sequence where
  within : Option Span
  stages : List Stage
  groupBy : List String

/-- One event a rule was written to be sure about. -/
structure Case where
  name : String
  description : String
  expect : Expectation
  event : FiniteMap String Value
  evidence : List String
  severity : DetectionV1.Severity

/-- A rule. -/
structure Rule where
  id : String
  /-- A 32-bit number. -/
  revision : ℕ
  name : String
  description : String
  eventClass : EventClass
  asks : Option Expression
  sequence : Option Sequence
  severity : DetectionV1.Severity
  status : Status
  technique : Option DetectionV1.Technique
  falsePositives : String
  response : String
  source : Option DetectionV1.Source
  tags : List String
  references : List String
  count : Option Count
  cases : List Case

/-- A published ruleset. -/
structure Version where
  id : String
  publishedBy : String
  publishedAt : Option Timestamp
  note : String
  rules : List (Option Rule)

/-- Which ruleset is meant to be running, and who said so. -/
structure Active where
  rulesetId : String
  activatedBy : String
  activatedAt : Option Timestamp
  note : String
  deriving DecidableEq

/-- A record of the ruleset log. -/
inductive Record where
  | version (version : Option Version)
  | active (active : Active)
  | unset

end Seagull.RulesetV1
