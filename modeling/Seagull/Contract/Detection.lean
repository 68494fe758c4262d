import Seagull.Contract.Event

/-!
# The detection contract

The messages of `seagull.detection.v1` as the platform writes and reads them.  As in the event
contract, a message that can be unset is an `Option` and a scalar has no presence of its own.  A
repeated field holds messages, never an unset one.
-/

namespace Seagull.DetectionV1

open Contract

/-- How severe a detection is. -/
inductive Severity where
  | unspecified
  | low
  | medium
  | high
  | critical
  | undeclared (number : ℤ)
  deriving DecidableEq

/-- A severity the way a person says it; nothing where unspecified. -/
def severityName : Severity → String
  | .unspecified => ""
  | .low => "low"
  | .medium => "medium"
  | .high => "high"
  | .critical => "critical"
  | .undeclared number => toString number

/-- A class the way a person says it; nothing where unspecified. -/
def eventClassName : EventClass → String
  | .unspecified => ""
  | .authentication => "authentication"
  | .undeclared number => toString number

/-- Where a rule came from. -/
structure Source where
  catalogue : String
  identifier : String
  deriving DecidableEq

/-- The rule a detection is of. -/
structure Rule where
  id : String
  /-- A 32-bit number. -/
  revision : ℕ
  name : String
  source : Option Source
  deriving DecidableEq

/-- Where the rule sits in ATT&CK. -/
structure Technique where
  tactic : String
  id : String
  name : String
  deriving DecidableEq

/-- One question the rule asked, and what the event answered. -/
structure Evidence where
  field : String
  operator : String
  negated : Bool
  held : String
  absent : Bool
  deriving DecidableEq

/-- One field the rule groups by. -/
structure Grouping where
  field : String
  value : String
  absent : Bool
  deriving DecidableEq

/-- The window of a counting rule. -/
structure Aggregation where
  /-- A 32-bit number. -/
  count : ℕ
  /-- A 32-bit number. -/
  threshold : ℕ
  window : Option Span
  firstEventTime : Option Timestamp
  group : List Grouping
  saturated : Bool
  deriving DecidableEq

/-- One stage of a story. -/
structure Stage where
  name : String
  eventId : String
  eventTime : Option Timestamp
  agentId : String
  deriving DecidableEq

/-- The story of a sequence. -/
structure Correlation where
  stages : List Stage
  window : Option Span
  group : List Grouping
  clockSpread : Option Span
  deriving DecidableEq

/-- A detection. -/
structure Detection where
  detectionId : String
  /-- A 32-bit number. -/
  schemaVersion : ℕ
  rule : Option Rule
  rulesetId : String
  severity : Severity
  technique : Option Technique
  eventClass : EventClass
  origin : Option Origin
  sourceEventIds : List String
  eventTime : Option Timestamp
  detectedTime : Option Timestamp
  evidence : List Evidence
  aggregation : Option Aggregation
  correlation : Option Correlation
  deriving DecidableEq

end Seagull.DetectionV1
