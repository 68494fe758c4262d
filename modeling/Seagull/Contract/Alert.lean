import Mathlib.Data.String.Basic
import Seagull.Contract.Detection

/-!
# The alert contract

The messages of `seagull.alert.v1` as the platform keeps and lists them.  A timestamp stands as the
instant it names, and a message that can be unset is an `Option`.
-/

namespace Seagull.Contract

/-- The states an alert passes through. -/
inductive AlertState where
  | opened
  | acknowledged
  | inInvestigation
  | resolved
  | falsePositive
  deriving DecidableEq

/-- Why and by whom an alert was closed. -/
structure Closure where
  state : AlertState
  reason : String
  closedBy : String
  closedAt : ℤ

/-- An alert: the detection it was raised for, and what became of it since. -/
structure Alert where
  alertId : String
  schemaVersion : ℕ
  tenantId : String
  detectionId : String
  rule : Option DetectionV1.Rule
  severity : DetectionV1.Severity
  technique : Option DetectionV1.Technique
  eventClass : EventClass
  agentId : String
  eventTime : Option ℤ
  raisedAt : ℤ
  state : AlertState
  assignee : String
  changedBy : String
  changedAt : ℤ
  revision : ℕ
  closure : Option Closure
  correlationKey : String
  occurrences : ℕ
  firstSeen : ℤ
  lastSeen : ℤ

def Alert.ruleId (alert : Alert) : String := (alert.rule.map DetectionV1.Rule.id).getD ""

/-- One line of the trail of an alert. -/
structure AlertTransition where
  alertId : String
  revision : ℕ
  fromState : Option AlertState
  toState : AlertState
  assignee : String
  actor : String
  instant : ℤ
  note : String

end Seagull.Contract
