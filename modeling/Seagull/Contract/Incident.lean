import Mathlib.Data.String.Basic
import Seagull.Contract.Detection

/-!
# The incident contract

The messages of `seagull.incident.v1` as the platform keeps and lists them.  A timestamp stands as the
instant it names and a duration as its nanoseconds.
-/

namespace Seagull.Contract

/-- The states an incident passes through. -/
inductive IncidentState where
  | opened
  | acknowledged
  | inInvestigation
  | resolved
  | falsePositive
  deriving DecidableEq

/-- How far the platform vouches for the order a story rests on. -/
inductive Confidence where
  | unspecified
  | low
  | medium
  | high
  | undeclared (number : ℤ)
  deriving DecidableEq

/-- Why and by whom an incident was closed. -/
structure IncidentClosure where
  state : IncidentState
  reason : String
  closedBy : String
  closedAt : Option ℤ

/-- An incident: the story a detection told, and what became of it since. -/
structure Incident where
  incidentId : String
  schemaVersion : ℕ
  tenantId : String
  detectionId : String
  rule : DetectionV1.Rule
  rulesetId : String
  severity : DetectionV1.Severity
  confidence : Confidence
  technique : Option DetectionV1.Technique
  eventClass : EventClass
  agentId : String
  stages : List DetectionV1.Stage
  group : List DetectionV1.Grouping
  window : ℤ
  clockSpread : ℤ
  firstEventTime : ℤ
  lastEventTime : ℤ
  raisedAt : ℤ
  state : IncidentState
  assignee : String
  changedBy : String
  changedAt : ℤ
  revision : ℕ
  closure : Option IncidentClosure

end Seagull.Contract
