import Seagull.Contract.Alert
import Seagull.Foundation.Checked

/-!
# Raising an alert

The alert a detection would raise, the key it folds on and the two windows the store compares it
against, in event time.  An alert is named by the detection that raised it.
-/

namespace Seagull.Alerts

open Contract DetectionV1

/-- Who an alert is raised by. -/
def platform : String := "platform"

def schemaVersion : ℕ := 1

/-- Why a detection raises nothing. -/
inductive RaiseFailure where
  | unnamed
  | noTenant

def happened (made : Detection) (fallback : ℤ) : ℤ :=
  (made.eventTime.map Timestamp.asTime).getD fallback

def tenantOf (made : Detection) : String := (made.origin.map Origin.tenantId).getD ""

def raise (made : Detection) (instant : ℤ) : Except RaiseFailure Alert := do
  refuse (made.detectionId = "") .unnamed
  refuse (tenantOf made = "") .noTenant
  return {
    alertId := made.detectionId
    schemaVersion := schemaVersion
    tenantId := tenantOf made
    detectionId := made.detectionId
    rule := made.rule
    severity := made.severity
    technique := made.technique
    eventClass := made.eventClass
    agentId := (made.origin.map Origin.agentId).getD ""
    eventTime := made.eventTime.map Timestamp.asTime
    raisedAt := instant
    state := .opened
    assignee := ""
    changedBy := platform
    changedAt := instant
    revision := 1
    closure := none
    correlationKey := ""
    occurrences := 1
    firstSeen := happened made instant
    lastSeen := happened made instant }

/-- The first line of the trail of an alert. -/
def raised (alert : Alert) : AlertTransition where
  alertId := alert.alertId
  revision := alert.revision
  fromState := none
  toState := alert.state
  assignee := ""
  actor := platform
  instant := alert.raisedAt
  note := "raised by " ++ alert.ruleId

/-- How the alerts of one rule are folded: their key, window and cooldown. -/
structure Fold where
  correlationKey : Detection → String
  window : ℤ
  cooldown : ℤ

/-- One detection, ready for the store. -/
structure Candidate where
  alert : Alert
  detectionId : String
  key : String
  instant : ℤ
  window : ℤ
  cooldown : ℤ
  named : alert.alertId = detectionId
  /-- The alert is made of the one detection, and of when it happened. -/
  alone : alert.occurrences = 1 ∧ alert.firstSeen = instant ∧ alert.lastSeen = instant
  isOpen : alert.state = .opened ∧ alert.closure = none

theorem raise_ok {made : Detection} {instant : ℤ} {alert : Alert}
    (raises : raise made instant = .ok alert) :
    alert.alertId = made.detectionId ∧
      (alert.occurrences = 1 ∧ alert.firstSeen = happened made instant ∧
        alert.lastSeen = happened made instant) ∧
      alert.state = .opened ∧ alert.closure = none := by
  simp only [raise, passes_eq_ok, pure_eq_ok] at raises
  obtain ⟨-, -, rfl⟩ := raises
  exact ⟨rfl, ⟨rfl, rfl, rfl⟩, rfl, rfl⟩

def consider (made : Detection) (fold : Fold) (instant : ℤ) : Except RaiseFailure Candidate :=
  match raises : raise made instant with
  | .error failure => .error failure
  | .ok alert => .ok {
      alert := { alert with correlationKey := fold.correlationKey made }
      detectionId := made.detectionId
      key := fold.correlationKey made
      instant := happened made instant
      window := fold.window
      cooldown := fold.cooldown
      named := (raise_ok raises).1
      alone := (raise_ok raises).2.1
      isOpen := (raise_ok raises).2.2 }

/-- A detection, folded over an hour and held back for another. -/
def sighting (id : String) (instant : ℤ) : Candidate where
  alert := {
    alertId := id
    schemaVersion := schemaVersion
    tenantId := "acme"
    detectionId := id
    rule := some ⟨"brute-force", 1, "Brute force", none⟩
    severity := .high
    technique := none
    eventClass := .authentication
    agentId := "sensor-1"
    eventTime := some instant
    raisedAt := 0
    state := .opened
    assignee := ""
    changedBy := platform
    changedAt := 0
    revision := 1
    closure := none
    correlationKey := "brute-force on sensor-1"
    occurrences := 1
    firstSeen := instant
    lastSeen := instant }
  detectionId := id
  key := "brute-force on sensor-1"
  instant := instant
  window := Duration.hour
  cooldown := Duration.hour
  named := rfl
  alone := ⟨rfl, rfl, rfl⟩
  isOpen := ⟨rfl, rfl⟩

end Seagull.Alerts
