import Seagull.Contract.Alert
import Seagull.Foundation.Checked

/-!
# Moving an alert

Where an alert may go from where it is, and what one act on it makes of it.  An act names a state, an
assignee or both, is attributed to somebody, and may be held to the revision it was decided on.
-/

namespace Seagull.Alerts

open Contract

namespace AlertState

def closed (state : AlertState) : Bool := state = .resolved ∨ state = .falsePositive

/-- Where an alert may go.  The only way back is out of an ending. -/
def reachable : AlertState → List AlertState
  | .opened => [.acknowledged, .inInvestigation, .resolved, .falsePositive]
  | .acknowledged => [.inInvestigation, .resolved, .falsePositive]
  | .inInvestigation => [.resolved, .falsePositive]
  | .resolved => [.opened]
  | .falsePositive => [.opened]

/-- Whether a move says that an earlier decision was wrong. -/
def explains (fromState toState : AlertState) : Bool :=
  toState = .falsePositive ∨ closed fromState

end AlertState

/-- One act on an alert. -/
structure Move where
  target : Option AlertState
  assignee : Option String
  note : String
  actor : String
  instant : ℤ
  /-- The revision the act was decided on; zero acts on whatever the alert is. -/
  expected : ℕ

/-- Why an act is refused. -/
inductive MoveFailure where
  | unknown
  | noActor
  | moved (revision expected : ℕ)
  | nothingAsked
  | illegal (fromState toState : AlertState)
  | needsReason (fromState toState : AlertState)

namespace Move

def changing (move : Move) (current : Alert) : Option AlertState :=
  move.target.filter fun target => target ≠ current.state

/-- The assignee an act hands an alert to, where it names another one. -/
def reassigning (move : Move) (current : Alert) : Option String :=
  move.assignee.filter fun assignee => assignee ≠ current.assignee

def closure (move : Move) (target : AlertState) : Option Closure :=
  if AlertState.closed target then some ⟨target, move.note, move.actor, move.instant⟩ else none

/-- Hold a change of state to where an alert may go, and to a reason. -/
def legal (move : Move) (current : Alert) : Except MoveFailure Unit :=
  match move.changing current with
  | none => .ok ()
  | some target => do
      refuse (target ∉ AlertState.reachable current.state) (.illegal current.state target)
      refuse (AlertState.explains current.state target ∧ move.note = "")
        (.needsReason current.state target)

/-- What an act makes of an alert, and the line it leaves on its trail. -/
def apply (move : Move) (current : Alert) : Except MoveFailure (Alert × AlertTransition) := do
  refuse (move.actor = "") .noActor
  refuse (move.expected ≠ 0 ∧ move.expected ≠ current.revision)
    (.moved current.revision move.expected)
  let target := move.changing current
  refuse (target = none ∧ move.reassigning current = none) .nothingAsked
  move.legal current
  let moved := { current with
    revision := current.revision + 1
    changedBy := move.actor
    changedAt := move.instant
    assignee := (move.reassigning current).getD current.assignee
    state := target.getD current.state
    closure := match target with
      | some target => move.closure target
      | none => current.closure }
  return (moved, {
    alertId := moved.alertId
    revision := moved.revision
    fromState := some current.state
    toState := moved.state
    assignee := moved.assignee
    actor := move.actor
    instant := move.instant
    note := move.note })

end Move
end Seagull.Alerts
