import Mathlib.Data.String.Basic
import Seagull.Contract.Event

/-!
# The update contract

The messages of `seagull.update.v1` a rollout is asked for and kept as, and what `seagull.agent.v1`
says of the release an agent runs.  As in the event contract, a message that can be unset is an
`Option`.
-/

namespace Seagull.Contract

/-- One wave of a rollout: the agents it names, or the share it opens to. -/
structure Wave where
  agentIds : List String
  percent : ℕ
  /-- How long the wave runs before the next one opens on its own; unset, an operator opens it. -/
  soak : Option Span
  /-- How many agents run the release before the next wave opens on its own. -/
  running : ℕ
  deriving DecidableEq

/-- What is asked to roll a release out. -/
structure Rollout where
  tenantId : String
  version : String
  /-- The agents it may move; none names every agent of the tenant. -/
  agentIds : List String
  waves : List Wave
  failures : ℕ
  note : String

/-- Where a rollout stands. -/
inductive RolloutState where
  | active
  | paused
  | aborted
  | superseded
  deriving DecidableEq

/-- What the platform last read of the agents a rollout reached. -/
structure RolloutProgress where
  evaluatedAt : Timestamp
  agents : ℕ
  reached : ℕ
  pinned : ℕ
  running : ℕ
  failed : ℕ
  acknowledged : ℕ
  ineligible : ℕ
  pending : ℕ
  deriving DecidableEq

/-- A rollout as it stands. -/
structure RolloutRecord where
  rolloutId : String
  rollout : Rollout
  state : RolloutState
  wave : ℕ
  waveOpenedAt : Timestamp
  createdBy : String
  createdAt : Timestamp
  changedBy : String
  changedAt : Timestamp
  reason : String
  progress : Option RolloutProgress

/-- What an operator asks of a rollout. -/
inductive RolloutAction where
  | unspecified
  | pause
  | resume
  | advance
  | abort
  /-- A number the contract does not declare. -/
  | undeclared (number : ℤ)

/-- A change an operator asks for. -/
structure RolloutChange where
  tenantId : String
  rolloutId : String
  action : RolloutAction
  note : String

/-- How a release is packaged. -/
inductive Format where
  | unspecified
  | deb
  /-- A number the contract does not declare. -/
  | undeclared (number : ℤ)
  deriving DecidableEq

/-- A release of the catalog, as far as it says who may install it. -/
structure Release where
  version : String
  os : String
  architecture : String
  format : Format
  stateGeneration : ℕ
  minimumVersion : String
  replaces : List String

/-- The build an agent runs. -/
structure Build where
  version : String
  os : String
  architecture : String

/-- How far an agent got with an update. -/
inductive UpdateStage where
  | rolledBack
  | failed
  /-- A stage no rollout reads. -/
  | other (number : ℤ)

/-- Why an agent did not take an update. -/
inductive UpdateFailure where
  | unverified
  | installation
  | unhealthy
  | refused
  /-- A failure no rollout reads. -/
  | other (number : ℤ)

/-- The update an agent last tried. -/
structure Update where
  version : String
  stage : UpdateStage
  failure : UpdateFailure

/-- How an agent takes updates. -/
structure Updates where
  enabled : Bool
  format : Format
  stateGeneration : ℕ

/-- What an agent says it is compatible with. -/
structure Compatibility where
  updates : Option Updates

/-- What an agent reports of itself. -/
structure Status where
  build : Option Build
  update : Option Update
  compatibility : Option Compatibility

end Seagull.Contract
