import Mathlib.Data.String.Basic
import Seagull.Contract.Event

/-!
# The agent contract

The messages of `seagull.agent.v1` the registry and the data plane exchange.  As in the event
contract, a message that can be unset is an `Option`.
-/

namespace Seagull.Contract

/-- The states an agent passes through. -/
inductive AgentState where
  | pending
  | active
  | disabled
  | revoked
  | decommissioned
  deriving DecidableEq

/-- A state as it travels. -/
inductive WireState where
  | unspecified
  | named (state : AgentState)
  | undeclared (number : ℤ)
  deriving DecidableEq

/-- The machine an agent runs on, as it was declared. -/
structure AgentPlatform where
  os : String
  architecture : String
  hostname : String
  deriving DecidableEq

/-- The certificate an agent authenticates with. -/
structure Identity where
  subject : String
  serial : String
  fingerprintSha256 : String
  issuedAt : Option Timestamp
  expiresAt : Option Timestamp
  deriving DecidableEq

/-- What is asked to register an agent. -/
structure Registration where
  agentId : String
  tenantId : String
  platform : Option AgentPlatform
  agentVersion : String
  note : String

/-- A registered agent. -/
structure Agent where
  agentId : String
  schemaVersion : ℕ
  tenantId : String
  state : WireState
  platform : Option AgentPlatform
  agentVersion : String
  identity : Option Identity
  registeredAt : Timestamp
  changedBy : String
  changedAt : Timestamp
  /-- How many decisions the registry made about the agent. -/
  revision : ℕ
  deriving DecidableEq

/-- One line of the trail of an agent. -/
structure Transition where
  agentId : String
  revision : ℕ
  fromState : WireState
  toState : WireState
  actor : String
  instant : Timestamp
  note : String

/-- What the data plane is told of an agent. -/
structure Admission where
  agentId : String
  tenantId : String
  state : WireState
  revision : ℕ
  changedAt : Timestamp
  deriving DecidableEq

end Seagull.Contract
