import Seagull.Contract.Agent
import Seagull.Event.Limits
import Seagull.Foundation.Checked

/-!
# What the platform decides about an agent

The states an agent passes through, which moves between them are legal, what is asked of a
registration and of a certificate identity, and the one operation that changes a registered agent.
-/

namespace Seagull.Agent

open Contract

namespace State

def written : AgentState → String
  | .pending => "pending"
  | .active => "active"
  | .disabled => "disabled"
  | .revoked => "revoked"
  | .decommissioned => "decommissioned"

def all : List AgentState := [.pending, .active, .disabled, .revoked, .decommissioned]

def named (text : String) : Option AgentState := all.find? fun state => written state = text

def valid (text : String) : Bool := (named text).isSome

/-- An ending has no way back. -/
def final : AgentState → Bool
  | .revoked | .decommissioned => true
  | _ => false

/-- Whether telemetry carrying the agent's identity is still taken. -/
def admits : AgentState → Bool
  | .pending | .active => true
  | _ => false

def reachable : AgentState → List AgentState
  | .pending => [.disabled, .revoked, .decommissioned]
  | .active => [.disabled, .revoked, .decommissioned]
  | .disabled => [.active, .revoked, .decommissioned]
  | .revoked | .decommissioned => []

def legal (current target : AgentState) : Bool := target ∈ reachable current

/-- The state a message carries, if this build knows it. -/
def fromWire : WireState → Option AgentState
  | .named state => some state
  | _ => none

theorem named_written (state : AgentState) : named (written state) = some state := by
  cases state <;> decide +kernel

theorem written_of_named {text : String} {state : AgentState} (names : named text = some state) :
    written state = text := by
  simpa using List.find?_some names

end State

/-- Why the registry refuses. -/
inductive Failure where
  | noActor
  | unusableAgent (agentId : String)
  | noTenant
  | unusableTenant (tenantId : String)
  | tooLong (field : String) (maximum : ℕ)
  /-- The stored agent is in no state this build knows. -/
  | unknownStored (state : WireState)
  | moved (revision expected : ℕ)
  | unknownState (target : String)
  | nothingAsked
  | takesNoIdentity (current : AgentState)
  | doesNotRenew (current : AgentState)
  | certificateReplaced
  | illegal (current target : AgentState)
  | needsReason (target current : AgentState)
  | noIdentity
  | namesAnother (subject agentId : String)
  | subjectTooLong
  | noSerial
  | serialTooLong
  | serialNotHexadecimal (serial : String)
  | fingerprintNotHexadecimal
  | fingerprintNotLower
  | noExpiry
  | expiresBeforeIssue
  /-- The identity expired at an instant. -/
  | expired (instant : ℤ)
  | namesNoAgent
  | namesNoState (state : WireState)
  | decidesBothWays (revision : ℕ) (agentId : String)
  | twoTenants (revision : ℕ) (agentId : String)

def maxNoteLength : ℕ := 512
def maxVersionLength : ℕ := 64
def maxSubjectLength : ℕ := 256
def maxSerialLength : ℕ := 64
def fingerprintLength : ℕ := 64
def schemaVersion : ℕ := 1

/-- `agentidentity.Valid`: `^[A-Za-z0-9][A-Za-z0-9._-]{0,63}$` -/
def validAgentId (agentId : String) : Bool := Text.isName ['.', '_', '-'] agentId

/-- Hold a text to a length in bytes. -/
def within (field value : String) (maximum : ℕ) : Except Failure Unit :=
  refuse (maximum < value.utf8ByteSize) (.tooLong field maximum)

def tenant (value : String) : Except Failure Unit := do
  refuse (value = "") .noTenant
  refuse (EventContract.maxTenantIDLength < value.utf8ByteSize ∨
    ¬ EventContract.validIdentifier value) (.unusableTenant value)

def platform (declared : Option AgentPlatform) : Except Failure Unit := do
  let held := declared.getD ⟨"", "", ""⟩
  within "platform.os" held.os EventContract.maxOperatingSystem
  within "platform.architecture" held.architecture EventContract.maxArchitectureLen
  within "platform.hostname" held.hostname EventContract.maxHostnameLength

def registered (asked : Registration) (actor : String) (instant : ℤ) : Agent where
  agentId := asked.agentId
  schemaVersion := schemaVersion
  tenantId := asked.tenantId
  state := .named .pending
  platform := asked.platform
  agentVersion := asked.agentVersion
  identity := none
  registeredAt := Timestamp.new instant
  changedBy := actor
  changedAt := Timestamp.new instant
  revision := 1

def registrationLine (asked : Registration) (actor : String) (instant : ℤ) : Transition where
  agentId := asked.agentId
  revision := 1
  fromState := .unspecified
  toState := .named .pending
  actor := actor
  instant := Timestamp.new instant
  note := asked.note

def register (asked : Registration) (actor : String) (instant : ℤ) :
    Except Failure (Agent × Transition) := do
  refuse (actor = "") .noActor
  refuse (¬ validAgentId asked.agentId) (.unusableAgent asked.agentId)
  tenant asked.tenantId
  within "agent_version" asked.agentVersion maxVersionLength
  within "note" asked.note maxNoteLength
  platform asked.platform
  return (registered asked actor instant, registrationLine asked actor instant)

def isHexadecimal (letter : Char) : Bool :=
  Text.isDigit letter || ('a' ≤ letter && letter ≤ 'f') || ('A' ≤ letter && letter ≤ 'F')

/-- Whether a text is hexadecimal digits, and at least one. -/
def hexadecimal (value : String) : Bool := value.toList.all isHexadecimal && value != ""

def serial (value : String) : Except Failure Unit := do
  refuse (value = "") .noSerial
  refuse (maxSerialLength < value.utf8ByteSize) .serialTooLong
  refuse (¬ hexadecimal value) (.serialNotHexadecimal value)

/-- Hold a fingerprint to being a SHA-256 digest in lower case. -/
def fingerprint (value : String) : Except Failure Unit := do
  refuse (value.utf8ByteSize ≠ fingerprintLength ∨ ¬ hexadecimal value) .fingerprintNotHexadecimal
  refuse (value.toList.map Char.toLower ≠ value.toList) .fingerprintNotLower

/-- Whether a timestamp is set, names an instant, and not the zero one. -/
def isSet (stamp : Option Timestamp) : Bool :=
  match stamp with
  | none => false
  | some stamp => stamp.isValid && stamp.asTime != Instant.zero

def timeOf (stamp : Option Timestamp) : ℤ := (stamp.getD .unset).asTime

/-- Hold an identity to expiring after it was issued and is bound. -/
def validity (held : Identity) (instant : ℤ) : Except Failure Unit := do
  refuse (¬ isSet held.expiresAt) .noExpiry
  refuse (isSet held.issuedAt ∧ timeOf held.expiresAt ≤ timeOf held.issuedAt) .expiresBeforeIssue
  refuse (timeOf held.expiresAt ≤ instant) (.expired (timeOf held.expiresAt))

/-- Whether an identity can be bound: a certificate of somebody else is refused. -/
def bindable (agentId : String) (identity : Option Identity) (instant : ℤ) : Except Failure Unit :=
  match identity with
  | none => .error .noIdentity
  | some held => do
      refuse (held.subject ≠ agentId) (.namesAnother held.subject agentId)
      refuse (maxSubjectLength < held.subject.utf8ByteSize) .subjectTooLong
      serial held.serial
      fingerprint held.fingerprintSha256
      validity held instant

/-- The certificate a renewal presented, and the digest of its request. -/
structure Asked where
  presented : String
  request : String

/-- One act on a registered agent: a state, a certificate identity, or both. -/
structure Move where
  /-- The state the agent is to be in, empty where none is asked for. -/
  target : String
  identity : Option Identity
  note : String
  actor : String
  instant : ℤ
  presentedFingerprint : String
  request : String
  /-- What the renewal that issued the bound certificate asked with. -/
  bound : Asked
  /-- Whether the agent asked for this itself. -/
  renewal : Bool
  /-- The revision the caller believed it was acting on; zero acts on whatever the agent is. -/
  expected : ℕ

/-- A renewal whose answer was lost, asked again as before. -/
def Move.asksAgain (move : Move) : Bool :=
  move.request != "" && move.request == move.bound.request &&
    move.presentedFingerprint == move.bound.presented

def Move.changing (move : Move) (current : AgentState) : Option AgentState :=
  (State.named move.target).filter fun target => target ≠ current

/-- What is asked of a move before the identity is looked at. -/
def permitted (current : Agent) (state : AgentState) (move : Move) : Except Failure Unit := do
  let binding := move.identity.isSome
  refuse (move.target ≠ "" ∧ ¬ State.valid move.target) (.unknownState move.target)
  refuse (move.changing state = none ∧ ¬ binding) .nothingAsked
  refuse (binding ∧ State.final state) (.takesNoIdentity state)
  refuse (binding ∧ move.renewal ∧ ¬ State.admits state) (.doesNotRenew state)
  refuse (binding ∧ move.renewal ∧
    move.presentedFingerprint ≠ (current.identity.map Identity.fingerprintSha256).getD "" ∧
    ¬ move.asksAgain) .certificateReplaced
  match move.changing state with
  | none => return ()
  | some target =>
    refuse (¬ State.legal state target) (.illegal state target)
    refuse (move.note = "") (.needsReason target state)

def Move.result (move : Move) (state : AgentState) : AgentState :=
  match move.changing state with
  | some target => target
  | none => if move.identity.isSome ∧ state = .pending then .active else state

def Move.binds (move : Move) (agentId : String) : Except Failure Unit :=
  match move.identity with
  | none => .ok ()
  | some identity => bindable agentId (some identity) move.instant

def Move.moved (move : Move) (current : Agent) (state : AgentState) : Agent :=
  { current with
    state := .named (move.result state)
    identity := move.identity.or current.identity
    revision := current.revision + 1
    changedBy := move.actor
    changedAt := Timestamp.new move.instant }

def Move.line (move : Move) (current : Agent) (state : AgentState) : Transition where
  agentId := current.agentId
  revision := current.revision + 1
  fromState := current.state
  toState := .named (move.result state)
  actor := move.actor
  instant := Timestamp.new move.instant
  note := move.note

/-- Apply a move: the agent it leaves and the line it adds to the trail. -/
def apply (current : Agent) (move : Move) : Except Failure (Agent × Transition) :=
  match State.fromWire current.state with
  | none => .error (.unknownStored current.state)
  | some state => do
      refuse (move.actor = "") .noActor
      refuse (move.expected ≠ 0 ∧ move.expected ≠ current.revision)
        (.moved current.revision move.expected)
      within "note" move.note maxNoteLength
      permitted current state move
      move.binds current.agentId
      return (move.moved current state, move.line current state)

/-- What is asked of a move that is accepted. -/
structure Accepts (current : Agent) (state : AgentState) (move : Move) : Prop where
  stored : current.state = .named state
  attributed : move.actor ≠ ""
  expected : move.expected = 0 ∨ move.expected = current.revision
  noted : move.note.utf8ByteSize ≤ maxNoteLength
  permitted : permitted current state move = .ok ()
  binds : move.binds current.agentId = .ok ()

theorem fromWire_eq_some {wire : WireState} {state : AgentState} :
    State.fromWire wire = some state ↔ wire = .named state := by
  cases wire <;> simp [State.fromWire]

theorem apply_eq_ok_iff {current moved : Agent} {move : Move} {line : Transition} :
    apply current move = .ok (moved, line) ↔
      ∃ state, Accepts current state move ∧ moved = move.moved current state ∧
        line = move.line current state := by
  unfold apply
  constructor
  · intro applied
    split at applied
    · cases applied
    · rename_i state stored
      simp only [passes_eq_ok, refuse_eq_ok, within, pure_eq_ok] at applied
      obtain ⟨attributed, expected, noted, allowed, binds, built⟩ := applied
      cases built
      exact ⟨state, ⟨fromWire_eq_some.mp stored, attributed, by tauto, by omega, allowed, binds⟩,
        rfl, rfl⟩
  · rintro ⟨state, accepts, rfl, rfl⟩
    rw [fromWire_eq_some.mpr accepts.stored]
    simp only [passes_eq_ok, refuse_eq_ok, within, pure_eq_ok]
    have expected := accepts.expected
    exact ⟨accepts.attributed, by tauto, not_lt.mpr accepts.noted, accepts.permitted,
      accepts.binds, trivial⟩

theorem register_eq_ok {asked : Registration} {actor : String} {instant : ℤ} {made : Agent}
    {line : Transition} (accepted : register asked actor instant = .ok (made, line)) :
    validAgentId asked.agentId = true ∧ tenant asked.tenantId = .ok () ∧
      made = registered asked actor instant ∧ line = registrationLine asked actor instant := by
  simp only [register, passes_eq_ok, refuse_eq_ok, pure_eq_ok, Prod.mk.injEq, not_not] at accepted
  obtain ⟨-, usable, placed, -, -, -, made_eq, line_eq⟩ := accepted
  exact ⟨usable, placed, made_eq.symm, line_eq.symm⟩

/-- What the data plane is told of an agent. -/
def admission (moved : Agent) : Admission where
  agentId := moved.agentId
  tenantId := moved.tenantId
  state := moved.state
  revision := moved.revision
  changedAt := moved.changedAt

end Seagull.Agent
