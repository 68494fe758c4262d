import Seagull.Contract.Event
import Seagull.Event.Limits
import Seagull.Foundation.Address

/-!
# What the event contract accepts

Every rule that does not depend on when an event is examined.
-/

namespace Seagull.EventContract

open Contract

/-- What is wrong with a record, and which part of it. -/
structure Violation where
  field : String
  reason : String

def reject (wrong : Prop) [Decidable wrong] (field reason : String) : Option Violation :=
  if wrong then some ⟨field, reason⟩ else none

@[simp]
theorem reject_eq_none {wrong : Prop} [Decidable wrong] {field reason : String} :
    reject wrong field reason = none ↔ ¬ wrong := by
  simp [reject]

/-- A text, held to a ceiling and to being there where it is required. -/
def text (field value : String) (maximum : ℕ) (required : Bool) : Option Violation :=
  if value = "" then reject required field "is required"
  else reject (maximum < value.utf8ByteSize) field
    ("is longer than " ++ toString maximum ++ " bytes")

def address (field value : String) : Option Violation :=
  if value = "" then none
  else
    reject (maxAddressLength < value.utf8ByteSize) field
      ("is longer than " ++ toString maxAddressLength ++ " bytes") <|>
    reject (Address.isAddress value = false) field "is not an IP address"

/-- The name of an agent: `^[A-Za-z0-9][A-Za-z0-9._-]{0,63}$` -/
def validAgent (agent : String) : Bool := Text.isName ['.', '_', '-'] agent

/-- The machine a record came from. -/
def validateHost (host : Host) : Option Violation :=
  text "origin.host.hostname" host.hostname maxHostnameLength false <|>
  address "origin.host.ip" host.ip <|>
  text "origin.host.os" host.os maxOperatingSystem false <|>
  text "origin.host.architecture" host.architecture maxArchitectureLen false

/-- Whose estate a record belongs to and which machine it came from. -/
def validateOrigin : Option Origin → Option Violation
  | none => some ⟨"origin", "is missing"⟩
  | some origin =>
    reject (validAgent origin.agentId = false) "origin.agent_id" "is missing or malformed" <|>
    text "origin.tenant_id" origin.tenantId maxTenantIDLength true <|>
    origin.host.bind validateHost

def instant (field : String) : Option Timestamp → Option Violation
  | none => some ⟨field, "is missing"⟩
  | some stamp => reject (stamp.isValid = false) field "is not a representable instant"

def validateTimestamps : Option Timestamps → Option Violation
  | none => some ⟨"time", "is missing"⟩
  | some times =>
    instant "time.event_time" times.eventTime <|> instant "time.observed_time" times.observedTime

def validateCollection : Option Collection → Option Violation
  | none => some ⟨"collection", "is missing"⟩
  | some collection =>
    text "collection.collector" collection.collector maxCollectorLength true <|>
    text "collection.source" collection.source maxSourceLength false

/-- How an event was admitted. -/
def validateReception (reception : Option Reception) : Option Violation :=
  text "reception.gateway" ((reception.map Reception.gateway).getD "") maxGatewayLength false <|>
  text "reception.batch_id" ((reception.map Reception.batchId).getD "") maxBatchIDLength false

def declared (field : String) (value : ℤ) (enumeration : Enumeration) : Option Violation :=
  reject (value = 0) field "is unspecified" <|>
  reject (enumeration.nameOf value = none) field "is not a value the contract declares"

/-- One end of a connection. -/
def endpoint (field : String) : Option Endpoint → Option Violation
  | none => none
  | some value =>
    address (field ++ ".ip") value.ip <|>
    reject (65535 < value.port) (field ++ ".port") "is outside 0..65535"

/-- The account an event is about. -/
def validateUser : Option User → Option Violation
  | none => none
  | some user =>
    text "authentication.user.name" user.name maxUserNameLength false <|>
    text "authentication.user.domain" user.domain maxUserDomainLength false <|>
    text "authentication.user.uid" user.uid maxUserIDLength false

def validateService : Option Service → Option Violation
  | none => none
  | some service =>
    text "authentication.service.name" service.name maxServiceNameLength false <|>
    text "authentication.service.protocol" service.protocol maxProtocolLength false

/-- What the contract declares. -/
structure Enumerations where
  activity : Enumeration
  outcome : Enumeration
  transport : Enumeration

variable (enumerations : Enumerations)

/-- The connection an event came over. -/
def validateNetwork : Option Network → Option Violation
  | none => none
  | some network =>
    reject (enumerations.transport.nameOf network.transport = none)
      "authentication.network.transport" "is not a transport the contract declares" <|>
    endpoint "authentication.network.source" network.source <|>
    endpoint "authentication.network.destination" network.destination

def validateAuthentication (authentication : Authentication) : Option Violation :=
  declared "authentication.activity" authentication.activity enumerations.activity <|>
  declared "authentication.outcome" authentication.outcome enumerations.outcome <|>
  text "authentication.outcome_reason" authentication.outcomeReason maxOutcomeReasonLen false <|>
  text "authentication.method" authentication.method maxAuthMethodLength false <|>
  validateUser authentication.user <|>
  validateService authentication.service <|>
  validateNetwork enumerations authentication.network <|>
  text "authentication.raw_record" authentication.rawRecord maxRawRecordLength false

def validateBody (record : Event) : Option Violation :=
  match record.eventClass, record.authentication with
  | .authentication, none => some ⟨"authentication", "is required for this event class"⟩
  | .authentication, some authentication => validateAuthentication enumerations authentication
  | _, _ => some ⟨"event_class", "is unspecified or unknown"⟩

def identifier (field value : String) : Option Violation :=
  reject (value.utf8ByteSize < minEventIDLength) field
    ("is shorter than " ++ toString minEventIDLength ++ " characters") <|>
  reject (validIdentifier value = false) field "is malformed"

/-- Every rule that does not depend on when an event is examined. -/
def validateContract (record : Event) : Option Violation :=
  identifier "event_id" record.eventId <|>
  reject (record.schemaVersion < minSchemaVersion ∨ maxSchemaVersion < record.schemaVersion)
    "schema_version" ("must be between " ++ toString minSchemaVersion ++ " and " ++
      toString maxSchemaVersion) <|>
  validateTimestamps record.time <|>
  validateOrigin record.origin <|>
  validateCollection record.collection <|>
  validateReception record.reception <|>
  validateBody enumerations record

end Seagull.EventContract
