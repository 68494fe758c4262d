import Seagull.Foundation.Text

/-!
# The bounds of the event contract

The longest every text the contract carries may be, by the path a rule and a violation name it with,
and what an identifier is written with.
-/

namespace Seagull.EventContract

def schemaVersion : ℕ := 1
def minSchemaVersion : ℕ := 1
def maxSchemaVersion : ℕ := 1

def maxEventIDLength : ℕ := 64
def minEventIDLength : ℕ := 8
def maxTenantIDLength : ℕ := 64
def maxAgentIDLength : ℕ := 64
def maxHostnameLength : ℕ := 255
def maxAddressLength : ℕ := 45
def maxOperatingSystem : ℕ := 128
def maxArchitectureLen : ℕ := 32
def maxCollectorLength : ℕ := 64
def maxSourceLength : ℕ := 512
def maxUserNameLength : ℕ := 256
def maxUserDomainLength : ℕ := 255
def maxUserIDLength : ℕ := 64
def maxServiceNameLength : ℕ := 64
def maxProtocolLength : ℕ := 32
def maxOutcomeReasonLen : ℕ := 64
def maxAuthMethodLength : ℕ := 32
def maxRawRecordLength : ℕ := 4096
def maxBatchIDLength : ℕ := 64
def maxGatewayLength : ℕ := 64
def maxEventBytes : ℕ := 960 * 2 ^ 10

/-- The longest every text the contract carries may be. -/
def longest : List (String × ℕ) :=
  [("event_id", maxEventIDLength),
    ("origin.tenant_id", maxTenantIDLength),
    ("origin.agent_id", maxAgentIDLength),
    ("origin.host.hostname", maxHostnameLength),
    ("origin.host.ip", maxAddressLength),
    ("origin.host.os", maxOperatingSystem),
    ("origin.host.architecture", maxArchitectureLen),
    ("collection.collector", maxCollectorLength),
    ("collection.source", maxSourceLength),
    ("reception.gateway", maxGatewayLength),
    ("reception.batch_id", maxBatchIDLength),
    ("authentication.outcome_reason", maxOutcomeReasonLen),
    ("authentication.method", maxAuthMethodLength),
    ("authentication.user.name", maxUserNameLength),
    ("authentication.user.domain", maxUserDomainLength),
    ("authentication.user.uid", maxUserIDLength),
    ("authentication.service.name", maxServiceNameLength),
    ("authentication.service.protocol", maxProtocolLength),
    ("authentication.network.source.ip", maxAddressLength),
    ("authentication.network.destination.ip", maxAddressLength),
    ("authentication.raw_record", maxRawRecordLength)]

def longestText (field : String) : Option ℕ := longest.lookup field

/-- `^[A-Za-z0-9][A-Za-z0-9._:-]{0,63}$` -/
def validIdentifier (value : String) : Bool := Text.isName ['.', '_', ':', '-'] value

end Seagull.EventContract
