import Seagull.Contract.Size
import Seagull.Detection.Rule

/-!
# The vocabulary of the rules

The fields a rule can name are the scalars of the event contract, each under its path from the event
down.  A leaf is a constructor here, and reading it is the walk down the messages on its path.
-/

namespace Seagull.Detection

open Contract

/-- What the platform rests on and does not define: enumerations of the contract, and functions of
the standard library. -/
structure Platform where
  /-- `Authentication.Activity`. -/
  activity : Enumeration
  /-- `Outcome`. -/
  outcome : Enumeration
  /-- `Transport`. -/
  transport : Enumeration
  /-- How the detection contract numbers what it declares. -/
  numbering : Numbering
  /-- `strconv.IsPrint`. -/
  isPrint : Char → Bool
  /-- `unicode.ToLower`. -/
  toLower : Char → Char
  /-- `strconv.FormatFloat` in its shortest form. -/
  formatFloat : Float64 → String
  /-- Whether `url.Parse` reads an http or https link to a host. -/
  reachable : String → Bool
  /-- SHA-256 of a text. -/
  sha256 : String → List UInt8
  sha256_length : ∀ text, (sha256 text).length = 32

def classes : Enumeration where
  values := [("unspecified", 0), ("authentication", 1)]
  numbers_nodup := by decide
  zero_declared := by decide
  names_plain := Enumeration.plain_of_all (by decide)

/-- The name a rule writes for a class, empty if it is not declared. -/
def className : EventClass → String
  | .unspecified => "unspecified"
  | .authentication => "authentication"
  | .undeclared _ => ""

def declaresClass : EventClass → Bool
  | .undeclared _ => false
  | _ => true

/-- A scalar of the event contract. -/
inductive Leaf where
  | eventId
  | schemaVersion
  | eventClass
  | tenantId
  | agentId
  | hostname
  | hostIp
  | os
  | architecture
  | collector
  | source
  | sequence
  | gateway
  | batchId
  | activity
  | outcome
  | outcomeReason
  | method
  | userName
  | userDomain
  | userUid
  | serviceName
  | serviceProtocol
  | sourceIp
  | sourcePort
  | destinationIp
  | destinationPort
  | transport
  | rawRecord
  deriving DecidableEq

/-- The type a leaf is declared with. -/
inductive LeafType where
  | string
  | uint32
  | uint64
  | enum (enumeration : Platform → Enumeration)

/-- What a leaf holds in one event. -/
inductive Scalar where
  | text (text : String)
  | number (number : ℕ)
  | choice (number : ℤ)
  deriving DecidableEq

namespace Leaf

def all : List Leaf :=
  [.eventId, .schemaVersion, .eventClass, .tenantId, .agentId, .hostname, .hostIp, .os,
    .architecture, .collector, .source, .sequence, .gateway, .batchId, .activity, .outcome,
    .outcomeReason, .method, .userName, .userDomain, .userUid, .serviceName, .serviceProtocol,
    .sourceIp, .sourcePort, .destinationIp, .destinationPort, .transport, .rawRecord]

def path : Leaf → List String
  | .eventId => ["event_id"]
  | .schemaVersion => ["schema_version"]
  | .eventClass => ["event_class"]
  | .tenantId => ["origin", "tenant_id"]
  | .agentId => ["origin", "agent_id"]
  | .hostname => ["origin", "host", "hostname"]
  | .hostIp => ["origin", "host", "ip"]
  | .os => ["origin", "host", "os"]
  | .architecture => ["origin", "host", "architecture"]
  | .collector => ["collection", "collector"]
  | .source => ["collection", "source"]
  | .sequence => ["collection", "sequence"]
  | .gateway => ["reception", "gateway"]
  | .batchId => ["reception", "batch_id"]
  | .activity => ["authentication", "activity"]
  | .outcome => ["authentication", "outcome"]
  | .outcomeReason => ["authentication", "outcome_reason"]
  | .method => ["authentication", "method"]
  | .userName => ["authentication", "user", "name"]
  | .userDomain => ["authentication", "user", "domain"]
  | .userUid => ["authentication", "user", "uid"]
  | .serviceName => ["authentication", "service", "name"]
  | .serviceProtocol => ["authentication", "service", "protocol"]
  | .sourceIp => ["authentication", "network", "source", "ip"]
  | .sourcePort => ["authentication", "network", "source", "port"]
  | .destinationIp => ["authentication", "network", "destination", "ip"]
  | .destinationPort => ["authentication", "network", "destination", "port"]
  | .transport => ["authentication", "network", "transport"]
  | .rawRecord => ["authentication", "raw_record"]

def field (leaf : Leaf) : Field := String.intercalate "." leaf.path

def type : Leaf → LeafType
  | .schemaVersion | .sourcePort | .destinationPort => .uint32
  | .sequence => .uint64
  | .eventClass => .enum fun _ => classes
  | .activity => .enum Platform.activity
  | .outcome => .enum Platform.outcome
  | .transport => .enum Platform.transport
  | _ => .string

def kind (leaf : Leaf) : Kind :=
  match leaf.type with
  | .string => .text
  | .uint32 | .uint64 => .number
  | .enum _ => .choice

theorem mem_all (leaf : Leaf) : leaf ∈ all := by
  cases leaf <;> decide

theorem field_nodup : (all.map field).Nodup := by decide +kernel

theorem field_injective : Function.Injective field := by
  intro leaf other same
  exact List.inj_on_of_nodup_map field_nodup (mem_all leaf) (mem_all other) same

end Leaf

def pathOf (field : Field) : Option Leaf := Leaf.all.find? fun leaf => leaf.field == field

/-- What a field holds, if the contract declares it. -/
def kindOf (field : Field) : Option Kind := (pathOf field).map Leaf.kind

/-- The values a choice accepts, in the order the contract declares them. -/
def choicesOf (platform : Platform) (field : Field) : List String :=
  match (pathOf field).map Leaf.type with
  | some (.enum enumeration) => (enumeration platform).names
  | _ => []

/-- Whether a rule for a class can reach a field.  A body belongs to the class it is named after. -/
def addressableBy (field : Field) (eventClass : EventClass) : Bool :=
  match pathOf field with
  | none => false
  | some leaf =>
    leaf.path.head? != some "authentication" || className eventClass == "authentication"

theorem pathOf_field (leaf : Leaf) : pathOf leaf.field = some leaf := by
  obtain ⟨found, found_eq⟩ : ∃ found, pathOf leaf.field = some found :=
    Option.isSome_iff_exists.mp
      (List.find?_isSome.mpr ⟨leaf, Leaf.mem_all leaf, beq_self_eq_true _⟩)
  have same : found.field = leaf.field := by simpa using List.find?_some found_eq
  rw [found_eq, Leaf.field_injective same]

theorem pathOf_eq_some_iff {field : Field} {leaf : Leaf} :
    pathOf field = some leaf ↔ leaf.field = field := by
  constructor
  · intro found
    simpa using List.find?_some found
  · rintro rfl
    exact pathOf_field leaf

def carriedText (text : String) : Option Scalar := if text = "" then none else some (.text text)

def carriedNumber (number : ℕ) : Option Scalar := if number = 0 then none else some (.number number)

def carriedChoice (number : ℤ) : Option Scalar := if number = 0 then none else some (.choice number)

/-- What an event holds in a leaf.  A message that is not set, or a zero scalar, is not carried. -/
def read (record : Event) : Leaf → Option Scalar
  | .eventId => carriedText record.eventId
  | .schemaVersion => carriedNumber record.schemaVersion
  | .eventClass => carriedChoice record.eventClass.number
  | .tenantId => record.origin.bind fun origin => carriedText origin.tenantId
  | .agentId => record.origin.bind fun origin => carriedText origin.agentId
  | .hostname => host fun host => carriedText host.hostname
  | .hostIp => host fun host => carriedText host.ip
  | .os => host fun host => carriedText host.os
  | .architecture => host fun host => carriedText host.architecture
  | .collector => record.collection.bind fun collection => carriedText collection.collector
  | .source => record.collection.bind fun collection => carriedText collection.source
  | .sequence => record.collection.bind fun collection => carriedNumber collection.sequence
  | .gateway => record.reception.bind fun reception => carriedText reception.gateway
  | .batchId => record.reception.bind fun reception => carriedText reception.batchId
  | .activity => body fun body => carriedChoice body.activity
  | .outcome => body fun body => carriedChoice body.outcome
  | .outcomeReason => body fun body => carriedText body.outcomeReason
  | .method => body fun body => carriedText body.method
  | .userName => body fun body => body.user.bind fun user => carriedText user.name
  | .userDomain => body fun body => body.user.bind fun user => carriedText user.domain
  | .userUid => body fun body => body.user.bind fun user => carriedText user.uid
  | .serviceName => body fun body => body.service.bind fun service => carriedText service.name
  | .serviceProtocol =>
    body fun body => body.service.bind fun service => carriedText service.protocol
  | .sourceIp => network fun network => network.source.bind fun source => carriedText source.ip
  | .sourcePort =>
    network fun network => network.source.bind fun source => carriedNumber source.port
  | .destinationIp =>
    network fun network => network.destination.bind fun destination => carriedText destination.ip
  | .destinationPort =>
    network fun network =>
      network.destination.bind fun destination => carriedNumber destination.port
  | .transport => network fun network => carriedChoice network.transport
  | .rawRecord => body fun body => carriedText body.rawRecord
where
  host (get : Host → Option Scalar) : Option Scalar :=
    record.origin.bind fun origin => origin.host.bind get
  body (get : Authentication → Option Scalar) : Option Scalar := record.authentication.bind get
  network (get : Network → Option Scalar) : Option Scalar :=
    record.authentication.bind fun body => body.network.bind get

end Seagull.Detection
