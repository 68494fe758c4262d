import Seagull.Detection.Program
import Seagull.Foundation.Framing

/-!
# What a match becomes when it leaves the process

Everything a detection says is the rule's, the event's, or derived from the two.  It is named by the
tenant, the rule, the revision it was decided at and the events it was decided from, each by the
agent that sent it.
-/

namespace Seagull.Detection

open Contract

def schemaVersion : ℕ := 1

/-- The number a 64-bit integer becomes in 32 unsigned bits. -/
def uint32 (number : ℤ) : ℕ := (number % 2 ^ 32).toNat

/-- An event by its agent and the identifier that agent gave it. -/
structure SentEvent where
  agent : String
  event : String
  deriving DecidableEq

/-- The name of a detection.  The events of each agent are sorted and counted. -/
def identify (platform : Platform) (rule : String) (revision : ℤ) (tenant : String)
    (sent : List SentEvent) : String :=
  let agents := (sent.map SentEvent.agent).dedup.insertionSort (· ≤ ·)
  let written := [rule, toString revision, tenant] ++ agents.flatMap fun agent =>
    let events := (sent.filter fun one => one.agent = agent).map SentEvent.event
    agent :: toString events.length :: events.insertionSort (· ≤ ·)
  hexEncode ((platform.sha256 (framedAll written)).take 16)

namespace Correlated

def sentEvents (told : Correlated) : List SentEvent :=
  told.stages.map fun stage => ⟨stage.agent, stage.event⟩

def events (told : Correlated) : List String := told.stages.map Satisfied.event

def spansAgents (told : Correlated) : Bool :=
  told.stages.any fun stage => stage.agent != (told.stages.head?.map Satisfied.agent).getD ""

end Correlated

def Severity.reported : Severity → DetectionV1.Severity
  | .low => .low
  | .medium => .medium
  | .high => .high
  | .critical => .critical
  | .undeclared _ => .unspecified

def Source.reported (source : Source) : Option DetectionV1.Source :=
  if source.empty then none else some ⟨source.catalogue, source.identifier⟩

def decided (rule : Rule) : DetectionV1.Rule where
  id := rule.id
  revision := uint32 rule.revision
  name := rule.name
  source := rule.source.reported

/-- Where the rule sits in ATT&CK. -/
def attributed (technique : Technique) : Option DetectionV1.Technique :=
  if technique.empty then none else some ⟨technique.tactic, technique.id, technique.name⟩

def gathered (seen : List Evidence) : List DetectionV1.Evidence :=
  seen.map fun one => ⟨one.field, one.operator.written, one.negated, one.held, one.absent⟩

def bindings (group : List Binding) : List DetectionV1.Grouping :=
  group.map fun one => ⟨one.field, one.value, one.absent⟩

def aggregated (counting : Count) (found : Counted) : Option DetectionV1.Aggregation :=
  if counting.counts then
    some {
      count := uint32 found.count
      threshold := uint32 counting.atLeast
      window := some (.new counting.within)
      firstEventTime := some (.new found.first)
      group := bindings found.group
      saturated := found.saturated }
  else
    none

def toldOf (sequence : Sequence) (found : Correlated) : Option DetectionV1.Correlation :=
  if sequence.correlates then
    some {
      stages := found.stages.map fun stage =>
        ⟨stage.name, stage.event, some (.new stage.time), stage.agent⟩
      window := some (.new sequence.within)
      group := bindings found.group
      clockSpread := some (.new found.clockSpread) }
  else
    none

namespace Match

/-- The events a match was decided from. -/
def sentEvents (found : Match) (record : Event) : List SentEvent :=
  if found.rule.sequence.correlates then found.correlated.sentEvents
  else [⟨record.agent, record.eventId⟩]

def detectionId (platform : Platform) (found : Match) (record : Event) : String :=
  identify platform found.rule.id found.rule.revision record.tenant (found.sentEvents record)

/-- The event's origin, or only the last stage's agent when the story spans agents. -/
def origin (found : Match) (record : Event) : Option Origin :=
  if found.rule.sequence.correlates && found.correlated.spansAgents then
    some ⟨record.tenant, (found.correlated.stages.getLast?.map Satisfied.agent).getD "", none⟩
  else
    record.origin

/-- The instant of the last stage, or of the event. -/
def eventTime (found : Match) (record : Event) : Option Timestamp :=
  if found.rule.sequence.correlates then
    found.correlated.stages.getLast?.map fun stage => .new stage.time
  else
    record.time.bind Timestamps.eventTime

/-- What a match becomes when it has to leave the process. -/
def detected (platform : Platform) (found : Match) (ruleset : String) (record : Event)
    (instant : ℤ) : DetectionV1.Detection where
  detectionId := found.detectionId platform record
  schemaVersion := schemaVersion
  rule := some (decided found.rule)
  rulesetId := ruleset
  severity := found.rule.severity.reported
  technique := attributed found.rule.technique
  eventClass := record.eventClass
  origin := found.origin record
  sourceEventIds :=
    if found.rule.sequence.correlates then found.correlated.events else [record.eventId]
  eventTime := found.eventTime record
  detectedTime := some (.new instant)
  evidence := gathered found.evidence
  aggregation := aggregated found.rule.count found.counted
  correlation := toldOf found.rule.sequence found.correlated

end Match
end Seagull.Detection
