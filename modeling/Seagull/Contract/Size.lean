import Seagull.Contract.Detection
import Seagull.Foundation.Wire

/-!
# What a detection encodes to

`proto.Size` of the detection contract.  The field numbers are the contract's own, and enter only
through the size of a field's tag.
-/

namespace Seagull.Contract

/-- A field of the messages a detection is made of. -/
inductive WireField where
  | detectionId | schemaVersion | rule | rulesetId | severity | technique | eventClass | origin
  | sourceEventIds | eventTime | detectedTime | evidence | aggregation | correlation
  | ruleId | ruleRevision | ruleName | ruleSource | sourceCatalogue | sourceIdentifier
  | techniqueTactic | techniqueId | techniqueName
  | evidenceField | evidenceOperator | evidenceNegated | evidenceHeld | evidenceAbsent
  | groupingField | groupingValue | groupingAbsent
  | aggregationCount | aggregationThreshold | aggregationWindow | aggregationFirstEventTime
  | aggregationGroup | aggregationSaturated
  | stageName | stageEventId | stageEventTime | stageAgentId
  | correlationStages | correlationWindow | correlationGroup | correlationClockSpread
  | tenantId | agentId | host | hostname | hostIp | hostOs | hostArchitecture

/-- How the contract numbers what it declares. -/
structure Numbering where
  /-- The bytes of a field's tag. -/
  tag : WireField → ℕ
  tag_pos : ∀ field, 1 ≤ tag field
  tag_le : ∀ field, tag field ≤ 5
  severity : DetectionV1.Severity → ℤ

open Wire

/-- The two fields of a timestamp and of a duration are its first. -/
def wellKnownTag : ℕ := 1

def Timestamp.size (stamp : Timestamp) : ℕ :=
  integerSize wellKnownTag stamp.seconds + integerSize wellKnownTag stamp.nanos

def Span.size (span : Span) : ℕ :=
  integerSize wellKnownTag span.seconds + integerSize wellKnownTag span.nanos

def Host.size (numbering : Numbering) (host : Host) : ℕ :=
  textSize (numbering.tag .hostname) host.hostname + textSize (numbering.tag .hostIp) host.ip +
    textSize (numbering.tag .hostOs) host.os +
    textSize (numbering.tag .hostArchitecture) host.architecture

def Origin.size (numbering : Numbering) (origin : Origin) : ℕ :=
  textSize (numbering.tag .tenantId) origin.tenantId +
    textSize (numbering.tag .agentId) origin.agentId +
    messageSize (numbering.tag .host) (origin.host.map (Host.size numbering))

end Seagull.Contract

namespace Seagull.DetectionV1

open Contract Wire

def Source.size (numbering : Numbering) (source : Source) : ℕ :=
  textSize (numbering.tag .sourceCatalogue) source.catalogue +
    textSize (numbering.tag .sourceIdentifier) source.identifier

def Rule.size (numbering : Numbering) (rule : Rule) : ℕ :=
  textSize (numbering.tag .ruleId) rule.id +
    numberSize (numbering.tag .ruleRevision) rule.revision +
    textSize (numbering.tag .ruleName) rule.name +
    messageSize (numbering.tag .ruleSource) (rule.source.map (Source.size numbering))

def Technique.size (numbering : Numbering) (technique : Technique) : ℕ :=
  textSize (numbering.tag .techniqueTactic) technique.tactic +
    textSize (numbering.tag .techniqueId) technique.id +
    textSize (numbering.tag .techniqueName) technique.name

def Evidence.size (numbering : Numbering) (evidence : Evidence) : ℕ :=
  textSize (numbering.tag .evidenceField) evidence.field +
    textSize (numbering.tag .evidenceOperator) evidence.operator +
    truthSize (numbering.tag .evidenceNegated) evidence.negated +
    textSize (numbering.tag .evidenceHeld) evidence.held +
    truthSize (numbering.tag .evidenceAbsent) evidence.absent

def Grouping.size (numbering : Numbering) (grouping : Grouping) : ℕ :=
  textSize (numbering.tag .groupingField) grouping.field +
    textSize (numbering.tag .groupingValue) grouping.value +
    truthSize (numbering.tag .groupingAbsent) grouping.absent

def Aggregation.size (numbering : Numbering) (aggregation : Aggregation) : ℕ :=
  numberSize (numbering.tag .aggregationCount) aggregation.count +
    numberSize (numbering.tag .aggregationThreshold) aggregation.threshold +
    messageSize (numbering.tag .aggregationWindow) (aggregation.window.map Span.size) +
    messageSize (numbering.tag .aggregationFirstEventTime)
      (aggregation.firstEventTime.map Timestamp.size) +
    repeatedSize (numbering.tag .aggregationGroup)
      (aggregation.group.map (Grouping.size numbering)) +
    truthSize (numbering.tag .aggregationSaturated) aggregation.saturated

def Stage.size (numbering : Numbering) (stage : Stage) : ℕ :=
  textSize (numbering.tag .stageName) stage.name +
    textSize (numbering.tag .stageEventId) stage.eventId +
    messageSize (numbering.tag .stageEventTime) (stage.eventTime.map Timestamp.size) +
    textSize (numbering.tag .stageAgentId) stage.agentId

def Correlation.size (numbering : Numbering) (correlation : Correlation) : ℕ :=
  repeatedSize (numbering.tag .correlationStages)
      (correlation.stages.map (Stage.size numbering)) +
    messageSize (numbering.tag .correlationWindow) (correlation.window.map Span.size) +
    repeatedSize (numbering.tag .correlationGroup)
      (correlation.group.map (Grouping.size numbering)) +
    messageSize (numbering.tag .correlationClockSpread) (correlation.clockSpread.map Span.size)

def Detection.size (numbering : Numbering) (made : Detection) : ℕ :=
  textSize (numbering.tag .detectionId) made.detectionId +
    numberSize (numbering.tag .schemaVersion) made.schemaVersion +
    messageSize (numbering.tag .rule) (made.rule.map (Rule.size numbering)) +
    textSize (numbering.tag .rulesetId) made.rulesetId +
    integerSize (numbering.tag .severity) (numbering.severity made.severity) +
    messageSize (numbering.tag .technique) (made.technique.map (Technique.size numbering)) +
    integerSize (numbering.tag .eventClass) made.eventClass.number +
    messageSize (numbering.tag .origin) (made.origin.map (Origin.size numbering)) +
    repeatedSize (numbering.tag .sourceEventIds)
      (made.sourceEventIds.map String.utf8ByteSize) +
    messageSize (numbering.tag .eventTime) (made.eventTime.map Timestamp.size) +
    messageSize (numbering.tag .detectedTime) (made.detectedTime.map Timestamp.size) +
    repeatedSize (numbering.tag .evidence) (made.evidence.map (Evidence.size numbering)) +
    messageSize (numbering.tag .aggregation) (made.aggregation.map (Aggregation.size numbering)) +
    messageSize (numbering.tag .correlation) (made.correlation.map (Correlation.size numbering))

end Seagull.DetectionV1
