import Seagull.Detection.Contract

/-!
# Detections as rows

A detection is stored as one row: windows in whole seconds, the spread of the clocks in whole
milliseconds, and every list of messages as one array for each of its fields.  A missing instant is
stored as the epoch, a missing message as an empty one.
-/

namespace Seagull.DetectionStore

open Contract Detection
open DetectionV1 (severityName eventClassName)

/-- A row of the store. -/
structure Row where
  detectionID : String
  schemaVersion : ℕ
  ruleID : String
  ruleRevision : ℕ
  ruleName : String
  ruleSourceCatalogue : String
  ruleSourceIdentifier : String
  rulesetID : String
  severity : String
  techniqueTactic : String
  techniqueID : String
  techniqueName : String
  eventClass : String
  tenantID : String
  agentID : String
  hostHostname : String
  hostIP : String
  hostOS : String
  hostArchitecture : String
  sourceEventIDs : List String
  eventTime : ℤ
  detectedTime : ℤ
  evidenceField : List String
  evidenceOperator : List String
  evidenceNegated : List Bool
  evidenceHeld : List String
  evidenceAbsent : List Bool
  aggregationCount : ℕ
  aggregationThreshold : ℕ
  aggregationWindowSeconds : ℕ
  aggregationFirstEventTime : ℤ
  aggregationSaturated : Bool
  aggregationGroupField : List String
  aggregationGroupValue : List String
  aggregationGroupAbsent : List Bool
  correlationWindowSeconds : ℕ
  correlationClockSpreadMillis : ℤ
  correlationStageName : List String
  correlationStageEventID : List String
  correlationStageEventTime : List ℤ
  correlationStageAgentID : List String
  correlationGroupField : List String
  correlationGroupValue : List String
  correlationGroupAbsent : List Bool

def millisecond : ℤ := 1000000

def epoch : ℤ := Timestamp.unset.asTime

/-- The first instant the store holds: the year 1900. -/
def earliest : ℤ := (Timestamp.mk (-2208988800) 0).asTime

/-- The last instant the store holds, in the year 2262. -/
def latest : ℤ := (Timestamp.mk 9223372036 0).asTime

def noRule : DetectionV1.Rule := ⟨"", 0, "", none⟩

def noSource : DetectionV1.Source := ⟨"", ""⟩

def noTechnique : DetectionV1.Technique := ⟨"", "", ""⟩

def noHost : Host := ⟨"", "", "", ""⟩

def noOrigin : Origin := ⟨"", "", none⟩

/-- The window of a detection that counted nothing. -/
def noAggregation : DetectionV1.Aggregation := ⟨0, 0, none, none, [], false⟩

def noCorrelation : DetectionV1.Correlation := ⟨[], none, [], none⟩

def project (made : DetectionV1.Detection) : Row :=
  let rule := made.rule.getD noRule
  let technique := made.technique.getD noTechnique
  let origin := made.origin.getD noOrigin
  let counted := made.aggregation.getD noAggregation
  let told := made.correlation.getD noCorrelation
  { detectionID := made.detectionId
    schemaVersion := made.schemaVersion
    ruleID := rule.id
    ruleRevision := rule.revision
    ruleName := rule.name
    ruleSourceCatalogue := (rule.source.getD noSource).catalogue
    ruleSourceIdentifier := (rule.source.getD noSource).identifier
    rulesetID := made.rulesetId
    severity := severityName made.severity
    techniqueTactic := technique.tactic
    techniqueID := technique.id
    techniqueName := technique.name
    eventClass := eventClassName made.eventClass
    tenantID := origin.tenantId
    agentID := origin.agentId
    hostHostname := (origin.host.getD noHost).hostname
    hostIP := (origin.host.getD noHost).ip
    hostOS := (origin.host.getD noHost).os
    hostArchitecture := (origin.host.getD noHost).architecture
    sourceEventIDs := made.sourceEventIds
    eventTime := instantOf made.eventTime
    detectedTime := instantOf made.detectedTime
    evidenceField := made.evidence.map DetectionV1.Evidence.field
    evidenceOperator := made.evidence.map DetectionV1.Evidence.operator
    evidenceNegated := made.evidence.map DetectionV1.Evidence.negated
    evidenceHeld := made.evidence.map DetectionV1.Evidence.held
    evidenceAbsent := made.evidence.map DetectionV1.Evidence.absent
    aggregationCount := counted.count
    aggregationThreshold := counted.threshold
    aggregationWindowSeconds := uint32 ((durationOf counted.window).tdiv Duration.second)
    aggregationFirstEventTime := instantOf counted.firstEventTime
    aggregationSaturated := counted.saturated
    aggregationGroupField := counted.group.map DetectionV1.Grouping.field
    aggregationGroupValue := counted.group.map DetectionV1.Grouping.value
    aggregationGroupAbsent := counted.group.map DetectionV1.Grouping.absent
    correlationWindowSeconds := uint32 ((durationOf told.window).tdiv Duration.second)
    correlationClockSpreadMillis := (durationOf told.clockSpread).tdiv millisecond
    correlationStageName := told.stages.map DetectionV1.Stage.name
    correlationStageEventID := told.stages.map DetectionV1.Stage.eventId
    correlationStageEventTime := told.stages.map fun stage => instantOf stage.eventTime
    correlationStageAgentID := told.stages.map DetectionV1.Stage.agentId
    correlationGroupField := told.group.map DetectionV1.Grouping.field
    correlationGroupValue := told.group.map DetectionV1.Grouping.value
    correlationGroupAbsent := told.group.map DetectionV1.Grouping.absent }

def representable (field : String) (instant : ℤ) : Option String :=
  if instant < earliest ∨ latest < instant then
    some (field ++ " is outside the 1900-01-01..2262-04-11 the store can hold")
  else none

def sideways (field : String) (entries against : ℕ) : Option String :=
  if entries ≠ against then
    some (field ++ " carries " ++ toString entries ++ " entries against " ++ toString against ++
      ": the arrays are one table read sideways")
  else none

/-- Why the store cannot hold a row. -/
def storable (row : Row) : Option String :=
  (if row.detectionID = "" then
    some "detection_id is empty, and a detection is named by what decided it" else none) <|>
  representable "event_time" row.eventTime <|>
  representable "detected_time" row.detectedTime <|>
  representable "aggregation.first_event_time" row.aggregationFirstEventTime <|>
  row.correlationStageEventTime.findSome? (representable "correlation.stages.event_time") <|>
  sideways "evidence.operator" row.evidenceOperator.length row.evidenceField.length <|>
  sideways "evidence.negated" row.evidenceNegated.length row.evidenceField.length <|>
  sideways "evidence.held" row.evidenceHeld.length row.evidenceField.length <|>
  sideways "evidence.absent" row.evidenceAbsent.length row.evidenceField.length <|>
  sideways "aggregation.group.value" row.aggregationGroupValue.length
    row.aggregationGroupField.length <|>
  sideways "aggregation.group.absent" row.aggregationGroupAbsent.length
    row.aggregationGroupField.length <|>
  sideways "correlation.stages.event_id" row.correlationStageEventID.length
    row.correlationStageName.length <|>
  sideways "correlation.stages.event_time" row.correlationStageEventTime.length
    row.correlationStageName.length <|>
  sideways "correlation.stages.agent_id" row.correlationStageAgentID.length
    row.correlationStageName.length <|>
  sideways "correlation.group.value" row.correlationGroupValue.length
    row.correlationGroupField.length <|>
  sideways "correlation.group.absent" row.correlationGroupAbsent.length
    row.correlationGroupField.length

def severityOf (stored : String) : DetectionV1.Severity :=
  (([.low, .medium, .high, .critical] : List DetectionV1.Severity).find? fun severity =>
    (severityName severity).map Char.toUpper = stored.map Char.toUpper).getD .unspecified

def eventClassOf (stored : String) : EventClass :=
  if stored.map Char.toUpper = "AUTHENTICATION" then .authentication else .unspecified

def moment (instant : ℤ) : Option Timestamp :=
  if instant = Instant.zero ∨ instant = epoch then none else some (.new instant)

def int64 (number : ℤ) : ℤ := (number + 2 ^ 63) % 2 ^ 64 - 2 ^ 63

/-- What a rule read, as far as all five arrays reach. -/
def restoreEvidence (row : Row) : List DetectionV1.Evidence :=
  (row.evidenceField.zip (row.evidenceOperator.zip (row.evidenceNegated.zip
    (row.evidenceHeld.zip row.evidenceAbsent)))).map
    fun (field, operator, negated, held, absent) => ⟨field, operator, negated, held, absent⟩

/-- What the group fields held, as far as all three arrays reach. -/
def restoreGroup (fields values : List String) (absents : List Bool) :
    List DetectionV1.Grouping :=
  (fields.zip (values.zip absents)).map fun (field, value, absent) => ⟨field, value, absent⟩

/-- The window of a counting rule; a threshold of zero counts nothing. -/
def restoreAggregation (row : Row) : Option DetectionV1.Aggregation :=
  if row.aggregationThreshold = 0 then none
  else some {
    count := row.aggregationCount
    threshold := row.aggregationThreshold
    window := some (.new (row.aggregationWindowSeconds * Duration.second))
    firstEventTime := moment row.aggregationFirstEventTime
    group := restoreGroup row.aggregationGroupField row.aggregationGroupValue
      row.aggregationGroupAbsent
    saturated := row.aggregationSaturated }

/-- The stages of a story, as far as the arrays that have to be there reach. -/
def restoreStages (row : Row) : List DetectionV1.Stage :=
  let told := row.correlationStageName.zip
    (row.correlationStageEventID.zip row.correlationStageEventTime)
  let agents := if told.length ≤ row.correlationStageAgentID.length then
    row.correlationStageAgentID else List.replicate told.length ""
  (told.zip agents).map fun ((name, event, time), agent) => ⟨name, event, moment time, agent⟩

def restoreCorrelation (row : Row) : Option DetectionV1.Correlation :=
  if restoreStages row = [] then none
  else some {
    stages := restoreStages row
    window := some (.new (row.correlationWindowSeconds * Duration.second))
    group := restoreGroup row.correlationGroupField row.correlationGroupValue
      row.correlationGroupAbsent
    clockSpread := some (.new (int64 (row.correlationClockSpreadMillis * millisecond))) }

def restore (row : Row) : DetectionV1.Detection where
  detectionId := row.detectionID
  schemaVersion := row.schemaVersion
  rule := some ⟨row.ruleID, row.ruleRevision, row.ruleName,
    some ⟨row.ruleSourceCatalogue, row.ruleSourceIdentifier⟩⟩
  rulesetId := row.rulesetID
  severity := severityOf row.severity
  technique := some ⟨row.techniqueTactic, row.techniqueID, row.techniqueName⟩
  eventClass := eventClassOf row.eventClass
  origin := some ⟨row.tenantID, row.agentID,
    some ⟨row.hostHostname, row.hostIP, row.hostOS, row.hostArchitecture⟩⟩
  sourceEventIds := row.sourceEventIDs
  eventTime := moment row.eventTime
  detectedTime := moment row.detectedTime
  evidence := restoreEvidence row
  aggregation := restoreAggregation row
  correlation := restoreCorrelation row

end Seagull.DetectionStore
