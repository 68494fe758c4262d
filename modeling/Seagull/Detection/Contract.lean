import Seagull.Detection.Validate
import Seagull.Detection.Weight
import Seagull.Event.Validate

/-!
# What the detection contract accepts

The rules every detection is held to on its way into the platform's own store, whoever made it.
-/

namespace Seagull.Detection

open Contract EventContract

/-- A text, held to a ceiling and to being there where it is required. -/
def contractText (field value : String) (limit : ℕ) (required : Bool) :
    Option EventContract.Violation :=
  reject (required ∧ Text.isBlank value) field "is missing" <|>
  reject (limit < value.utf8ByteSize) field ("is longer than " ++ toString limit ++ " bytes")

/-- A name that has to be there. -/
def contractIdentifier (field value : String) : Option EventContract.Violation :=
  reject (validIdentifier value = false) field "is missing or malformed"

def contractDuration (field : String) (value : Option Span) (positive : Bool) :
    Option EventContract.Violation :=
  match value with
  | none => some ⟨field, "is missing"⟩
  | some span =>
    reject (span.isValid = false) field "is not a representable duration" <|>
    reject (positive ∧ span.asDuration ≤ 0) field "must be positive"

/-- The duration of a message; an unset one is empty. -/
def durationOf (span : Option Span) : ℤ := (span.map Span.asDuration).getD 0

def instantOf (stamp : Option Timestamp) : ℤ := (stamp.getD Timestamp.unset).asTime

def validateDecidingTechnique : Option DetectionV1.Technique → Option EventContract.Violation
  | none => none
  | some held =>
    if held.tactic = "" ∧ held.id = "" ∧ held.name = "" then none
    else
      reject (held.tactic = "" ∨ held.id = "" ∨ held.name = "") "technique"
        "needs a tactic, an id and a name, or none of the three" <|>
      reject (held.tactic ∉ tactics) "technique.tactic" "is not an ATT&CK enterprise tactic" <|>
      reject (isTechnique held.id = false) "technique.id"
        "is not an ATT&CK technique identifier" <|>
      contractText "technique.name" held.name maxNameLength true

def validateDecidingSource : Option DetectionV1.Source → Option EventContract.Violation
  | none => none
  | some source =>
    reject (source.catalogue = "" ↔ source.identifier ≠ "") "rule.source"
      "needs a catalogue and an identifier, or neither" <|>
    if source.catalogue = "" then none
    else
      reject (isIdentifier source.catalogue = false ∨
        maxIDLength < source.catalogue.utf8ByteSize) "rule.source.catalogue"
        "is not a catalogue identifier" <|>
      contractText "rule.source.identifier" source.identifier maxNameLength true

def validateDecidingRule : Option DetectionV1.Rule → Option EventContract.Violation
  | none => some ⟨"rule", "is missing"⟩
  | some rule =>
    reject (isIdentifier rule.id = false ∨ maxIDLength < rule.id.utf8ByteSize ∨
      isVersioned rule.id = true) "rule.id" "is not a stable rule identifier" <|>
    reject (rule.revision = 0) "rule.revision" "must be at least 1" <|>
    contractText "rule.name" rule.name maxNameLength true <|>
    validateDecidingSource rule.source

def firstRefusal {α : Type} (check : ℕ → α → Option EventContract.Violation) :
    ℕ → List α → Option EventContract.Violation
  | _, [] => none
  | index, item :: items => check index item <|> firstRefusal check (index + 1) items

def sourceEvents (ids : List String) : Option EventContract.Violation :=
  reject (ids = []) "source_event_ids" "names no event" <|>
  reject (maxStages < ids.length) "source_event_ids" ("names " ++ toString ids.length ++
    " events and the ceiling is " ++ toString maxStages) <|>
  firstRefusal (fun index id => reject (validIdentifier id = false)
    (Text.indexed "source_event_ids" index) "is malformed") 0 ids

/-- The operators the rule language declares. -/
def operatorNames : List String :=
  ([.equals, .oneOf, .contains, .startsWith, .endsWith, .above, .atLeast, .below, .atMost,
    .present] : List Operator).map Operator.written

def asksFor (field : Field) (eventClass : EventClass) : Bool :=
  (kindOf field).isSome && addressableBy field eventClass

variable (platform : Platform)

def validateEvidence (eventClass : EventClass) (index : ℕ) (one : DetectionV1.Evidence) :
    Option EventContract.Violation :=
  reject (asksFor one.field eventClass = false) (Text.indexed "evidence" index ++ ".field")
    "is not addressable by this event class" <|>
  reject (one.operator ∉ operatorNames) (Text.indexed "evidence" index ++ ".operator")
    "is not an operator the rule language declares" <|>
  contractText (Text.indexed "evidence" index ++ ".held") one.held (longestWritten platform).1
    false <|>
  reject (one.absent ∧ one.held ≠ "") (Text.indexed "evidence" index ++ ".held")
    "is set for an absent field"

def evidence (found : List DetectionV1.Evidence) (eventClass : EventClass) :
    Option EventContract.Violation :=
  reject (maxEvidence < found.length) "evidence" ("carries " ++ toString found.length ++
    " entries and the ceiling is " ++ toString maxEvidence) <|>
  firstRefusal (validateEvidence platform eventClass) 0 found

def validateGrouping (field : String) (eventClass : EventClass) (group : List DetectionV1.Grouping)
    (index : ℕ) (one : DetectionV1.Grouping) : Option EventContract.Violation :=
  reject (asksFor one.field eventClass = false) (Text.indexed field index ++ ".field")
    "is not addressable by this event class" <|>
  reject (one.field ∈ (group.take index).map DetectionV1.Grouping.field)
    (Text.indexed field index ++ ".field") "is repeated" <|>
  contractText (Text.indexed field index ++ ".value") one.value (longestWritten platform).2
    false <|>
  reject (one.absent ∧ one.value ≠ "") (Text.indexed field index ++ ".value")
    "is set for an absent field"

def groupings (field : String) (group : List DetectionV1.Grouping) (eventClass : EventClass) :
    Option EventContract.Violation :=
  reject (maxGroupBy < group.length) field ("names " ++ toString group.length ++
    " fields and the ceiling is " ++ toString maxGroupBy) <|>
  firstRefusal (validateGrouping platform field eventClass group) 0 group

def contractWindow (field : String) (window : Option Span) : Option EventContract.Violation :=
  contractDuration field window true <|>
  reject (maxWithin < durationOf window) field ("is longer than " ++ Duration.written maxWithin)

def aggregation (counted : Option DetectionV1.Aggregation) (eventClass : EventClass)
    (eventTime : ℤ) : Option EventContract.Violation :=
  match counted with
  | none => none
  | some counted =>
    reject (counted.threshold < minCount ∨ maxCount < counted.threshold) "aggregation.threshold"
      ("must be between " ++ toString minCount ++ " and " ++ toString maxCount) <|>
    reject (counted.count < counted.threshold ∨ maxCount < counted.count) "aggregation.count"
      "is below the threshold or above the window ceiling" <|>
    contractWindow "aggregation.window" counted.window <|>
    instant "aggregation.first_event_time" counted.firstEventTime <|>
    reject (eventTime < instantOf counted.firstEventTime ∨ durationOf counted.window <
      Instant.sub eventTime (instantOf counted.firstEventTime)) "aggregation.first_event_time"
      "does not fall inside the aggregation window" <|>
    groupings platform "aggregation.group" counted.group eventClass

/-- What the stages of a story have told so far. -/
structure Told where
  names : List String
  sent : List (String × String)
  agents : ℕ
  first : ℤ
  previous : ℤ

namespace Told

/-- A story that has not begun. -/
def start : Told := ⟨[], [], 0, Instant.zero, Instant.zero⟩

def after (told : Told) (index : ℕ) (stage : DetectionV1.Stage) : Told where
  names := stage.name :: told.names
  sent := (stage.agentId, stage.eventId) :: told.sent
  agents := if stage.agentId = "" then told.agents else told.agents + 1
  first := if index = 0 then instantOf stage.eventTime else told.first
  previous := instantOf stage.eventTime

def whole : ℕ → Told → List DetectionV1.Stage → Told
  | _, told, [] => told
  | index, told, stage :: stages => whole (index + 1) (told.after index stage) stages

end Told

def validateStage (sourceIds : List String) (index : ℕ) (told : Told) (stage : DetectionV1.Stage) :
    Option EventContract.Violation :=
  let field := Text.indexed "correlation.stages" index
  contractText (field ++ ".name") stage.name maxStageLength true <|>
  reject (stage.name ∈ told.names) (field ++ ".name") "is repeated" <|>
  reject (sourceIds[index]? ≠ some stage.eventId) (field ++ ".event_id")
    "does not match source_event_ids" <|>
  reject (stage.agentId ≠ "" ∧ validAgent stage.agentId = false) (field ++ ".agent_id")
    "is not an agent identity" <|>
  reject ((stage.agentId, stage.eventId) ∈ told.sent) (field ++ ".event_id")
    "names an event another stage names" <|>
  instant (field ++ ".event_time") stage.eventTime <|>
  reject (0 < index ∧ instantOf stage.eventTime < told.previous) (field ++ ".event_time")
    "is before the previous stage"

def validateStages (sourceIds : List String) :
    ℕ → Told → List DetectionV1.Stage → Option EventContract.Violation
  | _, _, [] => none
  | index, told, stage :: stages =>
    validateStage sourceIds index told stage <|>
    validateStages sourceIds (index + 1) (told.after index stage) stages

/-- The story of a sequence. -/
def correlation (told : Option DetectionV1.Correlation) (eventClass : EventClass)
    (sourceIds : List String) (eventTime : ℤ) (about : String) : Option EventContract.Violation :=
  match told with
  | none => reject (sourceIds.length ≠ 1) "source_event_ids"
      "must name one event for an uncorrelated detection"
  | some told =>
    let whole := Told.whole 0 .start told.stages
    reject (told.stages.length < minStages ∨ maxStages < told.stages.length) "correlation.stages"
      ("must name between " ++ toString minStages ++ " and " ++ toString maxStages ++
        " stages") <|>
    reject (sourceIds.length ≠ told.stages.length) "source_event_ids"
      "does not match the correlated stages" <|>
    contractWindow "correlation.window" told.window <|>
    contractDuration "correlation.clock_spread" told.clockSpread false <|>
    reject (durationOf told.clockSpread < 0) "correlation.clock_spread" "is negative" <|>
    validateStages sourceIds 0 .start told.stages <|>
    reject (whole.previous ≠ eventTime) "event_time"
      "does not equal the last correlated stage" <|>
    reject (whole.agents ≠ 0 ∧ whole.agents ≠ told.stages.length) "correlation.stages"
      "name the agent of some of their events and not of the others" <|>
    reject (whole.agents ≠ 0 ∧
      told.stages.getLast?.map DetectionV1.Stage.agentId ≠ some about) "origin.agent_id"
      "is not the agent of the last stage" <|>
    reject (durationOf told.window < Instant.sub whole.previous whole.first) "correlation.stages"
      "span longer than the correlation window" <|>
    groupings platform "correlation.group" told.group eventClass

def validateSeverity : DetectionV1.Severity → Option EventContract.Violation
  | .unspecified => some ⟨"severity", "is unspecified"⟩
  | .undeclared _ => some ⟨"severity", "is not a value the contract declares"⟩
  | _ => none

def validateClass : EventClass → Option EventContract.Violation
  | .unspecified => some ⟨"event_class", "is unspecified"⟩
  | .undeclared _ => some ⟨"event_class", "is not a value the contract declares"⟩
  | .authentication => none

def validateContract (made : DetectionV1.Detection) : Option EventContract.Violation :=
  reject (maxDetectionBytes < made.size platform.numbering) "detection"
    ("encodes to " ++ toString (made.size platform.numbering) ++ " bytes and the ceiling is " ++
      toString maxDetectionBytes) <|>
  contractIdentifier "detection_id" made.detectionId <|>
  reject (made.schemaVersion ≠ schemaVersion) "schema_version"
    ("must be " ++ toString schemaVersion) <|>
  validateDecidingRule made.rule <|>
  contractIdentifier "ruleset_id" made.rulesetId <|>
  validateSeverity made.severity <|>
  validateDecidingTechnique made.technique <|>
  validateClass made.eventClass <|>
  validateOrigin made.origin <|>
  sourceEvents made.sourceEventIds <|>
  instant "event_time" made.eventTime <|>
  instant "detected_time" made.detectedTime <|>
  evidence platform made.evidence made.eventClass <|>
  reject (made.aggregation.isSome ∧ made.correlation.isSome) "detection"
    "carries both an aggregation and a correlation" <|>
  aggregation platform made.aggregation made.eventClass (instantOf made.eventTime) <|>
  correlation platform made.correlation made.eventClass made.sourceEventIds
    (instantOf made.eventTime) ((made.origin.map Origin.agentId).getD "")

theorem instant_eq_none {field : String} {stamp : Option Timestamp} :
    instant field stamp = none ↔ ∃ named, stamp = some named ∧ named.isValid := by
  cases stamp with
  | none => simp [instant]
  | some named => simp [instant]

theorem contractDuration_eq_none {field : String} {value : Option Span} {positive : Bool} :
    contractDuration field value positive = none ↔
      ∃ span, value = some span ∧ span.isValid ∧ (positive → 0 < span.asDuration) := by
  cases value with
  | none => simp [contractDuration]
  | some span => simp [contractDuration]

theorem contractWindow_eq_none {field : String} {window : Option Span} :
    contractWindow field window = none ↔
      ∃ span, window = some span ∧ span.isValid ∧ 0 < span.asDuration ∧
        span.asDuration ≤ maxWithin := by
  simp only [contractWindow, Option.orElse_eq_none, contractDuration_eq_none, reject_eq_none,
    not_lt]
  constructor
  · rintro ⟨⟨span, rfl, valid, positive⟩, short⟩
    exact ⟨span, rfl, valid, positive trivial, short⟩
  · rintro ⟨span, rfl, valid, positive, short⟩
    exact ⟨⟨span, rfl, valid, fun _ => positive⟩, short⟩

theorem instant_of_validateStages {sourceIds : List String} {index : ℕ} {told : Told}
    {stages : List DetectionV1.Stage}
    (accepted : validateStages sourceIds index told stages = none) :
    ∀ stage ∈ stages, ∃ named, stage.eventTime = some named ∧ named.isValid := by
  induction stages generalizing index told with
  | nil => exact fun _ member => by cases member
  | cons stage stages ih =>
    simp only [validateStages, validateStage, Option.orElse_eq_none] at accepted
    obtain ⟨⟨-, -, -, -, -, timed, -⟩, rest⟩ := accepted
    exact List.forall_mem_cons.mpr ⟨instant_eq_none.mp timed, ih rest⟩

theorem aggregation_eq_none {counted : DetectionV1.Aggregation} {eventClass : EventClass}
    {eventTime : ℤ} (accepted : aggregation platform (some counted) eventClass eventTime = none) :
    counted.threshold ≠ 0 ∧ contractWindow "aggregation.window" counted.window = none ∧
      instant "aggregation.first_event_time" counted.firstEventTime = none := by
  simp only [aggregation, Option.orElse_eq_none, reject_eq_none, not_or, not_lt] at accepted
  obtain ⟨⟨least, -⟩, -, window, first, -⟩ := accepted
  refine ⟨?_, window, first⟩
  unfold minCount at least
  omega

theorem correlation_eq_none {told : DetectionV1.Correlation} {eventClass : EventClass}
    {sourceIds : List String} {eventTime : ℤ} {about : String}
    (accepted : correlation platform (some told) eventClass sourceIds eventTime about = none) :
    told.stages ≠ [] ∧ contractWindow "correlation.window" told.window = none ∧
      contractDuration "correlation.clock_spread" told.clockSpread false = none ∧
      0 ≤ durationOf told.clockSpread ∧
      ∀ stage ∈ told.stages, ∃ named, stage.eventTime = some named ∧ named.isValid := by
  simp only [correlation, Option.orElse_eq_none, reject_eq_none, not_or, not_lt] at accepted
  obtain ⟨⟨least, -⟩, -, window, spread, nonneg, stages, -⟩ := accepted
  refine ⟨fun none_told => ?_, window, spread, nonneg, instant_of_validateStages stages⟩
  rw [none_told] at least
  exact absurd least (by decide)

theorem validateContract_eq_none {made : DetectionV1.Detection} :
    validateContract platform made = none ↔
      made.size platform.numbering ≤ maxDetectionBytes ∧
      contractIdentifier "detection_id" made.detectionId = none ∧
      made.schemaVersion = schemaVersion ∧
      validateDecidingRule made.rule = none ∧
      contractIdentifier "ruleset_id" made.rulesetId = none ∧
      validateSeverity made.severity = none ∧
      validateDecidingTechnique made.technique = none ∧
      validateClass made.eventClass = none ∧
      validateOrigin made.origin = none ∧
      sourceEvents made.sourceEventIds = none ∧
      instant "event_time" made.eventTime = none ∧
      instant "detected_time" made.detectedTime = none ∧
      evidence platform made.evidence made.eventClass = none ∧
      ¬ (made.aggregation.isSome ∧ made.correlation.isSome) ∧
      aggregation platform made.aggregation made.eventClass (instantOf made.eventTime) = none ∧
      correlation platform made.correlation made.eventClass made.sourceEventIds
        (instantOf made.eventTime) ((made.origin.map Origin.agentId).getD "") = none := by
  simp only [validateContract, Option.orElse_eq_none, reject_eq_none, not_lt, not_not]

end Seagull.Detection
