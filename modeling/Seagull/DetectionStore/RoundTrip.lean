import Seagull.Analysis.Engine
import Seagull.DetectionStore.Row

/-!
# Detections read back

What comes back from a row is the detection it was written from, with its empty messages written out,
as long as its windows are whole seconds, the spread of its clocks is whole milliseconds, and none of
its instants is the epoch.
-/

namespace Seagull.DetectionStore

open Contract Detection EventContract
open DetectionV1 (severityName eventClassName)

def storedWindow (window : Option Span) : Option Span :=
  some (.new (uint32 ((durationOf window).tdiv Duration.second) * Duration.second))

/-- A spread of clocks as it is read back. -/
def storedSpread (spread : Option Span) : Option Span :=
  some (.new (int64 ((durationOf spread).tdiv millisecond * millisecond)))

def storedAggregation (counted : DetectionV1.Aggregation) : DetectionV1.Aggregation :=
  { counted with
    window := storedWindow counted.window
    firstEventTime := moment (instantOf counted.firstEventTime) }

def storedStage (stage : DetectionV1.Stage) : DetectionV1.Stage :=
  { stage with eventTime := moment (instantOf stage.eventTime) }

/-- A story as it is read back. -/
def storedCorrelation (told : DetectionV1.Correlation) : DetectionV1.Correlation :=
  { told with
    stages := told.stages.map storedStage
    window := storedWindow told.window
    clockSpread := storedSpread told.clockSpread }

def writtenRule (rule : DetectionV1.Rule) : DetectionV1.Rule :=
  { rule with source := some (rule.source.getD noSource) }

def writtenOrigin (origin : Origin) : Origin := { origin with host := some (origin.host.getD noHost) }

/-- A detection with its rule, its technique and its origin written out. -/
def written (made : DetectionV1.Detection) : DetectionV1.Detection :=
  { made with
    rule := some (writtenRule (made.rule.getD noRule))
    technique := some (made.technique.getD noTechnique)
    origin := some (writtenOrigin (made.origin.getD noOrigin)) }

theorem restoreEvidence_project (made : DetectionV1.Detection) :
    restoreEvidence (project made) = made.evidence := by
  simp only [restoreEvidence, project, List.zip_map', List.map_map]
  exact List.map_id made.evidence

theorem restoreGroup_map (group : List DetectionV1.Grouping) :
    restoreGroup (group.map DetectionV1.Grouping.field) (group.map DetectionV1.Grouping.value)
      (group.map DetectionV1.Grouping.absent) = group := by
  simp only [restoreGroup, List.zip_map', List.map_map]
  exact List.map_id group

theorem restoreStages_project (made : DetectionV1.Detection) :
    restoreStages (project made) =
      (made.correlation.getD noCorrelation).stages.map storedStage := by
  simp only [restoreStages, project, List.zip_map', List.length_map, le_refl, if_true, List.map_map]
  rfl

theorem severityOf_severityName {severity : DetectionV1.Severity}
    (declared : validateSeverity severity = none) : severityOf (severityName severity) = severity := by
  cases severity with
  | unspecified => cases declared
  | undeclared number => cases declared
  | low => decide +kernel
  | medium => decide +kernel
  | high => decide +kernel
  | critical => decide +kernel

theorem eventClassOf_eventClassName {eventClass : EventClass}
    (declared : validateClass eventClass = none) :
    eventClassOf (eventClassName eventClass) = eventClass := by
  cases eventClass with
  | unspecified => cases declared
  | undeclared number => cases declared
  | authentication => decide +kernel

def readBack (made : DetectionV1.Detection) : DetectionV1.Detection :=
  { written made with
    eventTime := moment (instantOf made.eventTime)
    detectedTime := moment (instantOf made.detectedTime)
    aggregation := made.aggregation.map storedAggregation
    correlation := made.correlation.map storedCorrelation }

theorem restore_project {made : DetectionV1.Detection}
    (severity : validateSeverity made.severity = none)
    (eventClass : validateClass made.eventClass = none)
    (counts : ∀ counted, made.aggregation = some counted → counted.threshold ≠ 0)
    (tells : ∀ told, made.correlation = some told → told.stages ≠ []) :
    restore (project made) = readBack made := by
  have aggregation : restoreAggregation (project made) = made.aggregation.map storedAggregation := by
    cases counted_eq : made.aggregation with
    | none => simp [restoreAggregation, project, counted_eq, noAggregation]
    | some counted =>
      have counting := counts counted counted_eq
      simp [restoreAggregation, project, counted_eq, counting, restoreGroup_map, storedAggregation,
        storedWindow]
  have correlation : restoreCorrelation (project made) =
      made.correlation.map storedCorrelation := by
    rw [restoreCorrelation, restoreStages_project]
    cases told_eq : made.correlation with
    | none => simp [noCorrelation]
    | some told =>
      have telling := tells told told_eq
      simp [project, told_eq, telling, restoreGroup_map, storedCorrelation, storedWindow,
        storedSpread]
  simp only [restore, aggregation, correlation, restoreEvidence_project]
  simp only [project, severityOf_severityName severity, eventClassOf_eventClassName eventClass,
    readBack, written, writtenRule, writtenOrigin]

theorem new_seconds {seconds : ℤ} (nonneg : 0 ≤ seconds) :
    Span.new (seconds * Duration.second) = ⟨seconds, 0⟩ := by
  unfold Span.new Duration.second
  rw [Int.tdiv_eq_ediv_of_nonneg (by omega), Int.tmod_eq_emod_of_nonneg (by omega)]
  simp

variable {field : String} {window : Option Span}

theorem storedWindow_eq (accepted : contractWindow field window = none) :
    ∃ span, window = some span ∧ storedWindow window = some ⟨span.seconds, 0⟩ := by
  obtain ⟨span, rfl, valid, positive, short⟩ := contractWindow_eq_none.mp accepted
  refine ⟨span, rfl, ?_⟩
  simp only [Span.isValid, Bool.and_eq_true, decide_eq_true_eq, Bool.not_eq_true',
    Bool.and_eq_false_iff, decide_eq_false_iff_not] at valid
  have whole : span.asDuration.tdiv Duration.second = span.seconds ∧ 0 ≤ span.seconds ∧
      span.seconds < 2 ^ 32 := by
    rw [Int.tdiv_eq_ediv_of_nonneg positive.le]
    unfold Span.asDuration at *
    unfold maxWithin Duration.hour at short
    unfold Duration.second Duration.shortest Duration.longest at *
    omega
  rw [storedWindow, durationOf, Option.map_some, Option.getD_some, whole.1]
  have same : (uint32 span.seconds : ℤ) = span.seconds := by
    unfold uint32
    omega
  rw [same, new_seconds whole.2.1]

def total (span : Span) : ℤ := span.seconds * Duration.second + span.nanos

variable {spread : Option Span}

theorem storedSpread_eq (accepted : contractDuration field spread false = none)
    (nonneg : 0 ≤ durationOf spread) :
    ∃ span, spread = some span ∧ (storedSpread spread = some span ↔
      span.nanos % millisecond = 0 ∧ total span ≤ Duration.longest) := by
  obtain ⟨span, rfl, valid, -⟩ := contractDuration_eq_none.mp accepted
  refine ⟨span, rfl, ?_⟩
  rw [durationOf, Option.map_some, Option.getD_some] at nonneg
  simp only [Span.isValid, Bool.and_eq_true, decide_eq_true_eq, Bool.not_eq_true',
    Bool.and_eq_false_iff, decide_eq_false_iff_not] at valid
  have reached : span.asDuration ≤ Duration.longest := by
    unfold Span.asDuration Duration.shortest Duration.longest
    omega
  have kept : int64 (span.asDuration.tdiv millisecond * millisecond) =
      span.asDuration / millisecond * millisecond := by
    rw [Int.tdiv_eq_ediv_of_nonneg nonneg]
    unfold int64 millisecond
    unfold Duration.longest at reached
    omega
  rw [storedSpread, durationOf, Option.map_some, Option.getD_some, kept, Option.some.injEq, Span.new,
    Int.tdiv_eq_ediv_of_nonneg (by unfold millisecond; omega),
    Int.tmod_eq_emod_of_nonneg (by unfold millisecond; omega)]
  obtain ⟨seconds, nanos⟩ := span
  simp only [Span.mk.injEq, total]
  unfold Span.asDuration at *
  unfold Duration.second Duration.shortest Duration.longest millisecond at *
  simp only at *
  omega

theorem moment_instantOf {stamp : Option Timestamp} (accepted : instant field stamp = none)
    (held : earliest ≤ instantOf stamp) (later : instantOf stamp ≠ epoch) :
    moment (instantOf stamp) = stamp := by
  obtain ⟨named, rfl, valid⟩ := instant_eq_none.mp accepted
  have solid : ¬ (named.asTime = Instant.zero ∨ named.asTime = epoch) := by
    rintro (zero | same)
    · have before : Instant.zero < earliest := by decide
      exact absurd (zero ▸ held : earliest ≤ Instant.zero) (not_le.mpr before)
    · exact later same
  rw [instantOf, Option.getD_some, moment, if_neg solid, Timestamp.new_asTime valid]

def filledSpan (span : Option Span) : Option Span := some (span.getD ⟨0, 0⟩)

def filledStamp (stamp : Option Timestamp) : Option Timestamp := some (stamp.getD .unset)

def filledAggregation (counted : DetectionV1.Aggregation) : DetectionV1.Aggregation :=
  { counted with
    window := filledSpan counted.window
    firstEventTime := filledStamp counted.firstEventTime }

/-- A story with its messages written out. -/
def filledCorrelation (told : DetectionV1.Correlation) : DetectionV1.Correlation :=
  { told with
    stages := told.stages.map fun stage => { stage with eventTime := filledStamp stage.eventTime }
    window := filledSpan told.window
    clockSpread := filledSpan told.clockSpread }

/-- A detection with every message written out. -/
def filled (made : DetectionV1.Detection) : DetectionV1.Detection :=
  { written made with
    eventTime := filledStamp made.eventTime
    detectedTime := filledStamp made.detectedTime
    aggregation := some (filledAggregation (made.aggregation.getD noAggregation))
    correlation := some (filledCorrelation (made.correlation.getD noCorrelation)) }

def WholeSeconds (window : Option Span) : Prop := ∀ span ∈ window, span.nanos = 0

def WholeMillis (spread : Option Span) : Prop :=
  ∀ span ∈ spread, span.nanos % millisecond = 0 ∧ total span ≤ Duration.longest

/-- A detection a row holds exactly: whole seconds, whole milliseconds, and no instant the epoch. -/
structure Held (made : DetectionV1.Detection) : Prop where
  eventTime : instantOf made.eventTime ≠ epoch
  detectedTime : instantOf made.detectedTime ≠ epoch
  aggregation : ∀ counted ∈ made.aggregation,
    WholeSeconds counted.window ∧ instantOf counted.firstEventTime ≠ epoch
  correlation : ∀ told ∈ made.correlation,
    WholeSeconds told.window ∧ WholeMillis told.clockSpread ∧
      ∀ stage ∈ told.stages, instantOf stage.eventTime ≠ epoch

/-- A detection a row holds exactly, and not too large with its messages written out. -/
structure Survives (platform : Platform) (made : DetectionV1.Detection) : Prop extends
    Held made where
  weight : (written made).size platform.numbering ≤ maxDetectionBytes

variable {platform : Platform} {made : DetectionV1.Detection}

theorem ne_epoch_of_instant {at_instant : ℤ} (accepted : instant field (moment at_instant) = none) :
    at_instant ≠ epoch := by
  rintro rfl
  simp [moment, instant] at accepted

theorem held_of_storable (held : storable (project made) = none) :
    earliest ≤ instantOf made.eventTime ∧ earliest ≤ instantOf made.detectedTime ∧
      (∀ counted, made.aggregation = some counted →
        earliest ≤ instantOf counted.firstEventTime) ∧
      ∀ told, made.correlation = some told → ∀ stage ∈ told.stages,
        earliest ≤ instantOf stage.eventTime := by
  simp only [storable, Option.orElse_eq_none] at held
  obtain ⟨-, event, detected, first, stages, -⟩ := held
  have bound {field : String} {at_instant : ℤ} (representable : representable field at_instant = none) :
      earliest ≤ at_instant := by
    simp only [DetectionStore.representable, ite_eq_right_iff, reduceCtorEq, imp_false, not_or,
      not_lt] at representable
    exact representable.1
  refine ⟨bound event, bound detected, fun counted counted_eq => ?_, fun told told_eq stage member => ?_⟩
  · simpa [project, counted_eq] using bound first
  · rw [List.findSome?_eq_none_iff] at stages
    exact bound (stages (instantOf stage.eventTime) (by
      simp only [project, told_eq, Option.getD_some]
      exact List.mem_map_of_mem member))

theorem storedWindow_of_whole (accepted : contractWindow field window = none)
    (whole : WholeSeconds window) : storedWindow window = window := by
  obtain ⟨span, rfl, stored⟩ := storedWindow_eq accepted
  rw [stored, ← whole span rfl]

theorem wholeSeconds_of_filled (accepted : contractWindow field window = none)
    (same : filledSpan (storedWindow window) = filledSpan window) : WholeSeconds window := by
  obtain ⟨span, rfl, stored⟩ := storedWindow_eq accepted
  rintro _ ⟨⟩
  rw [stored] at same
  exact (congrArg Span.nanos (Option.some.inj same)).symm

section

variable (accepted : contractDuration field spread false = none) (nonneg : 0 ≤ durationOf spread)

include accepted nonneg

theorem storedSpread_of_whole (whole : WholeMillis spread) :
    storedSpread spread = spread := by
  obtain ⟨span, rfl, stored⟩ := storedSpread_eq accepted nonneg
  exact stored.mpr (whole span rfl)

theorem wholeMillis_of_filled (same : filledSpan (storedSpread spread) = filledSpan spread) :
    WholeMillis spread := by
  obtain ⟨span, rfl, stored⟩ := storedSpread_eq accepted nonneg
  rintro _ ⟨⟩
  exact stored.mp same

end

section

variable (accepted : validateContract platform made = none)

include accepted

theorem restore_project_of_accepted :
    restore (project made) = readBack made := by
  obtain ⟨-, -, -, -, -, severity, -, eventClass, -, -, -, -, -, -, counts, tells⟩ :=
    (validateContract_eq_none platform).mp accepted
  exact restore_project severity eventClass
    (fun counted counted_eq => (aggregation_eq_none platform (counted_eq ▸ counts)).1)
    (fun told told_eq => (correlation_eq_none platform (told_eq ▸ tells)).1)

theorem readBack_of_held
    (stored : storable (project made) = none) (held : Held made) : readBack made = written made := by
  obtain ⟨-, -, -, -, -, -, -, -, -, -, eventTime, detectedTime, -, -, counts, tells⟩ :=
    (validateContract_eq_none platform).mp accepted
  obtain ⟨event_held, detected_held, first_held, stages_held⟩ := held_of_storable stored
  have aggregation : made.aggregation.map storedAggregation = made.aggregation := by
    cases counted_eq : made.aggregation with
    | none => rfl
    | some counted =>
      rw [counted_eq] at counts
      obtain ⟨-, window, first⟩ := aggregation_eq_none platform counts
      obtain ⟨whole, later⟩ := held.aggregation counted counted_eq
      rw [Option.map_some, storedAggregation, storedWindow_of_whole window whole,
        moment_instantOf first (first_held counted counted_eq) later]
  have correlation : made.correlation.map storedCorrelation = made.correlation := by
    cases told_eq : made.correlation with
    | none => rfl
    | some told =>
      rw [told_eq] at tells
      obtain ⟨-, window, spread, nonneg, timed⟩ := correlation_eq_none platform tells
      obtain ⟨whole, millis, later⟩ := held.correlation told told_eq
      have stages : told.stages.map storedStage = told.stages := by
        refine (List.map_congr_left fun stage member => ?_).trans (List.map_id told.stages)
        have named : instant "correlation.stages.event_time" stage.eventTime = none :=
          instant_eq_none.mpr (timed stage member)
        rw [storedStage, moment_instantOf named (stages_held told told_eq stage member)
          (later stage member)]
        rfl
      rw [Option.map_some, storedCorrelation, storedWindow_of_whole window whole,
        storedSpread_of_whole spread nonneg millis, stages]
  rw [readBack, aggregation, correlation, moment_instantOf eventTime event_held held.eventTime,
    moment_instantOf detectedTime detected_held held.detectedTime]
  rfl

theorem accepted_written
    (weight : (written made).size platform.numbering ≤ maxDetectionBytes) :
    validateContract platform (written made) = none := by
  obtain ⟨-, named, version, rule, ruleset, severity, technique, eventClass, origin, rest⟩ :=
    (validateContract_eq_none platform).mp accepted
  refine (validateContract_eq_none platform).mpr ⟨weight, named, version, ?_, ruleset, severity, ?_,
    eventClass, ?_, ?_⟩
  · cases rule_eq : made.rule with
    | none => simp [rule_eq, validateDecidingRule] at rule
    | some deciding =>
      simp only [rule_eq, validateDecidingRule, Option.orElse_eq_none] at rule
      simp only [written, rule_eq, Option.getD_some, validateDecidingRule, Option.orElse_eq_none]
      refine ⟨rule.1, rule.2.1, rule.2.2.1, ?_⟩
      cases source_eq : deciding.source with
      | none => simp [writtenRule, source_eq, noSource, validateDecidingSource]
      | some source => simpa [writtenRule, source_eq] using rule.2.2.2
  · cases technique_eq : made.technique with
    | none => simp [written, technique_eq, noTechnique, validateDecidingTechnique]
    | some held => simpa [written, technique_eq] using technique
  · cases origin_eq : made.origin with
    | none => simp [origin_eq, validateOrigin] at origin
    | some about =>
      simp only [origin_eq, validateOrigin, Option.orElse_eq_none] at origin
      simp only [written, origin_eq, Option.getD_some, validateOrigin, Option.orElse_eq_none]
      refine ⟨origin.1, origin.2.1, ?_⟩
      cases host_eq : about.host with
      | none => simp [writtenOrigin, host_eq, noHost, validateHost, EventContract.text, address]
      | some host => simpa [writtenOrigin, host_eq] using origin.2.2
  · have agent : ((written made).origin.map Origin.agentId).getD "" =
        (made.origin.map Origin.agentId).getD "" := by
      cases origin_eq : made.origin <;> simp [written, origin_eq, writtenOrigin, noOrigin]
    rw [agent]
    exact rest

end

theorem filled_written (made : DetectionV1.Detection) : filled (written made) = filled made := by
  simp [filled, written, writtenRule, writtenOrigin]

theorem held_of_readBack (accepted : validateContract platform made = none)
    (agrees : filled (readBack made) = filled made)
    (restored : validateContract platform (readBack made) = none) : Held made := by
  obtain ⟨-, -, -, -, -, -, -, -, -, -, -, -, -, -, counts, tells⟩ :=
    (validateContract_eq_none platform).mp accepted
  obtain ⟨-, -, -, -, -, -, -, -, -, -, eventTime, detectedTime, -, -, counted_back, told_back⟩ :=
    (validateContract_eq_none platform).mp restored
  have aggregation_same := congrArg DetectionV1.Detection.aggregation agrees
  have correlation_same := congrArg DetectionV1.Detection.correlation agrees
  refine ⟨ne_epoch_of_instant eventTime, ne_epoch_of_instant detectedTime, fun counted counted_eq =>
    ?_, fun told told_eq => ?_⟩
  · simp only [Option.mem_def] at counted_eq
    simp only [filled, readBack, counted_eq, Option.map_some, Option.getD_some, Option.some.injEq]
      at aggregation_same counted_back
    rw [counted_eq] at counts
    exact ⟨wholeSeconds_of_filled (aggregation_eq_none platform counts).2.1
        (congrArg DetectionV1.Aggregation.window aggregation_same),
      ne_epoch_of_instant (aggregation_eq_none platform counted_back).2.2⟩
  · simp only [Option.mem_def] at told_eq
    simp only [filled, readBack, told_eq, Option.map_some, Option.getD_some, Option.some.injEq]
      at correlation_same told_back
    rw [told_eq] at tells
    obtain ⟨-, window, spread, nonneg, -⟩ := correlation_eq_none platform tells
    obtain ⟨-, -, -, -, timed⟩ := correlation_eq_none platform told_back
    refine ⟨wholeSeconds_of_filled window
        (congrArg DetectionV1.Correlation.window correlation_same),
      wholeMillis_of_filled spread nonneg
        (congrArg DetectionV1.Correlation.clockSpread correlation_same), fun stage member => ?_⟩
    have stage_timed : instant "correlation.stages.event_time" (storedStage stage).eventTime = none :=
      instant_eq_none.mpr (timed (storedStage stage) (List.mem_map_of_mem member))
    exact ne_epoch_of_instant stage_timed

/-- A detection the contract accepts and the store can hold agrees with what is read back, and is
accepted again, exactly if its windows are whole seconds, its spread is whole milliseconds, none of
its instants is the epoch, and it is not too large with its empty messages written out. -/
theorem restore_project_iff (accepted : validateContract platform made = none)
    (stored : storable (project made) = none) :
    (filled (restore (project made)) = filled made ∧
      validateContract platform (restore (project made)) = none) ↔ Survives platform made := by
  rw [restore_project_of_accepted accepted]
  constructor
  · rintro ⟨agrees, restored⟩
    have held := held_of_readBack accepted agrees restored
    rw [readBack_of_held accepted stored held] at restored
    exact ⟨held, ((validateContract_eq_none platform).mp restored).1⟩
  · intro survives
    rw [readBack_of_held accepted stored survives.toHeld]
    exact ⟨filled_written made, accepted_written accepted survives.weight⟩

/-- What the engine makes of two failed authentications a second apart. -/
def twoFailures (program : Program) : Option DetectionV1.Detection :=
  let first := Analysis.Record.logon "acme" "event-01" 2 63835596800000000000
  let second := Analysis.Record.logon "acme" "event-02" 2 63835596801000000000
  let engine : Analysis.Engine := ⟨.plain, ⟨[program], List.pairwise_singleton _ _⟩⟩
  let held := (engine.detect first (.empty .small)).1
  (engine.detect second held).2.head?.map fun found =>
    found.detected .plain "ruleset-01" second.event second.event.happened

/-- A rule that counts within an hour makes a detection that comes back as it was. -/
theorem restore_hourly :
    (twoFailures .failedLogons).any fun made =>
      filled (restore (project made)) = filled made ∧
        validateContract .plain (restore (project made)) = none := by
  have facts : (twoFailures .failedLogons).any fun made =>
      validateContract .plain made = none ∧ storable (project made) = none ∧
        (instantOf made.eventTime ≠ epoch ∧ instantOf made.detectedTime ≠ epoch ∧
          (∀ counted ∈ made.aggregation, counted.window.map Span.nanos = some 0 ∧
            instantOf counted.firstEventTime ≠ epoch) ∧
          made.correlation = none ∧
          (written made).size Platform.plain.numbering ≤ maxDetectionBytes) := by
    decide +kernel
  obtain ⟨made, made_eq, facts⟩ := (Option.any_eq_true _ _).mp facts
  obtain ⟨accepted, stored, event, detected, counted, told, weight⟩ := of_decide_eq_true facts
  have survives : Survives .plain made := by
    refine ⟨⟨event, detected, fun found found_eq => ⟨?_, (counted found found_eq).2⟩, ?_⟩, weight⟩
    · intro span span_eq
      have nanos := (counted found found_eq).1
      rw [Option.mem_def.mp span_eq] at nanos
      exact Option.some.inj nanos
    · simp [told]
  rw [made_eq, Option.any_some, decide_eq_true_eq]
  exact (restore_project_iff accepted stored).mpr survives

/-- The rule that counts failed authentications, within a second and a half. -/
def briefLogons : Rule := { Rule.failedLogons with count := ⟨2, 1500000000, []⟩ }

def briefProgram : Program := { Program.failedLogons with rule := briefLogons }

/-- A rule that counts within a second and a half compiles, and its detection comes back with a
window of one second. -/
theorem restore_brief :
    briefLogons.compile .plain = .ok briefProgram ∧
      (twoFailures briefProgram).any fun made =>
        validateContract .plain made = none ∧ storable (project made) = none ∧
          made.aggregation.bind DetectionV1.Aggregation.window = some ⟨1, 500000000⟩ ∧
          (restore (project made)).aggregation.bind DetectionV1.Aggregation.window =
            some ⟨1, 0⟩ ∧
          filled (restore (project made)) ≠ filled made := by
  refine ⟨Rule.compile_eq_ok_iff.mpr {
    accepted := validate_eq_none_iff.mp (by rfl)
    rule_eq := rfl
    matching := by rfl
    fields_eq := by rfl
    grouped := by rfl
    light := by decide +kernel }, ?_⟩
  decide +kernel

end Seagull.DetectionStore
