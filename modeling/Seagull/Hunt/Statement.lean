import Seagull.Foundation.SqlText
import Seagull.Hunt.Query

/-!
# The statement a question becomes

A question is written over the columns of its fields: its literals stand in the arguments, never in
the text.  What is read of a dataset, and the key its rows are ordered by, is fixed with the
dataset.
-/

namespace Seagull.Hunt

/-- `huntColumns`. -/
def huntColumns : Dataset → List (String × String)
  | .events =>
    [("event_id", "event_id"),
      ("schema_version", "schema_version"),
      ("event_class", "event_class"),
      ("time.event_time", "event_time"),
      ("time.observed_time", "observed_time"),
      ("reception.ingest_time", "ingest_time"),
      ("reception.gateway", "gateway"),
      ("reception.batch_id", "batch_id"),
      ("origin.tenant_id", "tenant_id"),
      ("origin.agent_id", "agent_id"),
      ("origin.host.hostname", "host_hostname"),
      ("origin.host.ip", "host_ip"),
      ("origin.host.os", "host_os"),
      ("origin.host.architecture", "host_architecture"),
      ("collection.collector", "collector"),
      ("collection.source", "source"),
      ("collection.sequence", "sequence"),
      ("authentication.activity", "auth_activity"),
      ("authentication.outcome", "auth_outcome"),
      ("authentication.outcome_reason", "auth_outcome_reason"),
      ("authentication.method", "auth_method"),
      ("authentication.user.name", "auth_user_name"),
      ("authentication.user.domain", "auth_user_domain"),
      ("authentication.user.uid", "auth_user_uid"),
      ("authentication.service.name", "auth_service_name"),
      ("authentication.service.protocol", "auth_service_protocol"),
      ("authentication.network.source.ip", "auth_source_ip"),
      ("authentication.network.source.port", "auth_source_port"),
      ("authentication.network.destination.ip", "auth_destination_ip"),
      ("authentication.network.destination.port", "auth_destination_port"),
      ("authentication.network.transport", "auth_transport"),
      ("authentication.raw_record", "auth_raw_record")]
  | .detections =>
    [("detection_id", "detection_id"),
      ("schema_version", "schema_version"),
      ("rule.id", "rule_id"),
      ("rule.revision", "rule_revision"),
      ("rule.name", "rule_name"),
      ("rule.source.catalogue", "rule_source_catalogue"),
      ("rule.source.identifier", "rule_source_identifier"),
      ("ruleset_id", "ruleset_id"),
      ("severity", "severity"),
      ("technique.tactic", "technique_tactic"),
      ("technique.id", "technique_id"),
      ("technique.name", "technique_name"),
      ("event_class", "event_class"),
      ("origin.tenant_id", "tenant_id"),
      ("origin.agent_id", "agent_id"),
      ("origin.host.hostname", "host_hostname"),
      ("origin.host.ip", "host_ip"),
      ("origin.host.os", "host_os"),
      ("origin.host.architecture", "host_architecture"),
      ("source_event_ids", "source_event_ids"),
      ("event_time", "event_time"),
      ("detected_time", "detected_time"),
      ("evidence.field", "evidence_field"),
      ("evidence.operator", "evidence_operator"),
      ("evidence.negated", "evidence_negated"),
      ("evidence.held", "evidence_held"),
      ("evidence.absent", "evidence_absent"),
      ("aggregation.count", "aggregation_count"),
      ("aggregation.threshold", "aggregation_threshold"),
      ("aggregation.first_event_time", "aggregation_first_event_time"),
      ("aggregation.saturated", "aggregation_saturated"),
      ("aggregation.group.field", "aggregation_group_field"),
      ("aggregation.group.value", "aggregation_group_value"),
      ("aggregation.group.absent", "aggregation_group_absent"),
      ("correlation.stages.name", "correlation_stage_name"),
      ("correlation.stages.event_id", "correlation_stage_event_id"),
      ("correlation.stages.event_time", "correlation_stage_event_time"),
      ("correlation.stages.agent_id", "correlation_stage_agent_id"),
      ("correlation.group.field", "correlation_group_field"),
      ("correlation.group.value", "correlation_group_value"),
      ("correlation.group.absent", "correlation_group_absent")]

def columnOf (dataset : Dataset) (field : String) : Option String :=
  (huntColumns dataset).lookup field

/-- What a dataset is read out of, and the key its rows are ordered by. -/
structure HuntTable where
  table : String
  columns : List String
  instant : String
  names : List String

/-- `storedColumns`. -/
def storedColumns : List String :=
  ["event_id", "schema_version", "event_class", "event_time", "observed_time", "ingest_time",
    "tenant_id", "agent_id", "host_hostname", "host_ip", "host_os", "host_architecture",
    "collector", "source", "sequence", "gateway", "batch_id", "auth_activity", "auth_outcome",
    "auth_outcome_reason", "auth_method", "auth_user_name", "auth_user_domain", "auth_user_uid",
    "auth_service_name", "auth_service_protocol", "auth_source_ip", "auth_source_port",
    "auth_destination_ip", "auth_destination_port", "auth_transport", "auth_raw_record"]

/-- `detectionColumns`. -/
def detectionColumns : List String :=
  ["detection_id", "schema_version", "rule_id", "rule_revision", "rule_name",
    "rule_source_catalogue", "rule_source_identifier", "ruleset_id", "severity",
    "technique_tactic", "technique_id", "technique_name", "event_class", "tenant_id", "agent_id",
    "host_hostname", "host_ip", "host_os", "host_architecture", "source_event_ids", "event_time",
    "detected_time", "evidence_field", "evidence_operator", "evidence_negated", "evidence_held",
    "evidence_absent", "aggregation_count", "aggregation_threshold",
    "aggregation_window_seconds", "aggregation_first_event_time", "aggregation_saturated",
    "aggregation_group_field", "aggregation_group_value", "aggregation_group_absent",
    "correlation_window_seconds", "correlation_clock_spread_millis", "correlation_stage_name",
    "correlation_stage_event_id", "correlation_stage_event_time", "correlation_stage_agent_id",
    "correlation_group_field", "correlation_group_value", "correlation_group_absent"]

/-- `huntTables`. -/
def huntTables : Dataset → HuntTable
  | .events => ⟨"security_events", storedColumns, "event_time", ["agent_id", "event_id"]⟩
  | .detections => ⟨"security_detections", detectionColumns, "event_time", ["detection_id"]⟩

/-- `agreesWithVocabulary`: why the columns do not agree with the contract. -/
def agreesWithVocabulary (vocabulary : Vocabulary) : Option String :=
  datasets.findSome? fun dataset =>
    let read := huntTables dataset
    ((read.instant :: read.names).findSome? fun name =>
      if name ∈ read.columns then none
      else some (dataset.written ++ " is ordered by " ++ name ++ ", which " ++ read.table ++
        " does not have")) <|>
    ((vocabulary dataset).findSome? fun (field, _) =>
      match columnOf dataset field with
      | none => some (dataset.written ++ " carries " ++ field ++
          " and the store names no column for it")
      | some column =>
        if column ∈ read.columns then none
        else some (dataset.written ++ "." ++ field ++ " is read from " ++ column ++ ", which " ++
          read.table ++ " does not have")) <|>
    (if (huntColumns dataset).length = (vocabulary dataset).length then none
      else some (dataset.written ++ " names " ++ toString (huntColumns dataset).length ++
        " columns and the contract declares " ++ toString (vocabulary dataset).length ++ " fields"))

/-- `instantPlaceholder`. -/
def instantPlaceholder : String := "fromUnixTimestamp64Milli(?, 'UTC')"

/-- `placeholder`. -/
def placeholder : Kind → String
  | .instant => instantPlaceholder
  | _ => "?"

/-- `strings.Repeat`. -/
def repeated (text : String) (count : ℕ) : String := String.join (List.replicate count text)

/-- `strings.TrimSuffix`. -/
def trimSuffix (text ending : String) : String :=
  if ending.toList.isSuffixOf text.toList then
    String.ofList (text.toList.take (text.toList.length - ending.toList.length))
  else text

/-- `placeholders`. -/
def placeholders (count : ℕ) : String :=
  if count = 0 then "NULL" else trimSuffix (repeated "?, " count) ", "

/-- The argument a literal is bound as. -/
def bindOne : Value → Sql.Scalar
  | .whole number => .number (.finite number)
  | .float bits => .number (numberOf bits)
  | .truth holds => .truth holds
  | .instant moment => .number (.finite (unixMilli moment))
  | .text letters | .choice letters => .text letters

/-- `bind`. -/
def bind (values : List Value) : List Sql.Scalar := values.map bindOne

/-- A text with placeholders, and the arguments they stand for. -/
structure Clause where
  text : String
  arguments : List Sql.Scalar

/-- `carries`. -/
def carries (column : String) (asked : Predicate) : Clause :=
  ⟨"(" ++ String.intercalate " OR " (asked.values.map fun _ => "has(" ++ column ++ ", ?)") ++ ")",
    bind asked.values⟩

/-- `present`. -/
def present (column : String) (kind : Kind) (repeated : Bool) : Clause :=
  if repeated then ⟨"notEmpty(" ++ column ++ ")", []⟩
  else match kind with
    | .number => ⟨column ++ " != 0", []⟩
    | .truth => ⟨column ++ " = true", []⟩
    | .instant => ⟨column ++ " != " ++ instantPlaceholder, [.number (.finite 0)]⟩
    | _ => ⟨column ++ " != ''", []⟩

/-- `predicate`: what a predicate asks of its column. -/
def asksOf (vocabulary : Vocabulary) (dataset : Dataset) (asked : Predicate) :
    Except String Clause :=
  match columnOf dataset asked.field with
  | none => .error ("the store keeps no column for " ++ asked.field)
  | some column =>
    let held := (lookup vocabulary dataset asked.field).getD ⟨.text, false, []⟩
    if asked.operator = .present then .ok (present column held.kind held.repeated)
    else if held.repeated then .ok (carries column asked)
    else
      let bound := bind asked.values
      match asked.operator with
      | .equals => .ok ⟨column ++ " = " ++ placeholder held.kind, bound⟩
      | .oneOf => .ok ⟨column ++ " IN (" ++ placeholders asked.values.length ++ ")", bound⟩
      | .contains => .ok ⟨"position(" ++ column ++ ", ?) > 0", bound⟩
      | .startsWith => .ok ⟨"startsWith(" ++ column ++ ", ?)", bound⟩
      | .endsWith => .ok ⟨"endsWith(" ++ column ++ ", ?)", bound⟩
      | .above => .ok ⟨column ++ " > " ++ placeholder held.kind, bound⟩
      | .atLeast => .ok ⟨column ++ " >= " ++ placeholder held.kind, bound⟩
      | .below => .ok ⟨column ++ " < " ++ placeholder held.kind, bound⟩
      | .atMost => .ok ⟨column ++ " <= " ++ placeholder held.kind, bound⟩
      | .present => .error ("the store cannot ask " ++ asked.operator.written ++ " of " ++
          asked.field)

mutual

/-- `condition`. -/
def condition (vocabulary : Vocabulary) (dataset : Dataset) : Expression → Except String Clause
  | .predicate asked => asksOf vocabulary dataset asked
  | .all terms => do
      let clauses ← conditions vocabulary dataset terms
      .ok ⟨"(" ++ String.intercalate " AND " (clauses.map Clause.text) ++ ")",
        clauses.flatMap Clause.arguments⟩
  | .any terms => do
      let clauses ← conditions vocabulary dataset terms
      .ok ⟨"(" ++ String.intercalate " OR " (clauses.map Clause.text) ++ ")",
        clauses.flatMap Clause.arguments⟩
  | .not term => do
      let clause ← condition vocabulary dataset term
      .ok ⟨"NOT " ++ clause.text, clause.arguments⟩

/-- `group`, up to what its terms are joined by. -/
def conditions (vocabulary : Vocabulary) (dataset : Dataset) :
    List Expression → Except String (List Clause)
  | [] => .ok []
  | term :: terms => do
      let clause ← condition vocabulary dataset term
      let clauses ← conditions vocabulary dataset terms
      .ok (clause :: clauses)

end

def inScope (scope : Scope) : Clause :=
  ⟨"tenant_id IN (" ++ placeholders scope.tenants.length ++ ")", scope.tenants.map Sql.Scalar.text⟩

def inWindow (table : HuntTable) (window : TimeRange) : Clause :=
  ⟨table.instant ++ " >= " ++ instantPlaceholder ++ " AND " ++ table.instant ++ " < " ++
      instantPlaceholder,
    [.number (.finite (unixMilli window.start)), .number (.finite (unixMilli window.stop))]⟩

/-- The condition on where a page starts. -/
def behind (table : HuntTable) (after : After) : Clause :=
  ⟨"(" ++ table.instant ++ ", " ++ String.intercalate ", " table.names ++ ") < (" ++
      instantPlaceholder ++ repeated ", ?" table.names.length ++ ")",
    .number (.finite (unixMilli after.time)) :: after.names.map Sql.Scalar.text⟩

/-- A statement: what it reads, which of it, in which order and how much. -/
structure Statement where
  columns : List String
  table : String
  condition : Clause
  order : List String
  limit : ℤ

/-- The condition on where a page starts, if it does not start at the top. -/
def resumed (query : Query) : Except String (List Clause) :=
  match query.after with
  | none => .ok []
  | some after =>
    if after.names.length = (huntTables query.dataset).names.length then
      .ok [behind (huntTables query.dataset) after]
    else .error ("a position in " ++ query.dataset.written ++ " names " ++
      toString after.names.length ++ " keys and its table is sorted by " ++
      toString (huntTables query.dataset).names.length)

def filtered (vocabulary : Vocabulary) (query : Query) : Except String (List Clause) :=
  match query.filter with
  | none => .ok []
  | some filter => do
      let clause ← condition vocabulary query.dataset filter
      .ok [clause]

/-- `compile`. -/
def statementOf (vocabulary : Vocabulary) (query : Query) : Except String Statement := do
  let resumed ← resumed query
  let filtered ← filtered vocabulary query
  let table := huntTables query.dataset
  let clauses := [inScope query.scope, inWindow table query.window] ++ (resumed ++ filtered)
  .ok ⟨table.columns, table.table,
    ⟨String.intercalate " AND " (clauses.map Clause.text), clauses.flatMap Clause.arguments⟩,
    table.instant :: table.names, query.limit⟩

end Seagull.Hunt
