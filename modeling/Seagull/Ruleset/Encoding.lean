import Seagull.Contract.Ruleset
import Seagull.Detection.Check
import Seagull.Foundation.Checked

/-!
# Rules as they travel

A rule and its cases are written into messages and read back.  A number that stands for none of the
values of an enumeration is refused.
-/

namespace Seagull.Ruleset

open Contract Detection

/-- The number a severity travels as; none for a text that is no severity. -/
def encodeSeverity : Severity → DetectionV1.Severity
  | .low => .low
  | .medium => .medium
  | .high => .high
  | .critical => .critical
  | .undeclared _ => .unspecified

def decodeSeverity : DetectionV1.Severity → Option Severity
  | .low => some .low
  | .medium => some .medium
  | .high => some .high
  | .critical => some .critical
  | _ => none

/-- The number a status travels as; none for a text that is no status. -/
def encodeStatus : Detection.Status → RulesetV1.Status
  | .draft => .draft
  | .active => .active
  | .disabled => .disabled
  | .deprecated => .deprecated
  | .undeclared _ => .unspecified

def decodeStatus : RulesetV1.Status → Option Detection.Status
  | .draft => some .draft
  | .active => some .active
  | .disabled => some .disabled
  | .deprecated => some .deprecated
  | _ => none

/-- The number an expectation travels as, if it is one. -/
def encodeExpectation : Expectation → RulesetV1.Expectation
  | .matching => .matching
  | .doesNotMatch => .noMatch
  | .undeclared _ => .unspecified

def decodeExpectation : RulesetV1.Expectation → Option Expectation
  | .matching => some .matching
  | .noMatch => some .doesNotMatch
  | _ => none

def readOperator : String → Operator
  | "equals" => .equals
  | "one_of" => .oneOf
  | "contains" => .contains
  | "starts_with" => .startsWith
  | "ends_with" => .endsWith
  | "above" => .above
  | "at_least" => .atLeast
  | "below" => .below
  | "at_most" => .atMost
  | "present" => .present
  | written => .undeclared written

/-- A literal.  The zero one travels as empty text. -/
def encodeValue : Value → RulesetV1.Value
  | .number number => .number number
  | .truth truth => .truth truth
  | .text text => .text text
  | .unset => .text ""

def decodeValue : RulesetV1.Value → Except String Value
  | .text text => .ok (.text text)
  | .number number => .ok (.number number)
  | .truth truth => .ok (.truth truth)
  | .unset => .error "a literal carries no value this build can read"

mutual

def encodeExpression : Expression → RulesetV1.Expression
  | .predicate field operator values =>
    .predicate field operator.written (values.map encodeValue)
  | .all terms => .all (encodeTerms terms)
  | .any terms => .any (encodeTerms terms)
  | .not term => .negated (encodeExpression term)
  | .absent => .unset

def encodeTerms : List Expression → List RulesetV1.Expression
  | [] => []
  | term :: terms => encodeExpression term :: encodeTerms terms

end

mutual

def decodeExpression : RulesetV1.Expression → Except String Expression
  | .predicate field operator values => do
      let read ← values.mapM decodeValue
      return .predicate field (readOperator operator) read
  | .all terms => do return .all (← decodeTerms terms)
  | .any terms => do return .any (← decodeTerms terms)
  | .negated term => do return .not (← decodeExpression term)
  | .unset => .error "an expression carries no term this build can read"

def decodeTerms : List RulesetV1.Expression → Except String (List Expression)
  | [] => .ok []
  | term :: terms => do
      let read ← decodeExpression term
      let rest ← decodeTerms terms
      return read :: rest

end

/-- The duration of a message; an unset one is none. -/
def durationOf (span : Option Span) : ℤ := (span.map Span.asDuration).getD 0

def encodeCount (count : Count) : Option RulesetV1.Count :=
  if count.counts then
    some ⟨uint32 count.atLeast, some (Span.new count.within), count.groupBy⟩
  else none

def decodeCount : Option RulesetV1.Count → Count
  | none => .none
  | some encoded => ⟨encoded.atLeast, durationOf encoded.within, encoded.groupBy⟩

def encodeSequence (sequence : Sequence) : Option RulesetV1.Sequence :=
  if sequence.correlates then
    some {
      within := some (Span.new sequence.within)
      stages := sequence.stages.map fun stage => ⟨stage.name, encodeExpression stage.asks⟩
      groupBy := sequence.groupBy }
  else none

def decodeStage (platform : Platform) (stage : RulesetV1.Stage) : Except String Stage :=
  match decodeExpression stage.asks with
  | .error refused =>
    .error ("stage " ++ Quote.quote platform.isPrint stage.name ++ ": " ++ refused)
  | .ok asks => .ok ⟨stage.name, asks⟩

/-- The sequence of a message; an unset one orders nothing. -/
def decodeSequence (platform : Platform) : Option RulesetV1.Sequence → Except String Sequence
  | none => .ok .none
  | some encoded => do
      let stages ← encoded.stages.mapM (decodeStage platform)
      return ⟨stages, durationOf encoded.within, encoded.groupBy⟩

def encodeCase (subject : Case) : RulesetV1.Case where
  name := subject.name
  description := subject.description
  expect := encodeExpectation subject.expect
  event := subject.event.mapValues encodeValue
  evidence := subject.evidence
  severity := encodeSeverity subject.severity

def decodeAskedSeverity (encoded : DetectionV1.Severity) : Option Severity :=
  if encoded = .unspecified then some .unset else decodeSeverity encoded

def decodeCase (platform : Platform) (encoded : RulesetV1.Case) : Except String Case :=
  let named := "case " ++ Quote.quote platform.isPrint encoded.name
  match decodeExpectation encoded.expect with
  | none => .error (named ++ " expects something this build does not declare")
  | some expect =>
    match decodeAskedSeverity encoded.severity with
    | none => .error (named ++ " carries a severity this build does not declare")
    | some severity =>
      match encoded.event.traverse decodeValue with
      | .error refused => .error (named ++ ": " ++ refused)
      | .ok event =>
        .ok ⟨encoded.name, encoded.description, expect, event, encoded.evidence, severity⟩

/-- What a rule matches with, if it is written without a sequence. -/
def encodeAsked : Expression → Option RulesetV1.Expression
  | .absent => none
  | expression => some (encodeExpression expression)

/-- What a message matches with; an unset one matches with nothing. -/
def decodeAsked : Option RulesetV1.Expression → Except String Expression
  | none => .ok .absent
  | some encoded => decodeExpression encoded

/-- The technique of a rule that attributes itself to one. -/
def encodeTechnique (technique : Technique) : Option DetectionV1.Technique :=
  if technique.empty then none else some ⟨technique.tactic, technique.id, technique.name⟩

def encodeSource (source : Source) : Option DetectionV1.Source :=
  if source.empty then none else some ⟨source.catalogue, source.identifier⟩

def encodeRule (rule : Rule) (cases : List Case) : RulesetV1.Rule where
  id := rule.id
  revision := uint32 rule.revision
  name := rule.name
  description := rule.description
  eventClass := rule.eventClass
  asks := encodeAsked rule.asks
  sequence := encodeSequence rule.sequence
  severity := encodeSeverity rule.severity
  status := encodeStatus rule.status
  technique := encodeTechnique rule.technique
  falsePositives := rule.falsePositives
  response := rule.response
  source := encodeSource rule.source
  tags := rule.tags
  references := rule.references
  count := encodeCount rule.count
  cases := cases.map encodeCase

def decodeTechnique (encoded : Option DetectionV1.Technique) : Technique :=
  match encoded with
  | none => ⟨"", "", ""⟩
  | some technique => ⟨technique.tactic, technique.id, technique.name⟩

def decodeSource (encoded : Option DetectionV1.Source) : Source :=
  match encoded with
  | none => ⟨"", ""⟩
  | some source => ⟨source.catalogue, source.identifier⟩

def decodeRule (platform : Platform) : Option RulesetV1.Rule → Except String (Rule × List Case)
  | none => .error "a ruleset holds rules and one of them is nothing"
  | some encoded =>
    let named := "rule " ++ Quote.quote platform.isPrint encoded.id
    match decodeSeverity encoded.severity with
    | none => .error (named ++ " carries a severity this build does not declare")
    | some severity =>
      match decodeStatus encoded.status with
      | none => .error (named ++ " carries a status this build does not declare")
      | some status =>
        match (do
          let asks ← decodeAsked encoded.asks
          let sequence ← decodeSequence platform encoded.sequence
          let cases ← encoded.cases.mapM (decodeCase platform)
          return (asks, sequence, cases) : Except String _) with
        | .error refused => .error (named ++ ": " ++ refused)
        | .ok (asks, sequence, cases) =>
          .ok ({
            id := encoded.id
            revision := encoded.revision
            name := encoded.name
            description := encoded.description
            eventClass := encoded.eventClass
            asks := asks
            count := decodeCount encoded.count
            sequence := sequence
            severity := severity
            status := status
            technique := decodeTechnique encoded.technique
            falsePositives := encoded.falsePositives
            response := encoded.response
            source := decodeSource encoded.source
            tags := encoded.tags
            references := encoded.references }, cases)

section RoundTrip

variable {platform : Platform}

theorem decodeSeverity_encodeSeverity {severity : Severity}
    (declared : Rule.declaresSeverity severity = true) :
    decodeSeverity (encodeSeverity severity) = some severity := by
  cases severity with
  | undeclared written => cases declared
  | _ => rfl

theorem decodeStatus_encodeStatus {status : Detection.Status}
    (declared : Rule.declaresStatus status = true) :
    decodeStatus (encodeStatus status) = some status := by
  cases status with
  | undeclared written => cases declared
  | _ => rfl

theorem decodeExpectation_encodeExpectation {expect : Expectation}
    (declared : expect.declared = true) :
    decodeExpectation (encodeExpectation expect) = some expect := by
  cases expect with
  | undeclared written => cases declared
  | _ => rfl

theorem readOperator_written {operator : Operator} (known : operator.known = true) :
    readOperator operator.written = operator := by
  cases operator with
  | undeclared written => cases known
  | _ => rfl

theorem decodeValue_encodeValue {value : Value} (literal : value ≠ .unset) :
    decodeValue (encodeValue value) = .ok value := by
  cases value with
  | unset => exact absurd rfl literal
  | _ => rfl

theorem decodeTerms_encodeTerms {terms : List Expression}
    (each : ∀ term ∈ terms, decodeExpression (encodeExpression term) = .ok term) :
    decodeTerms (encodeTerms terms) = .ok terms := by
  induction terms with
  | nil => rfl
  | cons term terms ih =>
    obtain ⟨first, later⟩ := List.forall_mem_cons.mp each
    rw [encodeTerms, decodeTerms, first, ih later]
    rfl

variable {eventClass : EventClass}

theorem decodeExpression_encodeExpression {expression : Expression} {depth : ℕ}
    (formed : WellFormed platform eventClass expression depth) :
    decodeExpression (encodeExpression expression) = .ok expression := by
  induction formed with
  | @predicate field operator values depth shallow kind asked =>
    have literals : (values.map encodeValue).mapM decodeValue = .ok values :=
      mapM_map_eq_ok fun value member => decodeValue_encodeValue fun unset => by
        have fits := asked.fit value member
        rw [unset] at fits
        cases kind <;> cases fits
    rw [encodeExpression, decodeExpression, literals, readOperator_written asked.known]
    rfl
  | not shallow inner ih =>
    rw [encodeExpression, decodeExpression, ih]
    rfl
  | all _ _ _ ih | any _ _ _ ih =>
    rw [encodeExpression, decodeExpression, decodeTerms_encodeTerms ih]
    rfl

theorem decodeAsked_encodeAsked {expression : Expression} {depth : ℕ}
    (formed : WellFormed platform eventClass expression depth) :
    decodeAsked (encodeAsked expression) = .ok expression := by
  have written : encodeAsked expression = some (encodeExpression expression) := by
    cases formed <;> rfl
  rw [written, decodeAsked, decodeExpression_encodeExpression formed]

theorem durationOf_new {duration : ℤ} (positive : 0 < duration) (bounded : duration ≤ maxWithin) :
    durationOf (some (Span.new duration)) = duration := by
  have lower : Duration.shortest ≤ duration := by
    unfold Duration.shortest
    omega
  have upper : duration ≤ Duration.longest := by
    unfold Duration.longest
    unfold maxWithin Duration.hour Duration.second at bounded
    omega
  exact (Span.new_names lower upper).2

theorem uint32_of_lt {number : ℤ} (nonneg : 0 ≤ number) (small : number < 2 ^ 32) :
    ((uint32 number : ℕ) : ℤ) = number := by
  rw [uint32, Int.emod_eq_of_lt nonneg small, Int.toNat_of_nonneg nonneg]

theorem decodeCount_encodeCount {count : Count}
    (accepted : count.counts = true → count.Accepted eventClass) :
    decodeCount (encodeCount count) = count := by
  cases counting : count.counts with
  | false =>
    simp only [Count.counts, Bool.not_eq_false', Bool.and_eq_true, beq_iff_eq,
      List.isEmpty_iff] at counting
    obtain ⟨⟨no_threshold, no_window⟩, no_group⟩ := counting
    obtain ⟨atLeast, within, groupBy⟩ := count
    subst no_threshold no_window no_group
    rfl
  | true =>
    have held := accepted counting
    have small : ((uint32 count.atLeast : ℕ) : ℤ) = count.atLeast := by
      have lower := held.atLeast_ge
      have upper := held.atLeast_le
      unfold minCount at lower
      unfold maxCount at upper
      exact uint32_of_lt (by omega) (by omega)
    rw [encodeCount, if_pos counting, decodeCount, small,
      durationOf_new held.within_pos held.within_le]

theorem decodeSequence_encodeSequence {sequence : Sequence}
    (accepted : sequence.correlates = true → sequence.Accepted platform eventClass) :
    decodeSequence platform (encodeSequence sequence) = .ok sequence := by
  cases ordering : sequence.correlates with
  | false =>
    simp only [Sequence.correlates, Bool.or_eq_false_iff, Bool.not_eq_false', List.isEmpty_iff,
      bne_eq_false_iff_eq] at ordering
    obtain ⟨⟨no_stages, no_window⟩, no_group⟩ := ordering
    obtain ⟨stages, within, groupBy⟩ := sequence
    subst no_stages no_window no_group
    rfl
  | true =>
    have held := accepted ordering
    have stages_back : (sequence.stages.map fun stage =>
        (⟨stage.name, encodeExpression stage.asks⟩ : RulesetV1.Stage)).mapM
          (decodeStage platform) = .ok sequence.stages := by
      refine mapM_map_eq_ok fun stage member => ?_
      rw [decodeStage, decodeExpression_encodeExpression (held.asked stage member)]
    rw [encodeSequence, if_pos ordering, decodeSequence, stages_back,
      durationOf_new held.within_pos held.within_le]
    rfl

theorem decodeCase_encodeCase {rule : Rule} {part : String} {subject : Case}
    (accepted : rule.accepts platform part subject = none) :
    decodeCase platform (encodeCase subject) = .ok subject := by
  obtain ⟨expects, literals, asked⟩ := of_accepts accepted
  have severity_back :
      decodeAskedSeverity (encodeSeverity subject.severity) = some subject.severity := by
    by_cases unset : subject.severity = .unset
    · rw [unset]
      rfl
    · have declared := asked unset
      have written : encodeSeverity subject.severity ≠ .unspecified := by
        intro unspecified
        have back := decodeSeverity_encodeSeverity declared
        rw [unspecified] at back
        cases back
      rw [decodeAskedSeverity, if_neg written, decodeSeverity_encodeSeverity declared]
  have event_back :
      (subject.event.mapValues encodeValue).traverse decodeValue = .ok subject.event :=
    FiniteMap.traverse_mapValues fun entry member =>
      decodeValue_encodeValue (literals entry member)
  simp only [decodeCase, encodeCase, decodeExpectation_encodeExpectation expects, severity_back,
    event_back]

theorem decodeTechnique_encodeTechnique (technique : Technique) :
    decodeTechnique (encodeTechnique technique) = technique := by
  obtain ⟨tactic, id, name⟩ := technique
  unfold encodeTechnique
  split
  · rename_i empty
    simp only [Technique.empty, Bool.and_eq_true, beq_iff_eq] at empty
    obtain ⟨⟨rfl, rfl⟩, rfl⟩ := empty
    rfl
  · rfl

theorem decodeSource_encodeSource (source : Source) :
    decodeSource (encodeSource source) = source := by
  obtain ⟨catalogue, identifier⟩ := source
  unfold encodeSource
  split
  · rename_i empty
    simp only [Source.empty, Bool.and_eq_true, beq_iff_eq] at empty
    obtain ⟨rfl, rfl⟩ := empty
    rfl
  · rfl

theorem decodeRule_encodeRule {rule : Rule} (accepted : rule.Accepted platform) {cases : List Case}
    (cases_accepted : ∀ subject ∈ cases, ∃ part, rule.accepts platform part subject = none) :
    decodeRule platform (some (encodeRule rule cases)) = .ok (rule, cases) := by
  have cases_back : (cases.map encodeCase).mapM (decodeCase platform) = .ok cases := by
    refine mapM_map_eq_ok fun subject member => ?_
    obtain ⟨part, held⟩ := cases_accepted subject member
    exact decodeCase_encodeCase held
  have asked_back : decodeAsked (encodeAsked rule.asks) = .ok rule.asks := by
    cases ordering : rule.sequence.correlates with
    | true =>
      rw [(accepted.alone ordering).1]
      rfl
    | false => exact decodeAsked_encodeAsked (accepted.asked ordering)
  have revision_back : ((uint32 rule.revision : ℕ) : ℤ) = rule.revision :=
    uint32_of_lt (le_trans (by decide) accepted.revision_ge) accepted.revision_lt
  have parts_back : (do
      let asks ← decodeAsked (encodeAsked rule.asks)
      let sequence ← decodeSequence platform (encodeSequence rule.sequence)
      let cases ← (cases.map encodeCase).mapM (decodeCase platform)
      return (asks, sequence, cases) : Except String _) =
        .ok (rule.asks, rule.sequence, cases) := by
    rw [asked_back, decodeSequence_encodeSequence accepted.sequence, cases_back]
    rfl
  simp only [decodeRule, encodeRule, decodeSeverity_encodeSeverity accepted.severity,
    decodeStatus_encodeStatus accepted.status, parts_back, revision_back,
    decodeCount_encodeCount accepted.count, decodeTechnique_encodeTechnique,
    decodeSource_encodeSource]

end RoundTrip
end Seagull.Ruleset
