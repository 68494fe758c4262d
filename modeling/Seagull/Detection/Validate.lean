import Seagull.Detection.Vocabulary
import Seagull.Foundation.Quote
import Seagull.Foundation.Text

/-!
# Whether the platform can run a rule at all

Everything here is decided from the rule and the contract.  A refusal names the part of the rule that
is wrong; the first one found is the one given.
-/

namespace Seagull.Detection

open Contract Text

def Kind.written : Kind → String
  | .text => "text"
  | .number => "number"
  | .truth => "truth"
  | .choice => "choice"

namespace Operator

def accepts : Operator → List Kind
  | .equals => [.text, .number, .truth, .choice]
  | .oneOf => [.text, .number, .choice]
  | .contains | .startsWith | .endsWith => [.text]
  | .above | .atLeast | .below | .atMost => [.number]
  | .present => [.text, .number, .truth, .choice]
  | .undeclared _ => []

/-- How many literals an operator reads; at most zero is no ceiling. -/
def takes : Operator → ℕ × ℕ
  | .present => (0, 0)
  | .oneOf => (1, 0)
  | _ => (1, 1)

def asks (operator : Operator) (kind : Kind) : Bool := kind ∈ operator.accepts

def known : Operator → Bool
  | .undeclared _ => false
  | _ => true

end Operator

namespace Value

/-- Whether a literal can answer a question about a kind of field. -/
def fits : Value → Kind → Bool
  | .text _, .text | .text _, .choice => true
  | .number _, .number => true
  | .truth _, .truth => true
  | _, _ => false

def textOf : Value → String
  | .text held => held
  | _ => ""

def numberOf : Value → Float64
  | .number held => held
  | _ => .finite 0

/-- A literal as a rule writes it. -/
def written (platform : Platform) : Value → String
  | .number held => platform.formatFloat held
  | .truth held => toString held
  | value => Quote.quote platform.isPrint value.textOf

end Value

def isWordLetter (letter : Char) : Bool := isLower letter || isDigit letter

def isWords : List Char → Bool
  | [] => true
  | [letter] => isWordLetter letter
  | letter :: next :: letters =>
    if letter = '.' ∨ letter = '_' then isWordLetter next && isWords letters
    else isWordLetter letter && isWords (next :: letters)

/-- `^[a-z][a-z0-9]*([._][a-z0-9]+)*$` -/
def isIdentifier (text : String) : Bool :=
  match text.toList with
  | [] => false
  | first :: rest => isLower first && isWords rest

/-- `[._]v\d+$` -/
def isVersioned (text : String) : Bool :=
  match text.toList.reverse with
  | last :: rest =>
    isDigit last &&
      match rest.dropWhile isDigit with
      | 'v' :: mark :: _ => mark == '.' || mark == '_'
      | _ => false
  | [] => false

/-- `^T\d{4}(\.\d{3})?$` -/
def isTechnique (text : String) : Bool :=
  match text.toList with
  | ['T', a, b, c, d] => [a, b, c, d].all isDigit
  | ['T', a, b, c, d, '.', e, f, g] => [a, b, c, d, e, f, g].all isDigit
  | _ => false

def tactics : List String :=
  ["reconnaissance", "resource_development", "initial_access", "execution", "persistence",
    "privilege_escalation", "defense_evasion", "credential_access", "discovery",
    "lateral_movement", "collection", "command_and_control", "exfiltration", "impact"]

/-- What is wrong with a rule, and which part of it. -/
structure Violation where
  rule : String
  part : String
  reason : String

def Violation.written (platform : Platform) (violation : Violation) : String :=
  if violation.rule = "" then violation.part ++ " " ++ violation.reason
  else
    "rule " ++ Quote.quote platform.isPrint violation.rule ++ ": " ++ violation.part ++ " " ++
      violation.reason

def classField : Field := "event_class"

def tenantField : Field := "origin.tenant_id"

def identityField : Field := "event_id"

namespace Rule

def violation (rule : Rule) (part reason : String) : Violation := ⟨rule.id, part, reason⟩

def refuse (rule : Rule) (wrong : Prop) [Decidable wrong] (part reason : String) :
    Option Violation :=
  if wrong then some (rule.violation part reason) else none

/-- A text of a rule, held to a ceiling and to being there if required. -/
def text (rule : Rule) (part value : String) (ceiling : ℕ) (required : Bool) : Option Violation :=
  if isBlank value ∧ required then some (rule.violation part "is missing")
  else rule.refuse (ceiling < value.utf8ByteSize) part
    ("is longer than " ++ toString ceiling ++ " characters")

def validateTechnique (platform : Platform) (rule : Rule) : Option Violation :=
  if rule.technique.empty then none
  else
    rule.refuse (rule.technique.tactic = "" ∨ rule.technique.id = "" ∨ rule.technique.name = "")
      "technique" "needs a tactic, an id and a name, or none of the three" <|>
    rule.refuse (rule.technique.tactic ∉ tactics) "technique.tactic"
      ("is " ++ Quote.quote platform.isPrint rule.technique.tactic ++
        ", which is not an ATT&CK enterprise tactic") <|>
    rule.refuse (isTechnique rule.technique.id = false) "technique.id"
      ("is " ++ Quote.quote platform.isPrint rule.technique.id ++
        " and should read like T1110 or T1110.001") <|>
    rule.text "technique.name" rule.technique.name maxNameLength true

def validateSource (platform : Platform) (rule : Rule) : Option Violation :=
  if rule.source.empty then none
  else
    rule.refuse (rule.source.catalogue = "" ∨ rule.source.identifier = "") "source"
      "needs a catalogue and an identifier, or neither" <|>
    rule.refuse (isIdentifier rule.source.catalogue = false ∨
        maxIDLength < rule.source.catalogue.utf8ByteSize) "source.catalogue"
      ("is " ++ Quote.quote platform.isPrint rule.source.catalogue ++
        " and must be lowercase words joined by . or _, up to " ++ toString maxIDLength ++
        " characters") <|>
    rule.text "source.identifier" rule.source.identifier maxNameLength true

def validateTagsFrom (platform : Platform) (rule : Rule) :
    List String → List String → ℕ → Option Violation
  | [], _, _ => none
  | tag :: tags, carried, index =>
    rule.refuse (isIdentifier tag = false ∨ maxIDLength < tag.utf8ByteSize)
      (indexed "tags" index)
      ("is " ++ Quote.quote platform.isPrint tag ++
        " and must be lowercase words joined by . or _, up to " ++ toString maxIDLength ++
        " characters") <|>
    rule.refuse (tag ∈ carried) (indexed "tags" index)
      ("is " ++ Quote.quote platform.isPrint tag ++ ", which the rule already carries") <|>
    validateTagsFrom platform rule tags (tag :: carried) (index + 1)

def validateTags (platform : Platform) (rule : Rule) : Option Violation :=
  rule.refuse (maxTags < rule.tags.length) "tags"
    ("lists " ++ toString rule.tags.length ++ " tags, above the ceiling of " ++ toString maxTags) <|>
  rule.validateTagsFrom platform rule.tags [] 0

def validateReferencesFrom (platform : Platform) (rule : Rule) :
    List String → List String → ℕ → Option Violation
  | [], _, _ => none
  | reference :: references, carried, index =>
    rule.refuse (maxReferenceLength < reference.utf8ByteSize) (indexed "references" index)
      ("is longer than " ++ toString maxReferenceLength ++ " characters") <|>
    rule.refuse (platform.reachable reference = false) (indexed "references" index)
      ("is " ++ Quote.quote platform.isPrint reference ++
        ", and a reference is an http or https link") <|>
    rule.refuse (reference ∈ carried) (indexed "references" index)
      ("is " ++ Quote.quote platform.isPrint reference ++ ", which the rule already carries") <|>
    validateReferencesFrom platform rule references (reference :: carried) (index + 1)

def validateReferences (platform : Platform) (rule : Rule) : Option Violation :=
  rule.refuse (maxReferences < rule.references.length) "references"
    ("lists " ++ toString rule.references.length ++ " references, above the ceiling of " ++
      toString maxReferences) <|>
  rule.validateReferencesFrom platform rule.references [] 0

def validateClass (rule : Rule) : Option Violation :=
  rule.refuse (rule.eventClass = .unspecified) "class"
    "must name the class of event the rule reads" <|>
  rule.refuse (declaresClass rule.eventClass = false) "class"
    ("is " ++ toString rule.eventClass.number ++ ", which the contract does not declare")

def validateGrouped (platform : Platform) (rule : Rule) (place : String) :
    List Field → List Field → ℕ → Option Violation
  | [], _, _ => none
  | field :: fields, grouped, index =>
    rule.refuse (field = classField) (indexed place index)
      "is the class of the event, which every event the rule reads already shares" <|>
    rule.refuse (field = tenantField) (indexed place index)
      "is the tenant, which is always part of a count and is never grouped by" <|>
    rule.refuse (field = identityField) (indexed place index)
      "is the identifier of the event, so no two events could ever be grouped together" <|>
    rule.refuse ((kindOf field).isNone) (indexed place index)
      "is not a field the contract declares" <|>
    rule.refuse (addressableBy field rule.eventClass = false) (indexed place index)
      ("belongs to another class, so a " ++ className rule.eventClass ++
        " rule would never group by it") <|>
    rule.refuse (field ∈ grouped) (indexed place index)
      ("is " ++ Quote.quote platform.isPrint field ++ ", which the rule already groups by") <|>
    validateGrouped platform rule place fields (field :: grouped) (index + 1)

def validateCount (platform : Platform) (rule : Rule) : Option Violation :=
  if rule.count.counts = false then none
  else
    rule.refuse (rule.count.atLeast < minCount) "count.at_least"
      ("is " ++ toString rule.count.atLeast ++ ", and counting to fewer than " ++
        toString minCount ++ " is what a rule without a count already does") <|>
    rule.refuse (maxCount < rule.count.atLeast) "count.at_least"
      ("is " ++ toString rule.count.atLeast ++ ", above the " ++ toString maxCount ++
        " events a window may hold, so it could never be reached") <|>
    rule.refuse (rule.count.within ≤ 0) "count.within"
      "is missing: a count is how many events happened inside a window" <|>
    rule.refuse (maxWithin < rule.count.within) "count.within"
      ("is " ++ Duration.written rule.count.within ++
        ", and a rule may not remember for longer than " ++ Duration.written maxWithin) <|>
    rule.refuse (maxGroupBy < rule.count.groupBy.length) "count.group_by"
      ("names " ++ toString rule.count.groupBy.length ++ " fields, above the ceiling of " ++
        toString maxGroupBy) <|>
    rule.validateGrouped platform "count.group_by" rule.count.groupBy [] 0

/-- The literals of a predicate, one after another. -/
def validateLiterals (platform : Platform) (rule : Rule) (place : String) (field : Field)
    (kind : Kind) : List Value → Option Violation
  | [] => none
  | value :: values =>
    rule.refuse (value.fits kind = false) place
      ("holds " ++ kind.written ++ " and is compared against " ++ value.written platform) <|>
    rule.refuse (value.fits .text ∧ isBlank value.textOf) place
      "is compared against nothing, which every event matches" <|>
    rule.refuse (kind = .choice ∧ value.textOf ∉ choicesOf platform field) place
      ("is compared against " ++ value.written platform ++ ", and the contract declares " ++
        String.intercalate ", " (choicesOf platform field)) <|>
    validateLiterals platform rule place field kind values

def validateValues (platform : Platform) (rule : Rule) (place : String) (field : Field)
    (operator : Operator) (values : List Value) (kind : Kind) : Option Violation :=
  rule.refuse (values.length < operator.takes.1) place
    ("gives " ++ operator.written ++ " nothing to compare against") <|>
  rule.refuse (0 < operator.takes.2 ∧ operator.takes.2 < values.length) place
    ("gives " ++ operator.written ++ " " ++ toString values.length ++ " values and it reads " ++
      toString operator.takes.2) <|>
  rule.refuse (maxValues < values.length) place
    ("lists " ++ toString values.length ++ " values, above the ceiling of " ++
      toString maxValues) <|>
  rule.validateLiterals platform place field kind values

def validatePredicate (platform : Platform) (rule : Rule) (part : String) (field : Field)
    (operator : Operator) (values : List Value) : Option Violation :=
  let place := part ++ "." ++ field
  match kindOf field with
  | none => some (rule.violation place "is not a field the contract declares")
  | some kind =>
    rule.refuse (addressableBy field rule.eventClass = false) place
      ("belongs to another class, so a " ++ className rule.eventClass ++
        " rule would never match it") <|>
    rule.refuse (operator.known = false) place
      ("asks " ++ Quote.quote platform.isPrint operator.written ++
        ", which is not an operator") <|>
    rule.refuse (operator.asks kind = false) place
      ("holds " ++ kind.written ++ ", and " ++ operator.written ++ " does not ask that") <|>
    rule.validateValues platform place field operator values kind

def tooDeep : String :=
  "nests deeper than " ++ toString maxDepth ++ ", which is deeper than a rule anybody can read"

mutual

def validateExpression (platform : Platform) (rule : Rule) :
    String → Expression → ℕ → Option Violation
  | part, .absent, _ =>
    some (rule.violation part "is missing: a rule that asks nothing matches everything")
  | part, .predicate field operator values, depth =>
    rule.refuse (maxDepth < depth) part tooDeep <|>
    rule.validatePredicate platform part field operator values
  | part, .not term, depth =>
    rule.refuse (maxDepth < depth) part tooDeep <|>
    validateExpression platform rule (part ++ ".not") term (depth + 1)
  | part, .all terms, depth =>
    rule.refuse (maxDepth < depth) part tooDeep <|>
    rule.refuse terms.isEmpty (part ++ ".all")
      "has no terms: a rule that asks nothing matches everything" <|>
    validateTerms platform rule (part ++ ".all") terms 0 (depth + 1)
  | part, .any terms, depth =>
    rule.refuse (maxDepth < depth) part tooDeep <|>
    rule.refuse terms.isEmpty (part ++ ".any")
      "has no terms: a rule that asks nothing matches everything" <|>
    validateTerms platform rule (part ++ ".any") terms 0 (depth + 1)

def validateTerms (platform : Platform) (rule : Rule) :
    String → List Expression → ℕ → ℕ → Option Violation
  | _, [], _, _ => none
  | part, term :: terms, index, depth =>
    validateExpression platform rule (indexed part index) term depth <|>
    validateTerms platform rule part terms (index + 1) depth

end

def validateStages (platform : Platform) (rule : Rule) :
    List Stage → List String → ℕ → Option Violation
  | [], _, _ => none
  | stage :: stages, named, index =>
    let part := indexed "sequence.stages" index
    rule.text (part ++ ".name") stage.name maxStageLength true <|>
    rule.refuse (stage.name ∈ named) (part ++ ".name")
      ("is " ++ Quote.quote platform.isPrint stage.name ++
        ", which another stage already carries, so a detection could not say which was " ++
        "satisfied") <|>
    rule.validateExpression platform (part ++ ".match") stage.asks 0 <|>
    validateStages platform rule stages (stage.name :: named) (index + 1)

/-- Whether a rule writes a question beside its sequence. -/
def asksBeside : Expression → Bool
  | .absent => false
  | _ => true

def validateSequence (platform : Platform) (rule : Rule) : Option Violation :=
  if rule.sequence.correlates = false then none
  else
    rule.refuse (asksBeside rule.asks) "sequence"
      "is written beside a match, and the stages of a sequence are what it matches with" <|>
    rule.refuse rule.count.counts "sequence"
      "is written beside a count, and a rule answers from state in one way or the other" <|>
    rule.refuse (rule.sequence.stages.length < minStages) "sequence.stages"
      ("names " ++ toString rule.sequence.stages.length ++ ", and a story of fewer than " ++
        toString minStages ++ " stages is what a rule without a sequence already detects") <|>
    rule.refuse (maxStages < rule.sequence.stages.length) "sequence.stages"
      ("names " ++ toString rule.sequence.stages.length ++ " stages, above the ceiling of " ++
        toString maxStages) <|>
    rule.refuse (rule.sequence.within ≤ 0) "sequence.within"
      "is missing: a sequence is stages that happened inside a window" <|>
    rule.refuse (maxWithin < rule.sequence.within) "sequence.within"
      ("is " ++ Duration.written rule.sequence.within ++
        ", and a rule may not remember for longer than " ++ Duration.written maxWithin) <|>
    rule.refuse (maxGroupBy < rule.sequence.groupBy.length) "sequence.group_by"
      ("names " ++ toString rule.sequence.groupBy.length ++ " fields, above the ceiling of " ++
        toString maxGroupBy) <|>
    rule.validateStages platform rule.sequence.stages [] 0 <|>
    rule.validateGrouped platform "sequence.group_by" rule.sequence.groupBy [] 0

/-- Whether a severity is one the platform reports. -/
def declaresSeverity : Severity → Bool
  | .undeclared _ => false
  | _ => true

/-- Whether a status is one of a rule's life. -/
def declaresStatus : Status → Bool
  | .undeclared _ => false
  | _ => true

/-- The first thing that is wrong with a rule, if anything is. -/
def validate (platform : Platform) (rule : Rule) : Option Violation :=
  rule.refuse (isIdentifier rule.id = false ∨ maxIDLength < rule.id.utf8ByteSize) "id"
    ("must be lowercase words joined by . or _, up to " ++ toString maxIDLength ++
      " characters") <|>
  rule.refuse (isVersioned rule.id) "id"
    ("ends in a version: the revision carries that, and an id that moves with it cannot say " ++
      "that two rules are the same rule") <|>
  rule.refuse (rule.revision < 1) "revision"
    "must be at least 1, and must go up when the rule changes" <|>
  rule.refuse (2 ^ 32 ≤ rule.revision) "revision" "must fit the uint32 wire contract" <|>
  rule.text "name" rule.name maxNameLength true <|>
  rule.text "description" rule.description maxDescriptionLength true <|>
  rule.text "false_positives" rule.falsePositives maxGuidanceLength false <|>
  rule.text "response" rule.response maxGuidanceLength false <|>
  rule.refuse (declaresSeverity rule.severity = false) "severity"
    ("is " ++ Quote.quote platform.isPrint rule.severity.written ++
      ", which is not one of low, medium, high, critical") <|>
  rule.refuse (declaresStatus rule.status = false) "status"
    ("is " ++ Quote.quote platform.isPrint rule.status.written ++
      ", which is not one of draft, active, disabled, deprecated") <|>
  rule.validateTechnique platform <|>
  rule.validateSource platform <|>
  rule.validateTags platform <|>
  rule.validateReferences platform <|>
  rule.validateClass <|>
  rule.validateCount platform <|>
  rule.validateSequence platform <|>
  if rule.sequence.correlates then none else rule.validateExpression platform "match" rule.asks 0

end Rule
end Seagull.Detection
