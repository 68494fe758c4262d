import Seagull.Detection.Compile
import Seagull.Foundation.FiniteMap

/-!
# The cases of a rule

A case is one event a rule was written to be sure about, and what the rule should say about
it.  Every field it sets is one an event of the rule's class can carry.
-/

namespace Seagull.Detection

open Contract Text

/-- What a case expects a rule to say. -/
inductive Expectation where
  | matching
  | doesNotMatch
  | undeclared (written : String)
  deriving DecidableEq

def Expectation.written : Expectation → String
  | .matching => "match"
  | .doesNotMatch => "no_match"
  | .undeclared written => written

/-- Whether a case can be written with an expectation. -/
def Expectation.declared : Expectation → Bool
  | .undeclared _ => false
  | _ => true

/-- The severity of a case that asks nothing about it. -/
def Severity.unset : Severity := .undeclared ""

/-- One event a rule was written to be sure about, and what it should say. -/
structure Case where
  name : String
  description : String
  expect : Expectation
  /-- The fields of the event; one that is not named is one the event does not carry. -/
  event : FiniteMap Field Value
  /-- What a match is evidenced by; not asked when empty. -/
  evidence : List Field
  /-- What the rule has to be; not asked when unset. -/
  severity : Severity

/-- Whether a scalar is the one an unset field holds. -/
def Scalar.isZero : Scalar → Bool
  | .text held => held == ""
  | .number held => held == 0
  | .choice held => held == 0

namespace Rule

/-- Whether an event of the rule's class can carry a value in a field. -/
def carries (platform : Platform) (rule : Rule) (place : String) (field : Field) (value : Value) :
    Option Violation :=
  match pathOf field with
  | none => some (rule.violation place "is not a field the contract declares")
  | some leaf =>
    rule.refuse (field = classField) place
      "is the class of the event, which a case takes from the rule it is written for" <|>
    rule.refuse (addressableBy field rule.eventClass = false) place
      ("belongs to another class, so a " ++ className rule.eventClass ++
        " event does not carry it") <|>
    rule.refuse (value.fits leaf.kind = false) place
      ("holds " ++ leaf.kind.written ++ " and is given " ++ value.written platform) <|>
    rule.refuse (leaf.kind = .choice ∧ value.textOf ∉ choicesOf platform field) place
      ("is given " ++ value.written platform ++ ", and the contract declares " ++
        String.intercalate ", " (choicesOf platform field)) <|>
    match literalOf platform value leaf with
    | .error _ =>
      some (rule.violation place
        ("is given " ++ value.written platform ++ ", which it cannot hold"))
    | .ok literal =>
      rule.refuse literal.isZero place
        ("is given " ++ value.written platform ++ ", which no event can be told from " ++
          "carrying nothing: leave the field out to say it is absent")

/-- The fields of a case, one after another. -/
def carriesAll (platform : Platform) (rule : Rule) (part : String) :
    List (Field × Value) → Option Violation
  | [] => none
  | (field, value) :: entries =>
    rule.carries platform (part ++ ".event." ++ field) field value <|>
    carriesAll platform rule part entries

def validateEvidence (rule : Rule) (part : String) : List Field → ℕ → Option Violation
  | [], _ => none
  | field :: fields, index =>
    rule.refuse ((kindOf field).isNone) (indexed (part ++ ".evidence") index)
      "is not a field the contract declares" <|>
    validateEvidence rule part fields (index + 1)

/-- What a case asks of a match, which only a case that expects one can ask. -/
def awaits (platform : Platform) (rule : Rule) (part : String) (subject : Case) :
    Option Violation :=
  if subject.expect = .doesNotMatch then
    rule.refuse (subject.severity ≠ .unset) (part ++ ".severity")
      "is expected of a case that does not match, and only a match carries one" <|>
    rule.refuse (subject.evidence ≠ []) (part ++ ".evidence")
      "is expected of a case that does not match, and only a match carries any"
  else
    rule.refuse (subject.severity ≠ .unset ∧ declaresSeverity subject.severity = false)
      (part ++ ".severity")
      ("is " ++ Quote.quote platform.isPrint subject.severity.written ++
        ", which is not one of low, medium, high, critical") <|>
    rule.validateEvidence part subject.evidence 0

def accepts (platform : Platform) (rule : Rule) (part : String) (subject : Case) :
    Option Violation :=
  rule.text (part ++ ".name") subject.name maxNameLength true <|>
  rule.text (part ++ ".description") subject.description maxDescriptionLength false <|>
  rule.refuse (subject.expect.declared = false) (part ++ ".expect")
    ("is " ++ Quote.quote platform.isPrint subject.expect.written ++
      ", and a case expects match or no_match") <|>
  rule.refuse (subject.event.size = 0) (part ++ ".event")
    "carries nothing: a case is an event the rule is asked about" <|>
  rule.refuse (maxCaseFields < subject.event.size) (part ++ ".event")
    ("sets " ++ toString subject.event.size ++ " fields, above the ceiling of " ++
      toString maxCaseFields) <|>
  rule.carriesAll platform part
    (subject.event.entries.insertionSort fun one other => one.1 ≤ other.1) <|>
  rule.awaits platform part subject

end Rule

section Accepted

variable {platform : Platform} {rule : Rule} {part : String}

theorem carriesAll_eq_none {entries : List (Field × Value)} :
    rule.carriesAll platform part entries = none ↔
      ∀ entry ∈ entries,
        rule.carries platform (part ++ ".event." ++ entry.1) entry.1 entry.2 = none := by
  induction entries with
  | nil => simp [Rule.carriesAll]
  | cons entry entries ih =>
    simp only [Rule.carriesAll, Option.orElse_eq_none, ih, List.forall_mem_cons]

theorem ne_unset_of_carries {place : String} {field : Field} {value : Value}
    (carried : rule.carries platform place field value = none) : value ≠ .unset := by
  rintro rfl
  unfold Rule.carries at carried
  split at carried
  · cases carried
  · simp only [Option.orElse_eq_none, Rule.refuse_eq_none] at carried
    exact carried.2.2.1 rfl

theorem of_accepts {subject : Case} (accepted : rule.accepts platform part subject = none) :
    subject.expect.declared = true ∧
      (∀ entry ∈ subject.event.entries, entry.2 ≠ .unset) ∧
      (subject.severity ≠ .unset → Rule.declaresSeverity subject.severity = true) := by
  simp only [Rule.accepts, Option.orElse_eq_none, Rule.refuse_eq_none, carriesAll_eq_none]
    at accepted
  obtain ⟨-, -, expects, -, -, carried, awaited⟩ := accepted
  refine ⟨by simpa using expects, fun entry member => ?_, fun asked => ?_⟩
  · exact ne_unset_of_carries (carried entry ((List.mem_insertionSort _).mpr member))
  · unfold Rule.awaits at awaited
    split at awaited
    · simp only [Option.orElse_eq_none, Rule.refuse_eq_none] at awaited
      exact absurd asked awaited.1
    · simp only [Option.orElse_eq_none, Rule.refuse_eq_none] at awaited
      simpa [asked] using awaited.1

end Accepted
end Seagull.Detection
