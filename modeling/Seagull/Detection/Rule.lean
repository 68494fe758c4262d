import Seagull.Contract.Event

/-!
# The rule language

Questions about the fields of one event, joined by `all`, `any` and `not`; a count or a sequence
that asks for more than one event; and what a detection of the rule says.  A Go string type with
declared constants is an enumeration here, with one further constructor for a text that is none of
them.
-/

namespace Seagull.Detection

open Contract

def maxIDLength : ℕ := 120
def maxNameLength : ℕ := 200
def maxDescriptionLength : ℕ := 2000
def maxGuidanceLength : ℕ := 2000
def maxCaseFields : ℕ := 64
def maxTags : ℕ := 32
def maxReferences : ℕ := 16
def maxReferenceLength : ℕ := 500
def maxValues : ℕ := 4096
def maxDepth : ℕ := 16
def minCount : ℤ := 2
def maxCount : ℤ := 4096
def maxWithin : ℤ := 24 * Duration.hour
def maxGroupBy : ℕ := 8
def minStages : ℕ := 2
def maxStages : ℕ := 8
def maxStageLength : ℕ := 80

/-- The path of a scalar of the event contract, from the event down. -/
abbrev Field := String

/-- What a field holds, which decides what can be asked of it. -/
inductive Kind where
  | text
  | number
  | truth
  | choice
  deriving DecidableEq, Repr

/-- What a predicate asks. -/
inductive Operator where
  | equals
  | oneOf
  | contains
  | startsWith
  | endsWith
  | above
  | atLeast
  | below
  | atMost
  | present
  /-- A text that is no operator of the language. -/
  | undeclared (written : String)
  deriving DecidableEq, Repr

def Operator.written : Operator → String
  | .equals => "equals"
  | .oneOf => "one_of"
  | .contains => "contains"
  | .startsWith => "starts_with"
  | .endsWith => "ends_with"
  | .above => "above"
  | .atLeast => "at_least"
  | .below => "below"
  | .atMost => "at_most"
  | .present => "present"
  | .undeclared written => written

/-- A 64-bit floating point number.  Every finite one is a rational. -/
inductive Float64 where
  | nan
  | infinite (negative : Bool)
  | finite (value : ℚ)
  deriving DecidableEq

/-- A literal of a rule.  The zero `Value` has no kind and fits no field. -/
inductive Value where
  | text (text : String)
  | number (number : Float64)
  | truth (truth : Bool)
  | unset

/-- What a rule matches with.  `absent` is the nil interface. -/
inductive Expression where
  | predicate (field : Field) (operator : Operator) (values : List Value)
  | all (terms : List Expression)
  | any (terms : List Expression)
  | not (term : Expression)
  | absent

/-- How many matching events, sharing what, inside what window. -/
structure Count where
  atLeast : ℤ
  within : ℤ
  /-- What makes two matching events the same thing being counted. -/
  groupBy : List Field
  deriving DecidableEq

def Count.none : Count := ⟨0, 0, []⟩

def Count.counts (count : Count) : Bool :=
  !(count.atLeast == 0 && count.within == 0 && count.groupBy.isEmpty)

/-- One stage of a sequence. -/
structure Stage where
  name : String
  asks : Expression

/-- Stages satisfied in the order they are written, inside one window. -/
structure Sequence where
  stages : List Stage
  within : ℤ
  groupBy : List Field

/-- The sequence of a rule that orders nothing. -/
def Sequence.none : Sequence := ⟨[], 0, []⟩

/-- Any part of a sequence written means a rule that orders. -/
def Sequence.correlates (sequence : Sequence) : Bool :=
  !sequence.stages.isEmpty || sequence.within != 0 || !sequence.groupBy.isEmpty

/-- How severe a detection is.  The empty text of a case is undeclared too. -/
inductive Severity where
  | low
  | medium
  | high
  | critical
  | undeclared (written : String)
  deriving DecidableEq

def Severity.written : Severity → String
  | .low => "low"
  | .medium => "medium"
  | .high => "high"
  | .critical => "critical"
  | .undeclared written => written

/-- Where a rule is in its life. -/
inductive Status where
  | draft
  | active
  | disabled
  | deprecated
  | undeclared (written : String)
  deriving DecidableEq

def Status.written : Status → String
  | .draft => "draft"
  | .active => "active"
  | .disabled => "disabled"
  | .deprecated => "deprecated"
  | .undeclared written => written

def Status.runs (status : Status) : Bool := status == .active

/-- Where a rule sits in ATT&CK. -/
structure Technique where
  tactic : String
  id : String
  name : String

/-- Whether a rule attributes itself to nothing. -/
def Technique.empty (technique : Technique) : Bool :=
  technique.tactic == "" && technique.id == "" && technique.name == ""

/-- Where a rule came from and what it was called there. -/
structure Source where
  catalogue : String
  identifier : String

/-- Whether a rule names no catalogue. -/
def Source.empty (source : Source) : Bool := source.catalogue == "" && source.identifier == ""

/-- What makes an event worth telling somebody about, and what to tell them. -/
structure Rule where
  id : String
  revision : ℤ
  name : String
  description : String
  eventClass : EventClass
  asks : Expression
  count : Count
  sequence : Sequence
  severity : Severity
  status : Status
  technique : Technique
  falsePositives : String
  response : String
  source : Source
  tags : List String
  references : List String

end Seagull.Detection
