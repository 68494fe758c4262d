import Seagull.Contract.Hunt
import Seagull.Foundation.Bytes
import Seagull.Foundation.Checked
import Seagull.Foundation.Quote
import Seagull.Foundation.Sql

/-!
# What a question asks

A field of a question is the path of a leaf of the contract, and what the leaf holds decides what
can be asked of it.  A question is compiled once: its fields are looked up, its literals are read,
and its shape is held to a depth and a number of predicates.
-/

namespace Seagull.Hunt

open Contract

/-- Which stored record a question is asked of. -/
inductive Dataset where
  | events
  | detections
  deriving DecidableEq

def Dataset.written : Dataset → String
  | .events => "events"
  | .detections => "detections"

/-- `Datasets`. -/
def datasets : List Dataset := [.detections, .events]

/-- What a field holds. -/
inductive Kind where
  | text
  | number
  | truth
  | choice
  | instant
  deriving DecidableEq

def Kind.written : Kind → String
  | .text => "text"
  | .number => "number"
  | .truth => "truth"
  | .choice => "choice"
  | .instant => "instant"

/-- What the contract says of a field: its kind, whether it is a list, and its declared values. -/
structure Held where
  kind : Kind
  repeated : Bool
  choices : List String

/-- The fields of each dataset, as the contract declares them. -/
abbrev Vocabulary := Dataset → List (String × Held)

/-- What the contract says of a field of a dataset, if it declares it. -/
def lookup (vocabulary : Vocabulary) (dataset : Dataset) (field : String) : Option Held :=
  (vocabulary dataset).lookup field

/-- What the standard library reads and writes.  A `float64` is its bits. -/
structure Platform where
  /-- `strconv.IsPrint`. -/
  isPrint : Char → Bool
  /-- `strconv.ParseFloat`. -/
  parseFloat : String → Option UInt64
  /-- `strconv.FormatFloat` in its shortest form. -/
  formatFloat : UInt64 → String
  /-- `time.Parse` with `time.RFC3339`. -/
  parseInstant : String → Option ℤ
  /-- `Time.Format` with `time.RFC3339Nano`, in UTC. -/
  formatInstant : ℤ → String

/-- The number that the bits of a `float64` stand for. -/
def numberOf (bits : UInt64) : Sql.Number :=
  let negative := decide (bits.toNat / 2 ^ 63 = 1)
  let exponent : ℕ := bits.toNat / 2 ^ 52 % 2 ^ 11
  let fraction : ℕ := bits.toNat % 2 ^ 52
  let sign : ℚ := if negative then -1 else 1
  if exponent = 2047 then
    if fraction = 0 then .infinite negative else .nan
  else if exponent = 0 then .finite (sign * fraction / 2 ^ 1074)
  else .finite (sign * (2 ^ 52 + fraction) * 2 ^ exponent / 2 ^ 1075)

/-- What one question asks of one field. -/
inductive Operator where
  | equals
  | oneOf
  | contains
  | startsWith
  | endsWith
  | above
  | atLeast
  | below
  | atMost
  | present
  deriving DecidableEq

namespace Operator

def written : Operator → String
  | .equals => "equals"
  | .oneOf => "one_of"
  | .contains => "contains"
  | .startsWith => "starts_with"
  | .endsWith => "ends_with"
  | .above => "above"
  | .atLeast => "at_least"
  | .below => "below"
  | .atMost => "at_most"
  | .present => "present"

def accepts : Operator → List Kind
  | .equals => [.text, .number, .truth, .choice, .instant]
  | .oneOf => [.text, .number, .choice]
  | .contains | .startsWith | .endsWith => [.text]
  | .above | .atLeast | .below | .atMost => [.number, .instant]
  | .present => [.text, .number, .truth, .choice, .instant]

def asks (operator : Operator) (kind : Kind) : Bool := kind ∈ operator.accepts

end Operator

/-- `acceptsList`: what may be asked of a column the store keeps as a list. -/
def acceptsList : List Operator := [.equals, .oneOf, .present]

/-- `maxValuesPerPredicate`. -/
def maxValuesPerPredicate : ℕ := 256

/-- `maxValueBytes`. -/
def maxValueBytes : ℕ := 512

/-- How many literals an operator reads, at least and at most. -/
def Operator.takes : Operator → ℕ × ℕ
  | .present => (0, 0)
  | .oneOf => (1, maxValuesPerPredicate)
  | _ => (1, 1)

/-- `Operators`: every operator there is, sorted by name. -/
def operators : List Operator :=
  [.above, .atLeast, .atMost, .below, .contains, .endsWith, .equals, .oneOf, .present, .startsWith]

/-- The operator a message names, if it names one. -/
def operatorOf : HuntV1.Operator → Option Operator
  | .equals => some .equals
  | .oneOf => some .oneOf
  | .contains => some .contains
  | .startsWith => some .startsWith
  | .endsWith => some .endsWith
  | .above => some .above
  | .atLeast => some .atLeast
  | .below => some .below
  | .atMost => some .atMost
  | .present => some .present
  | .unspecified | .undeclared _ => none

/-- A literal of a question, as the field carries it.  A number without a fraction is kept as one.
-/
inductive Value where
  | text (text : String)
  | choice (text : String)
  | whole (number : ℤ)
  | float (bits : UInt64)
  | truth (truth : Bool)
  | instant (instant : ℤ)

def Value.kind : Value → Kind
  | .text _ => .text
  | .choice _ => .choice
  | .whole _ | .float _ => .number
  | .truth _ => .truth
  | .instant _ => .instant

/-- A literal as a question writes it. -/
def Value.written (platform : Platform) : Value → String
  | .whole number => Decimal.format number
  | .float bits => platform.formatFloat bits
  | .truth holds => if holds then "true" else "false"
  | .instant moment => platform.formatInstant moment
  | .text letters | .choice letters => Quote.quote platform.isPrint letters

/-- `strconv.ParseBool`. -/
def parseBool (written : String) : Option Bool :=
  if written ∈ ["1", "t", "T", "TRUE", "true", "True"] then some true
  else if written ∈ ["0", "f", "F", "FALSE", "false", "False"] then some false
  else none

def literal (platform : Platform) (held : Held) (written : String) : Except String Value :=
  if maxValueBytes < written.utf8ByteSize then
    .error ("a literal may be at most " ++ toString maxValueBytes ++ " bytes and this one is " ++
      toString written.utf8ByteSize)
  else match held.kind with
    | .number =>
      match Decimal.parseInt written.toList with
      | some whole => .ok (.whole whole)
      | none =>
        match platform.parseFloat written with
        | some bits => .ok (.float bits)
        | none => .error (Quote.quote platform.isPrint written ++ " is not a number")
    | .truth =>
      match parseBool written with
      | some truth => .ok (.truth truth)
      | none => .error (Quote.quote platform.isPrint written ++ " is not true or false")
    | .instant =>
      match platform.parseInstant written with
      | some instant => .ok (.instant instant)
      | none => .error (Quote.quote platform.isPrint written ++ " is not an RFC 3339 instant")
    | .choice =>
      if written ∈ held.choices then .ok (.choice written)
      else .error (Quote.quote platform.isPrint written ++ " is not one of " ++
        String.intercalate ", " held.choices)
    | .text => .ok (.text written)

/-- A question about one field. -/
structure Predicate where
  field : String
  operator : Operator
  values : List Value

/-- The boolean shape a question matches with. -/
inductive Expression where
  | predicate (predicate : Predicate)
  | all (terms : List Expression)
  | any (terms : List Expression)
  | not (term : Expression)

def Predicate.written (platform : Platform) (asked : Predicate) : String :=
  if asked.operator = .present then asked.field ++ " present"
  else asked.field ++ " " ++ asked.operator.written ++ " " ++
    String.intercalate ", " (asked.values.map (Value.written platform))

mutual

/-- `render`: an expression in one line. -/
def Expression.written (platform : Platform) : Expression → String
  | .predicate asked => asked.written platform
  | .all terms =>
    "(" ++ String.intercalate " and " (Expression.writtenAll platform terms) ++ ")"
  | .any terms => "(" ++ String.intercalate " or " (Expression.writtenAll platform terms) ++ ")"
  | .not term => "not " ++ Expression.written platform term

def Expression.writtenAll (platform : Platform) : List Expression → List String
  | [] => []
  | term :: terms => Expression.written platform term :: Expression.writtenAll platform terms

end

/-- The code of a refusal. -/
inductive Code where
  | unscoped
  | unknownDataset
  | missingRange
  | invertedRange
  | rangeTooWide
  | limitTooLarge
  | unknownField
  | unknownOperator
  | operatorRefused
  | wrongValueCount
  | unreadableValue
  | queryTooLarge
  | queryTooDeep
  | emptyGroup
  | emptyTerm
  | invalidCursor
  deriving DecidableEq

/-- Why a question was not answered. -/
structure Refusal where
  code : Code
  field : String
  detail : String
  deriving DecidableEq

/-- `maxPredicates`. -/
def maxPredicates : ℤ := 32

/-- `maxExpressionDepth`. -/
def maxExpressionDepth : ℕ := 8

/-- `join`: operators by their names. -/
def join (known : List Operator) : String := String.intercalate ", " (known.map Operator.written)

section Compiling

variable (platform : Platform) (vocabulary : Vocabulary) (dataset : Dataset)

def literals (held : Held) (field : String) : List String → Except Refusal (List Value)
  | [] => .ok []
  | one :: written => do
      let value ← (literal platform held one).mapError fun detail =>
        ⟨.unreadableValue, field, detail⟩
      let values ← literals held field written
      .ok (value :: values)

/-- `Compiler.values`. -/
def values (held : Held) (field : String) (operator : Operator) (written : List String) :
    Except Refusal (List Value) := do
  refuse (written.length < operator.takes.1 ∨ operator.takes.2 < written.length)
    (⟨.wrongValueCount, field, operator.written ++ " reads between " ++
      toString operator.takes.1 ++ " and " ++ toString operator.takes.2 ++
      " literals and was given " ++ toString written.length⟩ : Refusal)
  literals platform held field written

/-- `Compiler.predicate`, and how many predicates may still be asked. -/
def predicate (asked : HuntV1.Predicate) (budget : ℤ) : Except Refusal (Predicate × ℤ) := do
  refuse (budget - 1 < 0) (⟨.queryTooLarge, "where",
    "a query asks at most " ++ toString maxPredicates ++ " questions"⟩ : Refusal)
  match lookup vocabulary dataset asked.field with
  | none => .error ⟨.unknownField, asked.field,
      dataset.written ++ " carries no field named " ++ Quote.quote platform.isPrint asked.field⟩
  | some held =>
    match operatorOf asked.operator with
    | none => .error ⟨.unknownOperator, asked.field, "the operators are " ++ join operators⟩
    | some operator =>
      refuse (operator.asks held.kind = false) (⟨.operatorRefused, asked.field,
        asked.field ++ " holds " ++ held.kind.written ++ " and " ++ operator.written ++
          " does not ask that"⟩ : Refusal)
      refuse (held.repeated = true ∧ operator ∉ acceptsList) (⟨.operatorRefused, asked.field,
        "the store keeps " ++ asked.field ++ " as a list, which answers " ++
          join acceptsList ++ " and nothing else"⟩ : Refusal)
      let values ← values platform held asked.field operator asked.values
      .ok (⟨asked.field, operator, values⟩, budget - 1)

def nested (depth : ℕ) : Except Refusal Unit :=
  refuse (maxExpressionDepth < depth) ⟨.queryTooDeep, "where",
    "a query may nest " ++ toString maxExpressionDepth ++ " levels deep"⟩

def filled (terms : List HuntV1.Expression) : Except Refusal Unit :=
  refuse (terms.isEmpty = true) ⟨.emptyGroup, "where",
    "a group carries no terms, which is neither true nor false"⟩

def said (detail : String) (term : Option Expression) : Except Refusal Expression :=
  match term with
  | none => .error ⟨.emptyTerm, "where", detail⟩
  | some term => .ok term

mutual

/-- `Compiler.expression`: what a term asks, and how many predicates are left. -/
def expression : HuntV1.Expression → ℕ → ℤ → Except Refusal (Option Expression × ℤ)
  | .absent, _, budget => .ok (none, budget)
  | .predicate asked, depth, budget => do
      nested depth
      let (asked, budget) ← predicate platform vocabulary dataset asked budget
      .ok (some (.predicate asked), budget)
  | .all terms, depth, budget => do
      nested depth
      filled terms
      let (terms, budget) ← group terms depth budget
      .ok (some (.all terms), budget)
  | .any terms, depth, budget => do
      nested depth
      filled terms
      let (terms, budget) ← group terms depth budget
      .ok (some (.any terms), budget)
  | .negated term, depth, budget => do
      nested depth
      let (term, budget) ← expression term (depth + 1) budget
      let term ← said "a negation carries nothing to negate" term
      .ok (some (.not term), budget)
  | .formless, depth, _ => do
      nested depth
      .error ⟨.emptyTerm, "where", "a term of the query says nothing"⟩

/-- `Compiler.group`: the terms of a group, each of which says something. -/
def group : List HuntV1.Expression → ℕ → ℤ → Except Refusal (List Expression × ℤ)
  | [], _, budget => .ok ([], budget)
  | one :: written, depth, budget => do
      let (term, budget) ← expression one (depth + 1) budget
      let term ← said "a term of the group says nothing" term
      let (terms, budget) ← group written depth budget
      .ok (term :: terms, budget)

end

/-- A predicate the compiler accepts: a declared field, an operator it answers, and literals it
holds. -/
structure Predicate.Accepted (asked : Predicate) (held : Held) : Prop where
  declared : lookup vocabulary dataset asked.field = some held
  asks : asked.operator.asks held.kind = true
  listed : held.repeated = true → asked.operator ∈ acceptsList
  least : asked.operator.takes.1 ≤ asked.values.length
  most : asked.values.length ≤ asked.operator.takes.2
  read : ∀ value ∈ asked.values, ∃ written, literal platform held written = .ok value

mutual

def Expression.Accepted : Expression → Prop
  | .predicate asked => ∃ held, asked.Accepted platform vocabulary dataset held
  | .all terms => terms ≠ [] ∧ Expression.AcceptedAll terms
  | .any terms => terms ≠ [] ∧ Expression.AcceptedAll terms
  | .not term => Expression.Accepted term

def Expression.AcceptedAll : List Expression → Prop
  | [] => True
  | term :: terms => Expression.Accepted term ∧ Expression.AcceptedAll terms

end

variable {platform vocabulary dataset}

theorem kind_of_literal {held : Held} {written : String} {value : Value}
    (read : literal platform held written = .ok value) : value.kind = held.kind := by
  unfold literal at read
  split at read
  · cases read
  · cases kind : held.kind with
    | text =>
      rw [kind] at read
      simp [← Except.ok.inj read, Value.kind]
    | choice | truth | instant =>
      rw [kind] at read
      dsimp only at read
      split at read
      · simp [← Except.ok.inj read, Value.kind]
      · cases read
    | number =>
      rw [kind] at read
      dsimp only at read
      split at read
      · simp [← Except.ok.inj read, Value.kind]
      · split at read
        · simp [← Except.ok.inj read, Value.kind]
        · cases read

theorem read_of_literals {held : Held} {field : String} {written : List String}
    {values : List Value} (read : literals platform held field written = .ok values) :
    values.length = written.length ∧
      ∀ value, value ∈ values ↔ ∃ one ∈ written, literal platform held one = .ok value := by
  induction written generalizing values with
  | nil =>
    obtain rfl : [] = values := by simpa [literals] using read
    simp
  | cons one written ih =>
    simp only [literals, checked_eq_ok] at read
    obtain ⟨value, first, others, rest, built⟩ := read
    obtain rfl : value :: others = values := by simpa using built
    obtain ⟨length, each⟩ := ih rest
    have first : literal platform held one = .ok value := by
      cases found : literal platform held one with
      | error detail => simp [found, Except.mapError] at first
      | ok value => simpa [found, Except.mapError] using first
    exact ⟨by simp [length], fun other => by simp [each, first, eq_comm]⟩

theorem predicate_eq_ok {asked : HuntV1.Predicate} {budget left : ℤ} {compiled : Predicate}
    (built : predicate platform vocabulary dataset asked budget = .ok (compiled, left)) :
    ∃ held operator values, compiled = ⟨asked.field, operator, values⟩ ∧
      operatorOf asked.operator = some operator ∧
      literals platform held asked.field asked.values = .ok values ∧
      compiled.Accepted platform vocabulary dataset held := by
  unfold predicate at built
  obtain ⟨-, built⟩ := passes_eq_ok.mp built
  split at built
  · cases built
  · next held declared =>
      split at built
      · cases built
      · next operator named =>
          obtain ⟨asks, built⟩ := passes_eq_ok.mp built
          obtain ⟨listed, built⟩ := passes_eq_ok.mp built
          obtain ⟨values, read, built⟩ := checked_eq_ok.mp built
          obtain ⟨counted, read⟩ := passes_eq_ok.mp read
          simp only [refuse_eq_ok, Bool.not_eq_false, not_and, not_not, not_or, not_lt]
            at asks listed counted
          obtain ⟨length, each⟩ := read_of_literals read
          obtain ⟨rfl, rfl⟩ : (⟨asked.field, operator, values⟩ : Predicate) = compiled ∧
              budget - 1 = left := by simpa using built
          refine ⟨held, operator, values, rfl, named, read, declared, asks, listed,
            length ▸ counted.1, length ▸ counted.2, fun value member => ?_⟩
          obtain ⟨one, -, found⟩ := (each value).mp member
          exact ⟨one, found⟩

theorem said_eq_ok {detail : String} {term : Option Expression} {compiled : Expression} :
    said detail term = .ok compiled ↔ term = some compiled := by
  cases term <;> simp [said]

mutual

theorem expression_accepted (asked : HuntV1.Expression) {depth : ℕ} {budget left : ℤ}
    {compiled : Expression}
    (built : expression platform vocabulary dataset asked depth budget = .ok (some compiled, left)) :
    compiled.Accepted platform vocabulary dataset := by
  cases asked with
  | absent => simp [expression] at built
  | formless => simp [expression, checked_eq_ok] at built
  | predicate asked =>
    obtain ⟨-, built⟩ := passes_eq_ok.mp built
    obtain ⟨⟨compiled', left'⟩, found, built⟩ := checked_eq_ok.mp built
    obtain ⟨rfl, -⟩ : Expression.predicate compiled' = compiled ∧ left' = left := by
      simpa using built
    obtain ⟨held, -, -, -, -, -, accepted⟩ := predicate_eq_ok found
    exact ⟨held, accepted⟩
  | all terms | any terms =>
    obtain ⟨-, built⟩ := passes_eq_ok.mp built
    obtain ⟨some_term, built⟩ := passes_eq_ok.mp built
    obtain ⟨⟨compiled', left'⟩, found, built⟩ := checked_eq_ok.mp built
    obtain ⟨⟨⟩, -⟩ := Prod.mk.inj (Except.ok.inj built)
    exact group_accepted terms (by simpa [filled] using some_term) found
  | negated term =>
    obtain ⟨-, built⟩ := passes_eq_ok.mp built
    obtain ⟨⟨compiled', left'⟩, found, built⟩ := checked_eq_ok.mp built
    obtain ⟨said', told, finished⟩ := checked_eq_ok.mp built
    obtain ⟨rfl, -⟩ : Expression.not said' = compiled ∧ left' = left := by simpa using finished
    have inner : said'.Accepted platform vocabulary dataset :=
      expression_accepted term (said_eq_ok.mp told ▸ found)
    exact inner

theorem group_accepted (asked : List HuntV1.Expression) (some_term : asked ≠ []) {depth : ℕ}
    {budget left : ℤ} {compiled : List Expression}
    (built : group platform vocabulary dataset asked depth budget = .ok (compiled, left)) :
    compiled ≠ [] ∧ Expression.AcceptedAll platform vocabulary dataset compiled := by
  cases asked with
  | nil => exact absurd rfl some_term
  | cons one written =>
    obtain ⟨⟨term, left'⟩, found, built⟩ := checked_eq_ok.mp built
    obtain ⟨said', told, built⟩ := checked_eq_ok.mp built
    obtain ⟨⟨terms, left''⟩, rest, finished⟩ := checked_eq_ok.mp built
    obtain ⟨rfl, -⟩ : said' :: terms = compiled ∧ left'' = left := by simpa using finished
    refine ⟨List.cons_ne_nil _ _, expression_accepted one (said_eq_ok.mp told ▸ found), ?_⟩
    by_cases more : written = []
    · subst more
      obtain ⟨rfl, -⟩ : [] = terms ∧ left' = left'' := by simpa [group] using rest
      trivial
    · exact (group_accepted written more rest).2

end

end Compiling

end Seagull.Hunt
