import Seagull.Detection.Accepted
import Seagull.Detection.Contradiction
import Seagull.Detection.Weight

/-!
# Compiling a rule

A rule that passes its checks is resolved against the contract: every field to its leaf, every
literal to the type its leaf holds.  That adds whether a number fits its field, whether what the
rule asks for can hold at all, and whether a detection could outgrow what one carries.
-/

namespace Seagull.Detection

open Contract Text

/-- The widest whole number a rule can state exactly. -/
def exactly : ℕ := 2 ^ 53

/-- The whole number a literal states for a field, up to a bound. -/
def wholeNumber (platform : Platform) (value : Value) (high : ℕ) : Except String Scalar :=
  match value.numberOf with
  | .finite number =>
    if number.den = 1 then
      if number < 0 ∨ (high : ℚ) < number then
        .error ("is compared against " ++ value.written platform ++
          ", and the field holds whole numbers from 0 to " ++ toString high)
      else .ok (.number number.num.toNat)
    else
      .error ("is compared against " ++ value.written platform ++
        ", and the field holds whole numbers")
  | _ =>
    .error ("is compared against " ++ value.written platform ++
      ", and the field holds whole numbers")

def literalOf (platform : Platform) (value : Value) (leaf : Leaf) : Except String Scalar :=
  match leaf.type with
  | .string => .ok (.text value.textOf)
  | .enum enumeration =>
    match (enumeration platform).numberOf value.textOf with
    | some number => .ok (.choice number)
    | none =>
      .error ("is compared against " ++ value.written platform ++
        ", which the contract does not declare")
  | .uint32 => wholeNumber platform value (2 ^ 32 - 1)
  | .uint64 => wholeNumber platform value exactly

/-- The literals of a predicate in the type its field holds. -/
def literalsOf (platform : Platform) (leaf : Leaf) : List Value → Except String (List Scalar)
  | [] => .ok []
  | value :: values =>
    match literalOf platform value leaf with
    | .error refused => .error refused
    | .ok literal =>
      match literalsOf platform leaf values with
      | .error refused => .error refused
      | .ok literals => .ok (literal :: literals)

namespace Rule

/-- A question about one field, resolved. -/
def compareOn (platform : Platform) (rule : Rule) (place : String) (field : Field)
    (operator : Operator) (values : List Value) : Except Violation Node :=
  match pathOf field with
  | none => .error (rule.violation place "is not a field the contract declares")
  | some leaf =>
    match literalsOf platform leaf values with
    | .error refused => .error (rule.violation place refused)
    | .ok literals => .ok (.comparison ⟨field, leaf, operator, literals⟩)

mutual

def compileExpression (platform : Platform) (rule : Rule) :
    String → Expression → Except Violation Node
  | part, .predicate field operator values =>
    rule.compareOn platform (part ++ "." ++ field) field operator values
  | part, .not term =>
    match compileExpression platform rule (part ++ ".not") term with
    | .error violation => .error violation
    | .ok inner => .ok (.negation inner)
  | part, .all terms =>
    match compileTerms platform rule (part ++ ".all") 0 terms with
    | .error violation => .error violation
    | .ok compiled => .ok (.conjunction compiled)
  | part, .any terms =>
    match compileTerms platform rule (part ++ ".any") 0 terms with
    | .error violation => .error violation
    | .ok compiled => .ok (.disjunction compiled)
  | part, .absent =>
    .error (rule.violation part "is a <nil>, which is not part of the rule language")

/-- The terms of an expression, resolved, counted from the given one. -/
def compileTerms (platform : Platform) (rule : Rule) :
    String → ℕ → List Expression → Except Violation (List Node)
  | _, _, [] => .ok []
  | part, index, term :: terms =>
    match compileExpression platform rule (indexed part index) term with
    | .error violation => .error violation
    | .ok compiled =>
      match compileTerms platform rule part (index + 1) terms with
      | .error violation => .error violation
      | .ok rest => .ok (compiled :: rest)

end

/-- An expression, resolved and not refused for what it asks. -/
def compileSatisfiable (platform : Platform) (rule : Rule) (part : String)
    (expression : Expression) : Except Violation Node :=
  match rule.compileExpression platform part expression with
  | .error violation => .error violation
  | .ok root =>
    match rule.satisfiable platform part root with
    | some violation => .error violation
    | none => .ok root

def compileStages (platform : Platform) (rule : Rule) :
    ℕ → List Stage → Except Violation (List Staged)
  | _, [] => .ok []
  | index, stage :: stages =>
    match rule.compileSatisfiable platform (indexed "sequence.stages" index ++ ".match")
      stage.asks with
    | .error violation => .error violation
    | .ok root =>
      match compileStages platform rule (index + 1) stages with
      | .error violation => .error violation
      | .ok rest => .ok (⟨stage.name, root⟩ :: rest)

def compileMatching (platform : Platform) (rule : Rule) :
    Except Violation (Option Node × List Staged) :=
  if rule.sequence.correlates then
    match rule.compileStages platform 0 rule.sequence.stages with
    | .error violation => .error violation
    | .ok stages => .ok (none, stages)
  else
    match rule.compileSatisfiable platform "match" rule.asks with
    | .error violation => .error violation
    | .ok root => .ok (some root, [])

def groupFrom (rule : Rule) (place : String) :
    ℕ → List Field → Except Violation (List Grouping)
  | _, [] => .ok []
  | index, field :: fields =>
    match pathOf field with
    | none =>
      .error (rule.violation (indexed place index) "is not a field the contract declares")
    | some leaf =>
      match groupFrom rule place (index + 1) fields with
      | .error violation => .error violation
      | .ok rest => .ok (⟨field, leaf⟩ :: rest)

def groupBy (rule : Rule) : List Field :=
  if rule.sequence.correlates then rule.sequence.groupBy else rule.count.groupBy

def group (rule : Rule) : Except Violation (List Grouping) :=
  rule.groupFrom (if rule.sequence.correlates then "sequence.group_by" else "count.group_by") 0
    rule.groupBy

end Rule

mutual

def Node.reads : Node → List Field
  | .comparison compare => [compare.field]
  | .conjunction terms | .disjunction terms => Node.readsAll terms
  | .negation term => Node.reads term

def Node.readsAll : List Node → List Field
  | [] => []
  | term :: terms => Node.reads term ++ Node.readsAll terms

end

def readBy (root : Option Node) (stages : List Staged) : List Field :=
  (((root.toList ++ stages.map Staged.root).flatMap Node.reads).dedup).insertionSort (· ≤ ·)

/-- Turn a written rule into what runs on an event. -/
def Rule.compile (platform : Platform) (rule : Rule) : Except Violation Program :=
  match rule.validate platform with
  | some violation => .error violation
  | none =>
    match rule.compileMatching platform with
    | .error violation => .error violation
    | .ok (root, stages) =>
      match rule.group with
      | .error violation => .error violation
      | .ok grouped =>
        let program : Program := ⟨rule, root, stages, readBy root stages, grouped⟩
        if maxDetectionBytes < program.heaviest platform then
          .error (rule.violation (if rule.sequence.correlates then "sequence" else "match")
            ("asks so much that a detection of it could encode to " ++
              toString (program.heaviest platform) ++
              " bytes, and a detection carries at most " ++ toString maxDetectionBytes))
        else .ok program

/-- What compiling a rule comes to. -/
structure Rule.Compiles (platform : Platform) (rule : Rule) (program : Program) : Prop where
  accepted : rule.Accepted platform
  rule_eq : program.rule = rule
  matching : rule.compileMatching platform = .ok (program.root, program.stages)
  fields_eq : program.fields = readBy program.root program.stages
  grouped : rule.group = .ok program.grouped
  light : program.heaviest platform ≤ maxDetectionBytes

theorem Rule.compile_eq_ok_iff {platform : Platform} {rule : Rule} {program : Program} :
    rule.compile platform = .ok program ↔ rule.Compiles platform program := by
  constructor
  · intro compiled
    unfold Rule.compile at compiled
    split at compiled
    · cases compiled
    · rename_i valid
      split at compiled
      · cases compiled
      · rename_i root stages matching
        split at compiled
        · cases compiled
        · rename_i grouped grouped_eq
          simp only at compiled
          split_ifs at compiled with heavy
          cases compiled
          exact ⟨validate_eq_none_iff.mp valid, rfl, matching, rfl, grouped_eq, not_lt.mp heavy⟩
  · rintro ⟨accepted, rfl, matching, fields_eq, grouped, light⟩
    have rebuilt : (⟨program.rule, program.root, program.stages,
        readBy program.root program.stages, program.grouped⟩ : Program) = program := by
      rw [← fields_eq]
    simp only [Rule.compile, validate_eq_none_iff.mpr accepted, matching, grouped, rebuilt,
      if_neg (not_lt.mpr light)]

/-- A platform of a few choices, whose digest keeps the last letters. -/
def Platform.plain : Platform where
  activity := ⟨[("unspecified", 0), ("logon", 1)], by decide, by decide,
    Enumeration.plain_of_all (by decide)⟩
  outcome := ⟨[("unspecified", 0), ("success", 1), ("failure", 2)], by decide, by decide,
    Enumeration.plain_of_all (by decide)⟩
  transport := ⟨[("unspecified", 0), ("tcp", 1)], by decide, by decide,
    Enumeration.plain_of_all (by decide)⟩
  numbering := ⟨fun _ => 1, fun _ => le_rfl, fun _ => by decide, fun _ => 1⟩
  isPrint letter := 32 ≤ letter.toNat && letter.toNat < 127
  toLower := Char.toLower
  formatFloat _ := ""
  reachable _ := true
  sha256 text := (text.toList.reverse.map fun letter => UInt8.ofNat letter.toNat).take 32 ++
    List.replicate (32 - text.toList.length) 0
  sha256_length text := by
    simp only [List.length_append, List.length_take, List.length_map, List.length_reverse,
      List.length_replicate]
    omega

def Expression.outcome (outcome : String) : Expression :=
  .predicate "authentication.outcome" .equals [.text outcome]

def Rule.failedLogons : Rule where
  id := "failed_logons"
  revision := 1
  name := "Failed logons"
  description := "Authentications failed."
  eventClass := .authentication
  asks := .outcome "failure"
  count := ⟨2, Duration.hour, []⟩
  sequence := .none
  severity := .low
  status := .active
  technique := ⟨"", "", ""⟩
  falsePositives := ""
  response := ""
  source := ⟨"", ""⟩
  tags := []
  references := []

/-- A rule that asks for a failed authentication before one that succeeded. -/
def Rule.guessedLogon : Rule :=
  { Rule.failedLogons with
    id := "guessed_logon"
    asks := .absent
    count := .none
    sequence := ⟨[⟨"guess", .outcome "failure"⟩, ⟨"logon", .outcome "success"⟩],
      Duration.hour, []⟩ }

/-- The tree of the question for an outcome, by its number. -/
def Node.outcome (number : ℤ) : Node :=
  .comparison ⟨"authentication.outcome", .outcome, .equals, [.choice number]⟩

/-- What the counting rule compiles to. -/
def Program.failedLogons : Program :=
  ⟨.failedLogons, some (.outcome 2), [], ["authentication.outcome"], []⟩

/-- What the sequence compiles to. -/
def Program.guessedLogon : Program :=
  ⟨.guessedLogon, none, [⟨"guess", .outcome 2⟩, ⟨"logon", .outcome 1⟩],
    ["authentication.outcome"], []⟩

theorem compile_failedLogons : Rule.failedLogons.compile .plain = .ok .failedLogons :=
  Rule.compile_eq_ok_iff.mpr {
    accepted := validate_eq_none_iff.mp (by rfl)
    rule_eq := rfl
    matching := by rfl
    fields_eq := by rfl
    grouped := by rfl
    light := by decide +kernel }

end Seagull.Detection
