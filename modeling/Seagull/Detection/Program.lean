import Seagull.Detection.Vocabulary
import Seagull.Foundation.Quote

/-!
# Compiled rules and what they decide

A compiled rule is a tree of comparisons with resolved fields and literals.  Deciding an event walks
the tree, and walks it again for the evidence when it held.
-/

namespace Seagull.Detection

open Contract

namespace Float64

/-- Whether one number is below another; what is no number is neither. -/
def below : Float64 → Float64 → Bool
  | .nan, _ => false
  | _, .nan => false
  | .infinite true, .infinite true => false
  | .infinite true, _ => true
  | _, .infinite true => false
  | .infinite false, _ => false
  | _, .infinite false => true
  | .finite value, .finite other => value < other

/-- Whether two numbers are equal.  What is not a number equals nothing. -/
def same : Float64 → Float64 → Bool
  | .nan, _ => false
  | value, other => value == other

/-- The nearest number with 53 significant bits, the even one of two. -/
def ofNat (number : ℕ) : Float64 :=
  let dropped := number.log2 - 52
  let unit := 2 ^ dropped
  let kept := number / unit
  let rest := 2 * (number % unit)
  .finite ((if unit < rest ∨ (unit = rest ∧ kept % 2 = 1) then kept + 1 else kept) * unit : ℕ)

end Float64

def numberIn : Scalar → Float64
  | .number number => Float64.ofNat number
  | _ => .nan

/-- A scalar as `protoreflect` prints it. -/
def Scalar.printed : Scalar → String
  | .text held => held
  | .number held => toString held
  | .choice held => toString held

/-- One question about one field, resolved. -/
structure Comparison where
  field : Field
  leaf : Leaf
  operator : Operator
  /-- The literals, in the type of the leaf. -/
  literals : List Scalar

/-- The compiled shapes. -/
inductive Node where
  | comparison (compare : Comparison)
  | conjunction (terms : List Node)
  | disjunction (terms : List Node)
  | negation (term : Node)

def Comparison.literal (compare : Comparison) : Scalar := compare.literals.headD (.text "")

/-- One stage of a compiled sequence. -/
structure Staged where
  name : String
  root : Node

/-- One field a rule groups by, resolved. -/
structure Grouping where
  field : Field
  leaf : Leaf

/-- A rule resolved against the contract. -/
structure Program where
  rule : Rule
  root : Option Node
  stages : List Staged
  /-- Every field the program reads, sorted and without repetition. -/
  fields : List Field
  grouped : List Grouping

def Program.counts (program : Program) : Bool := program.rule.count.counts

def Program.correlates (program : Program) : Bool := !program.stages.isEmpty

def Program.stageNames (program : Program) : List String := program.stages.map Staged.name

def plain (platform : Platform) (leaf : Leaf) (value : Scalar) : String :=
  match leaf.type, value with
  | .enum enumeration, .choice number =>
    ((enumeration platform).nameOf number).getD (toString number)
  | _, value => value.printed

/-- A value as a rule writes it: text in quotes, anything else as it is. -/
def wrote (platform : Platform) (leaf : Leaf) (value : Scalar) : String :=
  match leaf.type with
  | .string => Quote.quote platform.isPrint value.printed
  | _ => plain platform leaf value

/-- One question the rule asked of the event, and what the event answered. -/
structure Evidence where
  field : Field
  operator : Operator
  negated : Bool
  held : String
  absent : Bool
  deriving DecidableEq

/-- Whether a field holding a value answers a comparison, if that can be told. -/
def answers (value : Scalar) (compare : Comparison) : Bool × Bool :=
  match compare.operator with
  | .equals => (value == compare.literal, true)
  | .oneOf => (compare.literals.contains value, true)
  | .contains => (decide (compare.literal.printed.toList <:+: value.printed.toList), true)
  | .startsWith => (compare.literal.printed.toList.isPrefixOf value.printed.toList, true)
  | .endsWith => (compare.literal.printed.toList.isSuffixOf value.printed.toList, true)
  | operator =>
    let held := numberIn value
    let against := numberIn compare.literal
    if held = .nan ∨ against = .nan then
      (false, false)
    else
      match operator with
      | .above => (against.below held, true)
      | .atLeast => (!held.below against, true)
      | .below => (held.below against, true)
      | .atMost => (!against.below held, true)
      | _ => (false, false)

namespace Comparison

/-- Whether a comparison holds.  An absent field answers nothing. -/
def answered (compare : Comparison) : Option Scalar → Bool
  | none => false
  | some value =>
    compare.operator == .present || ((answers value compare).1 && (answers value compare).2)

def saw (platform : Platform) (compare : Comparison) (value : Option Scalar) (negated : Bool) :
    Evidence where
  field := compare.field
  operator := compare.operator
  negated := negated
  held := (value.map (wrote platform compare.leaf)).getD ""
  absent := value.isNone

end Comparison

/-- Evidence is a set: gathered again, an observation is the same one. -/
def gather (seen : Evidence) (into : List Evidence) : List Evidence :=
  if seen ∈ into then into else into ++ [seen]

mutual

/-- Whether a tree holds of an event, and the evidence gathered on the way.  Negation is a polarity
carried down. -/
def Node.holds (platform : Platform) (record : Event) :
    Node → Bool → Option (List Evidence) → Bool × Option (List Evidence)
  | .comparison compare, negated, into =>
    (compare.answered (read record compare.leaf),
      into.map (gather (compare.saw platform (read record compare.leaf) negated)))
  | .conjunction terms, negated, into => Node.holdsAll platform record terms negated into
  | .disjunction terms, negated, into => Node.holdsAny platform record terms negated into into
  | .negation term, negated, into =>
    let inner := Node.holds platform record term (!negated) into
    (!inner.1, inner.2)

def Node.holdsAll (platform : Platform) (record : Event) :
    List Node → Bool → Option (List Evidence) → Bool × Option (List Evidence)
  | [], _, into => (true, into)
  | term :: terms, negated, into =>
    let first := Node.holds platform record term negated into
    if first.1 then Node.holdsAll platform record terms negated first.2 else (false, first.2)

/-- Each term up to the first that holds, which alone is read for what it saw. -/
def Node.holdsAny (platform : Platform) (record : Event) :
    List Node → Bool → Option (List Evidence) → Option (List Evidence) →
      Bool × Option (List Evidence)
  | [], _, _, into => (false, into)
  | term :: terms, negated, mark, into =>
    let tried := Node.holds platform record term negated into
    if tried.1 then (true, (Node.holds platform record term negated mark).2)
    else Node.holdsAny platform record terms negated mark tried.2

end

/-- One field a rule groups by, and what an event held in it. -/
structure Binding where
  field : Field
  value : String
  absent : Bool
  deriving DecidableEq

def Binding.written (binding : Binding) : String :=
  if binding.absent then binding.field ++ " absent" else binding.field ++ " " ++ binding.value

/-- What the window of a counting rule held when it decided. -/
structure Counted where
  group : List Binding
  count : ℤ
  first : ℤ
  saturated : Bool

/-- What a rule that counts nothing says of its window. -/
def Counted.none : Counted := ⟨[], 0, Instant.zero, false⟩

/-- One stage of a story, and the event that told it. -/
structure Satisfied where
  name : String
  agent : String
  event : String
  time : ℤ

/-- What the window of a sequence told when it decided. -/
structure Correlated where
  group : List Binding
  stages : List Satisfied
  /-- The spread of what the platform saw of the clocks. -/
  clockSpread : ℤ

/-- What a rule that orders nothing says of its window. -/
def Correlated.none : Correlated := ⟨[], [], 0⟩

/-- What a rule and an event came to. -/
structure Match where
  rule : Rule
  evidence : List Evidence
  counted : Counted
  correlated : Correlated

/-- A match decided from one event alone. -/
def Match.of (rule : Rule) (evidence : List Evidence) : Match :=
  ⟨rule, evidence, .none, .none⟩

/-- The stages of a sequence one event satisfies, as a set of eight bits. -/
abbrev Stages := BitVec 8

namespace Stages

def add (stages : Stages) (stage : ℕ) : Stages := stages ||| (1#8 <<< stage)

def has (stages : Stages) (stage : ℕ) : Bool := stages &&& (1#8 <<< stage) != 0#8

def any (stages : Stages) : Bool := stages != 0#8

/-- A set as the one byte an observation carries it in. -/
def written (stages : Stages) : List UInt8 := [UInt8.ofBitVec stages]

/-- The set a value carries, none unless the value is one byte. -/
def of : List UInt8 → Stages
  | [byte] => byte.toBitVec
  | _ => 0#8

theorem has_eq (stages : Stages) (stage : ℕ) : stages.has stage = stages.getLsbD stage := by
  rw [has, bne_eq, Bool.eq_iff_iff]
  constructor
  · intro nonzero
    by_contra unset
    have cleared : stages &&& 1#8 <<< stage = 0#8 := by
      apply BitVec.eq_of_getLsbD_eq
      intro index _
      by_cases same : index = stage
      · simp [same, unset]
      · simp only [BitVec.getLsbD_and, BitVec.getLsbD_shiftLeft, BitVec.getLsbD_one]
        have : ¬ (index - stage = 0 ∧ stage ≤ index) := by omega
        grind
    simp [cleared] at nonzero
  · intro set
    have small : stage < 8 := BitVec.lt_of_getLsbD set
    rw [BitVec.getLsbD_eq_getElem small] at set
    have differs : stages &&& 1#8 <<< stage ≠ 0#8 := by
      intro cleared
      have bit := congrArg (fun bits => bits.getLsbD stage) cleared
      simp [set, small] at bit
    simpa using differs

end Stages

namespace Program

/-- The stages whose tree holds of an event, counted from the given one. -/
def reaches (platform : Platform) (record : Event) : ℕ → Stages → List Staged → Stages
  | _, reached, [] => reached
  | index, reached, stage :: stages =>
    reaches platform record (index + 1)
      (if (stage.root.holds platform record false none).1 then reached.add index else reached)
      stages

def gathers (platform : Platform) (record : Event) (reached : Stages) :
    ℕ → List Evidence → List Staged → List Evidence
  | _, evidence, [] => evidence
  | index, evidence, stage :: stages =>
    gathers platform record reached (index + 1)
      (if reached.has index then
        ((stage.root.holds platform record false (some evidence)).2).getD []
      else evidence)
      stages

def satisfied (platform : Platform) (program : Program) (record : Event) :
    Stages × List Evidence :=
  if record.eventClass ≠ program.rule.eventClass then (0#8, [])
  else
    let reached := reaches platform record 0 0#8 program.stages
    if reached.any then (reached, gathers platform record reached 0 [] program.stages)
    else (0#8, [])

def decide (platform : Platform) (program : Program) (record : Event) : Option Match :=
  if record.eventClass ≠ program.rule.eventClass then none
  else if program.correlates then
    let reached := program.satisfied platform record
    if reached.1.any then some (.of program.rule reached.2) else none
  else
    match program.root with
    | none => none
    | some root =>
      if (root.holds platform record false none).1 then
        some (.of program.rule (((root.holds platform record false (some [])).2).getD []))
      else
        none

end Program

/-- What an event binds a group field to. -/
def bindingOf (platform : Platform) (record : Event) (grouping : Grouping) : Binding :=
  match read record grouping.leaf with
  | none => ⟨grouping.field, "", true⟩
  | some value => ⟨grouping.field, plain platform grouping.leaf value, false⟩

/-- What an event binds the group fields of a rule to, in order. -/
def Program.group (platform : Platform) (program : Program) (record : Event) : List Binding :=
  program.grouped.map (bindingOf platform record)

end Seagull.Detection
