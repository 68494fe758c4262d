import Seagull.Detection.Detected
import Seagull.Event.Limits

/-!
# How heavy a detection of a rule can be

The most bytes a detection of a program can encode to is measured by making the heaviest one: every
question answered, every group field and every stage name at its longest.
-/

namespace Seagull.Detection

open Contract

def maxDetectionBytes : ℕ := 256 * 2 ^ 10

def maxEvidence : ℕ := 4096

/-- The plain forms a value is written in, at their longest. -/
def longestNumber : ℕ := "-2.2250738585072014e-308".utf8ByteSize
def longestTruth : ℕ := "false".utf8ByteSize
def longestUndeclared : ℕ := "-2147483648".utf8ByteSize

/-- The instant whose timestamp is longest: a nanosecond before the epoch. -/
def longestInstant : ℤ := (Timestamp.epoch - 1) * Duration.second + 999999999

/-- A text of a number of bytes. -/
def repeated (count : ℕ) : String := String.ofList (List.replicate count 'x')

/-- The longest a text field may be; unbounded, as long as an event can be. -/
def longestText (field : Field) : ℕ :=
  (EventContract.longestText field).getD EventContract.maxEventBytes

def longest (field : Field) : String := repeated (longestText field)

def valueAtMost (platform : Platform) (field : Field) : ℕ :=
  match kindOf field with
  | some .text => longestText field
  | some .truth => longestTruth
  | some .choice =>
    ((choicesOf platform field).map String.utf8ByteSize).foldl max longestUndeclared
  | _ => longestNumber

def heldAtMost (platform : Platform) (field : Field) : ℕ :=
  match kindOf field with
  | some .text => 4 * longestText field + 2
  | _ => valueAtMost platform field

def longestWritten (platform : Platform) : ℕ × ℕ :=
  (((Leaf.all.map Leaf.field).map (heldAtMost platform)).foldl max 0,
    ((Leaf.all.map Leaf.field).map (valueAtMost platform)).foldl max 0)

/-- One question a program asks. -/
structure Question where
  field : Field
  operator : Operator
  negated : Bool
  deriving DecidableEq

mutual

def Node.asks : Node → Bool → List Question
  | .comparison compare, negated => [⟨compare.field, compare.operator, negated⟩]
  | .conjunction terms, negated => Node.asksAll terms negated
  | .disjunction terms, negated => Node.asksAll terms negated
  | .negation term, negated => Node.asks term (!negated)

def Node.asksAll : List Node → Bool → List Question
  | [], _ => []
  | term :: terms, negated => Node.asks term negated ++ Node.asksAll terms negated

end

namespace Program

def asked (program : Program) : List Question :=
  ((program.root.toList ++ program.stages.map Staged.root).flatMap
    fun node => node.asks false).dedup

def heaviestEvent (eventClass : EventClass) : Event where
  eventId := longest "event_id"
  schemaVersion := 0
  eventClass := eventClass
  time := some ⟨some (.new longestInstant), none⟩
  origin := some ⟨longest "origin.tenant_id", longest "origin.agent_id",
    some ⟨longest "origin.host.hostname", longest "origin.host.ip", longest "origin.host.os",
      longest "origin.host.architecture"⟩⟩
  collection := none
  reception := none
  authentication := none

def heaviestMatch (platform : Platform) (program : Program) : Match :=
  let evidence := program.asked.map fun one : Question =>
    (⟨one.field, one.operator, one.negated, repeated (heldAtMost platform one.field), false⟩ :
      Evidence)
  let group := program.grouped.map fun grouping =>
    (⟨grouping.field, repeated (valueAtMost platform grouping.field), false⟩ : Binding)
  if program.counts then
    { Match.of program.rule evidence with
      counted := ⟨group, maxCount, longestInstant, true⟩ }
  else if program.correlates then
    { Match.of program.rule evidence with
      correlated := {
        group := group
        stages := program.stages.map fun stage =>
          ⟨stage.name, longest "origin.agent_id", longest "event_id", longestInstant⟩
        clockSpread := Duration.longest } }
  else
    Match.of program.rule evidence

def heaviest (platform : Platform) (program : Program) : ℕ :=
  ((program.heaviestMatch platform).detected platform (repeated EventContract.maxEventIDLength)
    (heaviestEvent program.rule.eventClass) longestInstant).size platform.numbering

end Program
end Seagull.Detection
