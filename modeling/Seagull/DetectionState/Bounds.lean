import Seagull.Detection.Rule

/-!
# What a store is bounded to

The ceilings of a detection-state store, what refuses a store bounded beyond them, and what refuses
a rule no store bounded this way could answer; and which groups one reader of a stream sees whole.
-/

namespace Seagull.DetectionState

/-- Why a store refuses.  A fold abandoned by its caller is `cancelled`. -/
inductive Refusal where
  | noWindow
  | noObservations
  | noKeys
  | noTenantKeys
  | noRuleKeys
  | windowTooLong
  | unreachable
  | unorderable
  | noEvent
  | noAgent
  | noTime
  | valueTooLong
  | atCapacity
  | tenantAtCapacity
  | ruleAtCapacity
  | tooLate
  | cancelled
  deriving DecidableEq, Repr

/-- The longest window a store may be bounded to. -/
def maxWindow : ℤ := Detection.maxWithin

def maxObservationsPerKey : ℤ := Detection.maxCount

/-- The most keys a store may be bounded to. -/
def maxKeys : ℤ := 2 ^ 20

/-- What a store is bounded to. -/
structure Bounds where
  window : ℤ
  observationsPerKey : ℤ
  keys : ℤ
  keysPerTenant : ℤ
  keysPerRule : ℤ
  deriving DecidableEq, Repr

namespace Bounds

/-- Why a store may not be bounded this way, if it may not. -/
def validate (bounds : Bounds) : Option Refusal :=
  if bounds.window ≤ 0 ∨ maxWindow < bounds.window then
    some .noWindow
  else if bounds.observationsPerKey ≤ 0 ∨ maxObservationsPerKey < bounds.observationsPerKey then
    some .noObservations
  else if bounds.keys ≤ 0 ∨ maxKeys < bounds.keys then
    some .noKeys
  else if bounds.keysPerTenant ≤ 0 ∨ bounds.keys < bounds.keysPerTenant then
    some .noTenantKeys
  else if bounds.keysPerRule ≤ 0 ∨ bounds.keysPerTenant < bounds.keysPerRule then
    some .noRuleKeys
  else
    none

/-- Why a store bounded this way could never answer a count. -/
def admits (bounds : Bounds) (count : Detection.Count) : Option Refusal :=
  if count.counts = false then
    none
  else if bounds.window < count.within then
    some .windowTooLong
  else if bounds.observationsPerKey < count.atLeast then
    some .unreachable
  else
    none

/-- Why a store bounded this way could never answer a sequence. -/
def orders (bounds : Bounds) (sequence : Detection.Sequence) : Option Refusal :=
  if sequence.correlates = false then
    none
  else if bounds.window < sequence.within then
    some .windowTooLong
  else if bounds.observationsPerKey < sequence.stages.length then
    some .unorderable
  else
    none

/-- What accepted bounds are. -/
structure Accepted (bounds : Bounds) : Prop where
  window_pos : 0 < bounds.window
  window_le : bounds.window ≤ maxWindow
  observations_pos : 0 < bounds.observationsPerKey
  observations_le : bounds.observationsPerKey ≤ maxObservationsPerKey
  keys_pos : 0 < bounds.keys
  keys_le : bounds.keys ≤ maxKeys
  tenant_pos : 0 < bounds.keysPerTenant
  tenant_le : bounds.keysPerTenant ≤ bounds.keys
  rule_pos : 0 < bounds.keysPerRule
  rule_le : bounds.keysPerRule ≤ bounds.keysPerTenant

theorem validate_eq_none_iff (bounds : Bounds) : bounds.validate = none ↔ bounds.Accepted := by
  constructor
  · intro valid
    simp only [validate] at valid
    split_ifs at valid
    exact ⟨by omega, by omega, by omega, by omega, by omega, by omega, by omega, by omega,
      by omega, by omega⟩
  · rintro ⟨_, _, _, _, _, _, _, _, _, _⟩
    rw [validate, if_neg (by omega), if_neg (by omega), if_neg (by omega), if_neg (by omega),
      if_neg (by omega)]

end Bounds

/-- The tenant is part of every key without ever being grouped by. -/
def tenantField : Detection.Field := "origin.tenant_id"

/-- Whether the events of a group reach one reader of a keyed stream. -/
def colocates (keyed group : List Detection.Field) : Bool :=
  !keyed.isEmpty && keyed.all fun field => field == tenantField || group.contains field

end Seagull.DetectionState
