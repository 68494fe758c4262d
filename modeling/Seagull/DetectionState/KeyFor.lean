import Seagull.Detection.Program
import Seagull.DetectionState.Held
import Seagull.Foundation.Framing

/-!
# What a rule remembers under

A key names the tenant and the rule, and a digest of both, of the rule's revision and of what the
event bound the group fields to, in an order of their own.
-/

namespace Seagull.DetectionState

open Detection

/-- What a binding writes into the digest of a key. -/
def bound (binding : Binding) : List String :=
  [binding.field, if binding.absent then "\x00absent" else binding.value]

def keyFor (platform : Platform) (tenant rule : String) (revision : ℤ) (group : List Binding) :
    Key where
  tenant := tenant
  rule := rule
  group :=
    let ordered := group.mergeSort fun one other => one.written ≤ other.written
    let written := [tenant, rule, toString revision] ++ (compact ordered).flatMap bound
    hexEncode ((platform.sha256 (framedAll written)).take 16)

end Seagull.DetectionState
