import Mathlib.Data.String.Basic
import Seagull.Detection.Program

/-!
# Rulesets

The compiled rules a process is pinned to: one rule per identifier, in the order of the identifiers,
and those that run for a class.
-/

namespace Seagull.Ruleset

open Contract Detection

def idOf (program : Program) : String := program.rule.id

/-- The compiled rules of a process, no two under one identifier. -/
structure Snapshot where
  programs : List Program
  /-- The rules stand in the order of their identifiers. -/
  sorted : programs.Pairwise fun one other => idOf one < idOf other

namespace Snapshot

/-- The compiled rules as one ruleset.  A rule that arrives twice is refused. -/
def compose (programs : List Program) : Except String Snapshot :=
  let held := programs.mergeSort fun one other => idOf one ≤ idOf other
  if sorted : held.Pairwise fun one other => idOf one < idOf other then
    .ok ⟨held, sorted⟩
  else
    .error ((twice (held.map idOf)).getD "")
where
  /-- The first identifier that stands twice in a row. -/
  twice : List String → Option String
    | first :: second :: rest => if first = second then some first else twice (second :: rest)
    | _ => none

def forClass (snapshot : Snapshot) (eventClass : EventClass) : List Program :=
  snapshot.programs.filter fun program =>
    program.rule.eventClass = eventClass && program.rule.status.runs

theorem forClass_sublist (snapshot : Snapshot) (eventClass : EventClass) :
    (snapshot.forClass eventClass).Sublist snapshot.programs :=
  List.filter_sublist

theorem eq_of_id {snapshot : Snapshot} {one other : Program} (one_mem : one ∈ snapshot.programs)
    (other_mem : other ∈ snapshot.programs) (same : idOf one = idOf other) : one = other := by
  have distinct : (snapshot.programs.map idOf).Nodup :=
    List.pairwise_map.mpr (snapshot.sorted.imp fun before => before.ne)
  exact List.inj_on_of_nodup_map distinct one_mem other_mem same

end Snapshot
end Seagull.Ruleset
