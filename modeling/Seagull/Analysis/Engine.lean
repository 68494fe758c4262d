import Seagull.Detection.Compile
import Seagull.DetectionState.Reachable
import Seagull.DetectionState.KeyFor
import Seagull.Ruleset.Snapshot

/-!
# The analysis engine

Every rule that runs for the class of an event decides it, from the event alone or from what a fold
into the store answers.  A counting rule decides when its window holds enough; a sequence at the
fold that made its window tell the whole story.
-/

namespace Seagull.Analysis

open Contract Detection DetectionState Ruleset

/-- An event in front of the engine, with the order its store visits maps in. -/
structure Record where
  event : Event
  partition : Int32
  order : Order
  timed : Instant.zero ≤ event.happened

/-- The engine: what it rests on and the rules it runs. -/
structure Engine where
  platform : Platform
  rules : Snapshot

/-- An event by its agent and the identifier that agent gave it. -/
def nameOf (event : Event) : EventName := ⟨event.agent, event.eventId⟩

def keyOf (platform : Platform) (program : Program) (event : Event) : Key :=
  keyFor platform event.tenant program.rule.id program.rule.revision
    (program.group platform event)

def observing (platform : Platform) (program : Program) (record : Record) : Call where
  key := keyOf platform program record.event
  seen := ⟨nameOf record.event, record.event.happened, [], record.partition, 0⟩
  window := program.rule.count.within
  read := false
  cancelled := false
  order := record.order
  named := record.timed

def countDecision (platform : Platform) (program : Program) (found : Match) (event : Event)
    (answer : Answer) : Option Match :=
  if answer.refusal.isSome then none
  else if answer.state.repeated then none
  else if answer.state.count < program.rule.count.atLeast then none
  else some { found with
    counted := ⟨program.group platform event, answer.state.count, answer.state.first,
      answer.state.saturated⟩ }

/-- Whether a counting rule's window has reached what the rule asks for. -/
def reached (platform : Platform) (program : Program) (found : Match) (record : Record)
    (keeper : Keeper) : Keeper × Option Match :=
  let held := keeper.fold (observing platform program record)
  (held.1, countDecision platform program found record.event held.2)

def ordering (platform : Platform) (program : Program) (stages : Stages) (record : Record) :
    Call where
  key := keyOf platform program record.event
  seen := ⟨nameOf record.event, record.event.happened, stages.written, record.partition,
    record.event.skew⟩
  window := program.rule.sequence.within
  read := true
  cancelled := false
  order := record.order
  named := record.timed

/-- The earliest assignment of a window to stages, without the event of one name. -/
def assign (stages : ℕ) (without : EventName) : List Observation → ℕ → List Observation
  | [], _ => []
  | seen :: window, told =>
    if told = stages then []
    else if seen.event = without ∨ (Stages.of seen.value).has told = false then
      assign stages without window told
    else
      seen :: assign stages without window (told + 1)

/-- The events that tell the stages in order, and whether all are told. -/
def ordered (window : List Observation) (stages : ℕ) (without : EventName) :
    List Observation × Bool :=
  let told := assign stages without window 0
  (told, told.length == stages)

/-- A 64-bit integer. -/
def wrap (number : ℤ) : ℤ := Int.bmod number (2 ^ 64)

def correlated (stages : List String) (told : List Observation) (group : List Binding) :
    Correlated where
  group := group
  stages := (stages.zip told).map fun stage =>
    ⟨stage.1, stage.2.event.agent, stage.2.event.id, stage.2.time⟩
  clockSpread :=
    let first := (told.head?.map Observation.skew).getD 0
    wrap (told.foldl (fun widest seen => max widest seen.skew) first -
      told.foldl (fun narrowest seen => min narrowest seen.skew) first)

/-- What a sequence makes of the answer to its fold. -/
def storyDecision (platform : Platform) (program : Program) (evidence : List Evidence)
    (event : Event) (answer : Answer) : Option Match :=
  if answer.refusal.isSome then none
  else if answer.state.repeated then none
  else
    let told := ordered answer.window program.stages.length ⟨"", ""⟩
    if told.2 = false then none
    else if (ordered answer.window program.stages.length (nameOf event)).2 then none
    else some { Match.of program.rule evidence with
      correlated := correlated program.stageNames told.1 (program.group platform event) }

def completed (platform : Platform) (program : Program) (record : Record) (keeper : Keeper) :
    Keeper × Option Match :=
  let satisfied := program.satisfied platform record.event
  if satisfied.1.any then
    let held := keeper.fold (ordering platform program satisfied.1 record)
    (held.1, storyDecision platform program satisfied.2 record.event held.2)
  else
    (keeper, none)

namespace Engine

def consider (engine : Engine) (record : Record) (program : Program) (keeper : Keeper) :
    Keeper × Option Match :=
  if program.correlates then
    completed engine.platform program record keeper
  else
    match program.decide engine.platform record.event with
    | none => (keeper, none)
    | some found =>
      if program.counts then
        reached engine.platform program found record keeper
      else
        (keeper, some found)

/-- Decide an event against rules one after another. -/
def considerAll (engine : Engine) (record : Record) : List Program → Keeper → Keeper × List Match
  | [], keeper => (keeper, [])
  | program :: programs, keeper =>
    let next := engine.consider record program keeper
    let rest := considerAll engine record programs next.1
    (rest.1, next.2.toList ++ rest.2)

def detect (engine : Engine) (record : Record) (keeper : Keeper) : Keeper × List Match :=
  engine.considerAll record (engine.rules.forClass record.event.eventClass) keeper

/-- Decide events one after another. -/
def run (engine : Engine) : List Record → Keeper → Keeper × List (List Match)
  | [], keeper => (keeper, [])
  | record :: records, keeper =>
    let next := engine.detect record keeper
    let rest := run engine records next.1
    (rest.1, next.2 :: rest.2)

/-- The fold one rule asks for, if the event is one it folds. -/
def callOf (engine : Engine) (record : Record) (program : Program) : Option Call :=
  if program.correlates then
    let satisfied := program.satisfied engine.platform record.event
    if satisfied.1.any then some (ordering engine.platform program satisfied.1 record) else none
  else
    match program.decide engine.platform record.event with
    | none => none
    | some _ => if program.counts then some (observing engine.platform program record) else none

/-- The folds the rules ask for, in the order they are asked. -/
def callsOf (engine : Engine) (record : Record) : List Call :=
  (engine.rules.forClass record.event.eventClass).filterMap (engine.callOf record)

/-- The folds a run of events asks for. -/
def calls (engine : Engine) (records : List Record) : List Call :=
  records.flatMap engine.callsOf

theorem consider_keeper (engine : Engine) (record : Record) (program : Program) (keeper : Keeper) :
    (engine.consider record program keeper).1 =
      ((engine.callOf record program).elim keeper fun call => (keeper.fold call).1) := by
  unfold consider callOf completed reached
  split
  · simp only
    split <;> rfl
  · cases program.decide engine.platform record.event with
    | none => rfl
    | some found =>
      simp only
      split <;> rfl

theorem considerAll_keeper (engine : Engine) (record : Record) (programs : List Program)
    (keeper : Keeper) :
    (engine.considerAll record programs keeper).1 =
      (keeper.run (programs.filterMap (engine.callOf record))).1 := by
  induction programs generalizing keeper with
  | nil => rfl
  | cons program programs ih =>
    simp only [considerAll, ih, consider_keeper]
    cases asked : engine.callOf record program with
    | none => rw [List.filterMap_cons_none asked]; rfl
    | some call => rw [List.filterMap_cons_some asked]; rfl

theorem run_keeper (engine : Engine) (records : List Record) (keeper : Keeper) :
    (engine.run records keeper).1 = (keeper.run (engine.calls records)).1 := by
  induction records generalizing keeper with
  | nil => rfl
  | cons record records ih =>
    rw [calls, List.flatMap_cons, Keeper.run_append]
    simp only [run, ih, detect, considerAll_keeper]
    rfl

variable {engine : Engine} {program : Program}

theorem callOf_key {record : Record} {call : Call}
    (asked : engine.callOf record program = some call) :
    call.key = keyOf engine.platform program record.event := by
  unfold callOf at asked
  split at asked
  · simp only at asked
    split at asked
    · cases asked
      rfl
    · cases asked
  · split at asked
    · cases asked
    · split at asked
      · cases asked
        rfl
      · cases asked

theorem decide_rule {platform : Platform} {event : Event} {found : Match}
    (decided : program.decide platform event = some found) : found.rule = program.rule := by
  unfold Program.decide at decided
  split_ifs at decided
  · simp only at decided
    split_ifs at decided
    cases decided
    rfl
  · split at decided
    · cases decided
    · split_ifs at decided
      cases decided
      rfl

theorem consider_rule {record : Record} {keeper : Keeper} {found : Match}
    (made : (engine.consider record program keeper).2 = some found) :
    found.rule = program.rule := by
  unfold consider at made
  split at made
  · unfold completed at made
    simp only at made
    split at made
    · simp only [storyDecision] at made
      split_ifs at made
      cases made
      rfl
    · cases made
  · split at made
    · cases made
    · rename_i first decided
      have rule_eq : first.rule = program.rule := decide_rule decided
      split at made
      · simp only [reached, countDecision] at made
        split_ifs at made
        cases made
        exact rule_eq
      · cases made
        exact rule_eq

theorem exists_record {records : List Record} {call : Call}
    (member : program ∈ engine.rules.programs) (asked : call ∈ engine.calls records)
    (own : call.key.rule = program.rule.id) :
    ∃ record ∈ records, program ∈ engine.rules.forClass record.event.eventClass ∧
      engine.callOf record program = some call := by
  obtain ⟨record, record_mem, call_mem⟩ := List.mem_flatMap.mp asked
  obtain ⟨other, other_mem, call_eq⟩ := List.mem_filterMap.mp call_mem
  have same : other = program := by
    refine Snapshot.eq_of_id ((engine.rules.forClass_sublist _).subset other_mem) member ?_
    rw [callOf_key call_eq] at own
    exact own
  exact ⟨record, record_mem, same ▸ other_mem, same ▸ call_eq⟩

end Engine

def Record.logon (tenant id : String) (outcome : ℤ) (instant : ℕ) : Record where
  event := {
    eventId := id
    schemaVersion := 1
    eventClass := .authentication
    time := some ⟨some (.new instant), none⟩
    origin := some ⟨tenant, "agent-01", none⟩
    collection := none
    reception := none
    authentication := some ⟨1, outcome, "", "", none, none, none, ""⟩ }
  partition := 0
  order := .inOrder
  timed := by
    change 0 ≤ (Timestamp.new instant).asTime
    rw [Timestamp.asTime_new]
    exact Int.natCast_nonneg instant

/-- An engine that runs a rule that counts and a rule that orders. -/
def Engine.small : Engine := ⟨.plain, ⟨[.failedLogons, .guessedLogon], by decide⟩⟩

end Seagull.Analysis
