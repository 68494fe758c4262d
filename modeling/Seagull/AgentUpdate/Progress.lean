import Seagull.AgentUpdate.Rollout

/-!
# How far a rollout went

What an agent's newest report says of a release, what the platform counts of the agents a rollout
reached, and what the gate does once they are counted: it pauses a rollout that failed too often,
and opens the next wave of one whose wave ran for its soak with enough agents running the release.
-/

namespace Seagull.AgentUpdate

open Contract

/-- What an agent a rollout reached says of its release. -/
inductive Outcome where
  | pending
  | running
  | failed
  | ineligible
  deriving DecidableEq

def buildOf (report : Status) : Build := report.build.getD ⟨"", "", ""⟩

def updatesOf (report : Status) : Updates :=
  (report.compatibility.bind Compatibility.updates).getD ⟨false, .unspecified, 0⟩

/-- The release of a version that is built for an agent, if there is one. -/
def matching (report : Status) (catalog : List Release) (version : String) : Option Release :=
  catalog.find? fun release =>
    release.version = version ∧ release.os = (buildOf report).os ∧
      release.architecture = (buildOf report).architecture ∧
      (report.compatibility.isNone ∨ release.format = (updatesOf report).format)

/-- Whether an agent could install a release. -/
def takes (report : Status) (target : String) (catalog : List Release) : Bool :=
  match parseVersion (buildOf report).version with
  | none => false
  | some running =>
    if report.compatibility.isSome ∧ ¬ (updatesOf report).enabled then false
    else
      match matching report catalog target, matching report catalog running.text with
      | some release, some _ =>
        if report.compatibility.isSome ∧
            release.stateGeneration < (updatesOf report).stateGeneration then false
        else
          match ((parseVersion target).getD ⟨0, 0, 0, [], ""⟩).compare running with
          | .lt => running.text ∈ release.replaces
          | .eq => true
          | .gt =>
            release.minimumVersion = "" ||
              (parseVersion release.minimumVersion).all fun oldest =>
                running.compare oldest ≠ .lt
      | _, _ => false

/-- What an agent says of its last update, where that decides its count. -/
def tried (report : Status) (target : String) : Option Outcome :=
  let update := report.update.getD ⟨"", .other 0, .other 0⟩
  if update.version = target then
    match update.stage with
    | .rolledBack => some .failed
    | .failed =>
      match update.failure with
      | .unverified | .installation | .unhealthy => some .failed
      | .refused => some .ineligible
      | .other _ => none
    | .other _ => none
  else none

/-- An agent's newest report, held against the release of a rollout. -/
def judge (report : Option Status) (target : String) (catalog : Option (List Release)) : Outcome :=
  match report with
  | none => .pending
  | some report =>
    if (buildOf report).version = target then .running
    else
      match tried report target with
      | some outcome => outcome
      | none =>
        if catalog.any fun releases => !takes report target releases then .ineligible
        else .pending

theorem judge_eq_running_iff {report : Option Status} {target : String}
    {catalog : Option (List Release)} :
    judge report target catalog = .running ↔
      ∃ status, report = some status ∧ (buildOf status).version = target := by
  cases report with
  | none => simp [judge]
  | some status =>
    simp only [judge, Option.some.injEq, exists_eq_left']
    split
    · simp_all
    · rename_i other
      simp only [other, iff_false]
      unfold tried
      split
      · rename_i outcome tried_eq
        rintro rfl
        simp only at tried_eq
        split at tried_eq
        · split at tried_eq
          · simp at tried_eq
          · split at tried_eq <;> simp at tried_eq
          · simp at tried_eq
        · simp at tried_eq
      · split <;> simp

/-- What a rollout counts of the agents it reached. -/
structure Tally where
  progress : RolloutProgress
  failing : List String

def Tally.count (tally : Tally) (agent : String) (outcome : Outcome) (acknowledged : Bool) : Tally :=
  let progress := tally.progress
  match outcome with
  | .running => { tally with progress := { progress with running := progress.running + 1 } }
  | .failed =>
    if acknowledged then
      { tally with progress := { progress with acknowledged := progress.acknowledged + 1 } }
    else
      { progress := { progress with failed := progress.failed + 1 }
        failing := tally.failing ++ [agent] }
  | .ineligible => { tally with progress := { progress with ineligible := progress.ineligible + 1 } }
  | .pending => { tally with progress := { progress with pending := progress.pending + 1 } }

/-- What a gate does with a rollout. -/
inductive GateStep where
  | hold
  | pause
  | openNext

/-- Whether an active rollout opens its next wave or pauses, and why. -/
def gate (record : RolloutRecord) (progress : RolloutProgress) (now : ℤ) : GateStep × String :=
  if record.state ≠ .active then (.hold, "")
  else if record.rollout.failures ≤ progress.failed then
    (.pause, s!"{progress.failed} of the agents reached failed {record.rollout.version}, and " ++
      s!"{record.rollout.failures} failing pause the rollout")
  else if record.rollout.waves.length ≤ record.wave + 1 then (.hold, "")
  else
    match record.rollout.waves[record.wave]?.bind fun wave => wave.soak.map fun soak => (wave, soak) with
    | none => (.hold, "")
    | some (wave, soak) =>
      if now < record.waveOpenedAt.asTime + soak.asDuration ∨ progress.running < wave.running then
        (.hold, "")
      else
        (.openNext, s!"wave {record.wave} ran for {Duration.written soak.asDuration} with " ++
          s!"{progress.running} of the agents reached running {record.rollout.version}")

/-- A wave that is not the last was open for its soak, enough agents run the release, and few fail
it. -/
structure RanItsCourse (record : RolloutRecord) (running failed : ℕ) (now : ℤ) : Prop where
  active : record.state = .active
  another : record.wave + 1 < record.rollout.waves.length
  ran : ∃ wave soak, record.rollout.waves[record.wave]? = some wave ∧ wave.soak = some soak ∧
    record.waveOpenedAt.asTime + soak.asDuration ≤ now ∧ wave.running ≤ running
  few : failed < record.rollout.failures

theorem gate_openNext {record : RolloutRecord} {progress : RolloutProgress} {now : ℤ}
    (opened : (gate record progress now).1 = .openNext) :
    RanItsCourse record progress.running progress.failed now := by
  unfold gate at opened
  split at opened
  · simp at opened
  split at opened
  · simp at opened
  split at opened
  · simp at opened
  rename_i active few another
  split at opened
  · simp at opened
  rename_i wave soak found
  split at opened
  · simp at opened
  rename_i waited
  simp only [Option.bind_eq_some_iff, Option.map_eq_some_iff, Prod.mk.injEq] at found
  obtain ⟨_, wave_eq, _, soak_eq, rfl, rfl⟩ := found
  simp only [not_or, not_lt] at waited
  exact ⟨not_not.mp active, by omega, ⟨_, _, wave_eq, soak_eq, waited.1, waited.2⟩, by omega⟩

theorem gate_pause {record : RolloutRecord} {progress : RolloutProgress} {now : ℤ}
    (paused : (gate record progress now).1 = .pause) : record.state = .active := by
  unfold gate at paused
  split at paused
  · simp at paused
  · rename_i active
    exact not_not.mp active

def changed (record : RolloutRecord) (reason : String) (instant : ℤ) : RolloutRecord :=
  { record with
    changedBy := platform
    changedAt := Timestamp.new instant
    reason := reason }

def opened (record : RolloutRecord) (reason : String) (instant : ℤ) : RolloutRecord :=
  { changed record reason instant with
    wave := record.wave + 1
    waveOpenedAt := Timestamp.new instant }

def paused (record : RolloutRecord) (reason : String) (instant : ℤ) : RolloutRecord :=
  { changed record reason instant with state := .paused }

/-- A rollout in force as the store holds it. -/
structure HeldRollout where
  record : RolloutRecord
  named : Bool
  changes : ℕ

/-- The agents of a rollout the platform still listens to. -/
structure Reach where
  agents : List String
  pinned : List String
  acknowledged : List String

/-- What one reading of a rollout settled. -/
structure Settlement where
  held : HeldRollout
  record : RolloutRecord
  moved : Bool
  failing : List String

/-- All that an evaluator read of one rollout. -/
structure Reading where
  held : HeldRollout
  reach : Reach
  reports : String → Option Status
  /-- The newest catalog, if it could be verified. -/
  catalog : Option (List Release)
  now : ℤ

namespace Reading

variable (sha256 : Bytes → Bytes) (reading : Reading)

def reachedAgents : List String :=
  reading.reach.agents.filter fun agent =>
    AgentUpdate.reaches sha256 reading.held.record.rolloutId reading.held.record.rollout.waves
      reading.held.record.wave agent

def counted : List String :=
  (reading.reachedAgents sha256).filter fun agent => agent ∉ reading.reach.pinned

def outcome (agent : String) : Outcome :=
  judge (reading.reports agent) reading.held.record.rollout.version reading.catalog

/-- What the platform counts before it reads any report. -/
def unread : Tally where
  progress := {
    evaluatedAt := Timestamp.new reading.now
    agents := reading.reach.agents.length
    reached := (reading.reachedAgents sha256).length
    pinned := ((reading.reachedAgents sha256).filter fun agent =>
      agent ∈ reading.reach.pinned).length
    running := 0
    failed := 0
    acknowledged := 0
    ineligible := 0
    pending := 0 }
  failing := []

def tally : Tally :=
  (reading.counted sha256).foldl (fun tally agent =>
    tally.count agent (reading.outcome agent) (agent ∈ reading.reach.acknowledged))
    (reading.unread sha256)

/-- `RolloutEvaluator.read`: what a reading settles. -/
def settled : Settlement :=
  let tally := reading.tally sha256
  let next := { reading.held.record with progress := some tally.progress }
  match gate next tally.progress reading.now with
  | (.hold, _) => ⟨reading.held, next, false, tally.failing⟩
  | (.pause, reason) => ⟨reading.held, paused next reason reading.now, true, tally.failing⟩
  | (.openNext, reason) => ⟨reading.held, opened next reason reading.now, true, tally.failing⟩

/-- The agents reached that report the release as the build they run. -/
def runningAgents : List String :=
  (reading.counted sha256).filter fun agent =>
    (reading.reports agent).any fun status =>
      (buildOf status).version = reading.held.record.rollout.version

/-- The agents reached that newly say they failed the release. -/
def failingAgents : List String :=
  (reading.counted sha256).filter fun agent =>
    reading.outcome agent = .failed ∧ agent ∉ reading.reach.acknowledged

variable {sha256 reading}

theorem decide_running (reading : Reading) (agent : String) :
    decide (reading.outcome agent = .running) =
      (reading.reports agent).any fun status =>
        (buildOf status).version = reading.held.record.rollout.version := by
  rw [Bool.eq_iff_iff, decide_eq_true_iff, outcome, judge_eq_running_iff, Option.any_eq_true]
  simp

theorem foldl_count (agents : List String) (tally : Tally) :
    let counted := agents.foldl (fun tally agent =>
      tally.count agent (reading.outcome agent) (agent ∈ reading.reach.acknowledged)) tally
    counted.progress.running = tally.progress.running +
        (agents.filter fun agent => reading.outcome agent = .running).length ∧
      counted.progress.failed = tally.progress.failed +
        (agents.filter fun agent =>
          reading.outcome agent = .failed ∧ agent ∉ reading.reach.acknowledged).length := by
  induction agents generalizing tally with
  | nil => simp
  | cons agent agents ih =>
    obtain ⟨running, failed⟩ := ih
      (tally.count agent (reading.outcome agent) (agent ∈ reading.reach.acknowledged))
    rw [List.foldl_cons]
    refine ⟨running.trans ?_, failed.trans ?_⟩ <;>
      cases outcome_eq : reading.outcome agent <;>
        by_cases known : agent ∈ reading.reach.acknowledged <;>
          simp [Tally.count, outcome_eq, known] <;> omega

theorem tally_running :
    (reading.tally sha256).progress.running = (reading.runningAgents sha256).length := by
  rw [tally, (foldl_count _ _).1, runningAgents]
  simp only [decide_running]
  exact Nat.zero_add _

theorem tally_failed :
    (reading.tally sha256).progress.failed = (reading.failingAgents sha256).length := by
  rw [tally, (foldl_count _ _).2, failingAgents]
  simp [unread]

/-- What a reading can settle: nothing, a pause, or the wave after one that ran its course. -/
inductive Settles (reading : Reading) (sha256 : Bytes → Bytes) : Settlement → Prop
  | held (progress : RolloutProgress) (failing : List String) :
      Settles reading sha256
        ⟨reading.held, { reading.held.record with progress := some progress }, false, failing⟩
  | paused (progress : RolloutProgress) (failing : List String) (reason : String)
      (active : reading.held.record.state = .active) :
      Settles reading sha256
        ⟨reading.held,
          AgentUpdate.paused { reading.held.record with progress := some progress } reason
            reading.now, true, failing⟩
  | opened (progress : RolloutProgress) (failing : List String) (reason : String)
      (ran : RanItsCourse reading.held.record (reading.runningAgents sha256).length
        (reading.failingAgents sha256).length reading.now) :
      Settles reading sha256
        ⟨reading.held,
          AgentUpdate.opened { reading.held.record with progress := some progress } reason
            reading.now, true, failing⟩

theorem Settles.held_eq {settled : Settlement} (settles : reading.Settles sha256 settled) :
    settled.held = reading.held ∧ settled.record.rolloutId = reading.held.record.rolloutId := by
  cases settles <;> exact ⟨rfl, rfl⟩

theorem settled_settles (sha256 : Bytes → Bytes) (reading : Reading) :
    reading.Settles sha256 (reading.settled sha256) := by
  unfold settled
  simp only
  split
  · exact .held _ _
  · rename_i reason gate_eq
    exact .paused _ _ reason (gate_pause (congrArg Prod.fst gate_eq))
  · rename_i reason gate_eq
    have ran := gate_openNext (congrArg Prod.fst gate_eq)
    rw [tally_running, tally_failed] at ran
    exact .opened _ _ reason ⟨ran.active, ran.another, ran.ran, ran.few⟩

end Reading
end Seagull.AgentUpdate
