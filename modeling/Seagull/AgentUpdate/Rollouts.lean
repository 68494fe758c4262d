import Seagull.AgentUpdate.Progress
import Seagull.Contract.Agent
import Seagull.Foundation.Transition

/-!
# Rollouts under concurrency

Operators change rollouts while any number of control planes read how far each one went and let its
gate open a wave or pause it.  A request and the writing of a reading are transactions; a reading is
taken one query after another, long before it is written, and is written only while the rollout was
not changed since.
-/

namespace Seagull.AgentUpdate

open Contract

/-! ## The store -/

/-- A row of `agent_rollouts`, but for the identifier it is held under. -/
structure RolloutRow where
  tenantId : String
  version : String
  failures : ℕ
  note : String
  waves : List Wave
  agents : ℕ
  state : RolloutState
  wave : ℕ
  waveOpenedAt : ℤ
  changes : ℕ
  createdBy : String
  createdAt : ℤ
  changedBy : String
  changedAt : ℤ
  reason : String
  progress : Option RolloutProgress
  deriving DecidableEq

def scanRollout (id : String) (row : RolloutRow) : HeldRollout where
  record := {
    rolloutId := id
    rollout := ⟨row.tenantId, row.version, [], row.waves, row.failures, row.note⟩
    state := row.state
    wave := row.wave
    waveOpenedAt := Timestamp.new row.waveOpenedAt
    createdBy := row.createdBy
    createdAt := Timestamp.new row.createdAt
    changedBy := row.changedBy
    changedAt := Timestamp.new row.changedAt
    reason := row.reason
    progress := row.progress }
  named := 0 < row.agents
  changes := row.changes

/-- A registered agent, as far as rollouts read it. -/
structure AgentRow where
  agentId : String
  tenantId : String
  state : AgentState

/-- What the store holds. -/
structure Store where
  rollouts : FiniteMap String RolloutRow
  members : String → List String
  /-- The agents last read as failing the release of each rollout. -/
  failing : String → List String
  /-- The agents whose failure an operator resumed each rollout past. -/
  acknowledged : String → List String
  agents : List AgentRow
  /-- The agents a release is assigned to one by one. -/
  assigned : List String
  releases : List String

namespace RolloutRow

/-- A row that another rollout took over from, if it was in force. -/
def superseded (tenant actor : String) (instant : ℤ) (reason : String) (row : RolloutRow) :
    RolloutRow :=
  if row.tenantId = tenant ∧ RolloutState.inForce row.state then
    { row with
      state := .superseded
      changes := row.changes + 1
      changedBy := actor
      changedAt := instant
      reason := reason }
  else row

def started (record : RolloutRecord) : RolloutRow :=
  let instant := Instant.stored record.createdAt.asTime
  { tenantId := record.rollout.tenantId
    version := record.rollout.version
    failures := record.rollout.failures
    note := record.rollout.note
    waves := record.rollout.waves
    agents := record.rollout.agentIds.length
    state := .active
    wave := 0
    waveOpenedAt := instant
    changes := 0
    createdBy := record.createdBy
    createdAt := instant
    changedBy := record.changedBy
    changedAt := instant
    reason := record.reason
    progress := none }

/-- A row with where a record says its rollout stands. -/
def standingAt (row : RolloutRow) (record : RolloutRecord) (changes : ℕ) : RolloutRow :=
  { row with
    state := record.state
    wave := record.wave
    waveOpenedAt := Instant.stored record.waveOpenedAt.asTime
    changes := changes
    changedBy := record.changedBy
    changedAt := Instant.stored record.changedAt.asTime
    reason := record.reason }

end RolloutRow

namespace Store

def registered (store : Store) (tenant agent : String) : Bool :=
  store.agents.any fun row => row.tenantId = tenant ∧ row.agentId = agent

/-- `AgentRollouts.Start`: the rollout in force is superseded. -/
def start (store : Store) (accepted : RolloutRecord) : Except RolloutFailure Store := do
  let rollout := accepted.rollout
  refuse (rollout.version ∉ store.releases) (.uncataloged rollout.version)
  let named := compact
    ((rollout.agentIds ++ rollout.waves.flatMap Wave.agentIds).insertionSort (· ≤ ·))
  let missing := named.filter fun agent => !store.registered rollout.tenantId agent
  refuse (missing ≠ []) (.unregistered missing)
  refuse ((store.rollouts.lookup accepted.rolloutId).isSome) (.drawnTwice accepted.rolloutId)
  let superseding := RolloutRow.superseded rollout.tenantId accepted.createdBy
    (Instant.stored accepted.createdAt.asTime) ("rollout " ++ accepted.rolloutId ++ " took over")
  return { store with
    rollouts := (store.rollouts.mapValues superseding).insert accepted.rolloutId
      (RolloutRow.started accepted)
    members := Function.update store.members accepted.rolloutId rollout.agentIds }

/-- `AgentRollouts.Change`. -/
def change (store : Store) (accepted : AcceptedChange) : Except RolloutFailure Store := do
  match store.rollouts.lookup accepted.rolloutId with
  | none => .error (.unknown accepted.rolloutId)
  | some row =>
    refuse (row.tenantId ≠ accepted.tenantId) (.unknown accepted.rolloutId)
    let (changed, acknowledge) ← accepted.apply (scanRollout accepted.rolloutId row).record
    let failing := store.failing accepted.rolloutId
    let known := store.acknowledged accepted.rolloutId
    return { store with
      rollouts := store.rollouts.insert accepted.rolloutId
        (row.standingAt changed (row.changes + 1))
      acknowledged :=
        if acknowledge then
          Function.update store.acknowledged accepted.rolloutId
            (known ++ failing.filter fun agent => agent ∉ known)
        else store.acknowledged }

/-- `AgentRollouts.InForce`, by tenant. -/
def inForce (store : Store) : List HeldRollout :=
  let standing := store.rollouts.entries.filter fun entry => RolloutState.inForce entry.2.state
  (standing.insertionSort fun first second => first.2.tenantId ≤ second.2.tenantId).map fun entry =>
    scanRollout entry.1 entry.2

/-- The first query of `AgentRollouts.Reach`. -/
def movable (store : Store) (held : HeldRollout) : List (String × Bool) :=
  let listened := store.agents.filter fun row =>
    row.tenantId = held.record.rollout.tenantId ∧
      (row.state = .pending ∨ row.state = .active) ∧
      (¬ held.named ∨ row.agentId ∈ store.members held.record.rolloutId)
  (listened.insertionSort fun first second => first.agentId ≤ second.agentId).map fun row =>
    (row.agentId, decide (row.agentId ∈ store.assigned))

/-- `AgentRollouts.Settle`: written only while the rollout was not changed since it was read. -/
def settle (store : Store) (settled : Settlement) : Bool × Store :=
  let id := settled.record.rolloutId
  match store.rollouts.lookup id with
  | none => (false, store)
  | some row =>
    if row.changes ≠ settled.held.changes then (false, store)
    else
      let changes := if settled.moved then settled.held.changes + 1 else settled.held.changes
      (true, { store with
        rollouts := store.rollouts.insert id
          { row.standingAt settled.record changes with progress := settled.record.progress }
        failing := Function.update store.failing id settled.failing })

end Store

/-! ## The system -/

/-- Where an evaluator stands in the sweep it makes. -/
inductive Evaluator where
  | idle
  /-- It read the rollouts in force, and these are left to read. -/
  | sweeping (catalog : Option (List Release)) (left : List HeldRollout)
  /-- It read the agents one of them may move. -/
  | moving (catalog : Option (List Release)) (one : HeldRollout) (agents : List (String × Bool))
      (left : List HeldRollout)
  /-- It read which of its failures are known, too. -/
  | reached (catalog : Option (List Release)) (one : HeldRollout) (reach : Reach)
      (left : List HeldRollout)
  /-- It read the reports, too, and has what it settles to write. -/
  | reading (reading : Reading) (left : List HeldRollout)

def Evaluator.pending : Evaluator → List HeldRollout
  | .idle => []
  | .sweeping _ left => left
  | .moving _ one _ left | .reached _ one _ left => one :: left
  | .reading read left => read.held :: left

/-- The store and the evaluators. -/
structure Plane (ε : Type) where
  store : Store
  evaluators : ε → Evaluator

/-- What can happen. -/
inductive RolloutEvent (ε : Type) where
  /-- Other transactions write the agents, the assignments and the catalogs. -/
  | elsewhere (agents : List AgentRow) (assigned releases : List String)
  | start (asked : Rollout) (actor : String) (instant : ℤ) (drawn : Bytes)
  | change (asked : RolloutChange) (actor : String) (instant : ℤ)
  /-- An evaluator reads the rollouts in force, and the catalog. -/
  | sweep (evaluator : ε) (catalog : Option (List Release))
  /-- An evaluator reads the agents the next rollout may move. -/
  | move (evaluator : ε)
  /-- An evaluator reads which failures are known. -/
  | reach (evaluator : ε)
  /-- An evaluator reads its clock and the newest reports. -/
  | report (evaluator : ε) (now : ℤ) (reports : String → Option Status)
  /-- An evaluator writes what it settled. -/
  | settle (evaluator : ε)
  /-- A read of an evaluator fails, and it goes on with the next rollout. -/
  | skip (evaluator : ε)
  /-- An evaluator has nothing left, runs out of time or stops. -/
  | stop (evaluator : ε)

namespace Plane

variable {ε : Type} [DecidableEq ε]

def evaluate (plane : Plane ε) (evaluator : ε) (standing : Evaluator) : Plane ε :=
  { plane with evaluators := Function.update plane.evaluators evaluator standing }

theorem evaluators_evaluate (plane : Plane ε) (mover evaluator : ε) (standing : Evaluator) :
    (plane.evaluate mover standing).evaluators evaluator =
      if evaluator = mover then standing else plane.evaluators evaluator :=
  Function.update_apply ..

def holding (plane : Plane ε) (store : Store) : Plane ε := { plane with store := store }

end Plane

section System

variable (ε : Type) [DecidableEq ε] (sha256 : Bytes → Bytes)

/-- Rollouts, operators and evaluators. -/
def rollingOut : System (Plane ε) (RolloutEvent ε) where
  starts plane := plane.store.rollouts = FiniteMap.empty ∧ ∀ evaluator,
    plane.evaluators evaluator = .idle
  step plane
    | .elsewhere agents assigned releases =>
      some (plane.holding { plane.store with
        agents := agents, assigned := assigned, releases := releases })
    | .start asked actor instant drawn =>
      match acceptRollout asked actor instant drawn >>= plane.store.start with
      | .ok store => some (plane.holding store)
      | .error _ => none
    | .change asked actor instant =>
      match acceptChange asked actor instant >>= plane.store.change with
      | .ok store => some (plane.holding store)
      | .error _ => none
    | .sweep evaluator catalog =>
      match plane.evaluators evaluator with
      | .idle => some (plane.evaluate evaluator (.sweeping catalog plane.store.inForce))
      | _ => none
    | .move evaluator =>
      match plane.evaluators evaluator with
      | .sweeping catalog (one :: left) =>
        some (plane.evaluate evaluator (.moving catalog one (plane.store.movable one) left))
      | _ => none
    | .reach evaluator =>
      match plane.evaluators evaluator with
      | .moving catalog one agents left =>
        some (plane.evaluate evaluator (.reached catalog one
          ⟨agents.map Prod.fst, (agents.filter Prod.snd).map Prod.fst,
            plane.store.acknowledged one.record.rolloutId⟩ left))
      | _ => none
    | .report evaluator now reports =>
      match plane.evaluators evaluator with
      | .reached catalog one reach left =>
        some (plane.evaluate evaluator (.reading ⟨one, reach, reports, catalog, now⟩ left))
      | _ => none
    | .settle evaluator =>
      match plane.evaluators evaluator with
      | .reading reading left =>
        some ((plane.holding (plane.store.settle (reading.settled sha256)).2).evaluate evaluator
          (.sweeping reading.catalog left))
      | _ => none
    | .skip evaluator =>
      match plane.evaluators evaluator with
      | .moving catalog _ _ left | .reached catalog _ _ left | .sweeping catalog (_ :: left) =>
        some (plane.evaluate evaluator (.sweeping catalog left))
      | .reading reading left =>
        some (plane.evaluate evaluator (.sweeping reading.catalog left))
      | _ => none
    | .stop evaluator => some (plane.evaluate evaluator .idle)

end System

/-! ## What becomes of a row -/

namespace RolloutRow

/-- What nothing writes again of a row. -/
def taken (row : RolloutRow) : RolloutRow :=
  { row with
    state := .active, wave := 0, waveOpenedAt := 0, changes := 0, changedBy := "", changedAt := 0,
    reason := "", progress := none }

def standing (row : RolloutRow) : RolloutRow := { row with progress := none }

theorem eq_of_standing {row now : RolloutRow} (same : now.standing = row.standing) :
    row = { now with progress := row.progress } := by
  calc row = { row.standing with progress := row.progress } := rfl
    _ = { now.standing with progress := row.progress } := by rw [same]
    _ = { now with progress := row.progress } := rfl

/-- A row that another can have become: its wave rose at most once for each change, and without one
only its progress is another. -/
structure Later (before after : RolloutRow) : Prop where
  taken : after.taken = before.taken
  changes : before.changes ≤ after.changes
  unchanged : after.changes = before.changes → after.standing = before.standing
  wave : before.wave ≤ after.wave
  rise : after.wave + before.changes ≤ before.wave + after.changes
  ended : ¬ RolloutState.inForce before.state → after = before

/-- A row its rollout can stand at: one of its waves is open. -/
structure WellFormed (row : RolloutRow) : Prop where
  wave : row.wave < row.waves.length
  waveOpenedAt : Instant.stored row.waveOpenedAt = row.waveOpenedAt
  changedAt : Instant.stored row.changedAt = row.changedAt

theorem Later.refl (row : RolloutRow) : row.Later row :=
  ⟨rfl, le_rfl, fun _ => rfl, le_rfl, le_rfl, fun _ => rfl⟩

theorem Later.trans {first second third : RolloutRow} (one : first.Later second)
    (two : second.Later third) : first.Later third where
  taken := two.taken.trans one.taken
  changes := one.changes.trans two.changes
  unchanged same := by
    have upper := one.changes
    have lower := two.changes
    exact (two.unchanged (by omega)).trans (one.unchanged (by omega))
  wave := one.wave.trans two.wave
  rise := by
    have upper := one.rise
    have lower := two.rise
    omega
  ended gone := by
    have same := one.ended gone
    exact (two.ended (same ▸ gone)).trans same

variable {before after : RolloutRow}

theorem Later.tenantId_eq (later : before.Later after) : after.tenantId = before.tenantId := by
  have same := congrArg RolloutRow.tenantId later.taken
  exact same

theorem Later.inForce (later : before.Later after) (standing : RolloutState.inForce after.state) :
    RolloutState.inForce before.state := by
  by_contra gone
  exact gone (later.ended gone ▸ standing)

theorem Later.once (standing : RolloutState.inForce before.state)
    (taken : after.taken = before.taken) (changes : after.changes = before.changes + 1)
    (wave : after.wave = before.wave ∨ after.wave = before.wave + 1) : before.Later after where
  taken := taken
  changes := by omega
  unchanged same := by omega
  wave := by omega
  rise := by omega
  ended gone := absurd standing gone

theorem superseded_later (tenant actor reason : String) (instant : ℤ) (row : RolloutRow) :
    row.Later (row.superseded tenant actor instant reason) := by
  unfold superseded
  split
  · rename_i taken_over
    exact .once taken_over.2 rfl rfl (.inl rfl)
  · exact .refl row

theorem superseded_over {tenant actor reason : String} {instant : ℤ} {row : RolloutRow}
    (same : (row.superseded tenant actor instant reason).tenantId = tenant) :
    ¬ RolloutState.inForce (row.superseded tenant actor instant reason).state := by
  unfold superseded at *
  split at same
  · simp_all [RolloutState.inForce]
  · simp_all

end RolloutRow

/-! ## What becomes of the store -/

namespace Store

def Later (before after : Store) : Prop :=
  ∀ id row, before.rollouts.lookup id = some row →
    ∃ later, after.rollouts.lookup id = some later ∧ row.Later later

theorem Later.refl (store : Store) : store.Later store :=
  fun _ row found => ⟨row, found, .refl row⟩

theorem Later.trans {first second third : Store} (one : first.Later second)
    (two : second.Later third) : first.Later third := by
  intro id row found
  obtain ⟨between, found_between, one_later⟩ := one id row found
  obtain ⟨last, found_last, two_later⟩ := two id between found_between
  exact ⟨last, found_last, one_later.trans two_later⟩

def OneInForce (store : Store) : Prop :=
  ∀ first second one two, store.rollouts.lookup first = some one →
    store.rollouts.lookup second = some two → RolloutState.inForce one.state →
    RolloutState.inForce two.state → one.tenantId = two.tenantId → first = second

/-- What one transaction does to the rollouts. -/
structure Advances (before after : Store) : Prop where
  later : before.Later after
  once : ∀ id row next, before.rollouts.lookup id = some row →
    after.rollouts.lookup id = some next → row.WellFormed →
    next.WellFormed ∧ next.changes ≤ row.changes + 1
  fresh : ∀ id next, before.rollouts.lookup id = none → after.rollouts.lookup id = some next →
    next.WellFormed ∧ ∀ other row, other ≠ id → after.rollouts.lookup other = some row →
      row.tenantId = next.tenantId → ¬ RolloutState.inForce row.state

variable {before after : Store}

theorem Advances.of_same (same : after.rollouts = before.rollouts) :
    before.Advances after where
  later _ row found := ⟨row, same ▸ found, .refl row⟩
  once _ row next found found_next well := by
    rw [same, found, Option.some.injEq] at found_next
    subst found_next
    exact ⟨well, Nat.le_succ _⟩
  fresh _ _ missing found := by
    rw [same, missing] at found
    cases found

theorem Advances.of_insert {id : String} {row next : RolloutRow}
    (found : before.rollouts.lookup id = some row)
    (written : after.rollouts = before.rollouts.insert id next) (later : row.Later next)
    (once : row.WellFormed → next.WellFormed ∧ next.changes ≤ row.changes + 1) :
    before.Advances after where
  later other held found_held := by
    rw [written, FiniteMap.lookup_insert]
    split
    · rename_i same
      rw [same, found, Option.some.injEq] at found_held
      exact ⟨next, rfl, found_held ▸ later⟩
    · exact ⟨held, found_held, .refl held⟩
  once other held after_held found_held found_after well := by
    rw [written, FiniteMap.lookup_insert] at found_after
    split at found_after
    · rename_i same
      rw [same, found, Option.some.injEq] at found_held
      rw [Option.some.injEq] at found_after
      exact found_after ▸ found_held ▸ once (found_held ▸ well)
    · rw [found_held, Option.some.injEq] at found_after
      subst found_after
      exact ⟨well, Nat.le_succ _⟩
  fresh other held missing found_held := by
    rw [written, FiniteMap.lookup_insert, if_neg (by rintro rfl; simp [missing] at found),
      missing] at found_held
    cases found_held


variable {store : Store}

theorem change_advances {asked : RolloutChange} {actor : String} {instant : ℤ}
    {accepted : AcceptedChange} (accepts : acceptChange asked actor instant = .ok accepted)
    (changes : store.change accepted = .ok after) : store.Advances after := by
  unfold change at changes
  split at changes
  · cases changes
  rename_i row found
  simp only [checked_eq_ok, exists_passed, refuse_eq_ok, pure_eq_ok, Prod.exists] at changes
  obtain ⟨-, changed, resumed, applied, rfl⟩ := changes
  have made := apply_changed accepts applied
  have wave_eq : changed.wave = row.wave ∨ changed.wave = row.wave + 1 := by
    rcases made.moved with ⟨same, -⟩ | ⟨-, next, -⟩
    · exact .inl same
    · exact .inr next
  refine .of_insert found rfl (.once made.was rfl rfl wave_eq) fun well => ⟨⟨?_, ?_, ?_⟩, le_rfl⟩
  · rcases made.moved with ⟨same, -⟩ | ⟨-, next, another⟩
    · exact lt_of_eq_of_lt same well.wave
    · exact lt_of_eq_of_lt next another
  · exact Instant.stored_stored _
  · exact Instant.stored_stored _

theorem start_advances {asked : Rollout} {actor : String} {instant : ℤ} {drawn : Bytes}
    {accepted : RolloutRecord} (accepts : acceptRollout asked actor instant drawn = .ok accepted)
    (starts : store.start accepted = .ok after) : store.Advances after := by
  simp only [start, passes_eq_ok, refuse_eq_ok, pure_eq_ok] at starts
  obtain ⟨-, -, unheld, rfl⟩ := starts
  obtain ⟨rollout_eq, some_wave, -⟩ := acceptRollout_ok accepts
  have missing : store.rollouts.lookup accepted.rolloutId = none := by
    simpa using unheld
  have lookup_other : ∀ {id}, id ≠ accepted.rolloutId →
      ∀ {superseding : RolloutRow → RolloutRow} {started : RolloutRow},
      ((store.rollouts.mapValues superseding).insert accepted.rolloutId started).lookup id =
        (store.rollouts.lookup id).map superseding := by
    intro id differs superseding started
    rw [FiniteMap.lookup_insert, if_neg differs, FiniteMap.lookup_mapValues]
  refine ⟨fun id row found => ?_, fun id row next found found_next well => ?_,
    fun id next unbound found => ?_⟩
  · have differs : id ≠ accepted.rolloutId := by
      rintro rfl
      simp [missing] at found
    exact ⟨_, (lookup_other differs).trans (by rw [found]; rfl), RolloutRow.superseded_later ..⟩
  · have differs : id ≠ accepted.rolloutId := by
      rintro rfl
      simp [missing] at found
    rw [lookup_other differs, found, Option.map_some, Option.some.injEq] at found_next
    subst found_next
    unfold RolloutRow.superseded
    split
    · exact ⟨⟨well.wave, well.waveOpenedAt, Instant.stored_stored _⟩, le_rfl⟩
    · exact ⟨well, Nat.le_succ _⟩
  · by_cases same : id = accepted.rolloutId
    · subst same
      rw [FiniteMap.lookup_insert_self, Option.some.injEq] at found
      subst found
      refine ⟨⟨by simpa [RolloutRow.started, rollout_eq] using some_wave, Instant.stored_stored _,
        Instant.stored_stored _⟩, fun other row differs found_row tenant_eq => ?_⟩
      rw [lookup_other differs, Option.map_eq_some_iff] at found_row
      obtain ⟨held, -, rfl⟩ := found_row
      exact RolloutRow.superseded_over tenant_eq
    · rw [lookup_other same, unbound] at found
      cases found

/-- What an evaluator holds was read from a row of which the store holds a later one. -/
def ReadFrom (store : Store) (held : HeldRollout) : Prop :=
  ∃ row now, held = scanRollout held.record.rolloutId row ∧ RolloutState.inForce row.state ∧
    row.WellFormed ∧ store.rollouts.lookup held.record.rolloutId = some now ∧ row.Later now

variable {held : HeldRollout}

theorem ReadFrom.later (read : before.ReadFrom held) (later : before.Later after) :
    after.ReadFrom held := by
  obtain ⟨row, now, read_eq, standing, well, found, row_later⟩ := read
  obtain ⟨next, found_next, now_later⟩ := later _ now found
  exact ⟨row, next, read_eq, standing, well, found_next, row_later.trans now_later⟩

theorem ReadFrom.standing_eq {now : RolloutRow} (read : store.ReadFrom held)
    (found : store.rollouts.lookup held.record.rolloutId = some now)
    (unchanged : now.changes = held.changes) :
    RolloutState.inForce now.state ∧ now.WellFormed ∧
      ∃ progress, held = scanRollout held.record.rolloutId { now with progress := progress } := by
  obtain ⟨row, other, read_eq, standing, well, found_other, later⟩ := read
  rw [found, Option.some.injEq] at found_other
  subst found_other
  have changes_eq : now.changes = row.changes :=
    unchanged.trans (congrArg HeldRollout.changes read_eq)
  have row_eq := RolloutRow.eq_of_standing (later.unchanged changes_eq)
  refine ⟨?_, ⟨?_, ?_, ?_⟩, row.progress, row_eq ▸ read_eq⟩
  · rw [row_eq] at standing
    exact standing
  · rw [row_eq] at well
    exact well.wave
  · rw [row_eq] at well
    exact well.waveOpenedAt
  · rw [row_eq] at well
    exact well.changedAt

theorem settle_cases (store : Store) (settled : Settlement) :
    store.settle settled = (false, store) ∨
      ∃ row, store.rollouts.lookup settled.record.rolloutId = some row ∧
        row.changes = settled.held.changes ∧
        store.settle settled = (true, { store with
          rollouts := store.rollouts.insert settled.record.rolloutId
            { row.standingAt settled.record
                (if settled.moved then settled.held.changes + 1 else settled.held.changes) with
              progress := settled.record.progress }
          failing := Function.update store.failing settled.record.rolloutId settled.failing }) := by
  unfold settle
  simp only
  split
  · exact .inl rfl
  · rename_i row found
    split
    · exact .inl rfl
    · rename_i same
      exact .inr ⟨row, found, not_not.mp same, rfl⟩

theorem settle_advances {sha256 : Bytes → Bytes} {reading : Reading}
    (read : store.ReadFrom reading.held) :
    store.Advances (store.settle (reading.settled sha256)).2 := by
  have settles := reading.settled_settles sha256
  generalize reading.settled sha256 = settled at *
  obtain ⟨held_eq, id_eq⟩ := settles.held_eq
  rcases store.settle_cases settled with unwritten | ⟨row, found, same, written⟩
  · rw [unwritten]
    exact .of_same rfl
  rw [written]
  obtain ⟨standing, well, last, read_eq⟩ :=
    read.standing_eq (id_eq ▸ found) (same.trans (congrArg HeldRollout.changes held_eq))
  obtain ⟨held, reach, reports, catalog, now⟩ := reading
  simp only at read_eq id_eq held_eq
  generalize held.record.rolloutId = id at *
  subst read_eq
  refine .of_insert found rfl ?_ fun _ => ?_
  · cases settles with
    | held progress failing =>
      have unmoved : row.standingAt { (scanRollout id { row with progress := last }).record with
          progress := some progress } row.changes = row := by
        simp [RolloutRow.standingAt, scanRollout, Timestamp.asTime_new, well.waveOpenedAt,
          well.changedAt]
      have taken := congrArg RolloutRow.taken unmoved
      have standing_same := congrArg RolloutRow.standing unmoved
      exact ⟨taken, le_rfl, fun _ => standing_same, le_rfl, le_rfl, absurd standing⟩
    | paused progress failing reason active => exact .once standing rfl rfl (.inl rfl)
    | opened progress failing reason ran => exact .once standing rfl rfl (.inr rfl)
  · cases settles with
    | held progress failing =>
      exact ⟨⟨well.wave, Instant.stored_stored _, Instant.stored_stored _⟩, Nat.le_succ _⟩
    | paused progress failing reason active =>
      exact ⟨⟨well.wave, Instant.stored_stored _, Instant.stored_stored _⟩, le_rfl⟩
    | opened progress failing reason ran =>
      exact ⟨⟨ran.another, Instant.stored_stored _, Instant.stored_stored _⟩, le_rfl⟩

theorem mem_inForce :
    held ∈ store.inForce ↔ ∃ id row, store.rollouts.lookup id = some row ∧
      RolloutState.inForce row.state ∧ held = scanRollout id row := by
  simp only [inForce, List.mem_map, List.mem_insertionSort, List.mem_filter, Prod.exists,
    FiniteMap.mem_entries_iff, and_assoc, eq_comm]

end Store

/-! ## What holds of every state -/

section Invariant

variable {ε : Type} [DecidableEq ε] {sha256 : Bytes → Bytes}

/-- What holds of the store and of what the evaluators read. -/
structure Plane.Sound (plane : Plane ε) : Prop where
  rows : ∀ id row, plane.store.rollouts.lookup id = some row → row.WellFormed
  single : plane.store.OneInForce
  pending : ∀ evaluator, ∀ held ∈ (plane.evaluators evaluator).pending, plane.store.ReadFrom held

variable {before after : Plane ε}

theorem step_advances {event : RolloutEvent ε} (sound : before.Sound)
    (stepped : (rollingOut ε sha256).step before event = some after) :
    before.store.Advances after.store ∧
      ∀ evaluator, ∀ held ∈ (after.evaluators evaluator).pending,
        held ∈ (before.evaluators evaluator).pending ∨
          (∃ catalog, event = .sweep evaluator catalog) ∧ held ∈ before.store.inForce := by
  -- An event moves one evaluator; what it holds pending it held before, unless it sweeps.
  have moves : ∀ {plane : Plane ε} {mover : ε} {standing : Evaluator},
      plane.evaluators = before.evaluators →
      (∀ held ∈ standing.pending, held ∈ (before.evaluators mover).pending ∨
        (∃ catalog, event = .sweep mover catalog) ∧ held ∈ before.store.inForce) →
      ∀ evaluator, ∀ held ∈ ((plane.evaluate mover standing).evaluators evaluator).pending,
        held ∈ (before.evaluators evaluator).pending ∨
          (∃ catalog, event = .sweep evaluator catalog) ∧ held ∈ before.store.inForce := by
    intro plane mover standing same goes_on evaluator held pending
    rw [Plane.evaluators_evaluate] at pending
    split at pending
    · rename_i moved
      exact moved ▸ goes_on held pending
    · rw [same] at pending
      exact .inl pending
  cases event with
  | elsewhere agents assigned releases =>
    cases stepped
    exact ⟨.of_same rfl, fun _ _ pending => .inl pending⟩
  | start asked actor instant drawn =>
    simp only [rollingOut] at stepped
    split at stepped
    · rename_i store stored
      cases stepped
      obtain ⟨accepted, accepts, starts⟩ := checked_eq_ok.mp stored
      exact ⟨Store.start_advances accepts starts, fun _ _ pending => .inl pending⟩
    · cases stepped
  | change asked actor instant =>
    simp only [rollingOut] at stepped
    split at stepped
    · rename_i store stored
      cases stepped
      obtain ⟨accepted, accepts, changes⟩ := checked_eq_ok.mp stored
      exact ⟨Store.change_advances accepts changes, fun _ _ pending => .inl pending⟩
    · cases stepped
  | sweep mover catalog =>
    simp only [rollingOut] at stepped
    split at stepped
    · cases stepped
      exact ⟨.of_same rfl, moves rfl fun _ pending => .inr ⟨⟨catalog, rfl⟩, pending⟩⟩
    · cases stepped
  | move mover | reach mover | report mover =>
    simp only [rollingOut] at stepped
    split at stepped
    · rename_i standing_eq
      cases stepped
      exact ⟨.of_same rfl, moves rfl fun _ pending => .inl (standing_eq ▸ pending)⟩
    · cases stepped
  | settle mover =>
    simp only [rollingOut] at stepped
    split at stepped
    · rename_i reading left standing_eq
      cases stepped
      have read := sound.pending mover reading.held (standing_eq ▸ List.mem_cons_self)
      exact ⟨Store.settle_advances read, moves rfl fun _ pending =>
        .inl (standing_eq ▸ List.mem_cons_of_mem _ pending)⟩
    · cases stepped
  | skip mover =>
    simp only [rollingOut] at stepped
    split at stepped
    all_goals try cases stepped
    all_goals
      rename_i standing_eq
      exact ⟨.of_same rfl, moves rfl fun _ pending =>
        .inl (standing_eq ▸ List.mem_cons_of_mem _ pending)⟩
  | stop mover =>
    cases stepped
    exact ⟨.of_same rfl, moves rfl fun _ pending => by cases pending⟩

variable {plane : Plane ε}

theorem starts_sound (starts : (rollingOut ε sha256).starts plane) : plane.Sound := by
  obtain ⟨no_rollouts, all_idle⟩ := starts
  refine ⟨fun id row found => ?_, fun first second one two found => ?_,
    fun evaluator held pending => ?_⟩
  · rw [no_rollouts] at found
    cases found
  · rw [no_rollouts] at found
    cases found
  · rw [all_idle] at pending
    cases pending

theorem step_sound {event : RolloutEvent ε} (sound : before.Sound)
    (stepped : (rollingOut ε sha256).step before event = some after) : after.Sound := by
  obtain ⟨advances, pending⟩ := step_advances sound stepped
  refine ⟨fun id row found => ?_,
    fun first second one two found_one found_two in_one in_two same => ?_,
    fun evaluator held member => ?_⟩
  · cases was : before.store.rollouts.lookup id with
    | none => exact (advances.fresh id row was found).1
    | some old => exact (advances.once id old row was found (sound.rows id old was)).1
  · by_contra differ
    cases was_one : before.store.rollouts.lookup first with
    | none =>
      exact (advances.fresh first one was_one found_one).2 second two (Ne.symm differ) found_two
        same.symm in_two
    | some old_one =>
      cases was_two : before.store.rollouts.lookup second with
      | none =>
        exact (advances.fresh second two was_two found_two).2 first one differ found_one same
          in_one
      | some old_two =>
        obtain ⟨_, found_later_one, later_one⟩ := advances.later first old_one was_one
        obtain ⟨_, found_later_two, later_two⟩ := advances.later second old_two was_two
        rw [found_one, Option.some.injEq] at found_later_one
        rw [found_two, Option.some.injEq] at found_later_two
        subst found_later_one found_later_two
        exact differ (sound.single first second old_one old_two was_one was_two
          (later_one.inForce in_one) (later_two.inForce in_two)
          (later_one.tenantId_eq ▸ later_two.tenantId_eq ▸ same))
  · rcases pending evaluator held member with before_member | ⟨-, swept⟩
    · exact (sound.pending evaluator held before_member).later advances.later
    · obtain ⟨id, row, found, standing, rfl⟩ := Store.mem_inForce.mp swept
      obtain ⟨now, found_now, later⟩ := advances.later id row found
      exact ⟨row, now, rfl, standing, sound.rows id row found, found_now, later⟩

theorem reaches_sound (reached : (rollingOut ε sha256).Reaches plane) : plane.Sound :=
  reached.invariant (fun _ => starts_sound) fun _ _ _ sound stepped => step_sound sound stepped

theorem run_later {events : List (RolloutEvent ε)} (sound : before.Sound)
    (ran : (rollingOut ε sha256).run before events = some after) : before.store.Later after.store :=
  @System.run_relates _ _ _ Plane.Sound (fun before after => before.store.Later after.store)
    (fun plane => .refl plane.store) (fun one two => one.trans two)
    (fun _ _ _ sound stepped => ⟨step_sound sound stepped, (step_advances sound stepped).1.later⟩)
    _ _ _ sound ran

/-! ## Rollouts are safe -/

/-- A rollout along a run: it stays as it ended, and its wave rises at most once for each change. -/
def Plane.KeepsRollouts (sha256 : Bytes → Bytes) (plane : Plane ε) : Prop :=
  ∀ events after, (rollingOut ε sha256).run plane events = some after →
    ∀ id row, plane.store.rollouts.lookup id = some row →
      ∃ later, after.store.rollouts.lookup id = some later ∧
        (¬ RolloutState.inForce row.state → later = row) ∧
        row.wave ≤ later.wave ∧ row.changes ≤ later.changes ∧
        later.wave - row.wave ≤ later.changes - row.changes

/-- One event changes a rollout at most once, and its wave by at most one. -/
def Plane.ChangesOnce (sha256 : Bytes → Bytes) (plane : Plane ε) : Prop :=
  ∀ event after, (rollingOut ε sha256).step plane event = some after →
    ∀ id row next, plane.store.rollouts.lookup id = some row →
      after.store.rollouts.lookup id = some next →
      (next.standing ≠ row.standing → next.changes = row.changes + 1) ∧
        (next.wave = row.wave ∨ next.wave = row.wave + 1)

/-- An evaluator writes what it settles only if the rollout stood as it was read, but for its
progress, up to the writing. -/
def Plane.OverwritesNothing (sha256 : Bytes → Bytes) (plane : Plane ε) : Prop :=
  ∀ evaluator catalog swept first second between last reading left,
    (rollingOut ε sha256).step plane (.sweep evaluator catalog) = some swept →
    (∀ event ∈ first ++ second, ∀ other, event ≠ .sweep evaluator other) →
    (rollingOut ε sha256).run swept first = some between →
    (rollingOut ε sha256).run between second = some last →
    last.evaluators evaluator = .reading reading left →
    (last.store.settle (reading.settled sha256)).1 = true →
    ∃ row progress, between.store.rollouts.lookup reading.held.record.rolloutId = some row ∧
      reading.held = scanRollout reading.held.record.rolloutId { row with progress := progress }

/-- An evaluator opens a wave only where the one before ran its course in what it read. -/
def Plane.OpensWhatRan (sha256 : Bytes → Bytes) (plane : Plane ε) : Prop :=
  ∀ evaluator after id row next,
    (rollingOut ε sha256).step plane (.settle evaluator) = some after →
    plane.store.rollouts.lookup id = some row → after.store.rollouts.lookup id = some next →
    next.wave ≠ row.wave →
    ∃ reading left progress, plane.evaluators evaluator = .reading reading left ∧
      reading.held = scanRollout id { row with progress := progress } ∧
      RanItsCourse reading.held.record (reading.runningAgents sha256).length
        (reading.failingAgents sha256).length reading.now

theorem keepsRollouts (sound : plane.Sound) : plane.KeepsRollouts sha256 := by
  intro events after ran id row found
  obtain ⟨later, found_later, row_later⟩ := run_later sound ran id row found
  have rise := row_later.rise
  have changes := row_later.changes
  exact ⟨later, found_later, row_later.ended, row_later.wave, changes, by omega⟩

theorem changesOnce (sound : plane.Sound) : plane.ChangesOnce sha256 := by
  intro event after stepped id row next found found_next
  have advances := (step_advances sound stepped).1
  obtain ⟨_, found_later, later⟩ := advances.later id row found
  rw [found_next, Option.some.injEq] at found_later
  subst found_later
  have once := (advances.once id row next found found_next (sound.rows id row found)).2
  have rise := later.rise
  have wave := later.wave
  have changes := later.changes
  refine ⟨fun differs => ?_, by omega⟩
  by_contra other
  exact differs (later.unchanged (by omega))

theorem run_pending {events : List (RolloutEvent ε)} {evaluator : ε} {held : HeldRollout}
    (sound : before.Sound)
    (same_sweep : ∀ event ∈ events, ∀ catalog, event ≠ .sweep evaluator catalog)
    (ran : (rollingOut ε sha256).run before events = some after)
    (pending : held ∈ (after.evaluators evaluator).pending) :
    held ∈ (before.evaluators evaluator).pending := by
  induction events generalizing before with
  | nil =>
    rw [System.run, Option.some.injEq] at ran
    exact ran ▸ pending
  | cons event events ih =>
    obtain ⟨between, stepped, rest⟩ := System.run_cons.mp ran
    have earlier := ih (step_sound sound stepped)
      (fun other member => same_sweep other (List.mem_cons_of_mem _ member)) rest
    rcases (step_advances sound stepped).2 evaluator held earlier with kept | ⟨⟨catalog, swept⟩, -⟩
    · exact kept
    · exact absurd swept (same_sweep event List.mem_cons_self catalog)

theorem overwritesNothing (sound : plane.Sound) : plane.OverwritesNothing sha256 := by
  intro evaluator catalog swept first second between last reading left sweeps same_sweep ran_first
    ran_second standing_eq written
  have swept_sound := step_sound sound sweeps
  have between_sound : between.Sound :=
    System.run_keeps (fun _ _ _ sound _ stepped => step_sound sound stepped) swept_sound
      (System.throughout_true swept first) ran_first
  have held_last : reading.held ∈ (last.evaluators evaluator).pending :=
    standing_eq ▸ List.mem_cons_self
  have held_between := run_pending between_sound
    (fun event member => same_sweep event (List.mem_append_right _ member)) ran_second held_last
  obtain ⟨row, now, read_eq, standing, well, found, later⟩ :=
    between_sound.pending evaluator reading.held held_between
  refine ⟨now, row.progress, found, ?_⟩
  -- The counter the reading carries is the one it is written over, so it never moved in between.
  obtain ⟨written_row, found_last, later_last⟩ := run_later between_sound ran_second _ now found
  have counted : written_row.changes = row.changes := by
    obtain ⟨held_eq, id_eq⟩ := (reading.settled_settles sha256).held_eq
    rcases last.store.settle_cases (reading.settled sha256) with
      unwritten | ⟨beneath, found_beneath, same, -⟩
    · rw [unwritten] at written
      cases written
    · rw [id_eq, found_last, Option.some.injEq] at found_beneath
      rw [found_beneath, same, held_eq, read_eq]
      rfl
  have lower := later.changes
  have upper := later_last.changes
  rw [← RolloutRow.eq_of_standing (later.unchanged (by omega))]
  exact read_eq

theorem opensWhatRan (sound : plane.Sound) : plane.OpensWhatRan sha256 := by
  intro evaluator after id row next stepped found found_next differs
  simp only [rollingOut] at stepped
  split at stepped
  · rename_i reading left standing_eq
    cases stepped
    have read := sound.pending evaluator reading.held (standing_eq ▸ List.mem_cons_self)
    have settles := reading.settled_settles sha256
    change (plane.store.settle (reading.settled sha256)).2.rollouts.lookup id = some next at found_next
    generalize reading.settled sha256 = settled at *
    obtain ⟨held_eq, id_eq⟩ := settles.held_eq
    rcases plane.store.settle_cases settled with unwritten | ⟨beneath, found_beneath, same, written⟩
    · rw [unwritten, found, Option.some.injEq] at found_next
      exact absurd (congrArg RolloutRow.wave found_next.symm) differs
    rw [written, FiniteMap.lookup_insert] at found_next
    split at found_next
    · rename_i written_id
      rw [← written_id, found, Option.some.injEq] at found_beneath
      subst found_beneath
      obtain ⟨-, -, progress, read_eq⟩ := read.standing_eq (id_eq ▸ written_id ▸ found)
        (same.trans (congrArg HeldRollout.changes held_eq))
      rw [← id_eq, ← written_id] at read_eq
      rw [Option.some.injEq] at found_next
      have wave_eq : reading.held.record.wave = row.wave := by rw [read_eq]; rfl
      refine ⟨reading, left, progress, standing_eq, read_eq, ?_⟩
      cases settles with
      | held | paused => exact absurd (found_next ▸ wave_eq) differs
      | opened progress failing reason ran => exact ran
    · rw [found, Option.some.injEq] at found_next
      exact absurd (congrArg RolloutRow.wave found_next.symm) differs
  · cases stepped

/-- In every state rollouts, operators and evaluators reach, a tenant has at most one rollout in
force and every rollout one of its waves open; a rollout that ended stays as it ended, its wave
rises by at most one with a change; no evaluator writes over a later change, and none opens a wave
before the one before it ran its course. -/
theorem rollouts_safe {plane : Plane ε} (reached : (rollingOut ε sha256).Reaches plane) :
    plane.store.OneInForce ∧
      (∀ id row, plane.store.rollouts.lookup id = some row → row.wave < row.waves.length) ∧
      plane.KeepsRollouts sha256 ∧ plane.ChangesOnce sha256 ∧ plane.OverwritesNothing sha256 ∧
      plane.OpensWhatRan sha256 := by
  have sound := reaches_sound reached
  exact ⟨sound.single, fun id row found => (sound.rows id row found).wave, keepsRollouts sound,
    changesOnce sound, overwritesNothing sound, opensWhatRan sound⟩

end Invariant

/-! ## A wave that opens on its own -/

/-- The control plane before any rollout. -/
def unrolled : Plane Unit where
  store := ⟨FiniteMap.empty, fun _ => [], fun _ => [], fun _ => [], [], [], []⟩
  evaluators _ := .idle

/-- An evaluator reads a minute after the start that the canary runs the release. -/
def canaryRan : List (RolloutEvent Unit) :=
  [.elsewhere [⟨"sensor-1", "acme", .active⟩] [] ["v1.1.0"],
    .start canaryFirst "operator" 0 (List.replicate 16 0),
    .sweep () none, .move (), .reach (),
    .report () (60 * Duration.second)
      (fun _ => some ⟨some ⟨"v1.1.0", "linux", "amd64"⟩, none, none⟩),
    .settle ()]

theorem rollouts_safe_canary :
    ∃ plane, (rollingOut Unit fun _ => []).Reaches plane ∧
      (plane.store.rollouts.entries.map fun entry => entry.2.wave) = [1] ∧
      plane.store.OneInForce ∧ plane.KeepsRollouts fun _ => [] := by
  have ran : ((rollingOut Unit fun _ => []).run unrolled canaryRan).map
      (fun plane => plane.store.rollouts.entries.map fun entry => entry.2.wave) = some [1] := by
    decide +kernel
  obtain ⟨plane, ran_eq, waves⟩ := Option.map_eq_some_iff.mp ran
  have reached : (rollingOut Unit fun _ => []).Reaches plane :=
    ⟨unrolled, canaryRan, ⟨rfl, fun _ => rfl⟩, ran_eq⟩
  have safe := rollouts_safe reached
  exact ⟨plane, reached, waves, safe.1, safe.2.2.1⟩

end Seagull.AgentUpdate
