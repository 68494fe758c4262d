import Seagull.DetectionState.Reachable

/-!
# Reclaiming never drops a live window

A clock is moved by what its partition delivers and carried on by the rest of the stream, and can be
forgotten and opened again.  A `Watched` store notes which partition opened each key and what each
delivered since its clock was opened, so that clocks can be compared with the events.
-/

namespace Seagull.DetectionState

/-- The newest event time among the calls that are not refused outright. -/
def newestObserved (bounds : Bounds) : List Call → ℤ
  | [] => Instant.zero
  | call :: calls =>
    if call.refusal bounds = none then max call.seen.time (newestObserved bounds calls)
    else newestObserved bounds calls

/-- A store, and what a reader of the stream notes beside it. -/
structure Watched where
  keeper : Keeper
  opener : Key → Int32
  /-- The event times a tenant delivered on a partition since the partition's clock was opened. -/
  delivered : String → Int32 → List ℤ

namespace Watched

/-- A store nothing was noted of. -/
def new (keeper : Keeper) : Watched := ⟨keeper, fun _ => 0, fun _ _ => []⟩

/-- Whether a call opens the clock of its partition. -/
def opensClock (keeper : Keeper) (call : Call) : Bool :=
  (keeper.keys.lookup call.key).isNone &&
    (((keeper.advance call.key.tenant call.seen).admitKey call.order call.key).1.queues
      call.key.tenant call.seen.partition).isNone

def fold (watched : Watched) (call : Call) : Watched where
  keeper := (watched.keeper.fold call).1
  opener := watched.keeper.openerAfter call watched.opener
  delivered := fun tenant partition =>
    if call.refusal watched.keeper.bounds = none ∧
        tenant = call.key.tenant ∧ partition = call.seen.partition then
      if opensClock watched.keeper call then [call.seen.time]
      else call.seen.time :: watched.delivered tenant partition
    else
      watched.delivered tenant partition

/-- Fold observations one after another and note them. -/
def run (watched : Watched) (calls : List Call) : Watched := calls.foldl fold watched

theorem run_keeper (watched : Watched) (calls : List Call) :
    (watched.run calls).keeper = (watched.keeper.run calls).1 := by
  induction calls generalizing watched with
  | nil => rfl
  | cons call calls ih => exact ih (watched.fold call)

/-- The watermark of a clock is the newest event time delivered since it was opened. -/
structure Noted (watched : Watched) : Prop where
  consistent : Keeper.Consistent watched.opener watched.keeper
  watermark : ∀ tenant partition queue, watched.keeper.queues tenant partition = some queue →
    queue.watermark ∈ watched.delivered tenant partition ∧
      ∀ time ∈ watched.delivered tenant partition, time ≤ queue.watermark

namespace Noted

variable {watched : Watched} {call : Call}

def deliveredWith (watched : Watched) (call : Call) (tenant : String) (partition : Int32) :
    List ℤ :=
  if tenant = call.key.tenant ∧ partition = call.seen.partition then
    call.seen.time :: watched.delivered tenant partition
  else
    watched.delivered tenant partition

theorem advance (noted : Noted watched) (tenant : String) (partition : Int32)
    (queue : PartitionKeys)
    (found : (watched.keeper.advance call.key.tenant call.seen).queues tenant partition =
      some queue) :
    queue.watermark ∈ deliveredWith watched call tenant partition ∧
      ∀ time ∈ deliveredWith watched call tenant partition, time ≤ queue.watermark := by
  rw [Keeper.queues_advance] at found
  obtain ⟨former, former_eq, rfl⟩ := Option.map_eq_some_iff.mp found
  obtain ⟨watermark_mem, watermark_ge⟩ := noted.watermark tenant partition former former_eq
  unfold deliveredWith
  split
  · simp only [PartitionKeys.delivered, List.mem_cons]
    split
    · refine ⟨Or.inl rfl, fun time time_mem => ?_⟩
      rcases time_mem with rfl | before
      · exact le_rfl
      · have := watermark_ge time before
        omega
    · refine ⟨Or.inr watermark_mem, fun time time_mem => ?_⟩
      rcases time_mem with rfl | before
      · omega
      · exact watermark_ge time before
  · exact ⟨watermark_mem, watermark_ge⟩

theorem admitted (noted : Noted watched) {admitted : Keeper}
    (admission : Keeper.Admission watched.opener watched.keeper call admitted)
    (tenant : String) (partition : Int32) (queue : PartitionKeys)
    (found : admitted.queues tenant partition = some queue) :
    queue.watermark ∈ deliveredWith watched call tenant partition ∧
      ∀ time ∈ deliveredWith watched call tenant partition, time ≤ queue.watermark := by
  obtain ⟨scope, reclaims, -⟩ := admission.reclaims
  obtain ⟨former, former_eq, watermark_eq, -⟩ := reclaims.thins.clocks tenant partition queue found
  rw [watermark_eq]
  exact noted.advance tenant partition former former_eq

theorem delivered_fold (accepts : call.refusal watched.keeper.bounds = none) (tenant : String)
    (partition : Int32) :
    (watched.fold call).delivered tenant partition =
      if tenant = call.key.tenant ∧ partition = call.seen.partition ∧
          opensClock watched.keeper call then
        [call.seen.time]
      else
        deliveredWith watched call tenant partition := by
  simp only [fold, accepts, true_and, deliveredWith]
  by_cases own : tenant = call.key.tenant ∧ partition = call.seen.partition
  · rw [if_pos own]
    by_cases opens : opensClock watched.keeper call = true
    · simp [own, opens]
    · simp [own, opens]
  · rw [if_neg own, if_neg own, if_neg fun all => own ⟨all.1, all.2.1⟩]

theorem step (noted : Noted watched) (call : Call) : Noted (watched.fold call) := by
  refine ⟨Keeper.fold_consistent noted.consistent call, fun tenant partition queue found => ?_⟩
  change (watched.keeper.fold call).1.queues tenant partition = some queue at found
  have stepped := watched.keeper.fold_step call
  cases after_eq : watched.keeper.fold call with
  | mk after given =>
    rw [after_eq] at stepped found
    cases stepped with
    | refused refusal refuses =>
      have unchanged : (watched.fold call).delivered tenant partition =
          watched.delivered tenant partition := if_neg fun all => by
        rw [refuses] at all
        cases all.1
      rw [unchanged]
      exact noted.watermark tenant partition queue found
    | folded entry accepts held =>
      have carried : opensClock watched.keeper call = false := by simp [opensClock, held]
      rw [delivered_fold accepts, carried]
      simpa using noted.advance tenant partition queue found
    | turnedAway admitted refusal accepts unheld admits =>
      rw [delivered_fold accepts, if_neg]
      · exact noted.admitted (noted.consistent.admission admits) tenant partition queue found
      · rintro ⟨rfl, rfl, opens⟩
        simp [opensClock, unheld, admits, found] at opens
    | opened admitted accepts unheld admits =>
      have admission := noted.consistent.admission admits
      have key_eq := (admission.folds accepts).2.key_eq
      rw [Keeper.queues_openKey, key_eq] at found
      split at found
      · rename_i own
        cases found
        obtain ⟨rfl, rfl⟩ := own
        change (admitted.openQueue _ call.seen).watermark ∈ _ ∧
          ∀ time ∈ _, time ≤ (admitted.openQueue _ call.seen).watermark
        rw [delivered_fold accepts, Keeper.openQueue]
        cases former_eq : admitted.queues call.key.tenant call.seen.partition with
        | none =>
          have opens : opensClock watched.keeper call = true := by
            simp [opensClock, unheld, admits, former_eq]
          simp [opens]
        | some former =>
          have carried : opensClock watched.keeper call = false := by
            simp [opensClock, admits, former_eq]
          simpa [carried] using noted.admitted admission _ _ former former_eq
      · rename_i elsewhere
        rw [delivered_fold accepts, if_neg fun all => elsewhere ⟨all.1, all.2.1⟩]
        exact noted.admitted admission tenant partition queue found

end Noted

theorem run_noted {bounds : Bounds} {start : Keeper} (made : Keeper.new bounds = .ok start)
    (calls : List Call) : Noted ((new start).run calls) := by
  obtain ⟨accepted, rfl⟩ := Keeper.new_eq_ok made
  have start_noted : Noted (new (Keeper.empty bounds)) :=
    ⟨.empty accepted, fun _ _ _ found => (by cases found)⟩
  generalize new (Keeper.empty bounds) = watched at start_noted ⊢
  induction calls generalizing watched with
  | nil => exact start_noted
  | cons call calls ih => exact ih (watched.fold call) (start_noted.step call)

end Watched

namespace Keeper

variable {opener : Key → Int32} {keeper : Keeper} {call : Call}

theorem fold_newest (consistent : Consistent opener keeper) (call : Call) :
    (keeper.fold call).1.newest =
      if call.refusal keeper.bounds = none then max keeper.newest call.seen.time
      else keeper.newest := by
  have stepped := keeper.fold_step call
  cases after_eq : keeper.fold call with
  | mk after given =>
    rw [after_eq] at stepped
    cases stepped with
    | refused refusal refuses => rw [refuses, if_neg (by simp)]
    | folded entry accepts held =>
      rw [if_pos accepts]
      exact advance_newest keeper call.key.tenant call.seen
    | turnedAway _ _ accepts unheld admits | opened _ accepts unheld admits =>
      obtain ⟨scope, reclaims, -⟩ := (consistent.admission admits).reclaims
      rw [if_pos accepts, ← advance_newest keeper call.key.tenant call.seen]
      exact reclaims.newest_eq

theorem run_newest (consistent : Consistent opener keeper) (nonneg : Instant.zero ≤ keeper.newest)
    (calls : List Call) :
    (keeper.run calls).1.newest = max keeper.newest (newestObserved keeper.bounds calls) := by
  induction calls generalizing keeper opener with
  | nil => exact (max_eq_left nonneg).symm
  | cons call calls ih =>
    have newest_eq := fold_newest consistent call
    have after := @ih _ (keeper.fold call).1 (fold_consistent consistent call) (by
      rw [newest_eq]
      split
      · exact nonneg.trans (le_max_left _ _)
      · exact nonneg)
    rw [fold_bounds consistent, newest_eq] at after
    rw [Keeper.run, newestObserved]
    simp only
    rw [after]
    split
    · rw [max_assoc]
    · rfl

theorem run_newest_eq {bounds : Bounds} {start : Keeper} (made : Keeper.new bounds = .ok start)
    (calls : List Call) : (start.run calls).1.newest = newestObserved bounds calls := by
  obtain ⟨accepted, rfl⟩ := new_eq_ok made
  have nonneg : Instant.zero ≤ newestObserved bounds calls := by
    induction calls with
    | nil => exact le_rfl
    | cons call calls ih =>
      rw [newestObserved]
      split
      · exact ih.trans (le_max_right _ _)
      · exact ih
  rw [run_newest (show Consistent (fun _ => 0) (Keeper.empty bounds) from .empty accepted) le_rfl]
  exact max_eq_right nonneg

theorem Consistent.clock_bounds (consistent : Consistent opener keeper) {tenant : String}
    {partition : Int32} {queue : PartitionKeys}
    (found : keeper.queues tenant partition = some queue) :
    queue.watermark ≤ queue.clock keeper.newest ∧ queue.clock keeper.newest ≤ keeper.newest := by
  obtain ⟨watermark_le, heard_le⟩ := consistent.timed tenant partition queue found
  have nonneg := Instant.sub_nonneg heard_le
  have bounded := Instant.sub_le heard_le
  rw [PartitionKeys.clock]
  omega

theorem clock_of_delivered {tenant : String} {partition : Int32} {queue : PartitionKeys}
    (own_tenant : call.key.tenant = tenant) (own_partition : call.seen.partition = partition)
    (found : (keeper.advance call.key.tenant call.seen).queues tenant partition = some queue) :
    queue.clock (keeper.advance call.key.tenant call.seen).newest = queue.watermark := by
  rw [queues_advance] at found
  obtain ⟨former, -, rfl⟩ := Option.map_eq_some_iff.mp found
  rw [if_pos ⟨own_tenant.symm, own_partition.symm⟩]
  simp only [PartitionKeys.clock, PartitionKeys.delivered, Instant.sub_self, add_zero]

theorem fold_dropped (consistent : Consistent opener keeper) {key : Key} {held : Held}
    (before : keeper.keys.lookup key = some held)
    (lost : (keeper.fold call).1.keys.lookup key = none) :
    call.refusal keeper.bounds = none ∧ ∃ queue,
      (keeper.advance call.key.tenant call.seen).queues key.tenant (opener key) = some queue ∧
        held.expires < queue.clock (keeper.advance call.key.tenant call.seen).newest := by
  have stepped := keeper.fold_step call
  cases after_eq : keeper.fold call with
  | mk after given =>
    rw [after_eq] at stepped lost
    cases stepped with
    | refused refusal refuses =>
      rw [before] at lost
      cases lost
    | folded entry accepts found =>
      simp only [FiniteMap.lookup_insert, before] at lost
      split at lost <;> cases lost
    | turnedAway admitted refusal accepts unheld admits =>
      obtain ⟨scope, reclaims, -⟩ := (consistent.admission admits).reclaims
      exact ⟨accepts, (reclaims.thins.dropped key held before lost).2⟩
    | opened admitted accepts unheld admits =>
      obtain ⟨scope, reclaims, -⟩ := (consistent.admission admits).reclaims
      simp only [openKey_keys, FiniteMap.lookup_insert] at lost
      split at lost
      · cases lost
      · exact ⟨accepts, (reclaims.thins.dropped key held before lost).2⟩

end Keeper

/-- Reclaiming never drops a live window.  The first part is about every clock, the second about
every key a call drops, and the third about a call that delivers on the partition that opened the
key. -/
theorem reclaiming_spares_live_windows {bounds : Bounds} {start : Keeper}
    (made : Keeper.new bounds = .ok start) (calls : List Call) :
    let watched := (Watched.new start).run calls
    watched.keeper = (start.run calls).1 ∧
    (∀ tenant partition queue, watched.keeper.queues tenant partition = some queue →
      queue.watermark ≤ queue.clock watched.keeper.newest ∧
        queue.clock watched.keeper.newest ≤ newestObserved bounds calls) ∧
    ∀ call key held, watched.keeper.keys.lookup key = some held →
      (watched.keeper.fold call).1.keys.lookup key = none →
        held.last + held.window < newestObserved bounds (calls ++ [call]) ∧
        (call.key.tenant = key.tenant → call.seen.partition = watched.opener key →
          ∃ time ∈ call.seen.time :: watched.delivered key.tenant (watched.opener key),
            held.last + held.window < time) := by
  intro watched
  have noted : watched.Noted := Watched.run_noted made calls
  have keeper_eq : watched.keeper = (start.run calls).1 := Watched.run_keeper _ _
  have newest_eq : watched.keeper.newest = newestObserved bounds calls := by
    rw [keeper_eq, Keeper.run_newest_eq made]
  refine ⟨keeper_eq, fun tenant partition queue found => ?_, fun call key held before lost => ?_⟩
  · rw [← newest_eq]
    exact noted.consistent.clock_bounds found
  · obtain ⟨accepts, queue, queue_eq, passed⟩ := Keeper.fold_dropped noted.consistent before lost
    have advanced := noted.consistent.advance call.key.tenant call.seen
    have clock_le := (advanced.clock_bounds queue_eq).2
    refine ⟨?_, fun own_tenant own_partition => ?_⟩
    · have after_newest := Keeper.run_newest_eq made (calls ++ [call])
      have fold_newest := Keeper.fold_newest noted.consistent call
      rw [if_pos accepts, ← Keeper.advance_newest watched.keeper call.key.tenant call.seen]
        at fold_newest
      rw [Keeper.run_append, ← keeper_eq] at after_newest
      rw [← after_newest]
      exact passed.trans_le (clock_le.trans fold_newest.ge)
    · have watermark_mem := (noted.advance key.tenant (watched.opener key) queue queue_eq).1
      rw [Watched.Noted.deliveredWith, if_pos ⟨own_tenant.symm, own_partition.symm⟩]
        at watermark_mem
      have shown := Keeper.clock_of_delivered own_tenant own_partition queue_eq
      exact ⟨queue.watermark, watermark_mem, shown ▸ passed⟩

theorem reclaiming_spares_live_windows_two_tenants :
    let watched := (Watched.new (Keeper.empty .small)).run Call.twoTenants
    ∀ tenant partition queue, watched.keeper.queues tenant partition = some queue →
      queue.watermark ≤ queue.clock watched.keeper.newest ∧
        queue.clock watched.keeper.newest ≤ newestObserved .small Call.twoTenants :=
  (@reclaiming_spares_live_windows .small _ rfl Call.twoTenants).2.1

end Seagull.DetectionState
