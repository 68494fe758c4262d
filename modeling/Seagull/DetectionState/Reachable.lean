import Seagull.DetectionState.Invariant

/-!
# The stores a keeper reaches

What one fold keeps, every run of folds keeps.  While each key is observed under one window, its
place in a queue is also no later than the end of that window, which is what makes the queues worth
walking.
-/

namespace Seagull.DetectionState.Keeper

theorem run_keeps (holds : Keeper → Prop) (permits : Call → Prop)
    (step : ∀ keeper call, permits call → holds keeper → holds (keeper.fold call).1)
    {keeper : Keeper} (start : holds keeper) {calls : List Call}
    (permitted : ∀ call ∈ calls, permits call) : holds (keeper.run calls).1 := by
  induction calls generalizing keeper with
  | nil => exact start
  | cons call calls ih =>
    exact ih (step keeper call (permitted call List.mem_cons_self) start)
      fun later later_mem => permitted later (List.mem_cons_of_mem call later_mem)

theorem run_append (keeper : Keeper) (earlier later : List Call) :
    (keeper.run (earlier ++ later)).1 = ((keeper.run earlier).1.run later).1 := by
  induction earlier generalizing keeper with
  | nil => rfl
  | cons call calls ih => exact ih (keeper.fold call).1

variable {keeper : Keeper} {opener : Key → Int32}

theorem fold_bounds (consistent : Consistent opener keeper) (call : Call) :
    (keeper.fold call).1.bounds = keeper.bounds := by
  have step := keeper.fold_step call
  cases stepped : keeper.fold call with
  | mk after given =>
    rw [stepped] at step
    cases step with
    | refused refusal refuses => rfl
    | folded entry accepts found => rfl
    | turnedAway admitted refusal accepts unheld admits =>
      exact (consistent.admission admits).bounds_eq
    | opened admitted accepts unheld admits => exact (consistent.admission admits).bounds_eq

theorem run_consistent_from (consistent : Consistent opener keeper) (calls : List Call) :
    ∃ opener, Consistent opener (keeper.run calls).1 ∧
      (keeper.run calls).1.bounds = keeper.bounds := by
  refine run_keeps (fun after => ∃ opener, Consistent opener after ∧ after.bounds = keeper.bounds)
    (fun _ => True) (fun after call _ => ?_) ⟨opener, consistent, rfl⟩ fun _ _ => trivial
  rintro ⟨opener, consistent, bounds_eq⟩
  exact ⟨_, fold_consistent consistent call, (fold_bounds consistent call).trans bounds_eq⟩

theorem run_consistent {bounds : Bounds} {start : Keeper} (made : Keeper.new bounds = .ok start)
    (calls : List Call) :
    ∃ opener, Consistent opener (start.run calls).1 ∧ (start.run calls).1.bounds = bounds := by
  obtain ⟨accepted, rfl⟩ := new_eq_ok made
  have consistent : Consistent (fun _ => 0) (Keeper.empty bounds) := .empty accepted
  exact run_consistent_from consistent calls

/-- Each key has one window, and is filed no later than its end. -/
structure Punctual (windowOf : Key → ℤ) (keeper : Keeper) : Prop where
  windows : ∀ key held, keeper.keys.lookup key = some held → held.window = windowOf key
  timely : Timely keeper.keys keeper.queues

namespace Punctual

variable {windowOf : Key → ℤ} {opener : Key → Int32} {keeper : Keeper}

theorem empty (bounds : Bounds) : Punctual windowOf (Keeper.empty bounds) :=
  ⟨fun _ _ found => (by cases found), fun _ _ _ found => (by cases found)⟩

section

variable (punctual : Punctual windowOf keeper)

include punctual

theorem advance (tenant : String) (seen : Observation) :
    Punctual windowOf (keeper.advance tenant seen) := by
  refine ⟨punctual.windows, fun named partition queue found place place_mem held held_eq => ?_⟩
  rw [queues_advance] at found
  obtain ⟨former, former_eq, rfl⟩ := Option.map_eq_some_iff.mp found
  refine punctual.timely named partition former former_eq place ?_ held held_eq
  split at place_mem <;> exact place_mem

theorem reclaimed {scope : String → Prop} {after : Keeper}
    (reclaims : Reclaims opener scope keeper after) : Punctual windowOf after :=
  ⟨fun key held found => punctual.windows key held (reclaims.thins.kept key held found),
    reclaims.thins.timely punctual.timely⟩

theorem refolded {key : Key} {former entry : Held}
    (found : keeper.keys.lookup key = some former) (window_eq : entry.window = windowOf key)
    (last_le : former.last ≤ entry.last) :
    Punctual windowOf { keeper with keys := keeper.keys.insert key entry } := by
  refine ⟨fun other held other_eq => ?_,
    fun tenant partition queue queue_eq place place_mem held held_eq => ?_⟩
  · rw [FiniteMap.lookup_insert] at other_eq
    split at other_eq
    · rename_i same
      cases other_eq
      exact same ▸ window_eq
    · exact punctual.windows other held other_eq
  · rw [FiniteMap.lookup_insert] at held_eq
    split at held_eq
    · rename_i same
      cases held_eq
      have filed := punctual.timely tenant partition queue queue_eq place place_mem former
        (same ▸ found)
      have former_window := punctual.windows key former found
      rw [Held.expires] at filed ⊢
      omega
    · exact punctual.timely tenant partition queue queue_eq place place_mem held held_eq

theorem opened (consistent : Consistent opener keeper)
    {entry : Held} {seen : Observation} (unheld : keeper.keys.lookup entry.key = none)
    (window_eq : entry.window = windowOf entry.key) :
    Punctual windowOf (keeper.openKey entry seen) := by
  have elsewhere : ∀ tenant partition queue, keeper.queues tenant partition = some queue →
      ∀ place ∈ queue.expiring, place.entry ≠ entry.key := by
    intro tenant partition queue queue_eq place place_mem same
    obtain ⟨owner, owner_eq, partition_eq⟩ := queues_eq_some.mp queue_eq
    have filed := (consistent.indexed.owned tenant owner owner_eq).filed partition queue partition_eq
    have held := ((filed.mem_iff place.entry).mp (List.mem_map_of_mem place_mem)).1
    rw [same] at held
    exact (FiniteMap.notMem_domain _ _).mpr unheld held
  have timely : ∀ tenant partition queue, keeper.queues tenant partition = some queue →
      ∀ place ∈ queue.expiring, ∀ held,
        (keeper.openKey entry seen).keys.lookup place.entry = some held →
          place.time ≤ held.expires := by
    intro tenant partition queue queue_eq place place_mem held held_eq
    rw [openKey_keys, FiniteMap.lookup_insert,
      if_neg (elsewhere tenant partition queue queue_eq place place_mem)] at held_eq
    exact punctual.timely tenant partition queue queue_eq place place_mem held held_eq
  refine ⟨fun other held other_eq => ?_,
    fun tenant partition queue queue_eq place place_mem held held_eq => ?_⟩
  · rw [openKey_keys, FiniteMap.lookup_insert] at other_eq
    split at other_eq
    · rename_i same
      cases other_eq
      exact same ▸ window_eq
    · exact punctual.windows other held other_eq
  · rw [queues_openKey] at queue_eq
    split at queue_eq
    · cases queue_eq
      have place_cases := (BinaryHeap.push_perm Expiry.time _ _).mem_iff.mp place_mem
      rcases List.mem_cons.mp place_cases with rfl | before
      · rw [openKey_keys, FiniteMap.lookup_insert_self] at held_eq
        cases held_eq
        exact le_rfl
      · rw [openQueue] at before
        cases former_eq : keeper.queues entry.key.tenant seen.partition with
        | none => simp [former_eq] at before
        | some former =>
          rw [former_eq] at before
          exact timely _ _ former former_eq place before held held_eq
    · exact timely tenant partition queue queue_eq place place_mem held held_eq

end


end Punctual

variable {windowOf : Key → ℤ}

theorem fold_punctual (punctual : Punctual windowOf keeper) (consistent : Consistent opener keeper)
    {call : Call} (window_eq : call.window = windowOf call.key) :
    Punctual windowOf (keeper.fold call).1 := by
  have step := keeper.fold_step call
  have advanced_punctual := punctual.advance call.key.tenant call.seen
  cases stepped : keeper.fold call with
  | mk after given =>
    rw [stepped] at step
    cases step with
    | refused refusal refuses => exact punctual
    | folded entry accepts found =>
      have kept := consistent.kept call.key entry found
      obtain ⟨folds, -⟩ := observe_kept consistent.accepted accepts kept.sound kept.bounded
      obtain ⟨-, positive, -⟩ := refusal_eq_none accepts
      exact advanced_punctual.refolded found (folds.window_eq.trans window_eq)
        (folds.last_le (kept.sound.under call.window) kept.bounded positive.le
          consistent.accepted.observations_pos kept.nonempty)
    | turnedAway admitted refusal accepts unheld admits =>
      obtain ⟨scope, reclaims, -⟩ := (consistent.admission admits).reclaims
      exact advanced_punctual.reclaimed reclaims
    | opened admitted accepts unheld admits =>
      have admission := consistent.admission admits
      obtain ⟨scope, reclaims, -⟩ := admission.reclaims
      obtain ⟨folds, -⟩ := admission.folds accepts
      refine (advanced_punctual.reclaimed reclaims).opened admission.consistent ?_ ?_
      · rw [folds.key_eq]
        exact admission.unheld unheld
      · rw [folds.window_eq, folds.key_eq]
        exact window_eq

theorem run_punctual {bounds : Bounds} {start : Keeper} (made : Keeper.new bounds = .ok start)
    {calls : List Call} (one_window : ∀ call ∈ calls, call.window = windowOf call.key) :
    ∃ opener, Consistent opener (start.run calls).1 ∧ Punctual windowOf (start.run calls).1 := by
  obtain ⟨accepted, rfl⟩ := new_eq_ok made
  refine run_keeps (fun keeper => ∃ opener, Consistent opener keeper ∧ Punctual windowOf keeper)
    (fun call => call.window = windowOf call.key) (fun keeper call window_eq => ?_)
    ⟨fun _ => 0, .empty accepted, .empty bounds⟩ one_window
  rintro ⟨opener, consistent, punctual⟩
  exact ⟨_, fold_consistent consistent call, fold_punctual punctual consistent window_eq⟩

def Files (keeper : Keeper) (tenant : String) (partition : Int32) (key : Key) : Prop :=
  ∃ queue, keeper.queues tenant partition = some queue ∧ key ∈ queue.expiring.map Expiry.entry

/-- The counters, the queues and the records of a store agree with its keys. -/
structure WellKept (keeper : Keeper) : Prop where
  keys_le : (keeper.keys.size : ℤ) ≤ keeper.bounds.keys
  tenants : ∀ tenant owner, keeper.tenants.lookup tenant = some owner →
    owner.held = (keysOf keeper.keys.domain tenant).card ∧
      owner.held ≤ keeper.bounds.keysPerTenant
  /-- A rule's counter is the number of its keys, within its quota, and no counter is zero. -/
  rules : ∀ tenant owner, keeper.tenants.lookup tenant = some owner → ∀ rule,
    owner.rules.lookup rule =
        (if (keysUnder keeper.keys.domain tenant rule).card = 0 then none
        else some ((keysUnder keeper.keys.domain tenant rule).card : ℤ)) ∧
      ((keysUnder keeper.keys.domain tenant rule).card : ℤ) ≤ keeper.bounds.keysPerRule
  filed_once : ∀ key ∈ keeper.keys.domain, ∃ partition, keeper.Files key.tenant partition key ∧
    ∀ tenant other, keeper.Files tenant other key → tenant = key.tenant ∧ other = partition
  nodup : ∀ tenant partition queue, keeper.queues tenant partition = some queue →
    (queue.expiring.map Expiry.entry).Nodup
  filed_held : ∀ tenant partition key, keeper.Files tenant partition key →
    key ∈ keeper.keys.domain
  ordered : ∀ tenant partition queue, keeper.queues tenant partition = some queue →
    BinaryHeap.Ordered Expiry.time queue.expiring.length queue.expiring
  timely : ∀ tenant partition queue, keeper.queues tenant partition = some queue →
    ∀ place ∈ queue.expiring, ∀ held, keeper.keys.lookup place.entry = some held →
      place.time ≤ held.last + held.window
  known_tenants : ∀ tenant owner, keeper.tenants.lookup tenant = some owner →
    ∃ key ∈ keeper.keys.domain, key.tenant = tenant
  known_partitions : ∀ tenant partition queue, keeper.queues tenant partition = some queue →
    queue.expiring ≠ []

section

variable (consistent : Consistent opener keeper)

include consistent

theorem Consistent.filed {tenant : String} {partition : Int32} {queue : PartitionKeys}
    (found : keeper.queues tenant partition = some queue) :
    Filed keeper.keys.domain opener tenant partition queue.expiring := by
  obtain ⟨owner, owner_eq, partition_eq⟩ := queues_eq_some.mp found
  exact (consistent.indexed.owned tenant owner owner_eq).filed partition queue partition_eq

theorem Consistent.queue_iff (tenant : String) (partition : Int32) :
    (∃ queue, keeper.queues tenant partition = some queue) ↔
      ∃ key ∈ keeper.keys.domain, key.tenant = tenant ∧ opener key = partition := by
  constructor
  · rintro ⟨queue, found⟩
    obtain ⟨owner, owner_eq, partition_eq⟩ := queues_eq_some.mp found
    exact ((consistent.indexed.owned tenant owner owner_eq).partition_iff partition).mp
      ⟨queue, partition_eq⟩
  · rintro ⟨key, key_mem, rfl, rfl⟩
    obtain ⟨owner, owner_eq⟩ := (consistent.indexed.tenant_iff key.tenant).mpr ⟨key, key_mem, rfl⟩
    obtain ⟨queue, queue_eq⟩ := ((consistent.indexed.owned key.tenant owner owner_eq).partition_iff
      (opener key)).mpr ⟨key, key_mem, rfl, rfl⟩
    exact ⟨queue, queues_eq_some.mpr ⟨owner, owner_eq, queue_eq⟩⟩

theorem Consistent.files_iff (tenant : String) (partition : Int32) (key : Key) :
    keeper.Files tenant partition key ↔
      key ∈ keeper.keys.domain ∧ key.tenant = tenant ∧ opener key = partition := by
  constructor
  · rintro ⟨queue, found, key_mem⟩
    exact ((consistent.filed found).mem_iff key).mp key_mem
  · rintro ⟨key_mem, rfl, rfl⟩
    obtain ⟨queue, found⟩ := (consistent.queue_iff _ _).mpr ⟨key, key_mem, rfl, rfl⟩
    exact ⟨queue, found, ((consistent.filed found).mem_iff key).mpr ⟨key_mem, rfl, rfl⟩⟩

theorem Consistent.wellKept (punctual : Punctual windowOf keeper) :
    WellKept keeper where
  keys_le := FiniteMap.card_domain keeper.keys ▸ consistent.keys_le
  tenants := by
    intro tenant owner found
    have held_eq := (consistent.indexed.owned tenant owner found).counted.held_eq
    exact ⟨held_eq, held_eq ▸ consistent.tenant_le tenant⟩
  rules := fun tenant owner found rule =>
    ⟨(consistent.indexed.owned tenant owner found).counted.rules rule,
      consistent.rule_le tenant rule⟩
  filed_once := by
    intro key key_mem
    refine ⟨opener key, (consistent.files_iff _ _ key).mpr ⟨key_mem, rfl, rfl⟩, ?_⟩
    intro tenant other filed
    obtain ⟨-, own, opened⟩ := (consistent.files_iff tenant other key).mp filed
    exact ⟨own.symm, opened.symm⟩
  nodup := fun _ _ _ found => (consistent.filed found).nodup
  filed_held := fun tenant partition key filed =>
    ((consistent.files_iff tenant partition key).mp filed).1
  ordered := fun _ _ _ found => (consistent.filed found).ordered
  timely := punctual.timely
  known_tenants := fun tenant owner found =>
    (consistent.indexed.tenant_iff tenant).mp ⟨owner, found⟩
  known_partitions := by
    intro tenant partition queue found
    obtain ⟨key, opened⟩ := (consistent.queue_iff tenant partition).mp ⟨queue, found⟩
    have filed := ((consistent.filed found).mem_iff key).mpr opened
    rintro empty
    simp [empty] at filed

/-- Whether a fold was refused for want of room. -/
def turnsAway (answer : Answer) : Bool :=
  answer.refusal = some .atCapacity ∨ answer.refusal = some .tenantAtCapacity ∨
    answer.refusal = some .ruleAtCapacity

theorem turnedAway_unchanged {call : Call}
    (turned : turnsAway (keeper.fold call).2 = true) {key : Key} {held : Held}
    (survives : (keeper.fold call).1.keys.lookup key = some held) :
    keeper.keys.lookup key = some held := by
  have step := keeper.fold_step call
  cases stepped : keeper.fold call with
  | mk after given =>
    rw [stepped] at step turned survives
    cases step with
    | refused refusal refuses => exact survives
    | folded entry accepts found =>
      have kept := consistent.kept call.key entry found
      obtain ⟨folds, -⟩ := observe_kept consistent.accepted accepts kept.sound kept.bounded
      simp only [turnsAway, answer, folds.refusal_eq] at turned
      split at turned <;> simp at turned
    | turnedAway admitted refusal accepts unheld admits =>
      exact (consistent.admission admits).kept key held survives
    | opened admitted accepts unheld admits =>
      obtain ⟨folds, -⟩ := (consistent.admission admits).folds accepts
      simp only [turnsAway, answer, folds.refusal_eq] at turned
      split at turned <;> simp at turned

end


/-- Every store reached by observing each key under one window is well kept, and a fold it refuses
for want of room changes no key that survives. -/
theorem reachable_wellKept {bounds : Bounds} {start : Keeper}
    (made : Keeper.new bounds = .ok start) {windowOf : Key → ℤ} {calls : List Call}
    (one_window : ∀ call ∈ calls, call.window = windowOf call.key) :
    WellKept (start.run calls).1 ∧ (start.run calls).1.bounds = bounds ∧
      ∀ call, turnsAway ((start.run calls).1.fold call).2 = true → ∀ key held,
        ((start.run calls).1.fold call).1.keys.lookup key = some held →
          (start.run calls).1.keys.lookup key = some held := by
  obtain ⟨opener, consistent, punctual⟩ := run_punctual made one_window
  obtain ⟨-, -, bounds_eq⟩ := run_consistent made calls
  exact ⟨consistent.wellKept punctual, bounds_eq,
    fun call turned key held survives => turnedAway_unchanged consistent turned survives⟩

theorem reachable_wellKept_two_tenants : WellKept ((Keeper.empty .small).run Call.twoTenants).1 :=
  (@reachable_wellKept .small _ rfl (fun _ => 60) _ (by simp [Call.twoTenants, Call.plain])).1

end Seagull.DetectionState.Keeper
