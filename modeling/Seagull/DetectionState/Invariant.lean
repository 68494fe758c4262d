import Seagull.DetectionState.Reclaim

/-!
# What every fold keeps

`Step` says once what a fold can do to a store.  `Consistent` holds of every store a fold can reach:
the index agrees with the keys, every entry is sound, no quota is passed, and no clock is ahead of
the stream.
-/

namespace Seagull.DetectionState.Keeper

/-! ## Delivering and opening -/

variable {keeper : Keeper}

theorem queues_eq_some {tenant : String} {partition : Int32} {queue : PartitionKeys} :
    keeper.queues tenant partition = some queue ↔
      ∃ owner, keeper.tenants.lookup tenant = some owner ∧
        owner.partitions.lookup partition = some queue := by
  rw [queues, Option.bind_eq_some_iff]

section

variable (keeper : Keeper) (tenant : String) (seen : Observation) (named : String)

@[simp]
theorem advance_keys :
    (keeper.advance tenant seen).keys = keeper.keys := rfl

@[simp]
theorem advance_bounds :
    (keeper.advance tenant seen).bounds = keeper.bounds := rfl

theorem advance_newest :
    (keeper.advance tenant seen).newest = max keeper.newest seen.time := by
  simp only [advance]
  split <;> omega

theorem lookup_advance :
    (keeper.advance tenant seen).tenants.lookup named =
      (keeper.tenants.lookup named).map fun owner =>
        if named = tenant then
          match owner.partitions.lookup seen.partition with
          | none => owner
          | some queue =>
            { owner with
              partitions := owner.partitions.insert seen.partition
                (queue.delivered seen.time (keeper.advance tenant seen).newest) }
        else owner := by
  by_cases same : named = tenant
  · subst same
    simp only [advance, if_true]
    cases found : keeper.tenants.lookup named with
    | none => simp [found]
    | some owner =>
      cases queue_eq : owner.partitions.lookup seen.partition with
      | none => simp [found, queue_eq]
      | some queue => simp [queue_eq]
  · simp only [advance, if_neg same, Option.map_id']
    cases keeper.tenants.lookup tenant with
    | none => rfl
    | some owner =>
      simp only
      cases owner.partitions.lookup seen.partition with
      | none => rfl
      | some queue => rw [FiniteMap.lookup_insert, if_neg same]

theorem queues_advance (partition : Int32) :
    (keeper.advance tenant seen).queues named partition =
      (keeper.queues named partition).map fun queue =>
        if named = tenant ∧ partition = seen.partition then
          queue.delivered seen.time (keeper.advance tenant seen).newest
        else queue := by
  rw [queues, lookup_advance, queues]
  cases keeper.tenants.lookup named with
  | none => rfl
  | some owner =>
    simp only [Option.map_some, Option.bind_some]
    by_cases same : named = tenant
    · simp only [same, true_and]
      cases queue_eq : owner.partitions.lookup seen.partition with
      | none =>
        by_cases own : partition = seen.partition
        · simp [own, queue_eq]
        · simp [own]
      | some queue =>
        by_cases own : partition = seen.partition
        · simp [own, queue_eq]
        · simp [own, FiniteMap.lookup_insert]
    · simp [same]

end

variable {opener : Key → Int32}

theorem advance_indexed (tenant : String) (seen : Observation)
    (indexed : Indexed keeper.keys.domain opener keeper.tenants) :
    Indexed (keeper.advance tenant seen).keys.domain opener
      (keeper.advance tenant seen).tenants := by
  rw [advance_keys]
  refine ⟨fun named => ?_, fun named advanced advanced_eq => ?_⟩
  · rw [lookup_advance]
    simpa using indexed.tenant_iff named
  · rw [lookup_advance] at advanced_eq
    obtain ⟨owner, found, rfl⟩ := Option.map_eq_some_iff.mp advanced_eq
    have owned := indexed.owned named owner found
    split
    · split
      · exact owned
      · rename_i queue queue_eq
        refine ⟨owned.tenant_eq, ⟨owned.counted.held_eq, owned.counted.rules⟩,
          fun partition => ?_, fun partition delivered delivered_eq => ?_⟩
        · rw [FiniteMap.lookup_insert, ← owned.partition_iff partition]
          split
          · rename_i same
            simp [same, queue_eq]
          · rfl
        · rw [FiniteMap.lookup_insert] at delivered_eq
          split at delivered_eq
          · rename_i same
            cases delivered_eq
            exact owned.filed partition queue (same ▸ queue_eq)
          · exact owned.filed partition delivered delivered_eq
    · exact owned

section OpenKey

variable {keeper : Keeper} {opener : Key → Int32} {entry : Held} {seen : Observation}

def openQueue (keeper : Keeper) (tenant : String) (seen : Observation) : PartitionKeys :=
  (keeper.queues tenant seen.partition).getD ⟨seen.time, keeper.newest, []⟩

theorem openKey_keys : (keeper.openKey entry seen).keys = keeper.keys.insert entry.key entry := rfl

theorem openQueue_eq (keeper : Keeper) (tenant : String) (seen : Observation) :
    (((keeper.tenants.lookup tenant).getD (TenantKeys.new tenant)).partitions.lookup
        seen.partition).getD ⟨seen.time, keeper.newest, []⟩ = keeper.openQueue tenant seen := by
  rw [openQueue, queues]
  cases keeper.tenants.lookup tenant with
  | none => rfl
  | some owner => rfl

theorem lookup_openKey (named : String) :
    (keeper.openKey entry seen).tenants.lookup named =
      if named = entry.key.tenant then
        let owner := (keeper.tenants.lookup entry.key.tenant).getD
          (TenantKeys.new entry.key.tenant)
        let queue := keeper.openQueue entry.key.tenant seen
        some { owner.opened entry.key.rule with
          partitions := (owner.opened entry.key.rule).partitions.insert seen.partition
            { queue with
              expiring := BinaryHeap.push Expiry.time queue.expiring ⟨entry.expires, entry.key⟩ } }
      else keeper.tenants.lookup named := by
  simp only [openKey, openQueue_eq, FiniteMap.lookup_insert]

theorem queues_openKey (named : String) (partition : Int32) :
    (keeper.openKey entry seen).queues named partition =
      if named = entry.key.tenant ∧ partition = seen.partition then
        let queue := keeper.openQueue entry.key.tenant seen
        some { queue with
          expiring := BinaryHeap.push Expiry.time queue.expiring ⟨entry.expires, entry.key⟩ }
      else keeper.queues named partition := by
  rw [queues, lookup_openKey]
  by_cases same : named = entry.key.tenant
  · simp only [same, if_true, true_and, Option.bind_some, FiniteMap.lookup_insert]
    split
    · rfl
    · rw [queues]
      cases keeper.tenants.lookup entry.key.tenant with
      | none => rfl
      | some owner => rfl
  · simp only [same, if_false, false_and, queues]

theorem openKey_indexed (indexed : Indexed keeper.keys.domain opener keeper.tenants)
    (unheld : entry.key ∉ keeper.keys.domain) :
    Indexed (keeper.openKey entry seen).keys.domain
      (Function.update opener entry.key seen.partition) (keeper.openKey entry seen).tenants := by
  have owned : Owned keeper.keys.domain opener entry.key.tenant
      ((keeper.tenants.lookup entry.key.tenant).getD (TenantKeys.new entry.key.tenant)) := by
    cases found : keeper.tenants.lookup entry.key.tenant with
    | some owner => exact indexed.owned _ owner found
    | none =>
      refine Owned.new fun holds => ?_
      obtain ⟨owner, owner_eq⟩ := (indexed.tenant_iff _).mpr holds
      rw [found] at owner_eq
      cases owner_eq
  have filed := owned.filed_getD seen.partition
    (show (⟨seen.time, keeper.newest, []⟩ : PartitionKeys).expiring = [] from rfl)
  rw [openQueue_eq] at filed
  let pushed : PartitionKeys := { keeper.openQueue entry.key.tenant seen with
    expiring := BinaryHeap.push Expiry.time
      (keeper.openQueue entry.key.tenant seen).expiring ⟨entry.expires, entry.key⟩ }
  have pushed_filed : Filed (insert entry.key keeper.keys.domain)
      (Function.update opener entry.key seen.partition) entry.key.tenant seen.partition
        pushed.expiring := filed.push entry.expires unheld
  have opened := owned.opened unheld pushed_filed
  rw [openKey_keys, FiniteMap.domain_insert]
  refine ⟨fun named => ?_, fun named named_owner named_eq => ?_⟩
  · rw [lookup_openKey]
    by_cases same : named = entry.key.tenant
    · simp only [same, if_true, Option.some.injEq, exists_eq', true_iff]
      exact ⟨entry.key, Finset.mem_insert_self _ _, rfl⟩
    · rw [if_neg same, indexed.tenant_iff named]
      simp [Ne.symm same]
  · rw [lookup_openKey] at named_eq
    split at named_eq
    · rename_i same
      subst same
      cases named_eq
      exact opened
    · rename_i differs
      have other : ∀ key : Key, key.tenant = named → key ≠ entry.key := fun key own same =>
        differs (own.symm.trans (congrArg Key.tenant same))
      refine (indexed.owned named named_owner named_eq).congr (fun key own => ?_) fun key own => ?_
      · simp [other key own]
      · exact Function.update_of_ne (other key own) _ _

end OpenKey

variable {bounds : Bounds}

theorem new_eq_ok {start : Keeper} (made : Keeper.new bounds = .ok start) :
    bounds.Accepted ∧ start = Keeper.empty bounds := by
  unfold Keeper.new at made
  split at made
  · cases made
  · rename_i valid
    exact ⟨bounds.validate_eq_none_iff.mp valid, (Except.ok.inj made).symm⟩

/-! ## Making room -/

/-- Why a key may not be opened under the quotas of its tenant. -/
def overQuota (bounds : Bounds) (held : Finset Key) (key : Key) : Option Refusal :=
  if bounds.keysPerTenant ≤ (keysOf held key.tenant).card then
    some .tenantAtCapacity
  else if bounds.keysPerRule ≤ (keysUnder held key.tenant key.rule).card then
    some .ruleAtCapacity
  else
    none

variable {held : Finset Key} {key : Key}

theorem refuses_eq {owner : TenantKeys} (owned : Owned held opener key.tenant owner)
    (bounds : Bounds) : owner.refuses key.rule bounds = overQuota bounds held key := by
  rw [TenantKeys.refuses, overQuota, owned.counted.held_eq, owned.counted.rules.counted_eq]

theorem overQuota_eq_none (accepted : bounds.Accepted)
    (none_held : ¬ ∃ other ∈ held, other.tenant = key.tenant) :
    overQuota bounds held key = none := by
  have keysOf_eq : keysOf held key.tenant = ∅ := by
    rw [keysOf, Finset.filter_eq_empty_iff]
    exact fun other other_mem own => none_held ⟨other, other_mem, own⟩
  have keysUnder_eq : keysUnder held key.tenant key.rule = ∅ := by
    rw [keysUnder, ← Finset.filter_filter, ← keysOf, keysOf_eq, Finset.filter_empty]
  have := accepted.tenant_pos
  have := accepted.rule_pos
  rw [overQuota, keysOf_eq, keysUnder_eq, Finset.card_empty, Nat.cast_zero, if_neg (by omega),
    if_neg (by omega)]

/-- The store a key is admitted to once its own tenant was asked for room. -/
def askOwner (keeper : Keeper) (order : Order) (key : Key) : Keeper :=
  if (overQuota keeper.bounds keeper.keys.domain key).isSome ∨ keeper.full then
    keeper.reclaimTenant order.own key.tenant
  else
    keeper

theorem admit_eq (order : Order) (key : Key) (accepted : keeper.bounds.Accepted)
    (indexed : Indexed keeper.keys.domain opener keeper.tenants) :
    keeper.admitKey order key =
      (keeper.askOwner order key).grant order
        (overQuota keeper.bounds (keeper.askOwner order key).keys.domain key) := by
  cases found : keeper.tenants.lookup key.tenant with
  | none =>
    have none_held : ¬ ∃ other ∈ keeper.keys.domain, other.tenant = key.tenant := by
      rw [← indexed.tenant_iff, found]
      simp
    have unmoved : keeper.askOwner order key = keeper := by
      simp [askOwner, reclaimTenant, found]
    rw [unmoved, overQuota_eq_none accepted none_held]
    simp only [admitKey, found, grant]
  | some owner =>
    have owned := indexed.owned key.tenant owner found
    obtain ⟨-, asked_owned⟩ := reclaim_spec order.own indexed found
    simp only [admitKey, found, askOwner, reclaimTenant, refuses_eq owned]
    by_cases asks : (overQuota keeper.bounds keeper.keys.domain key).isSome ∨ keeper.full
    · simp only [if_pos asks, refuses_eq asked_owned]
    · simp only [if_neg asks, refuses_eq owned]

theorem overQuota_eq_none_iff :
    overQuota bounds held key = none ↔
      (keysOf held key.tenant).card < bounds.keysPerTenant ∧
        (keysUnder held key.tenant key.rule).card < bounds.keysPerRule := by
  unfold overQuota
  split_ifs <;> simp <;> omega

variable {held' : Finset Key}

theorem keysOf_subset (subset : held' ⊆ held) (tenant : String) :
    keysOf held' tenant ⊆ keysOf held tenant :=
  Finset.filter_subset_filter _ subset

theorem keysUnder_subset (subset : held' ⊆ held) (tenant rule : String) :
    keysUnder held' tenant rule ⊆ keysUnder held tenant rule :=
  Finset.filter_subset_filter _ subset

theorem overQuota_mono (subset : held' ⊆ held) (room : overQuota bounds held key = none) :
    overQuota bounds held' key = none := by
  rw [overQuota_eq_none_iff] at room ⊢
  have := Finset.card_le_card (keysOf_subset subset key.tenant)
  have := Finset.card_le_card (keysUnder_subset subset key.tenant key.rule)
  omega

theorem full_eq_false_iff (keeper : Keeper) :
    keeper.full = false ↔ (keeper.keys.domain.card : ℤ) < keeper.bounds.keys := by
  rw [full, decide_eq_false_iff_not, not_le, FiniteMap.card_domain]

section Admit

variable {keeper : Keeper} {opener : Key → Int32} (order : Order) (key : Key)

section

variable (indexed : Indexed keeper.keys.domain opener keeper.tenants)

include indexed

theorem sweep_reclaims :
    ∃ scope, Reclaims opener scope keeper (keeper.sweep order) := by
  have spec := sweep_spec order indexed
  split at spec
  · rw [spec]
    exact ⟨_, Reclaims.refl indexed⟩
  · exact ⟨_, spec.1⟩

theorem askOwner_reclaims :
    Reclaims opener (fun tenant => tenant = key.tenant ∧
        ((overQuota keeper.bounds keeper.keys.domain key).isSome ∨ keeper.full))
      keeper (keeper.askOwner order key) := by
  unfold askOwner
  split
  · rename_i asks
    simpa only [asks, and_true] using reclaimTenant_reclaims order.own key.tenant indexed
  · rename_i room
    simpa only [room, and_false] using Reclaims.refl indexed

theorem makeRoom_reclaims :
    ∃ scope, Reclaims opener scope keeper (keeper.makeRoom order).1 ∧
      (keeper.full = false → ∀ tenant, ¬ scope tenant) := by
  unfold makeRoom
  by_cases full : keeper.full = true
  · simp only [if_pos full]
    obtain ⟨scope, reclaims⟩ := sweep_reclaims order indexed
    exact ⟨scope, reclaims, fun room => by simp [full] at room⟩
  · simp only [if_neg full]
    exact ⟨_, Reclaims.refl indexed, fun _ _ => id⟩

end


theorem makeRoom_room (room : (keeper.makeRoom order).2 = none) :
    (keeper.makeRoom order).1.full = false := by
  unfold makeRoom at room ⊢
  simpa using room

section

variable (accepted : keeper.bounds.Accepted)
  (indexed : Indexed keeper.keys.domain opener keeper.tenants)

include accepted indexed

theorem admit_reclaims :
    ∃ scope, Reclaims opener scope keeper (keeper.admitKey order key).1 ∧
      (keeper.full = false → ∀ tenant, scope tenant → tenant = key.tenant ∧
        (overQuota keeper.bounds keeper.keys.domain key).isSome) := by
  have asked := askOwner_reclaims order key indexed
  rw [admit_eq order key accepted indexed]
  cases overQuota keeper.bounds (keeper.askOwner order key).keys.domain key with
  | some refusal =>
    refine ⟨_, asked, fun room tenant seen => ⟨seen.1, ?_⟩⟩
    simpa [room] using seen.2
  | none =>
    obtain ⟨scope, reclaims, scope_empty⟩ := makeRoom_reclaims order asked.indexed
    refine ⟨_, asked.trans reclaims, fun room tenant seen => ?_⟩
    rcases seen with seen | seen
    · exact ⟨seen.1, by simpa [room] using seen.2⟩
    · refine absurd seen (scope_empty ?_ tenant)
      rw [full_eq_false_iff] at room ⊢
      have := Finset.card_le_card asked.thins.domain_subset
      rw [asked.bounds_eq]
      omega

theorem admit_room
    (room : (keeper.admitKey order key).2 = none) :
    (keeper.admitKey order key).1.full = false ∧
      overQuota keeper.bounds (keeper.admitKey order key).1.keys.domain key = none := by
  rw [admit_eq order key accepted indexed] at room ⊢
  cases under_quota : overQuota keeper.bounds (keeper.askOwner order key).keys.domain key with
  | some refusal =>
    rw [under_quota] at room
    cases room
  | none =>
    rw [under_quota] at room
    obtain ⟨scope, reclaims, -⟩ :=
      makeRoom_reclaims order (askOwner_reclaims order key indexed).indexed
    exact ⟨makeRoom_room order room, overQuota_mono reclaims.thins.domain_subset under_quota⟩

end

end Admit

/-! ## Folding -/

/-- What a fold can do to a store. -/
inductive Step (keeper : Keeper) (call : Call) : Keeper × Answer → Prop
  | refused (refusal : Refusal) (refuses : call.refusal keeper.bounds = some refusal) :
      Step keeper call (keeper, .refused refusal)
  | folded (entry : Held) (accepts : call.refusal keeper.bounds = none)
      (found : keeper.keys.lookup call.key = some entry) :
      Step keeper call
        ({ keeper.advance call.key.tenant call.seen with
            keys := keeper.keys.insert call.key (call.observe keeper.bounds entry).1 },
          answer call.read (call.observe keeper.bounds entry))
  | turnedAway (admitted : Keeper) (refusal : Refusal)
      (accepts : call.refusal keeper.bounds = none)
      (unheld : keeper.keys.lookup call.key = none)
      (admits : (keeper.advance call.key.tenant call.seen).admitKey call.order call.key =
        (admitted, some refusal)) :
      Step keeper call (admitted, .refused refusal)
  | opened (admitted : Keeper) (accepts : call.refusal keeper.bounds = none)
      (unheld : keeper.keys.lookup call.key = none)
      (admits : (keeper.advance call.key.tenant call.seen).admitKey call.order call.key =
        (admitted, none)) :
      Step keeper call
        (admitted.openKey (call.observe admitted.bounds (Held.opening call.key)).1 call.seen,
          answer call.read (call.observe admitted.bounds (Held.opening call.key)))

theorem fold_step (keeper : Keeper) (call : Call) : Step keeper call (keeper.fold call) := by
  unfold fold
  split
  · rename_i refusal refuses
    exact .refused refusal refuses
  · rename_i accepts
    simp only [advance_keys]
    split
    · rename_i entry found
      exact .folded entry accepts found
    · rename_i unheld
      split
      · rename_i admitted refusal admits
        exact .turnedAway admitted refusal accepts unheld admits
      · rename_i admitted admits
        exact .opened admitted accepts unheld admits

/-- What holds of every store the keeper reaches. -/
structure Consistent (opener : Key → Int32) (keeper : Keeper) : Prop where
  accepted : keeper.bounds.Accepted
  indexed : Indexed keeper.keys.domain opener keeper.tenants
  kept : ∀ key held, keeper.keys.lookup key = some held →
    Held.Kept keeper.bounds.observationsPerKey key held
  keys_le : (keeper.keys.domain.card : ℤ) ≤ keeper.bounds.keys
  tenant_le : ∀ tenant, ((keysOf keeper.keys.domain tenant).card : ℤ) ≤ keeper.bounds.keysPerTenant
  rule_le : ∀ tenant rule,
    ((keysUnder keeper.keys.domain tenant rule).card : ℤ) ≤ keeper.bounds.keysPerRule
  timed : ∀ tenant partition queue, keeper.queues tenant partition = some queue →
    queue.watermark ≤ queue.heard ∧ queue.heard ≤ keeper.newest

namespace Consistent

variable {opener : Key → Int32} {keeper : Keeper}

theorem empty {bounds : Bounds} (accepted : bounds.Accepted) :
    Consistent opener (Keeper.empty bounds) where
  accepted := accepted
  indexed := ⟨fun _ => by simp [Keeper.empty], fun _ _ found => by cases found⟩
  kept := fun _ _ found => by cases found
  keys_le := accepted.keys_pos.le
  tenant_le := fun _ => accepted.tenant_pos.le
  rule_le := fun _ _ => accepted.rule_pos.le
  timed := fun _ _ _ found => by cases found

section

variable (consistent : Consistent opener keeper)

include consistent

theorem advance (tenant : String) (seen : Observation) :
    Consistent opener (keeper.advance tenant seen) := by
  refine ⟨consistent.accepted, advance_indexed tenant seen consistent.indexed, consistent.kept,
    consistent.keys_le, consistent.tenant_le, consistent.rule_le,
    fun named partition queue found => ?_⟩
  rw [queues_advance] at found
  obtain ⟨former, former_eq, rfl⟩ := Option.map_eq_some_iff.mp found
  obtain ⟨watermark_le, heard_le⟩ := consistent.timed named partition former former_eq
  have newest_eq := advance_newest keeper tenant seen
  split
  · simp only [PartitionKeys.delivered]
    refine ⟨?_, le_rfl⟩
    split <;> omega
  · exact ⟨watermark_le, by omega⟩

theorem reclaimed {scope : String → Prop} {after : Keeper}
    (reclaims : Reclaims opener scope keeper after) : Consistent opener after := by
  have subset := reclaims.thins.domain_subset
  refine ⟨reclaims.bounds_eq ▸ consistent.accepted, reclaims.indexed, fun key held found => ?_,
    ?_, fun tenant => ?_, fun tenant rule => ?_, fun tenant partition queue found => ?_⟩
  · rw [reclaims.bounds_eq]
    exact consistent.kept key held (reclaims.thins.kept key held found)
  · have := Finset.card_le_card subset
    have := consistent.keys_le
    rw [reclaims.bounds_eq]
    omega
  · have := Finset.card_le_card (keysOf_subset subset tenant)
    have := consistent.tenant_le tenant
    rw [reclaims.bounds_eq]
    omega
  · have := Finset.card_le_card (keysUnder_subset subset tenant rule)
    have := consistent.rule_le tenant rule
    rw [reclaims.bounds_eq]
    omega
  · obtain ⟨former, former_eq, watermark_eq, heard_eq, -⟩ :=
      reclaims.thins.clocks tenant partition queue found
    rw [watermark_eq, heard_eq, reclaims.newest_eq]
    exact consistent.timed tenant partition former former_eq

theorem refolded {key : Key} {former entry : Held} (found : keeper.keys.lookup key = some former)
    (kept : Held.Kept keeper.bounds.observationsPerKey key entry) :
    Consistent opener { keeper with keys := keeper.keys.insert key entry } := by
  have domain_eq : (keeper.keys.insert key entry).domain = keeper.keys.domain := by
    rw [FiniteMap.domain_insert, Finset.insert_eq_self]
    exact (FiniteMap.mem_domain _ _).mpr ⟨former, found⟩
  refine ⟨consistent.accepted, ?_, fun other held other_eq => ?_, ?_, ?_, ?_, consistent.timed⟩
  · rw [domain_eq]
    exact consistent.indexed
  · rw [FiniteMap.lookup_insert] at other_eq
    split at other_eq
    · rename_i same
      cases other_eq
      exact same ▸ kept
    · exact consistent.kept other held other_eq
  · rw [domain_eq]
    exact consistent.keys_le
  · rw [domain_eq]
    exact consistent.tenant_le
  · rw [domain_eq]
    exact consistent.rule_le

theorem opened {entry : Held} {seen : Observation}
    (unheld : keeper.keys.lookup entry.key = none) (room : keeper.full = false)
    (under_quota : overQuota keeper.bounds keeper.keys.domain entry.key = none)
    (kept : Held.Kept keeper.bounds.observationsPerKey entry.key entry)
    (delivered : seen.time ≤ keeper.newest) :
    Consistent (Function.update opener entry.key seen.partition) (keeper.openKey entry seen) := by
  have unheld' := (FiniteMap.notMem_domain _ _).mpr unheld
  obtain ⟨tenant_room, rule_room⟩ := overQuota_eq_none_iff.mp under_quota
  have domain_eq : (keeper.openKey entry seen).keys.domain =
      insert entry.key keeper.keys.domain := by
    rw [openKey_keys, FiniteMap.domain_insert]
  refine ⟨consistent.accepted, openKey_indexed consistent.indexed unheld',
    fun other held other_eq => ?_, ?_, fun tenant => ?_, fun tenant rule => ?_,
    fun tenant partition queue found => ?_⟩
  · rw [openKey_keys, FiniteMap.lookup_insert] at other_eq
    split at other_eq
    · rename_i same
      cases other_eq
      exact same ▸ kept
    · exact consistent.kept other held other_eq
  · rw [full_eq_false_iff] at room
    rw [domain_eq, Finset.card_insert_of_notMem unheld']
    push_cast
    exact room
  · rw [domain_eq]
    by_cases own : entry.key.tenant = tenant
    · subst own
      rw [card_keysOf_insert unheld']
      push_cast
      exact tenant_room
    · rw [keysOf, Finset.filter_insert, if_neg own]
      exact consistent.tenant_le tenant
  · rw [domain_eq]
    by_cases own : entry.key.tenant = tenant
    · subst own
      rw [card_keysUnder_insert unheld']
      split
      · rename_i same
        subst same
        push_cast
        exact rule_room
      · exact consistent.rule_le _ rule
    · rw [keysUnder, Finset.filter_insert, if_neg fun both => own both.1]
      exact consistent.rule_le tenant rule
  · rw [queues_openKey] at found
    split at found
    · cases found
      change (keeper.openQueue _ seen).watermark ≤ (keeper.openQueue _ seen).heard ∧
        (keeper.openQueue _ seen).heard ≤ keeper.newest
      rw [openQueue]
      cases former_eq : keeper.queues entry.key.tenant seen.partition with
      | none => exact ⟨delivered, le_rfl⟩
      | some former => exact consistent.timed _ _ former former_eq
    · exact consistent.timed tenant partition queue found

end


end Consistent

def openerAfter (keeper : Keeper) (call : Call) (opener : Key → Int32) : Key → Int32 :=
  if call.refusal keeper.bounds = none ∧ keeper.keys.lookup call.key = none ∧
      ((keeper.advance call.key.tenant call.seen).admitKey call.order call.key).2 = none then
    Function.update opener call.key call.seen.partition
  else
    opener

variable {call : Call}

theorem refusal_eq_none (accepts : call.refusal bounds = none) :
    call.seen.validate = none ∧ 0 < call.window ∧ call.window ≤ bounds.window := by
  unfold Call.refusal at accepts
  split at accepts
  · cases accepts
  · split at accepts
    · cases accepts
    · rename_i valid
      split_ifs at accepts
      exact ⟨valid, by omega, by omega⟩

theorem observe_kept {entry : Held} (accepted : bounds.Accepted)
    (accepts : call.refusal bounds = none) (sound : entry.Sound)
    (bounded : entry.seen.length ≤ bounds.observationsPerKey.toNat) :
    ({ entry with window := call.window } : Held).Folds call.seen bounds.observationsPerKey
        (call.observe bounds entry) ∧
      Held.Kept bounds.observationsPerKey entry.key (call.observe bounds entry).1 := by
  obtain ⟨-, positive, -⟩ := refusal_eq_none accepts
  have folds := Held.observe_folds (sound.under call.window) call.named
    accepted.observations_pos.le
  exact ⟨folds, folds.kept (sound.under call.window) bounded positive.le
    accepted.observations_pos⟩

/-- What asking for room for the key of a call does to a consistent store. -/
structure Admission (opener : Key → Int32) (keeper : Keeper) (call : Call) (admitted : Keeper) :
    Prop where
  /-- Some tenants were reclaimed, and only the key's own, over quota, while the store had room. -/
  reclaims : ∃ scope, Reclaims opener scope (keeper.advance call.key.tenant call.seen) admitted ∧
    (keeper.full = false → ∀ tenant, scope tenant → tenant = call.key.tenant ∧
      (overQuota keeper.bounds keeper.keys.domain call.key).isSome)
  consistent : Consistent opener admitted
  bounds_eq : admitted.bounds = keeper.bounds
  delivered : call.seen.time ≤ admitted.newest
  kept : ∀ key held, admitted.keys.lookup key = some held → keeper.keys.lookup key = some held

theorem Consistent.admission {admitted : Keeper} (consistent : Consistent opener keeper)
    {refusal : Option Refusal}
    (admits : (keeper.advance call.key.tenant call.seen).admitKey call.order call.key =
      (admitted, refusal)) : Admission opener keeper call admitted := by
  have advanced := consistent.advance call.key.tenant call.seen
  obtain ⟨scope, reclaims, own⟩ := admit_reclaims call.order call.key advanced.accepted
    advanced.indexed
  rw [admits] at reclaims
  refine ⟨⟨scope, reclaims, own⟩, advanced.reclaimed reclaims, reclaims.bounds_eq, ?_,
    reclaims.thins.kept⟩
  rw [reclaims.newest_eq, advance_newest]
  exact le_max_right _ _

namespace Admission

variable {opener : Key → Int32} {keeper admitted : Keeper} {call : Call}

theorem unheld (admission : Admission opener keeper call admitted) {key : Key}
    (unheld : keeper.keys.lookup key = none) : admitted.keys.lookup key = none :=
  Option.eq_none_iff_forall_ne_some.mpr fun held found => by
    rw [admission.kept key held found] at unheld
    cases unheld

theorem folds (admission : Admission opener keeper call admitted)
    (accepts : call.refusal keeper.bounds = none) :
    ({ Held.opening call.key with window := call.window } : Held).Folds call.seen
        admitted.bounds.observationsPerKey
        (call.observe admitted.bounds (Held.opening call.key)) ∧
      Held.Kept admitted.bounds.observationsPerKey call.key
        (call.observe admitted.bounds (Held.opening call.key)).1 :=
  observe_kept admission.consistent.accepted (admission.bounds_eq.symm ▸ accepts)
    (Held.Sound.opening call.key) (Nat.zero_le _)

end Admission

theorem fold_consistent (consistent : Consistent opener keeper) (call : Call) :
    Consistent (keeper.openerAfter call opener) (keeper.fold call).1 := by
  have step := keeper.fold_step call
  cases stepped : keeper.fold call with
  | mk after given =>
    rw [stepped] at step
    cases step with
    | refused refusal refuses =>
      rw [openerAfter, if_neg fun both => by rw [refuses] at both; cases both.1]
      exact consistent
    | folded entry accepts found =>
      rw [openerAfter, if_neg fun both => by rw [found] at both; cases both.2.1]
      have kept := consistent.kept call.key entry found
      have entry_kept := (observe_kept consistent.accepted accepts kept.sound kept.bounded).2
      rw [kept.key_eq] at entry_kept
      exact (consistent.advance call.key.tenant call.seen).refolded found entry_kept
    | turnedAway admitted refusal accepts unheld admits =>
      rw [openerAfter, if_neg fun both => by rw [admits] at both; cases both.2.2]
      exact (consistent.admission admits).consistent
    | opened admitted accepts unheld admits =>
      rw [openerAfter, if_pos ⟨accepts, unheld, by rw [admits]⟩]
      have admission := consistent.admission admits
      have advanced := consistent.advance call.key.tenant call.seen
      have room := admit_room call.order call.key advanced.accepted advanced.indexed
        (by rw [admits])
      rw [admits, advance_bounds, ← admission.bounds_eq] at room
      have entry_kept := (admission.folds accepts).2
      have key_eq : (call.observe admitted.bounds (Held.opening call.key)).1.key = call.key :=
        entry_kept.key_eq
      have opens := admission.consistent.opened (key_eq.symm ▸ admission.unheld unheld) room.1
        (key_eq.symm ▸ room.2) (key_eq.symm ▸ entry_kept) admission.delivered
      rwa [key_eq] at opens

end Seagull.DetectionState.Keeper
