import Seagull.DetectionState.Index

/-!
# Reclaiming

A walk over a queue drops keys the clock has passed and no others.  So does reclaiming a tenant,
partition after partition, and sweeping the store, tenant after tenant, in whatever order the maps
are visited.
-/

namespace Seagull.DetectionState

/-! ## A walk over one queue -/

namespace Keeper

theorem expiresOf_erase {keys : FiniteMap Key Held} {gone key : Key} (differ : key ≠ gone) :
    expiresOf (keys.erase gone) key = expiresOf keys key := by
  rw [expiresOf, expiresOf, FiniteMap.lookup_erase, if_neg differ]

/-- What a walk does: it drops keys the clock has passed, and leaves a heap of the others. -/
structure Drops (clock : ℤ) (before after : Walked) (gone : List Key) : Prop where
  perm : (before.expiring.map Expiry.entry).Perm (gone ++ after.expiring.map Expiry.entry)
  ordered : BinaryHeap.Ordered Expiry.time after.expiring.length after.expiring
  settled : ∀ place ∈ after.expiring, clock ≤ place.time
  places : ∀ place ∈ after.expiring,
    place ∈ before.expiring ∨ place.time = expiresOf before.keys place.entry
  past : ∀ key ∈ gone, expiresOf before.keys key < clock
  lookup_eq : ∀ key, after.keys.lookup key = if key ∈ gone then none else before.keys.lookup key
  owner_eq : after.owner = gone.foldl (fun owner key => owner.closed key.rule) before.owner

theorem Drops.refl {clock : ℤ} {walked : Walked}
    (ordered : BinaryHeap.Ordered Expiry.time walked.expiring.length walked.expiring)
    (settled : ∀ place ∈ walked.expiring, clock ≤ place.time) : Drops clock walked walked [] where
  perm := List.Perm.refl _
  ordered := ordered
  settled := settled
  places := fun _ => Or.inl
  past := by simp
  lookup_eq := by simp
  owner_eq := rfl

section Step

variable {clock : ℤ} {keys : FiniteMap Key Held} {owner : TenantKeys} {first : Expiry}
  {rest moved : List Expiry} {after : Walked} {gone : List Key}

theorem Drops.of_refiled
    (perm : moved.Perm (⟨expiresOf keys first.entry, first.entry⟩ :: rest))
    (drops : Drops clock ⟨keys, owner, moved⟩ after gone) :
    Drops clock ⟨keys, owner, first :: rest⟩ after gone := by
  refine ⟨(perm.map Expiry.entry).symm.trans drops.perm, drops.ordered, drops.settled,
    fun place place_mem => ?_, drops.past, drops.lookup_eq, drops.owner_eq⟩
  rcases drops.places place place_mem with before | refiled
  · rcases List.mem_cons.mp (perm.mem_iff.mp before) with rfl | rest_mem
    · exact Or.inr rfl
    · exact Or.inl (List.mem_cons_of_mem _ rest_mem)
  · exact Or.inr refiled

theorem Drops.of_popped (perm : moved.Perm rest) (unfiled : first.entry ∉ rest.map Expiry.entry)
    (passed : expiresOf keys first.entry < clock)
    (drops : Drops clock ⟨keys.erase first.entry, owner.closed first.entry.rule, moved⟩ after gone) :
    Drops clock ⟨keys, owner, first :: rest⟩ after (first.entry :: gone) := by
  have rest_perm := (perm.map Expiry.entry).symm.trans drops.perm
  have elsewhere : ∀ key ∈ gone ++ after.expiring.map Expiry.entry,
      expiresOf (keys.erase first.entry) key = expiresOf keys key :=
    fun key key_mem => expiresOf_erase fun same =>
      unfiled (same ▸ rest_perm.mem_iff.mpr key_mem)
  refine ⟨rest_perm.cons first.entry, drops.ordered, drops.settled, fun place place_mem => ?_,
    fun key key_mem => ?_, fun key => ?_, drops.owner_eq⟩
  · rcases drops.places place place_mem with before | refiled
    · exact Or.inl (List.mem_cons_of_mem _ (perm.mem_iff.mp before))
    · exact Or.inr (refiled.trans
        (elsewhere _ (List.mem_append_right _ (List.mem_map_of_mem place_mem))))
  · rcases List.mem_cons.mp key_mem with rfl | gone_mem
    · exact passed
    · exact elsewhere key (List.mem_append_left _ gone_mem) ▸ drops.past key gone_mem
  · rw [drops.lookup_eq, FiniteMap.lookup_erase]
    by_cases dropped : key ∈ gone <;> simp [dropped]

end Step

theorem dropPast_drops {clock : ℤ} {rounds : ℕ} {walked : Walked}
    (nodup : (walked.expiring.map Expiry.entry).Nodup)
    (ordered : BinaryHeap.Ordered Expiry.time walked.expiring.length walked.expiring)
    (enough : walked.expiring.countP (fun place => place.time < clock) ≤ rounds) :
    ∃ gone, Drops clock walked (dropPast clock rounds walked) gone := by
  induction rounds generalizing walked with
  | zero =>
    refine ⟨[], Drops.refl ordered fun place place_mem => ?_⟩
    have settled := List.countP_eq_zero.mp (Nat.le_zero.mp enough) place place_mem
    simpa using settled
  | succ rounds ih =>
    obtain ⟨keys, owner, expiring⟩ := walked
    cases expiring with
    | nil => exact ⟨[], Drops.refl ordered (by simp)⟩
    | cons first rest =>
      simp only [dropPast]
      simp only at nodup ordered enough
      rw [List.map_cons, List.nodup_cons] at nodup
      split
      · rename_i waiting
        rw [List.countP_cons_of_pos (by simpa using waiting)] at enough
        split
        · rename_i alive
          obtain ⟨perm, refiled_ordered⟩ := BinaryHeap.fix_root_spec Expiry.time
            ⟨expiresOf keys first.entry, first.entry⟩ ordered
          generalize BinaryHeap.fix Expiry.time _ 0 = refiled at perm refiled_ordered ⊢
          have refiled_nodup : (refiled.map Expiry.entry).Nodup :=
            (perm.map Expiry.entry).nodup_iff.mpr (List.nodup_cons.mpr nodup)
          have refiled_enough :
              refiled.countP (fun place => place.time < clock) ≤ rounds := by
            rw [perm.countP_eq, List.countP_cons_of_neg (by simpa using alive)]
            omega
          obtain ⟨gone, drops⟩ := @ih ⟨keys, owner, refiled⟩ refiled_nodup refiled_ordered
            refiled_enough
          exact ⟨gone, drops.of_refiled perm⟩
        · rename_i passed
          obtain ⟨perm, popped_ordered⟩ := BinaryHeap.pop_spec Expiry.time ordered
          generalize BinaryHeap.pop Expiry.time _ = popped at perm popped_ordered ⊢
          have popped_nodup : (popped.map Expiry.entry).Nodup :=
            (perm.map Expiry.entry).nodup_iff.mpr nodup.2
          have popped_enough :
              popped.countP (fun place => place.time < clock) ≤ rounds := by
            rw [perm.countP_eq]
            omega
          obtain ⟨gone, drops⟩ := @ih
            ⟨keys.erase first.entry, owner.closed first.entry.rule, popped⟩ popped_nodup
            popped_ordered popped_enough
          exact ⟨first.entry :: gone, drops.of_popped perm nodup.1 (not_le.mp passed)⟩
      · rename_i reached
        refine ⟨[], Drops.refl ordered fun place place_mem => ?_⟩
        exact (not_lt.mp reached).trans (BinaryHeap.root_le_of_mem ordered place_mem)

theorem closed_all_tenant (gone : List Key) (owner : TenantKeys) :
    (gone.foldl (fun owner key => owner.closed key.rule) owner).tenant = owner.tenant := by
  induction gone generalizing owner with
  | nil => rfl
  | cons first rest ih => exact ih (owner.closed first.rule)

theorem closed_all_partitions (gone : List Key) (owner : TenantKeys) :
    (gone.foldl (fun owner key => owner.closed key.rule) owner).partitions = owner.partitions := by
  induction gone generalizing owner with
  | nil => rfl
  | cons first rest ih => exact ih (owner.closed first.rule)

namespace Drops

variable {clock : ℤ} {before after : Walked} {gone : List Key}

theorem nodup (drops : Drops clock before after gone)
    (nodup : (before.expiring.map Expiry.entry).Nodup) :
    gone.Nodup ∧ (after.expiring.map Expiry.entry).Nodup := by
  have split := List.nodup_append.mp (drops.perm.nodup_iff.mp nodup)
  exact ⟨split.1, split.2.1⟩

theorem mem_after (drops : Drops clock before after gone)
    (nodup : (before.expiring.map Expiry.entry).Nodup) (key : Key) :
    key ∈ after.expiring.map Expiry.entry ↔
      key ∈ before.expiring.map Expiry.entry ∧ key ∉ gone := by
  have apart := (List.nodup_append.mp (drops.perm.nodup_iff.mp nodup)).2.2
  rw [drops.perm.mem_iff, List.mem_append]
  constructor
  · exact fun stays => ⟨Or.inr stays, fun goes => apart key goes key stays rfl⟩
  · exact fun stays => stays.1.resolve_left stays.2

theorem domain_eq (drops : Drops clock before after gone) :
    after.keys.domain = before.keys.domain \ gone.toFinset := by
  ext key
  rw [FiniteMap.mem_domain, drops.lookup_eq, Finset.mem_sdiff, FiniteMap.mem_domain,
    List.mem_toFinset]
  by_cases dropped : key ∈ gone <;> simp [dropped]

end Drops

/-! ## Reclaiming -/

def Queues := String → Int32 → Option PartitionKeys

def queues (keeper : Keeper) : Queues := fun tenant partition =>
  (keeper.tenants.lookup tenant).bind fun owner => owner.partitions.lookup partition

def Queues.replaced (others : Queues) (tenant : String) (owner : TenantKeys) : Queues :=
  fun named partition =>
    if named = tenant then owner.partitions.lookup partition else others named partition

def Timely (keys : FiniteMap Key Held) (queues : Queues) : Prop :=
  ∀ tenant partition queue, queues tenant partition = some queue →
    ∀ place ∈ queue.expiring, ∀ held, keys.lookup place.entry = some held →
      place.time ≤ held.expires

/-- What reclaiming does: it drops keys of the visited queues the clocks have passed, and nothing
else. -/
structure Thins (newest : ℤ) (opener : Key → Int32) (visited : String → Int32 → Prop)
    (keys : FiniteMap Key Held) (queues : Queues) (keys' : FiniteMap Key Held)
    (queues' : Queues) : Prop where
  kept : ∀ key held, keys'.lookup key = some held → keys.lookup key = some held
  /-- A key that goes was filed in a visited queue, and its clock has passed the key's window. -/
  dropped : ∀ key held, keys.lookup key = some held → keys'.lookup key = none →
    visited key.tenant (opener key) ∧ ∃ queue, queues key.tenant (opener key) = some queue ∧
      held.expires < queue.clock newest
  /-- A queue that stays keeps its clock, and a visited one files nothing before it. -/
  clocks : ∀ tenant partition queue, queues' tenant partition = some queue →
    ∃ former, queues tenant partition = some former ∧
      queue.watermark = former.watermark ∧ queue.heard = former.heard ∧
        (visited tenant partition → ∀ place ∈ queue.expiring, queue.clock newest ≤ place.time)
  untouched : ∀ tenant partition, ¬ visited tenant partition →
    queues' tenant partition = queues tenant partition
  timely : Timely keys queues → Timely keys' queues'

namespace Thins

variable {newest : ℤ} {opener : Key → Int32} {visited more : String → Int32 → Prop}
  {keys keys' keys'' : FiniteMap Key Held} {queues queues' queues'' : Queues}

theorem refl : Thins newest opener (fun _ _ => False) keys queues keys queues where
  kept := fun _ _ => id
  dropped := fun key held found lost => by rw [found] at lost; cases lost
  clocks := fun _ _ queue found => ⟨queue, found, rfl, rfl, False.elim⟩
  untouched := fun _ _ _ => rfl
  timely := id

theorem trans (first : Thins newest opener visited keys queues keys' queues')
    (second : Thins newest opener more keys' queues' keys'' queues'') :
    Thins newest opener (fun tenant partition => visited tenant partition ∨ more tenant partition)
      keys queues keys'' queues'' where
  kept := fun key held found => first.kept key held (second.kept key held found)
  dropped := by
    intro key held found lost
    cases between : keys'.lookup key with
    | none =>
      obtain ⟨seen, passed⟩ := first.dropped key held found between
      exact ⟨Or.inl seen, passed⟩
    | some former =>
      obtain rfl : former = held := by
        simpa [found] using (first.kept key former between).symm
      obtain ⟨seen, queue, queue_eq, passed⟩ := second.dropped key former between lost
      obtain ⟨original, original_eq, watermark_eq, heard_eq, -⟩ :=
        first.clocks key.tenant (opener key) queue queue_eq
      refine ⟨Or.inr seen, original, original_eq, ?_⟩
      rwa [PartitionKeys.clock, ← watermark_eq, ← heard_eq]
  clocks := by
    intro tenant partition queue found
    obtain ⟨between, between_eq, watermark_eq, heard_eq, settled⟩ :=
      second.clocks tenant partition queue found
    obtain ⟨former, former_eq, former_watermark, former_heard, former_settled⟩ :=
      first.clocks tenant partition between between_eq
    refine ⟨former, former_eq, watermark_eq.trans former_watermark, heard_eq.trans former_heard, ?_⟩
    intro reached
    by_cases again : more tenant partition
    · exact settled again
    · obtain rfl : queue = between := by
        rw [second.untouched tenant partition again, between_eq] at found
        exact (Option.some.inj found).symm
      exact former_settled (reached.resolve_right again)
  untouched := fun tenant partition unseen =>
    (second.untouched tenant partition fun late => unseen (Or.inr late)).trans
      (first.untouched tenant partition fun early => unseen (Or.inl early))
  timely := fun timely => second.timely (first.timely timely)

section

variable (thins : Thins newest opener visited keys queues keys' queues')

include thins

theorem widen (wider : ∀ tenant partition, visited tenant partition → more tenant partition)
    (missing : ∀ tenant partition, more tenant partition → ¬ visited tenant partition →
      queues tenant partition = none) :
    Thins newest opener more keys queues keys' queues' where
  kept := thins.kept
  dropped := fun key held found lost =>
    (thins.dropped key held found lost).imp_left (wider _ _)
  clocks := by
    intro tenant partition queue found
    obtain ⟨former, former_eq, watermark_eq, heard_eq, settled⟩ :=
      thins.clocks tenant partition queue found
    refine ⟨former, former_eq, watermark_eq, heard_eq, fun reached => settled ?_⟩
    by_contra unseen
    rw [missing tenant partition reached unseen] at former_eq
    cases former_eq
  untouched := fun tenant partition unseen =>
    thins.untouched tenant partition fun seen => unseen (wider _ _ seen)
  timely := thins.timely

theorem domain_subset :
    keys'.domain ⊆ keys.domain := by
  intro key key_mem
  obtain ⟨held, found⟩ := (FiniteMap.mem_domain _ _).mp key_mem
  exact (FiniteMap.mem_domain _ _).mpr ⟨held, thins.kept key held found⟩

theorem mem_domain_iff {key : Key}
    (unseen : ¬ visited key.tenant (opener key)) : key ∈ keys'.domain ↔ key ∈ keys.domain := by
  refine ⟨fun key_mem => thins.domain_subset key_mem, fun key_mem => ?_⟩
  obtain ⟨held, found⟩ := (FiniteMap.mem_domain _ _).mp key_mem
  by_contra lost
  exact unseen (thins.dropped key held found ((FiniteMap.notMem_domain _ _).mp lost)).1

end


end Thins

section Partition

variable {newest : ℤ} {tenant : String} {opener : Key → Int32} {partition : Int32}
  {keys : FiniteMap Key Held} {owner : TenantKeys} {queue : PartitionKeys} {walked : Walked}
  {gone : List Key}

theorem lookup_walkedOwner
    (drops : Drops (queue.clock newest) ⟨keys, owner, queue.expiring⟩ walked gone) (other : Int32) :
    (walkedOwner partition queue walked).partitions.lookup other =
      if other = partition then
        if walked.expiring = [] then none else some { queue with expiring := walked.expiring }
      else owner.partitions.lookup other := by
  have partitions_eq : walked.owner.partitions = owner.partitions := by
    rw [drops.owner_eq, closed_all_partitions]
  rw [walkedOwner, partitions_eq]
  by_cases none_left : walked.expiring = []
  · simp only [none_left, if_true, FiniteMap.lookup_erase]
  · simp only [none_left, if_false, FiniteMap.lookup_insert]

private theorem walkedOwner_owned (owned : Owned keys.domain opener tenant owner)
    (found : owner.partitions.lookup partition = some queue)
    (drops : Drops (queue.clock newest) ⟨keys, owner, queue.expiring⟩ walked gone) :
    Owned walked.keys.domain opener tenant (walkedOwner partition queue walked) := by
  have filed := owned.filed partition queue found
  have gone_mem : ∀ key ∈ gone,
      key ∈ keys.domain ∧ key.tenant = tenant ∧ opener key = partition := fun key key_mem =>
    (filed.mem_iff key).mp (drops.perm.mem_iff.mpr (List.mem_append_left _ key_mem))
  have elsewhere : ∀ key, opener key ≠ partition →
      (key ∈ walked.keys.domain ↔ key ∈ keys.domain) := by
    intro key differs
    rw [drops.domain_eq, Finset.mem_sdiff, List.mem_toFinset]
    exact and_iff_left fun dropped => differs (gone_mem key dropped).2.2
  have stays_iff : ∀ key, key ∈ walked.expiring.map Expiry.entry ↔
      key ∈ walked.keys.domain ∧ key.tenant = tenant ∧ opener key = partition := by
    intro key
    rw [drops.mem_after filed.nodup, filed.mem_iff, drops.domain_eq, Finset.mem_sdiff,
      List.mem_toFinset]
    tauto
  have counted := owned.counted.closed_all (drops.nodup filed.nodup).1
    fun key key_mem => ⟨(gone_mem key key_mem).1, (gone_mem key key_mem).2.1⟩
  rw [← drops.domain_eq, ← drops.owner_eq] at counted
  refine ⟨?_, ⟨counted.held_eq, counted.rules⟩, fun other => ?_, fun other found_queue other_eq => ?_⟩
  · exact (congrArg TenantKeys.tenant drops.owner_eq).trans
      ((closed_all_tenant gone owner).trans owned.tenant_eq)
  · rw [lookup_walkedOwner drops]
    by_cases same : other = partition
    · subst same
      cases stays : walked.expiring with
      | nil =>
        simp only [stays, List.map_nil, List.not_mem_nil, false_iff] at stays_iff
        simp [stays_iff]
      | cons first rest =>
        have first_mem := (stays_iff first.entry).mp (by simp [stays])
        simp only [if_true, if_neg (List.cons_ne_nil first rest)]
        exact ⟨fun _ => ⟨first.entry, first_mem⟩, fun _ => ⟨_, rfl⟩⟩
    · rw [if_neg same, owned.partition_iff other]
      constructor
      · rintro ⟨key, key_mem, same_tenant, rfl⟩
        exact ⟨key, (elsewhere key same).mpr key_mem, same_tenant, rfl⟩
      · rintro ⟨key, key_mem, same_tenant, rfl⟩
        exact ⟨key, (elsewhere key same).mp key_mem, same_tenant, rfl⟩
  · rw [lookup_walkedOwner drops] at other_eq
    by_cases same : other = partition
    · subst same
      rw [if_pos rfl] at other_eq
      split at other_eq
      · cases other_eq
      · cases other_eq
        exact ⟨(drops.nodup filed.nodup).2, stays_iff, drops.ordered⟩
    · rw [if_neg same] at other_eq
      have other_filed := owned.filed other found_queue other_eq
      refine ⟨other_filed.nodup, fun key => ?_, other_filed.ordered⟩
      rw [other_filed.mem_iff key]
      constructor
      · rintro ⟨key_mem, same_tenant, rfl⟩
        exact ⟨(elsewhere key same).mpr key_mem, same_tenant, rfl⟩
      · rintro ⟨key_mem, same_tenant, rfl⟩
        exact ⟨(elsewhere key same).mp key_mem, same_tenant, rfl⟩

theorem reclaimPartition_thins (owned : Owned keys.domain opener tenant owner)
    (newest : ℤ) (partition : Int32) (others : Queues) :
    let after := reclaimPartition newest partition (keys, owner)
    Owned after.1.domain opener tenant after.2 ∧
      Thins newest opener (fun named other => named = tenant ∧ other = partition)
        keys (others.replaced tenant owner) after.1 (others.replaced tenant after.2) := by
  cases found : owner.partitions.lookup partition with
  | none =>
    simp only [reclaimPartition, found]
    refine ⟨owned, fun _ _ => id, fun key held present lost => ?_,
      fun named other queue other_eq => ?_, fun _ _ _ => rfl, id⟩
    · rw [present] at lost
      cases lost
    · refine ⟨queue, other_eq, rfl, rfl, fun same => ?_⟩
      rw [Queues.replaced, if_pos same.1, same.2, found] at other_eq
      cases other_eq
  | some queue =>
    have filed := owned.filed partition queue found
    have enough : queue.expiring.countP (fun place => place.time < queue.clock newest) ≤
        queue.expiring.length := List.countP_le_length
    obtain ⟨gone, drops⟩ := @dropPast_drops _ _ ⟨keys, owner, queue.expiring⟩
      filed.nodup filed.ordered enough
    simp only [reclaimPartition, found]
    set walked := dropPast (queue.clock newest) queue.expiring.length
      ⟨keys, owner, queue.expiring⟩
    have kept : ∀ key held, walked.keys.lookup key = some held → keys.lookup key = some held := by
      intro key held stays
      rw [drops.lookup_eq] at stays
      split at stays
      · cases stays
      · exact stays
    have replaced_eq : ∀ named other,
        others.replaced tenant (walkedOwner partition queue walked) named other =
          if named = tenant ∧ other = partition then
            if walked.expiring = [] then none
            else some { queue with expiring := walked.expiring }
          else others.replaced tenant owner named other := by
      intro named other
      simp only [Queues.replaced, lookup_walkedOwner drops]
      by_cases same : named = tenant <;> simp [same]
    refine ⟨walkedOwner_owned owned found drops, kept, ?_, ?_, ?_, ?_⟩
    · intro key held present lost
      have dropped : key ∈ gone := by
        by_contra stays
        rw [drops.lookup_eq, if_neg stays, present] at lost
        cases lost
      obtain ⟨-, same_tenant, same_partition⟩ := (filed.mem_iff key).mp
        (drops.perm.mem_iff.mpr (List.mem_append_left _ dropped))
      refine ⟨⟨same_tenant, same_partition⟩, queue, ?_, ?_⟩
      · rw [Queues.replaced, if_pos same_tenant, same_partition, found]
      · simpa [expiresOf, present] using drops.past key dropped
    · intro named other after_queue other_eq
      rw [replaced_eq] at other_eq
      split at other_eq
      · rename_i same
        split at other_eq
        · cases other_eq
        · cases other_eq
          refine ⟨queue, ?_, rfl, rfl, fun _ => drops.settled⟩
          rw [Queues.replaced, if_pos same.1, same.2, found]
      · rename_i differs
        exact ⟨after_queue, other_eq, rfl, rfl, fun same => absurd same differs⟩
    · intro named other differs
      rw [replaced_eq, if_neg differs]
    · intro timely named other after_queue other_eq place place_mem held held_eq
      rw [replaced_eq] at other_eq
      split at other_eq
      · split at other_eq
        · cases other_eq
        · cases other_eq
          rcases drops.places place place_mem with before | refiled
          · refine timely tenant partition queue ?_ place before held (kept _ _ held_eq)
            rw [Queues.replaced, if_pos rfl, found]
          · simp [refiled, expiresOf, kept _ _ held_eq]
      · exact timely named other after_queue other_eq place place_mem held (kept _ _ held_eq)

end Partition

theorem reclaimPartitions_thins {newest : ℤ} {tenant : String} {opener : Key → Int32}
    (others : Queues) (partitions : List Int32) {store : FiniteMap Key Held × TenantKeys}
    (owned : Owned store.1.domain opener tenant store.2) :
    let after := partitions.foldl
      (fun store partition => reclaimPartition newest partition store) store
    Owned after.1.domain opener tenant after.2 ∧
      Thins newest opener (fun named partition => named = tenant ∧ partition ∈ partitions)
        store.1 (others.replaced tenant store.2) after.1 (others.replaced tenant after.2) := by
  induction partitions generalizing store with
  | nil => exact ⟨owned, by simpa using Thins.refl⟩
  | cons first rest ih =>
    obtain ⟨first_owned, first_thins⟩ := reclaimPartition_thins owned newest first others
    obtain ⟨rest_owned, rest_thins⟩ := ih first_owned
    refine ⟨rest_owned, ?_⟩
    have both := first_thins.trans rest_thins
    simpa only [List.mem_cons, and_or_left, List.foldl_cons] using both

/-- What reclaiming some tenants does to a store. -/
structure Reclaims (opener : Key → Int32) (scope : String → Prop) (before after : Keeper) :
    Prop where
  indexed : Indexed after.keys.domain opener after.tenants
  /-- The keys that go are those of the tenants reclaimed that their clocks have passed. -/
  thins : Thins before.newest opener (fun tenant _ => scope tenant) before.keys before.queues
    after.keys after.queues
  others : ∀ tenant, ¬ scope tenant → after.tenants.lookup tenant = before.tenants.lookup tenant
  bounds_eq : after.bounds = before.bounds
  newest_eq : after.newest = before.newest

namespace Reclaims

variable {opener : Key → Int32} {scope more : String → Prop} {before middle after : Keeper}

theorem refl (indexed : Indexed before.keys.domain opener before.tenants) :
    Reclaims opener (fun _ => False) before before :=
  ⟨indexed, Thins.refl, fun _ _ => rfl, rfl, rfl⟩

theorem trans (first : Reclaims opener scope before middle)
    (second : Reclaims opener more middle after) :
    Reclaims opener (fun tenant => scope tenant ∨ more tenant) before after where
  indexed := second.indexed
  thins := first.thins.trans (first.newest_eq ▸ second.thins)
  others := fun tenant unseen =>
    (second.others tenant fun late => unseen (Or.inr late)).trans
      (first.others tenant fun early => unseen (Or.inl early))
  bounds_eq := second.bounds_eq.trans first.bounds_eq
  newest_eq := second.newest_eq.trans first.newest_eq

theorem widen (reclaims : Reclaims opener scope before after)
    (wider : ∀ tenant, scope tenant → more tenant)
    (missing : ∀ tenant, more tenant → ¬ scope tenant → before.tenants.lookup tenant = none) :
    Reclaims opener more before after where
  indexed := reclaims.indexed
  thins := reclaims.thins.widen (fun tenant _ => wider tenant) fun tenant partition seen unseen => by
    rw [queues, missing tenant seen unseen, Option.bind_none]
  others := fun tenant unseen => reclaims.others tenant fun seen => unseen (wider tenant seen)
  bounds_eq := reclaims.bounds_eq
  newest_eq := reclaims.newest_eq

end Reclaims

variable {keeper : Keeper} {opener : Key → Int32}

theorem reclaim_spec {tenant : String} {owner : TenantKeys} (range : Range Int32 PartitionKeys)
    (indexed : Indexed keeper.keys.domain opener keeper.tenants)
    (found : keeper.tenants.lookup tenant = some owner) :
    Reclaims opener (fun named => named = tenant) keeper (keeper.reclaim range owner).1 ∧
      Owned (keeper.reclaim range owner).1.keys.domain opener tenant
        (keeper.reclaim range owner).2 := by
  obtain ⟨store_owned, store_thins⟩ := @reclaimPartitions_thins keeper.newest _ _ keeper.queues
    (range.visit owner.partitions) (keeper.keys, owner) (indexed.owned tenant owner found)
  simp only [reclaim]
  set store := (range.visit owner.partitions).foldl
    (fun store partition => reclaimPartition keeper.newest partition store) (keeper.keys, owner)
  have before_eq : keeper.queues.replaced tenant owner = keeper.queues := by
    funext named partition
    rw [Queues.replaced]
    split
    · rename_i same
      rw [queues, same, found, Option.bind_some]
    · rfl
  rw [before_eq] at store_thins
  have elsewhere : ∀ key : Key, key.tenant ≠ tenant →
      (key ∈ store.1.domain ↔ key ∈ keeper.keys.domain) := fun key differs =>
    store_thins.mem_domain_iff fun seen => differs seen.1
  have empty_iff : store.2.held = 0 ↔ ¬ ∃ key ∈ store.1.domain, key.tenant = tenant := by
    rw [store_owned.counted.held_eq, Nat.cast_eq_zero, Finset.card_eq_zero, keysOf,
      Finset.filter_eq_empty_iff]
    push Not
    rfl
  set tenants := if store.2.held = 0 then keeper.tenants.erase store.2.tenant
    else keeper.tenants.insert store.2.tenant store.2
  have lookup_eq : ∀ named, tenants.lookup named =
      if named = tenant then if store.2.held = 0 then none else some store.2
      else keeper.tenants.lookup named := by
    intro named
    simp only [tenants, store_owned.tenant_eq]
    by_cases none_left : store.2.held = 0
    · simp only [none_left, if_true, FiniteMap.lookup_erase]
    · simp only [none_left, if_false, FiniteMap.lookup_insert]
  have after_eq : ({ keeper with keys := store.1, tenants } : Keeper).queues =
      keeper.queues.replaced tenant store.2 := by
    funext named partition
    rw [queues, Queues.replaced, lookup_eq]
    by_cases same : named = tenant
    · rw [if_pos same, if_pos same]
      by_cases none_left : store.2.held = 0
      · rw [if_pos none_left, Option.bind_none]
        refine (Option.eq_none_iff_forall_ne_some.mpr fun queue queue_eq => ?_).symm
        obtain ⟨key, key_mem, own, -⟩ := (store_owned.partition_iff partition).mp ⟨queue, queue_eq⟩
        exact empty_iff.mp none_left ⟨key, key_mem, own⟩
      · rw [if_neg none_left, Option.bind_some]
    · rw [if_neg same, if_neg same, queues]
  refine ⟨⟨⟨fun named => ?_, fun named named_owner named_eq => ?_⟩, ?_, fun named differs => ?_,
    rfl, rfl⟩, store_owned⟩
  · rw [lookup_eq]
    by_cases same : named = tenant
    · subst same
      by_cases none_left : store.2.held = 0
      · simpa [none_left] using empty_iff.mp none_left
      · simpa [none_left] using empty_iff.not_left.mp none_left
    · rw [if_neg same, indexed.tenant_iff named]
      refine exists_congr fun key => ⟨?_, ?_⟩
      · rintro ⟨key_mem, rfl⟩
        exact ⟨(elsewhere key same).mpr key_mem, rfl⟩
      · rintro ⟨key_mem, rfl⟩
        exact ⟨(elsewhere key same).mp key_mem, rfl⟩
  · rw [lookup_eq] at named_eq
    split at named_eq
    · rename_i same
      split at named_eq
      · cases named_eq
      · cases named_eq
        exact same ▸ store_owned
    · rename_i differs
      exact (indexed.owned named named_owner named_eq).congr
        (fun key own => elsewhere key (own ▸ differs)) fun _ _ => rfl
  · rw [after_eq]
    refine store_thins.widen (fun _ _ seen => seen.1) fun named partition same unseen => ?_
    have unvisited : partition ∉ range.visit owner.partitions := fun seen => unseen ⟨same, seen⟩
    rw [queues, same, found, Option.bind_some]
    rw [Range.mem_visit] at unvisited
    exact Option.eq_none_iff_forall_ne_some.mpr fun queue queue_eq => unvisited ⟨queue, queue_eq⟩
  · rw [lookup_eq, if_neg differs]

theorem reclaimTenant_reclaims (range : Range Int32 PartitionKeys) (tenant : String)
    (indexed : Indexed keeper.keys.domain opener keeper.tenants) :
    Reclaims opener (fun named => named = tenant) keeper (keeper.reclaimTenant range tenant) := by
  cases found : keeper.tenants.lookup tenant with
  | none =>
    simp only [reclaimTenant, found]
    refine (Reclaims.refl indexed).widen (fun _ => False.elim) fun named same _ => ?_
    rw [same, found]
  | some owner =>
    simp only [reclaimTenant, found]
    exact (reclaim_spec range indexed found).1

@[simp]
theorem reclaimTenant_swept (range : Range Int32 PartitionKeys) (keeper : Keeper)
    (tenant : String) : (keeper.reclaimTenant range tenant).swept = keeper.swept := by
  unfold reclaimTenant
  split <;> rfl

theorem reclaimTenants_reclaims (order : Order) (tenants : List String)
    (indexed : Indexed keeper.keys.domain opener keeper.tenants) :
    Reclaims opener (fun tenant => tenant ∈ tenants) keeper
      (tenants.foldl (fun keeper tenant => keeper.reclaimTenant (order.swept tenant) tenant)
        keeper) := by
  induction tenants generalizing keeper with
  | nil => simpa using Reclaims.refl indexed
  | cons first rest ih =>
    have head := reclaimTenant_reclaims (order.swept first) first indexed
    simpa only [List.mem_cons, List.foldl_cons] using head.trans (ih head.indexed)

theorem reclaimTenants_swept (order : Order) (tenants : List String) (keeper : Keeper) :
    (tenants.foldl (fun keeper tenant => keeper.reclaimTenant (order.swept tenant) tenant)
      keeper).swept = keeper.swept := by
  induction tenants generalizing keeper with
  | nil => rfl
  | cons first rest ih => rw [List.foldl_cons, ih, reclaimTenant_swept]

theorem sweep_spec (order : Order) (indexed : Indexed keeper.keys.domain opener keeper.tenants) :
    if Instant.sub keeper.newest keeper.swept < sweepEvery then
      keeper.sweep order = keeper
    else
      Reclaims opener (fun _ => True) keeper (keeper.sweep order) ∧
        (keeper.sweep order).swept = keeper.newest := by
  unfold sweep
  split
  · rfl
  · have indexed' : Indexed ({ keeper with swept := keeper.newest } : Keeper).keys.domain opener
        ({ keeper with swept := keeper.newest } : Keeper).tenants := indexed
    have visited := reclaimTenants_reclaims order (order.tenants.visit keeper.tenants) indexed'
    have all : Reclaims opener (fun _ => True) { keeper with swept := keeper.newest } _ :=
      visited.widen (fun _ _ => trivial) fun tenant _ unseen => by
        rw [Range.mem_visit] at unseen
        exact Option.eq_none_iff_forall_ne_some.mpr fun owner found => unseen ⟨owner, found⟩
    exact ⟨⟨all.indexed, all.thins, all.others, all.bounds_eq, all.newest_eq⟩,
      reclaimTenants_swept order _ _⟩

end Keeper
end Seagull.DetectionState
