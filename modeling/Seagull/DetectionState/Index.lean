import Seagull.DetectionState.Keeper

/-!
# The index of the keeper

The keys of a store are kept four times: in the map of their entries, in the counters of their
tenants and rules, in the queues of the partitions that opened them, and in their clocks.  `Indexed`
says that the four agree.
-/

namespace Seagull.DetectionState

/-- A queue files the keys one partition opened, each once, soonest first. -/
structure Filed (held : Finset Key) (opener : Key → Int32) (tenant : String) (partition : Int32)
    (expiring : List Expiry) : Prop where
  nodup : (expiring.map Expiry.entry).Nodup
  mem_iff : ∀ key, key ∈ expiring.map Expiry.entry ↔
    key ∈ held ∧ key.tenant = tenant ∧ opener key = partition
  ordered : BinaryHeap.Ordered Expiry.time expiring.length expiring

def keysOf (held : Finset Key) (tenant : String) : Finset Key :=
  held.filter fun key => key.tenant = tenant

def keysUnder (held : Finset Key) (tenant rule : String) : Finset Key :=
  held.filter fun key => key.tenant = tenant ∧ key.rule = rule

/-- The counters of a tenant's record count the keys the tenant holds. -/
structure Counted (held : Finset Key) (tenant : String) (owner : TenantKeys) : Prop where
  held_eq : owner.held = (keysOf held tenant).card
  /-- The counter of a rule is the number of its keys, and a rule without keys has none. -/
  rules : owner.rules.Counts fun rule => (keysUnder held tenant rule).card

/-- The record of a tenant counts and files the keys the tenant holds. -/
structure Owned (held : Finset Key) (opener : Key → Int32) (tenant : String)
    (owner : TenantKeys) : Prop where
  tenant_eq : owner.tenant = tenant
  counted : Counted held tenant owner
  partition_iff : ∀ partition, (∃ keys, owner.partitions.lookup partition = some keys) ↔
    ∃ key ∈ held, key.tenant = tenant ∧ opener key = partition
  filed : ∀ partition keys, owner.partitions.lookup partition = some keys →
    Filed held opener tenant partition keys.expiring

/-- The records of the tenants agree with the keys held. -/
structure Indexed (held : Finset Key) (opener : Key → Int32)
    (tenants : FiniteMap String TenantKeys) : Prop where
  tenant_iff : ∀ tenant, (∃ owner, tenants.lookup tenant = some owner) ↔
    ∃ key ∈ held, key.tenant = tenant
  owned : ∀ tenant owner, tenants.lookup tenant = some owner → Owned held opener tenant owner

variable {key : Key} {held : Finset Key}

private theorem card_filter_insert (holds : Key → Prop) [DecidablePred holds] (unheld : key ∉ held) :
    ((insert key held).filter holds).card =
      (held.filter holds).card + if holds key then 1 else 0 := by
  rw [Finset.filter_insert]
  split
  · rw [Finset.card_insert_of_notMem fun member => unheld (Finset.mem_of_mem_filter key member)]
  · rfl

theorem card_keysOf_insert (unheld : key ∉ held) :
    (keysOf (insert key held) key.tenant).card = (keysOf held key.tenant).card + 1 := by
  rw [keysOf, card_filter_insert _ unheld, if_pos rfl, keysOf]

theorem card_keysUnder_insert (unheld : key ∉ held) (rule : String) :
    (keysUnder (insert key held) key.tenant rule).card =
      if rule = key.rule then (keysUnder held key.tenant rule).card + 1
      else (keysUnder held key.tenant rule).card := by
  rw [keysUnder, card_filter_insert _ unheld, keysUnder]
  simp only [true_and, eq_comm (a := key.rule)]
  split <;> rfl

namespace Counted

variable {held : Finset Key} {owner : TenantKeys} {key : Key}

theorem new (held : Finset Key) (tenant : String) (none_held : keysOf held tenant = ∅) :
    Counted held tenant (TenantKeys.new tenant) := by
  refine ⟨by simp [TenantKeys.new, none_held], fun rule => ?_⟩
  have none_under : keysUnder held tenant rule = ∅ := by
    rw [keysUnder, ← Finset.filter_filter, ← keysOf, none_held, Finset.filter_empty]
  simp [TenantKeys.new, none_under]

theorem opened (counted : Counted held key.tenant owner) (unheld : key ∉ held) :
    Counted (insert key held) key.tenant (owner.opened key.rule) where
  held_eq := by
    rw [card_keysOf_insert unheld, TenantKeys.opened, counted.held_eq]
    push_cast
    rfl
  rules := counted.rules.increment (card_keysUnder_insert unheld)

theorem closed (counted : Counted held key.tenant owner) (member : key ∈ held) :
    Counted (held.erase key) key.tenant (owner.closed key.rule) := by
  have unheld := Finset.notMem_erase key held
  rw [← Finset.insert_erase member] at counted
  refine ⟨?_, counted.rules.decrement (card_keysUnder_insert unheld)⟩
  have counter := counted.held_eq
  rw [card_keysOf_insert unheld] at counter
  push_cast at counter
  exact sub_eq_iff_eq_add.mpr counter

theorem closed_all {tenant : String} {gone : List Key} (counted : Counted held tenant owner)
    (nodup : gone.Nodup) (member : ∀ key ∈ gone, key ∈ held ∧ key.tenant = tenant) :
    Counted (held \ gone.toFinset) tenant
      (gone.foldl (fun owner key => owner.closed key.rule) owner) := by
  induction gone generalizing held owner with
  | nil => simpa using counted
  | cons first rest ih =>
    rw [List.nodup_cons] at nodup
    obtain ⟨first_mem, rfl⟩ := member first List.mem_cons_self
    rw [List.foldl_cons, List.toFinset_cons, Finset.sdiff_insert, ← Finset.erase_sdiff_comm]
    refine ih (counted.closed first_mem) nodup.2 fun key key_mem => ?_
    obtain ⟨held_mem, same_tenant⟩ := member key (List.mem_cons_of_mem _ key_mem)
    exact ⟨Finset.mem_erase.mpr ⟨fun same => nodup.1 (same ▸ key_mem), held_mem⟩, same_tenant⟩

end Counted

theorem Owned.congr {held' : Finset Key} {opener opener' : Key → Int32} {tenant : String}
    {owner : TenantKeys} (owned : Owned held opener tenant owner)
    (same : ∀ key, key.tenant = tenant → (key ∈ held' ↔ key ∈ held))
    (same_opener : ∀ key, key.tenant = tenant → opener' key = opener key) :
    Owned held' opener' tenant owner := by
  have keysOf_eq : keysOf held' tenant = keysOf held tenant := by
    ext key
    simp only [keysOf, Finset.mem_filter]
    exact and_congr_left (same key)
  have keysUnder_eq : ∀ rule, keysUnder held' tenant rule = keysUnder held tenant rule := by
    intro rule
    rw [keysUnder, keysUnder, ← Finset.filter_filter, ← Finset.filter_filter, ← keysOf, ← keysOf,
      keysOf_eq]
  have opened_iff : ∀ key partition,
      (key ∈ held' ∧ key.tenant = tenant ∧ opener' key = partition) ↔
        (key ∈ held ∧ key.tenant = tenant ∧ opener key = partition) := by
    intro key partition
    by_cases own : key.tenant = tenant
    · rw [same key own, same_opener key own]
    · simp [own]
  refine ⟨owned.tenant_eq, ⟨keysOf_eq ▸ owned.counted.held_eq, ?_⟩, fun partition => ?_,
    fun partition queue found => ?_⟩
  · simpa only [keysUnder_eq] using owned.counted.rules
  · simpa only [opened_iff] using owned.partition_iff partition
  · obtain ⟨nodup, mem_iff, ordered⟩ := owned.filed partition queue found
    exact ⟨nodup, fun key => (mem_iff key).trans (opened_iff key partition).symm, ordered⟩

section Open

variable {held : Finset Key} {opener : Key → Int32} {key : Key} {partition : Int32}
  {owner : TenantKeys} {tenant : String}

theorem Filed.nil (none_opened : ¬ ∃ key ∈ held, key.tenant = tenant ∧ opener key = partition) :
    Filed held opener tenant partition [] := by
  refine ⟨List.nodup_nil, fun key => ?_, fun slot _ slot_lt => absurd slot_lt (Nat.not_lt_zero slot)⟩
  simp only [List.map_nil, List.not_mem_nil, false_iff]
  exact fun opened => none_opened ⟨key, opened⟩

theorem Filed.push {expiring : List Expiry} (time : ℤ)
    (filed : Filed held opener key.tenant partition expiring) (unheld : key ∉ held) :
    Filed (insert key held) (Function.update opener key partition) key.tenant partition
      (BinaryHeap.push Expiry.time expiring ⟨time, key⟩) := by
  have perm := (BinaryHeap.push_perm Expiry.time expiring ⟨time, key⟩).map Expiry.entry
  rw [List.map_cons] at perm
  refine ⟨?_, fun other => ?_, BinaryHeap.push_ordered Expiry.time _ filed.ordered⟩
  · rw [perm.nodup_iff, List.nodup_cons]
    exact ⟨fun member => unheld ((filed.mem_iff key).mp member).1, filed.nodup⟩
  · rw [perm.mem_iff, List.mem_cons, filed.mem_iff, Finset.mem_insert]
    by_cases same : other = key <;> simp [same]

theorem Owned.new (none_held : ¬ ∃ key ∈ held, key.tenant = tenant) :
    Owned held opener tenant (TenantKeys.new tenant) := by
  refine ⟨rfl, Counted.new held tenant ?_, fun partition => ?_, fun partition queue found => ?_⟩
  · rw [keysOf, Finset.filter_eq_empty_iff]
    exact fun key key_mem own => none_held ⟨key, key_mem, own⟩
  · simp only [TenantKeys.new, FiniteMap.lookup_empty, reduceCtorEq, exists_false, false_iff]
    rintro ⟨key, key_mem, own, -⟩
    exact none_held ⟨key, key_mem, own⟩
  · simp [TenantKeys.new] at found

theorem Owned.filed_getD (owned : Owned held opener tenant owner) (partition : Int32)
    {fresh : PartitionKeys} (empty : fresh.expiring = []) :
    Filed held opener tenant partition ((owner.partitions.lookup partition).getD fresh).expiring := by
  cases found : owner.partitions.lookup partition with
  | some queue => exact owned.filed partition queue found
  | none =>
    rw [Option.getD_none, empty]
    refine Filed.nil fun opened => ?_
    obtain ⟨queue, queue_eq⟩ := (owned.partition_iff partition).mpr opened
    rw [found] at queue_eq
    cases queue_eq

theorem Owned.opened (owned : Owned held opener key.tenant owner) (unheld : key ∉ held)
    {queue : PartitionKeys}
    (filed : Filed (insert key held) (Function.update opener key partition) key.tenant partition
      queue.expiring) :
    Owned (insert key held) (Function.update opener key partition) key.tenant
      { owner.opened key.rule with
        partitions := (owner.opened key.rule).partitions.insert partition queue } := by
  have counted := owned.counted.opened unheld
  have elsewhere : ∀ other : Int32, other ≠ partition → ∀ held_key,
      (held_key ∈ insert key held ∧ held_key.tenant = key.tenant ∧
        Function.update opener key partition held_key = other) ↔
      (held_key ∈ held ∧ held_key.tenant = key.tenant ∧ opener held_key = other) := by
    intro other differs held_key
    by_cases same : held_key = key
    · subst same
      simp [unheld, Ne.symm differs]
    · simp [same]
  refine ⟨owned.tenant_eq, ⟨counted.held_eq, counted.rules⟩, fun other => ?_,
    fun other other_queue other_eq => ?_⟩
  · simp only [TenantKeys.opened, FiniteMap.lookup_insert]
    by_cases same : other = partition
    · subst same
      simp only [if_true, Option.some.injEq, exists_eq', true_iff]
      exact ⟨key, Finset.mem_insert_self key held, rfl, Function.update_self ..⟩
    · rw [if_neg same, owned.partition_iff other]
      exact exists_congr fun held_key => (elsewhere other same held_key).symm
  · simp only [TenantKeys.opened, FiniteMap.lookup_insert] at other_eq
    split at other_eq
    · rename_i same
      cases other_eq
      exact same ▸ filed
    · rename_i differs
      obtain ⟨nodup, mem_iff, ordered⟩ := owned.filed other other_queue other_eq
      exact ⟨nodup, fun held_key => (mem_iff held_key).trans (elsewhere other differs held_key).symm,
        ordered⟩

end Open

end Seagull.DetectionState
