import Seagull.DetectionState.Reachable

/-!
# One tenant does not reach another

Tenants share the store's newest instant, its sweep clock and its count of keys.  While the store
has room for every new key and a tenant stays under its own quotas, none of them reaches the tenant:
its keys are those of the run in which nobody else called.
-/

namespace Seagull.DetectionState.Keeper

theorem Thins.lookup_eq {newest : ℤ} {opener : Key → Int32} {visited : String → Int32 → Prop}
    {keys keys' : FiniteMap Key Held} {queues queues' : Queues}
    (thins : Thins newest opener visited keys queues keys' queues') {key : Key}
    (unseen : ¬ visited key.tenant (opener key)) : keys'.lookup key = keys.lookup key := by
  cases after : keys'.lookup key with
  | some held => exact (thins.kept key held after).symm
  | none =>
    have lost := (thins.mem_domain_iff unseen).not.mp ((FiniteMap.notMem_domain _ _).mpr after)
    exact ((FiniteMap.notMem_domain _ _).mp lost).symm

def asksForKey (keeper : Keeper) (call : Call) : Prop :=
  call.refusal keeper.bounds = none ∧ keeper.keys.lookup call.key = none

/-- Whether a store, and the tenant asked about, have room for the key of a call. -/
def Unpressed (tenant : String) (keeper : Keeper) (call : Call) : Prop :=
  keeper.asksForKey call →
    (keeper.keys.size : ℤ) < keeper.bounds.keys ∧
      (call.key.tenant = tenant →
        ((keysOf keeper.keys.domain tenant).card : ℤ) < keeper.bounds.keysPerTenant ∧
          ((keysUnder keeper.keys.domain tenant call.key.rule).card : ℤ) <
            keeper.bounds.keysPerRule)

def UnpressedRun (tenant : String) : Keeper → List Call → Prop
  | _, [] => True
  | keeper, call :: calls =>
    Unpressed tenant keeper call ∧ UnpressedRun tenant (keeper.fold call).1 calls

def answersTo (tenant : String) : Keeper → List Call → List Answer
  | _, [] => []
  | keeper, call :: calls =>
    if call.key.tenant = tenant then
      (keeper.fold call).2 :: answersTo tenant (keeper.fold call).1 calls
    else
      answersTo tenant (keeper.fold call).1 calls

variable {keeper : Keeper} {call : Call}

theorem fold_of_refused {refusal : Refusal} (refuses : call.refusal keeper.bounds = some refusal) :
    keeper.fold call = (keeper, .refused refusal) := by
  simp only [fold, refuses]

theorem fold_of_held {entry : Held} (accepts : call.refusal keeper.bounds = none)
    (found : keeper.keys.lookup call.key = some entry) :
    keeper.fold call =
      ({ keeper.advance call.key.tenant call.seen with
          keys := keeper.keys.insert call.key (call.observe keeper.bounds entry).1 },
        answer call.read (call.observe keeper.bounds entry)) := by
  simp only [fold, accepts, advance_keys, found, advance_bounds]

theorem fold_of_room {opener : Key → Int32} (consistent : Consistent opener keeper)
    (accepts : call.refusal keeper.bounds = none) (unheld : keeper.keys.lookup call.key = none)
    (room : keeper.full = false)
    (under_quota : overQuota keeper.bounds keeper.keys.domain call.key = none) :
    keeper.fold call =
      ((keeper.advance call.key.tenant call.seen).openKey
          (call.observe keeper.bounds (Held.opening call.key)).1 call.seen,
        answer call.read (call.observe keeper.bounds (Held.opening call.key))) := by
  have advanced := consistent.advance call.key.tenant call.seen
  have advanced_room : (keeper.advance call.key.tenant call.seen).full = false := room
  have unmoved : (keeper.advance call.key.tenant call.seen).askOwner call.order call.key =
      keeper.advance call.key.tenant call.seen := by
    rw [askOwner, advance_bounds, advance_keys, under_quota, advanced_room]
    simp
  have admits : (keeper.advance call.key.tenant call.seen).admitKey call.order call.key =
      (keeper.advance call.key.tenant call.seen, none) := by
    rw [admit_eq call.order call.key advanced.accepted advanced.indexed, unmoved, advance_bounds,
      advance_keys, under_quota]
    simp [grant, makeRoom, advanced_room]
  simp only [fold, accepts, advance_keys, unheld, admits, advance_bounds]

/-- A store, and one only one tenant called, agree on the keys of the tenant. -/
structure Agree (tenant : String) (keeper alone : Keeper) : Prop where
  consistent : ∃ opener, Consistent opener keeper
  consistent_alone : ∃ opener, Consistent opener alone
  bounds_eq : alone.bounds = keeper.bounds
  lookup_eq : ∀ key, key.tenant = tenant → alone.keys.lookup key = keeper.keys.lookup key
  own : ∀ key ∈ alone.keys.domain, key.tenant = tenant

namespace Agree

variable {tenant : String} {keeper alone : Keeper} {call : Call}

section

variable (agree : Agree tenant keeper alone)

include agree

theorem mem_domain_iff (key : Key) :
    key ∈ alone.keys.domain ↔ key ∈ keeper.keys.domain ∧ key.tenant = tenant := by
  constructor
  · intro key_mem
    have own := agree.own key key_mem
    rw [FiniteMap.mem_domain, agree.lookup_eq key own, ← FiniteMap.mem_domain] at key_mem
    exact ⟨key_mem, own⟩
  · rintro ⟨key_mem, own⟩
    rwa [FiniteMap.mem_domain, agree.lookup_eq key own, ← FiniteMap.mem_domain]

theorem other (unpressed : Unpressed tenant keeper call)
    (differs : call.key.tenant ≠ tenant) : Agree tenant (keeper.fold call).1 alone := by
  obtain ⟨opener, consistent⟩ := agree.consistent
  have step := keeper.fold_step call
  have bounds_eq := fold_bounds consistent call
  have after_consistent := fold_consistent consistent call
  have spared : ∀ key, key.tenant = tenant →
      (keeper.fold call).1.keys.lookup key = keeper.keys.lookup key := by
    intro key own
    have key_ne : key ≠ call.key := fun same => differs (same ▸ own)
    cases stepped : keeper.fold call with
    | mk after given =>
      rw [stepped] at step
      have admitted_eq : ∀ {admitted refusal}, call.refusal keeper.bounds = none →
          keeper.keys.lookup call.key = none →
          (keeper.advance call.key.tenant call.seen).admitKey call.order call.key =
            (admitted, refusal) → admitted.keys.lookup key = keeper.keys.lookup key := by
        intro admitted refusal accepts unheld admits
        obtain ⟨scope, reclaims, own_scope⟩ := (consistent.admission admits).reclaims
        have room : keeper.full = false := by
          rw [full_eq_false_iff, FiniteMap.card_domain]
          exact (unpressed ⟨accepts, unheld⟩).1
        exact reclaims.thins.lookup_eq fun seen =>
          differs ((own_scope room key.tenant seen).1 ▸ own)
      cases step with
      | refused refusal refuses => rfl
      | folded entry accepts found =>
        exact (FiniteMap.lookup_insert _ _ _ _).trans (if_neg key_ne)
      | turnedAway admitted refusal accepts unheld admits =>
        exact admitted_eq accepts unheld admits
      | opened admitted accepts unheld admits =>
        have key_eq := ((consistent.admission admits).folds accepts).1.key_eq
        have elsewhere : key ≠ (call.observe admitted.bounds (Held.opening call.key)).1.key :=
          fun same => key_ne (same.trans key_eq)
        exact ((FiniteMap.lookup_insert _ _ _ _).trans (if_neg elsewhere)).trans
          (admitted_eq accepts unheld admits)
  exact ⟨⟨_, after_consistent⟩, agree.consistent_alone, agree.bounds_eq.trans bounds_eq.symm,
    fun key own => (agree.lookup_eq key own).trans (spared key own).symm, agree.own⟩

theorem unpressed_alone (own : call.key.tenant = tenant)
    (unpressed : Unpressed tenant keeper call) (asks : keeper.asksForKey call) :
    (keeper.full = false ∧ overQuota keeper.bounds keeper.keys.domain call.key = none) ∧
      alone.full = false ∧ overQuota alone.bounds alone.keys.domain call.key = none := by
  obtain ⟨room, quotas⟩ := unpressed asks
  have subset : alone.keys.domain ⊆ keeper.keys.domain := fun key key_mem =>
    ((agree.mem_domain_iff key).mp key_mem).1
  have under_quota : overQuota keeper.bounds keeper.keys.domain call.key = none := by
    rw [overQuota_eq_none_iff, own]
    exact quotas own
  refine ⟨⟨?_, under_quota⟩, ?_, ?_⟩
  · rwa [full_eq_false_iff, FiniteMap.card_domain]
  · have fewer := Finset.card_le_card subset
    rw [FiniteMap.card_domain keeper.keys] at fewer
    rw [full_eq_false_iff, agree.bounds_eq]
    omega
  · rw [agree.bounds_eq]
    exact overQuota_mono subset under_quota

theorem same (unpressed : Unpressed tenant keeper call)
    (own : call.key.tenant = tenant) :
    Agree tenant (keeper.fold call).1 (alone.fold call).1 ∧
      (keeper.fold call).2 = (alone.fold call).2 := by
  obtain ⟨opener, consistent⟩ := agree.consistent
  obtain ⟨opener', consistent_alone⟩ := agree.consistent_alone
  have after_bounds : (alone.fold call).1.bounds = (keeper.fold call).1.bounds := by
    rw [fold_bounds consistent, fold_bounds consistent_alone, agree.bounds_eq]
  suffices moves :
      (keeper.fold call).2 = (alone.fold call).2 ∧
        (∀ key, key.tenant = tenant →
          (alone.fold call).1.keys.lookup key = (keeper.fold call).1.keys.lookup key) ∧
        ∀ key ∈ (alone.fold call).1.keys.domain, key.tenant = tenant from
    ⟨⟨⟨_, fold_consistent consistent call⟩, ⟨_, fold_consistent consistent_alone call⟩,
      after_bounds, moves.2.1, moves.2.2⟩, moves.1⟩
  have inserted : ∀ entry : Held,
      (∀ key, key.tenant = tenant →
        (alone.keys.insert call.key entry).lookup key =
          (keeper.keys.insert call.key entry).lookup key) ∧
      ∀ key ∈ (alone.keys.insert call.key entry).domain, key.tenant = tenant := by
    intro entry
    refine ⟨fun key key_own => ?_, fun key key_mem => ?_⟩
    · rw [FiniteMap.lookup_insert, FiniteMap.lookup_insert, agree.lookup_eq key key_own]
    · rw [FiniteMap.domain_insert, Finset.mem_insert] at key_mem
      rcases key_mem with rfl | before
      · exact own
      · exact agree.own key before
  cases refuses : call.refusal keeper.bounds with
  | some refusal =>
    rw [fold_of_refused refuses, fold_of_refused (agree.bounds_eq.symm ▸ refuses)]
    exact ⟨rfl, agree.lookup_eq, agree.own⟩
  | none =>
    have refuses_alone : call.refusal alone.bounds = none := agree.bounds_eq.symm ▸ refuses
    cases found : keeper.keys.lookup call.key with
    | some entry =>
      have found_alone := (agree.lookup_eq call.key own).trans found
      rw [fold_of_held refuses found, fold_of_held refuses_alone found_alone, agree.bounds_eq]
      exact ⟨rfl, inserted _⟩
    | none =>
      have found_alone := (agree.lookup_eq call.key own).trans found
      obtain ⟨⟨room, under_quota⟩, room_alone, under_quota_alone⟩ :=
        agree.unpressed_alone own unpressed ⟨refuses, found⟩
      rw [fold_of_room consistent refuses found room under_quota,
        fold_of_room consistent_alone refuses_alone found_alone room_alone under_quota_alone,
        agree.bounds_eq]
      have key_eq := (observe_kept consistent.accepted refuses
        (Held.Sound.opening call.key) (Nat.zero_le _)).2.key_eq
      refine ⟨rfl, ?_⟩
      simp only [openKey_keys, key_eq]
      exact inserted _

theorem answers {calls : List Call}
    (unpressed : UnpressedRun tenant keeper calls) :
    keeper.answersTo tenant calls =
      alone.answersTo tenant (calls.filter fun call => call.key.tenant = tenant) := by
  induction calls generalizing keeper alone with
  | nil => rfl
  | cons call calls ih =>
    obtain ⟨call_unpressed, calls_unpressed⟩ := unpressed
    by_cases own : call.key.tenant = tenant
    · obtain ⟨after, answer_eq⟩ := agree.same call_unpressed own
      rw [List.filter_cons_of_pos (by simpa using own), answersTo, answersTo, if_pos own,
        if_pos own, answer_eq, ih after calls_unpressed]
    · rw [List.filter_cons_of_neg (by simpa using own), answersTo, if_neg own]
      exact ih (agree.other call_unpressed own) calls_unpressed

end

end Agree

/-- While the store has room for every new key and a tenant stays under its quotas, the tenant is
answered as if it were alone. -/
theorem tenant_noninterference {bounds : Bounds} {start : Keeper}
    (made : Keeper.new bounds = .ok start) (tenant : String) {calls : List Call}
    (unpressed : UnpressedRun tenant start calls) :
    start.answersTo tenant calls =
      start.answersTo tenant (calls.filter fun call => call.key.tenant = tenant) := by
  obtain ⟨accepted, rfl⟩ := new_eq_ok made
  have agree : Agree tenant (Keeper.empty bounds) (Keeper.empty bounds) :=
    ⟨⟨fun _ => 0, .empty accepted⟩, ⟨fun _ => 0, .empty accepted⟩, rfl, fun _ _ => rfl,
      fun key key_mem => by cases key_mem⟩
  exact agree.answers unpressed

theorem tenant_noninterference_two_tenants :
    (Keeper.empty .small).answersTo "right" Call.twoTenants =
      (Keeper.empty .small).answersTo "right"
        (Call.twoTenants.filter fun call => call.key.tenant = "right") :=
  @tenant_noninterference .small _ rfl "right" _
    ⟨fun _ => ⟨by decide, by decide⟩,
      fun _ => ⟨by decide, fun _ => ⟨by decide, by decide⟩⟩, trivial⟩

end Seagull.DetectionState.Keeper
