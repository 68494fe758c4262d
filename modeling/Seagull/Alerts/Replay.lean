import Seagull.Alerts.Bookkeeping

/-!
# Recording a batch again

A candidate that was raised or folded left a row behind and moves nothing the second time.  One that
was held back left none: it is decided again, and is held back again unless a later candidate of its
key raised an alert.
-/

namespace Seagull.Alerts

open Contract

namespace AlertStore

/-- No alert of a candidate's tenant and key is open. -/
def NoneOpen (store : AlertStore) (candidate : Candidate) : Prop :=
  ∀ alert, store.alerts.lookup alert.alertId = some alert →
    alert.tenantId = candidate.alert.tenantId → alert.correlationKey = candidate.key →
    AlertState.closed alert.state = true

variable {store : AlertStore} {candidate : Candidate}

theorem openAlert_eq_none_iff {newest : Newest} :
    store.openAlert newest candidate = none ↔ store.NoneOpen candidate := by
  rw [openAlert, newest.pick_none, List.filter_eq_nil_iff]
  simp only [keyed, List.mem_filter, Table.mem_rows, decide_eq_true_eq, Bool.not_eq_true',
    Bool.not_eq_false]
  constructor
  · exact fun all_closed alert held tenant_eq key_eq => all_closed alert ⟨held, tenant_eq, key_eq⟩
  · rintro none_open alert ⟨held, tenant_eq, key_eq⟩
    exact none_open alert held tenant_eq key_eq

theorem coolingDown_iff :
    store.coolingDown candidate = true ↔ ∃ alert closure,
      store.alerts.lookup alert.alertId = some alert ∧
      alert.tenantId = candidate.alert.tenantId ∧ alert.correlationKey = candidate.key ∧
      AlertState.closed alert.state = true ∧ alert.closure = some closure ∧
      candidate.instant < closure.closedAt + candidate.cooldown := by
  have member : ∀ instant, instant ∈ ((store.keyed candidate.alert.tenantId candidate.key).filter
      fun alert => AlertState.closed alert.state).filterMap
        (fun alert => alert.closure.map Closure.closedAt) ↔
      ∃ alert closure, store.alerts.lookup alert.alertId = some alert ∧
        alert.tenantId = candidate.alert.tenantId ∧ alert.correlationKey = candidate.key ∧
        AlertState.closed alert.state = true ∧ alert.closure = some closure ∧
        closure.closedAt = instant := by
    intro instant
    simp only [List.mem_filterMap, List.mem_filter, keyed, Table.mem_rows, decide_eq_true_eq,
      Option.map_eq_some_iff, and_assoc, exists_and_left]
  rw [coolingDown, Option.any_eq_true]
  constructor
  · rintro ⟨instant, latest, soon⟩
    obtain ⟨alert, closure, held, tenant_eq, key_eq, closed, closure_eq, rfl⟩ :=
      (member instant).mp (List.max?_mem latest)
    exact ⟨alert, closure, held, tenant_eq, key_eq, closed, closure_eq, of_decide_eq_true soon⟩
  · rintro ⟨alert, closure, held, tenant_eq, key_eq, closed, closure_eq, soon⟩
    have among := (member closure.closedAt).mpr
      ⟨alert, closure, held, tenant_eq, key_eq, closed, closure_eq, rfl⟩
    obtain ⟨latest, latest_eq⟩ := Option.isSome_iff_exists.mp
      (List.isSome_max?_of_mem among)
    have bound := (List.max?_eq_some_iff.mp latest_eq).2 _ among
    exact ⟨latest, latest_eq, decide_eq_true (by omega)⟩

/-- Two stores hold the same closed alerts. -/
def SameClosed (before after : AlertStore) : Prop :=
  ∀ alert, AlertState.closed alert.state = true →
    (after.alerts.lookup alert.alertId = some alert ↔
      before.alerts.lookup alert.alertId = some alert)

theorem SameClosed.coolingDown {before after : AlertStore} (same : SameClosed before after)
    (candidate : Candidate) : after.coolingDown candidate = before.coolingDown candidate := by
  rw [Bool.eq_iff_iff, coolingDown_iff, coolingDown_iff]
  constructor
  · rintro ⟨alert, closure, held, tenant_eq, key_eq, closed, rest⟩
    exact ⟨alert, closure, (same alert closed).mp held, tenant_eq, key_eq, closed, rest⟩
  · rintro ⟨alert, closure, held, tenant_eq, key_eq, closed, rest⟩
    exact ⟨alert, closure, (same alert closed).mpr held, tenant_eq, key_eq, closed, rest⟩

theorem SameClosed.of_put {before after : AlertStore} {written : Alert}
    (put : after.alerts = before.alerts.put written)
    (written_open : AlertState.closed written.state = false)
    (held_open : ∀ held, before.alerts.lookup written.alertId = some held →
      AlertState.closed held.state = false) : SameClosed before after := by
  intro alert closed
  rw [put, Table.lookup_put]
  split
  · rename_i same
    constructor
    · rintro ⟨⟩
      rw [written_open] at closed
      cases closed
    · intro held
      rw [held_open alert (same ▸ held)] at closed
      cases closed
  · rfl

theorem record_alerts (newest : Newest) (store : AlertStore) (candidate : Candidate) :
    (store.record newest candidate).1.alerts = store.alerts ∧
        (store.alreadyFolded candidate.detectionId = true ∨ store.heldBack newest candidate ∨
          (store.alerts.lookup candidate.detectionId).isSome) ∨
      ∃ written : Alert, (store.record newest candidate).1.alerts = store.alerts.put written ∧
        written.tenantId = candidate.alert.tenantId ∧ written.correlationKey = candidate.key ∧
        AlertState.closed written.state = false ∧
        ((∃ alert, store.openAlert newest candidate = some alert ∧
            written.alertId = alert.alertId) ∨
          store.alerts.lookup candidate.detectionId = none ∧
            written.alertId = candidate.detectionId ∧
            store.alreadyFolded candidate.detectionId = false ∧
            ¬ store.heldBack newest candidate) := by
  rcases store.record_cases newest candidate with
    ⟨already, recorded⟩ | ⟨fresh, alert, found, -, recorded⟩ | ⟨back, recorded⟩ |
      ⟨fresh, -, not_back, recorded⟩
  · exact .inl ⟨by rw [recorded], .inl already⟩
  · obtain ⟨-, tenant_eq, key_eq, still_open⟩ := mem_openAlert found
    have unfolded : (store.foldInto alert candidate).alreadyFolded candidate.detectionId = false :=
      fresh
    rw [recorded, fold_of_new unfolded]
    exact .inr ⟨_, rfl, tenant_eq, key_eq, still_open, .inl ⟨alert, found, rfl⟩⟩
  · exact .inl ⟨by rw [recorded], .inr (.inl back)⟩
  · rw [recorded, raise, fold_of_new (by simpa [alreadyFolded] using fresh)]
    change (insertTransition _ _).alerts = _ ∧ _ ∨ ∃ written, (insertTransition _ _).alerts = _ ∧ _
    simp only [insertTransition_alerts, insertAlert, candidate.named]
    split
    · rename_i held
      exact .inl ⟨rfl, .inr (.inr held)⟩
    · rename_i unheld
      exact .inr ⟨_, rfl, rfl, rfl, by simp [stored, AlertState.closed, candidate.isOpen.1],
        .inr ⟨by simpa using unheld, rfl, fresh, not_back⟩⟩

theorem record_sameClosed (newest : Newest) (store : AlertStore) (candidate : Candidate) :
    SameClosed store (store.record newest candidate).1 := by
  rcases store.record_alerts newest candidate with
    ⟨same, -⟩ | ⟨written, put, -, -, written_open, ⟨alert, found, id_eq⟩ | ⟨unheld, id_eq, -⟩⟩
  · intro alert _
    rw [same]
  · obtain ⟨held, -, -, still_open⟩ := mem_openAlert found
    refine .of_put put written_open fun other other_held => ?_
    rw [id_eq, held, Option.some.injEq] at other_held
    exact other_held ▸ still_open
  · refine .of_put put written_open fun other other_held => ?_
    rw [id_eq, unheld] at other_held
    cases other_held

/-- A candidate is settled: it is part of an alert, or it is cooling down. -/
def Settled (store : AlertStore) (candidate : Candidate) : Prop :=
  store.alreadyFolded candidate.detectionId = true ∨
    0 < candidate.cooldown ∧ store.coolingDown candidate = true

section

variable (newest : Newest)

include newest

theorem record_folds (store : AlertStore) (candidate : Candidate) :
    (store.record newest candidate).1 = store ∧
        (store.alreadyFolded candidate.detectionId = true ∨ store.heldBack newest candidate) ∨
      store.alreadyFolded candidate.detectionId = false ∧ ¬ store.heldBack newest candidate ∧
        (store.record newest candidate).1.alreadyFolded candidate.detectionId = true ∧
        store.occurrences.length < (store.record newest candidate).1.occurrences.length := by
  rcases store.record_cases newest candidate with
    ⟨already, recorded⟩ | ⟨fresh, alert, found, -, recorded⟩ | ⟨back, recorded⟩ |
      ⟨fresh, -, not_back, recorded⟩
  · exact .inl ⟨by rw [recorded], .inl already⟩
  · have unfolded : (store.foldInto alert candidate).alreadyFolded candidate.detectionId = false :=
      fresh
    refine .inr ⟨fresh, fun back => ?_, ?_, ?_⟩
    · rw [back.2.1] at found
      cases found
    · simp [recorded, fold_of_new unfolded, alreadyFolded]
    · rw [recorded, fold_of_new unfolded]
      simp [foldInto]
  · exact .inl ⟨by rw [recorded], .inr back⟩
  · refine .inr ⟨fresh, not_back, ?_, ?_⟩
    · simp [recorded, alreadyFolded, raise_occurrences fresh]
    · simp [recorded, raise_occurrences fresh]

theorem record_settled (store : AlertStore) (candidate : Candidate) :
    (store.record newest candidate).1.Settled candidate := by
  rcases store.record_folds newest candidate with ⟨same, already | back⟩ | ⟨-, -, folded, -⟩
  · rw [same]
    exact .inl already
  · rw [same]
    exact .inr back.2.2
  · exact .inl folded

theorem Settled.record (settled : store.Settled candidate) (other : Candidate) :
    (store.record newest other).1.Settled candidate := by
  rcases settled with already | ⟨cools, cooling⟩
  · rcases store.record_occurrences newest other with same | ⟨-, into, appended⟩
    · rw [same]
      exact .inl already
    · rw [Settled, alreadyFolded_append appended, already]
      exact .inl rfl
  · exact .inr ⟨cools, (store.record_sameClosed newest other).coolingDown candidate ▸ cooling⟩

theorem Settled.recordAll (settled : store.Settled candidate)
    (candidates : List Candidate) : (store.recordAll newest candidates).1.Settled candidate := by
  induction candidates generalizing store with
  | nil => exact settled
  | cons other candidates ih => exact ih (settled.record newest other)

theorem recordAll_settled (store : AlertStore) (candidates : List Candidate) :
    ∀ candidate ∈ candidates, (store.recordAll newest candidates).1.Settled candidate := by
  induction candidates generalizing store with
  | nil => exact fun _ member => nomatch member
  | cons first candidates ih =>
    intro candidate member
    rcases List.mem_cons.mp member with rfl | later
    · exact (store.record_settled newest candidate).recordAll newest candidates
    · exact ih (store.record newest first).1 candidate later

theorem length_le_recordAll (store : AlertStore) (candidates : List Candidate) :
    store.occurrences.length ≤ (store.recordAll newest candidates).1.occurrences.length := by
  induction candidates generalizing store with
  | nil => exact le_rfl
  | cons candidate candidates ih =>
    refine le_trans ?_ (ih (store.record newest candidate).1)
    rcases store.record_folds newest candidate with ⟨same, -⟩ | ⟨-, -, -, more⟩
    · rw [same]
    · exact more.le

end

theorem record_eq_self_iff {newest : Newest} {store : AlertStore} {candidate : Candidate}
    (settled : store.Settled candidate) :
    (store.record newest candidate).1 = store ↔
      store.alreadyFolded candidate.detectionId = true ∨ store.NoneOpen candidate := by
  rcases store.record_folds newest candidate with
    ⟨same, already | back⟩ | ⟨fresh, not_back, -, more⟩
  · exact iff_of_true same (.inl already)
  · exact iff_of_true same (.inr (openAlert_eq_none_iff.mp back.2.1))
  · refine iff_of_false (fun same => ?_) ?_
    · rw [same] at more
      exact lt_irrefl _ more
    · rintro (already | none_open)
      · rw [fresh] at already
        cases already
      · rcases settled with already | cooling
        · rw [fresh] at already
          cases already
        · exact not_back ⟨fresh, openAlert_eq_none_iff.mpr none_open, cooling⟩

theorem recordAll_eq_self_iff {newest : Newest} {candidates : List Candidate}
    (settled : ∀ candidate ∈ candidates, store.Settled candidate) :
    (store.recordAll newest candidates).1 = store ↔
      ∀ candidate ∈ candidates,
        store.alreadyFolded candidate.detectionId = true ∨ store.NoneOpen candidate := by
  induction candidates with
  | nil => exact iff_of_true rfl fun _ member => nomatch member
  | cons candidate candidates ih =>
    have one := @record_eq_self_iff newest _ _ (settled candidate List.mem_cons_self)
    have rest := ih fun other member => settled other (List.mem_cons_of_mem _ member)
    rw [List.forall_mem_cons]
    change (((store.record newest candidate).1).recordAll newest candidates).1 = store ↔ _
    rcases store.record_folds newest candidate with ⟨same, -⟩ | ⟨-, -, -, more⟩
    · rw [same, rest]
      exact ⟨fun all => ⟨one.mp same, all⟩, And.right⟩
    · -- An occurrence that was added is never lost, so the batch does not end where it began.
      have kept := length_le_recordAll newest (store.record newest candidate).1 candidates
      refine iff_of_false (fun back => ?_) fun all => ?_
      · rw [back] at kept
        omega
      · rw [one.mpr all.1] at more
        exact lt_irrefl _ more

/-- Candidates of one tenant and key. -/
def SameKey (one other : Candidate) : Prop :=
  one.alert.tenantId = other.alert.tenantId ∧ one.key = other.key

/-- A candidate comes within its cooldown of a closed alert of its key. -/
def Cools (store : AlertStore) (candidate : Candidate) : Prop :=
  0 < candidate.cooldown ∧ store.coolingDown candidate = true

/-- A candidate that raises an alert if its key has none open. -/
def Opens (store : AlertStore) (candidate : Candidate) : Prop :=
  store.alreadyFolded candidate.detectionId = false ∧ ¬ store.Cools candidate ∧
    store.alerts.lookup candidate.detectionId = none

/-- A new candidate the cooldown holds back while its key has no open alert, followed by the first
of its tenant and key that raises. -/
structure LeftBehind (store : AlertStore) (batch : List Candidate) (held : Candidate) : Prop where
  fresh : store.alreadyFolded held.detectionId = false
  cools : store.Cools held
  noneOpen : store.NoneOpen held
  followed : ∃ earlier opener later, batch = earlier ++ opener :: later ∧ held ∈ earlier ∧
    held ∉ later ∧ SameKey opener held ∧ store.Opens opener ∧
    ∀ other ∈ earlier, SameKey other held → ¬ store.Opens other

/-- What recording leaves of a store: its closed alerts, what is folded and what is held. -/
structure Grows (before after : AlertStore) : Prop where
  closed : SameClosed before after
  folded : ∀ id, after.alreadyFolded id = false → before.alreadyFolded id = false
  kept : ∀ id, after.alerts.lookup id = none → before.alerts.lookup id = none

theorem Grows.refl (store : AlertStore) : Grows store store :=
  ⟨fun _ _ => Iff.rfl, fun _ => id, fun _ => id⟩

theorem Grows.cools {before after : AlertStore} (grows : Grows before after)
    (candidate : Candidate) : after.Cools candidate ↔ before.Cools candidate := by
  rw [Cools, Cools, grows.closed.coolingDown]

section

variable {newest : Newest} {start : AlertStore} {batch : List Candidate}

theorem recordAll_append (earlier later : List Candidate) :
    (store.recordAll newest (earlier ++ later)).1 =
      ((store.recordAll newest earlier).1.recordAll newest later).1 := by
  induction earlier generalizing store with
  | nil => rfl
  | cons other earlier ih => exact ih

theorem recordAll_keeps (Keeps : AlertStore → Prop) (holds : Keeps store)
    (step : ∀ store, ∀ other ∈ batch, Keeps store → Keeps (store.record newest other).1) :
    Keeps (store.recordAll newest batch).1 := by
  induction batch generalizing store with
  | nil => exact holds
  | cons other batch ih =>
    exact ih (step store other List.mem_cons_self holds) fun next later member =>
      step next later (List.mem_cons_of_mem _ member)

theorem Grows.record (grows : Grows start store) (other : Candidate) :
    Grows start (store.record newest other).1 := by
  refine ⟨fun alert closed => (store.record_sameClosed newest other alert closed).trans
    (grows.closed alert closed), fun id unfolded => grows.folded id ?_,
    fun id unheld => grows.kept id ?_⟩
  · rcases store.record_occurrences newest other with same | ⟨-, into, appended⟩
    · rwa [same] at unfolded
    · rw [alreadyFolded_append appended, Bool.or_eq_false_iff] at unfolded
      exact unfolded.1
  · rcases store.record_alerts newest other with ⟨same, -⟩ | ⟨written, put, -⟩
    · rwa [same] at unheld
    · rw [put, Table.lookup_put] at unheld
      split at unheld
      · cases unheld
      · exact unheld

theorem recordAll_grows (store : AlertStore) (batch : List Candidate) :
    Grows store (store.recordAll newest batch).1 :=
  recordAll_keeps (Grows store) (.refl store) fun _ other _ grows => grows.record other

theorem record_keeps_open (is_open : ¬ store.NoneOpen candidate) (other : Candidate) :
    ¬ (store.record newest other).1.NoneOpen candidate := by
  intro none_open
  rcases store.record_alerts newest other with
    ⟨same, -⟩ | ⟨written, put, tenant_eq, key_eq, written_open, wrote⟩
  · exact is_open (by rwa [NoneOpen, same] at none_open)
  · refine is_open fun alert held alert_tenant alert_key => ?_
    by_cases replaced : alert.alertId = written.alertId
    · rcases wrote with ⟨found, found_open, id_eq⟩ | ⟨unheld, id_eq, -⟩
      · -- The alert is written once more, open and under its key.
        obtain ⟨found_held, found_tenant, found_key, -⟩ := mem_openAlert found_open
        rw [replaced, id_eq, found_held, Option.some.injEq] at held
        subst held
        have closed := none_open written (by rw [put, Table.lookup_put, if_pos rfl])
          (tenant_eq.trans (found_tenant.symm.trans alert_tenant))
          (key_eq.trans (found_key.symm.trans alert_key))
        rw [written_open] at closed
        cases closed
      · rw [replaced, id_eq, unheld] at held
        cases held
    · exact none_open alert (by rwa [put, Table.lookup_put, if_neg replaced]) alert_tenant alert_key

theorem recordAll_keeps_open (is_open : ¬ store.NoneOpen candidate) :
    ¬ (store.recordAll newest batch).1.NoneOpen candidate :=
  recordAll_keeps (¬ NoneOpen · candidate) is_open fun _ other _ still_open =>
    record_keeps_open still_open other

theorem record_noneOpen (grows : Grows start store) (none_open : store.NoneOpen candidate)
    {other : Candidate} (not_opens : SameKey other candidate → ¬ start.Opens other) :
    (store.record newest other).1.NoneOpen candidate := by
  rcases store.record_alerts newest other with ⟨same, -⟩ | ⟨written, put, tenant_eq, key_eq, -, wrote⟩
  · rwa [NoneOpen, same]
  · intro alert held alert_tenant alert_key
    rw [put, Table.lookup_put] at held
    split at held
    · obtain rfl := Option.some.inj held
      have same : SameKey other candidate :=
        ⟨tenant_eq.symm.trans alert_tenant, key_eq.symm.trans alert_key⟩
      have closed : store.openAlert newest other = none := by
        rw [openAlert_eq_none_iff, NoneOpen, same.1, same.2]
        exact none_open
      rcases wrote with ⟨found, found_open, -⟩ | ⟨unheld, -, fresh, not_back⟩
      · rw [closed] at found_open
        cases found_open
      · exact absurd ⟨grows.folded _ fresh,
          fun cools => not_back ⟨fresh, closed, (grows.cools other).mpr cools⟩,
          grows.kept _ unheld⟩ (not_opens same)
    · exact none_open alert held alert_tenant alert_key

theorem record_untouched {other : Candidate} (differ : other.detectionId ≠ candidate.detectionId)
    (unfolded : store.alreadyFolded candidate.detectionId = false) :
    (store.record newest other).1.alreadyFolded candidate.detectionId = false ∧
      (store.alerts.lookup candidate.detectionId = none →
        (store.record newest other).1.alerts.lookup candidate.detectionId = none) := by
  refine ⟨?_, fun unheld => ?_⟩
  · rcases store.record_occurrences newest other with same | ⟨-, into, appended⟩
    · rwa [same]
    · simp [alreadyFolded_append appended, differ, unfolded]
  · rcases store.record_alerts newest other with ⟨same, -⟩ | ⟨written, put, -, -, -, wrote⟩
    · rwa [same]
    · rw [put, Table.lookup_put, if_neg, unheld]
      intro same_id
      rcases wrote with ⟨found, found_open, id_eq⟩ | ⟨-, id_eq, -⟩
      · rw [same_id, id_eq, (mem_openAlert found_open).1] at unheld
        cases unheld
      · exact differ (id_eq.symm.trans same_id.symm)

theorem heldBack_of_unfolded {earlier later : List Candidate}
    (unfolded : (start.recordAll newest (earlier ++ candidate :: later)).1.alreadyFolded
      candidate.detectionId = false) :
    (start.recordAll newest earlier).1.heldBack newest candidate := by
  rw [recordAll_append] at unfolded
  have next := (recordAll_grows ((start.recordAll newest earlier).1.record newest candidate).1
    later).folded _ unfolded
  rcases record_folds newest (start.recordAll newest earlier).1 candidate with
    ⟨same, already | back⟩ | ⟨-, -, folded, -⟩
  · rw [same, already] at next
    cases next
  · exact back
  · rw [folded] at next
    cases next

variable (one : ∀ other ∈ batch, ∀ another ∈ batch, other.detectionId = another.detectionId →
  other = another)

include one

theorem opens_first {opener : Candidate} {earlier later : List Candidate}
    (batch_eq : batch = earlier ++ opener :: later) (same : SameKey opener candidate)
    (opens : start.Opens opener)
    (quiet : ∀ other ∈ earlier, SameKey other candidate → ¬ start.Opens other) :
    ¬ ((start.recordAll newest earlier).1.record newest opener).1.NoneOpen candidate := by
  subst batch_eq
  have first : ∀ other ∈ earlier, other.detectionId ≠ opener.detectionId := by
    intro other other_mem same_id
    obtain rfl := one other (List.mem_append_left _ other_mem) opener (by simp) same_id
    exact quiet other other_mem same opens
  obtain ⟨grows, fresh, unheld⟩ : Grows start (start.recordAll newest earlier).1 ∧
      (start.recordAll newest earlier).1.alreadyFolded opener.detectionId = false ∧
      (start.recordAll newest earlier).1.alerts.lookup opener.detectionId = none := by
    refine recordAll_keeps (fun store => Grows start store ∧
      store.alreadyFolded opener.detectionId = false ∧
      store.alerts.lookup opener.detectionId = none) ⟨.refl start, opens.1, opens.2.2⟩
      fun store other member kept => ?_
    obtain ⟨unfolded, unheld⟩ := record_untouched (first other member) kept.2.1
    exact ⟨kept.1.record other, unfolded, unheld kept.2.2⟩
  rcases record_alerts newest _ opener with
    ⟨-, already | back | held⟩ | ⟨written, put, tenant_eq, key_eq, written_open, -⟩
  · rw [fresh] at already
    cases already
  · exact absurd ((grows.cools opener).mp back.2.2) opens.2.1
  · rw [unheld] at held
    cases held
  · intro none_open
    have closed := none_open written (by rw [put, Table.lookup_put, if_pos rfl])
      (tenant_eq.trans same.1) (key_eq.trans same.2)
    rw [written_open] at closed
    cases closed

theorem LeftBehind.unfolded (left : start.LeftBehind batch candidate) :
    (start.recordAll newest batch).1.alreadyFolded candidate.detectionId = false ∧
      ¬ (start.recordAll newest batch).1.NoneOpen candidate := by
  obtain ⟨earlier, opener, later, rfl, before, not_after, same, opens, quiet⟩ := left.followed
  have member := List.mem_append_left (opener :: later) before
  have differs : opener.detectionId ≠ candidate.detectionId := fun same_id => opens.2.1
    (one opener (by simp) candidate member same_id ▸ left.cools)
  obtain ⟨-, -, held⟩ : Grows start (start.recordAll newest earlier).1 ∧
      (start.recordAll newest earlier).1.NoneOpen candidate ∧
      (start.recordAll newest earlier).1.alreadyFolded candidate.detectionId = false := by
    refine recordAll_keeps (fun store => Grows start store ∧ store.NoneOpen candidate ∧
      store.alreadyFolded candidate.detectionId = false) ⟨.refl start, left.noneOpen, left.fresh⟩ ?_
    rintro store other other_mem ⟨grows, none_open, unfolded⟩
    refine ⟨grows.record other, record_noneOpen grows none_open (quiet other other_mem), ?_⟩
    by_cases same_id : other.detectionId = candidate.detectionId
    · obtain rfl := one other (List.mem_append_left _ other_mem) candidate member same_id
      rcases record_folds newest store other with ⟨kept, -⟩ | ⟨-, not_back, -⟩
      · rwa [kept]
      · exact absurd ⟨unfolded, openAlert_eq_none_iff.mpr none_open,
          (grows.cools other).mpr left.cools⟩ not_back
    · exact (record_untouched same_id unfolded).1
  rw [recordAll_append]
  change ((record newest _ opener).1.recordAll newest later).1.alreadyFolded _ = false ∧
    ¬ ((record newest _ opener).1.recordAll newest later).1.NoneOpen candidate
  constructor
  · refine recordAll_keeps (fun store => store.alreadyFolded candidate.detectionId = false)
      (record_untouched differs held).1 fun store other other_mem unfolded =>
        (record_untouched (fun same_id => not_after ?_) unfolded).1
    exact one other (by simp [other_mem]) candidate member same_id ▸ other_mem
  · exact recordAll_keeps_open (opens_first one rfl same opens quiet)

open Classical in
theorem leftBehind_of_unfolded (member : candidate ∈ batch)
    (unfolded : (start.recordAll newest batch).1.alreadyFolded candidate.detectionId = false)
    (is_open : ¬ (start.recordAll newest batch).1.NoneOpen candidate) :
    start.LeftBehind batch candidate := by
  obtain ⟨before, after, batch_eq⟩ := List.append_of_mem member
  have back := heldBack_of_unfolded (batch_eq ▸ unfolded)
  have cools := ((recordAll_grows start before).cools candidate).mp back.2.2
  have none_open : start.NoneOpen candidate := by
    by_contra was_open
    exact recordAll_keeps_open was_open (openAlert_eq_none_iff.mp back.2.1)
  -- The batch is cut at the first of its candidates that opens the key.
  obtain ⟨opener, first⟩ : ∃ opener, batch.find?
      (fun other => decide (SameKey other candidate ∧ start.Opens other)) = some opener := by
    by_contra no_opener
    refine is_open (recordAll_keeps (fun store => Grows start store ∧ store.NoneOpen candidate)
      ⟨.refl start, none_open⟩ fun store other other_mem kept => ⟨kept.1.record other,
        record_noneOpen kept.1 kept.2 fun same opens => no_opener ?_⟩).2
    exact Option.isSome_iff_exists.mp
      (List.find?_isSome.mpr ⟨other, other_mem, decide_eq_true ⟨same, opens⟩⟩)
  obtain ⟨told, earlier, later, rfl, others⟩ := List.find?_eq_some_iff_append.mp first
  obtain ⟨same, opens⟩ := of_decide_eq_true told
  have quiet : ∀ other ∈ earlier, SameKey other candidate → ¬ start.Opens other :=
    fun other other_mem same opens => by simpa [same, opens] using others other other_mem
  have not_after : candidate ∉ later := by
    intro after
    obtain ⟨between, rest, rfl⟩ := List.append_of_mem after
    rw [← List.cons_append, ← List.append_assoc] at unfolded
    have none_open := openAlert_eq_none_iff.mp (heldBack_of_unfolded unfolded).2.1
    rw [recordAll_append] at none_open
    exact recordAll_keeps_open (opens_first one rfl same opens quiet) none_open
  refine ⟨(recordAll_grows start _).folded _ unfolded, cools, none_open, earlier, opener, later,
    rfl, ?_, not_after, same, opens, quiet⟩
  exact (List.mem_append.mp member).resolve_right fun among =>
    (List.mem_cons.mp among).elim (fun is_opener => opens.2.1 (is_opener ▸ cools)) not_after

end

end AlertStore

/-- Recording a batch again right after it was recorded changes nothing exactly if no candidate of
it is left behind: held back by the cooldown while its key has no open alert, and followed by one of
its tenant and key that raises.  A detection stands in a batch as one candidate. -/
theorem replay_changes_nothing_iff (first second : Newest) (store : AlertStore)
    (candidates : List Candidate)
    (one : ∀ candidate ∈ candidates, ∀ other ∈ candidates,
      candidate.detectionId = other.detectionId → candidate = other) :
    ((store.recordAll first candidates).1.recordAll second candidates).1 =
        (store.recordAll first candidates).1 ↔
      ∀ candidate ∈ candidates, ¬ store.LeftBehind candidates candidate := by
  rw [AlertStore.recordAll_eq_self_iff (AlertStore.recordAll_settled first store candidates)]
  refine forall₂_congr fun candidate member => ⟨fun settled left => ?_, fun kept => ?_⟩
  · obtain ⟨unfolded, is_open⟩ := @AlertStore.LeftBehind.unfolded _ first _ _ one left
    rcases settled with folded | none_open
    · rw [unfolded] at folded
      cases folded
    · exact is_open none_open
  · by_contra unsettled
    obtain ⟨unfolded, is_open⟩ := not_or.mp unsettled
    exact kept (AlertStore.leftBehind_of_unfolded one member (Bool.eq_false_of_not_eq_true unfolded)
      is_open)


/-- Two detections within the cooldown of a resolved alert are held back, and held back again. -/
theorem replay_changes_nothing_iff_cooled_down :
    ∃ books, (alerting .first).run noAlerts
        [.record [sighting "d-1" 0],
          .move "d-1" ["acme"] ⟨some .resolved, none, "", "analyst", 0, 0⟩] = some books ∧
      let batch := [sighting "d-2" 1000, sighting "d-3" 2000]
      (books.store.recordAll .first batch).2 = [.cooledDown, .cooledDown] ∧
        ((books.store.recordAll .first batch).1.recordAll .first batch).1 =
          (books.store.recordAll .first batch).1 := by
  refine ⟨_, rfl, by decide +kernel,
    (replay_changes_nothing_iff .first .first _ _ ?_).mpr fun held _ left => ?_⟩
  · simp [sighting]
  · obtain ⟨earlier, opener, later, batch_eq, -, -, -, opens, -⟩ := left.followed
    have member : opener ∈ [sighting "d-2" 1000, sighting "d-3" 2000] := by simp [batch_eq]
    refine opens.2.1 ?_
    rcases List.mem_pair.mp member with rfl | rfl <;> unfold AlertStore.Cools <;> decide +kernel

/-- A detection within the cooldown of a resolved alert is held back, and one that comes after it
raises another alert in the same batch.  Recorded again, the one held back is folded into that
alert. -/
theorem held_back_then_folded :
    ∃ books, (alerting .first).run noAlerts
        [.record [sighting "d-1" 0],
          .move "d-1" ["acme"] ⟨some .resolved, none, "", "analyst", 0, 0⟩] = some books ∧
      let batch := [sighting "d-2" 1000, sighting "d-3" (2 * Duration.hour)]
      (books.store.recordAll .first batch).2 = [.cooledDown, .raised] ∧
        ((books.store.recordAll .first batch).1.recordAll .first batch).2 = [.folded, .repeated] ∧
        ((books.store.recordAll .first batch).1.recordAll .first batch).1 ≠
          (books.store.recordAll .first batch).1 := by
  refine ⟨_, rfl, by decide +kernel, by decide +kernel, fun same => ?_⟩
  have counts := congrArg (fun store => store.occurrences.length) same
  revert counts
  decide +kernel

end Seagull.Alerts
