import Seagull.Alerts.Store
import Seagull.Foundation.Transition

/-!
# The books of an alert

Over any sequence of recorded batches and operators' moves, a detection is part of at most one
alert, an alert counts its detections and is last seen with the latest of them, and each was folded
under its key.  When it was first seen is written once: it is when the earliest of them happened as
long as nothing earlier is folded in.
-/

namespace Seagull.Alerts

open Contract

/-- The store, and the key every detection was folded under. -/
structure Books where
  store : AlertStore
  keys : String → Option String

namespace Books

def record (newest : Newest) (books : Books) (candidate : Candidate) : Books :=
  let (store, outcome) := books.store.record newest candidate
  { store := store
    keys :=
      if outcome = .raised ∨ outcome = .folded then
        Function.update books.keys candidate.detectionId (some candidate.key)
      else books.keys }

def recordAll (newest : Newest) (books : Books) (candidates : List Candidate) : Books :=
  candidates.foldl (record newest) books

end Books

/-- What can happen to alerts. -/
inductive AlertEvent where
  | record (candidates : List Candidate)
  | move (id : String) (tenants : List String) (asked : Move)

/-- Batches and moves, each in a transaction of its own. -/
def alerting (newest : Newest) : System Books AlertEvent where
  starts books := books.store.alerts = Table.empty ∧ books.store.occurrences = []
  step books
    | .record candidates => some (books.recordAll newest candidates)
    | .move id tenants asked =>
      match books.store.move id tenants asked with
      | .ok store => some { books with store := store }
      | .error _ => none

/-! ## The books -/

namespace AlertStore

variable (store : AlertStore)

def rows (id : String) : List Occurrence := store.occurrences.filter fun row => row.alertId = id

/-- When the detections of an alert happened. -/
def times (id : String) : Set ℤ := { instant | ∃ row ∈ store.rows id, row.eventTime = instant }

end AlertStore

/-- What the books say of every alert. -/
structure Bookkept (books : Books) : Prop where
  distinct : (books.store.occurrences.map Occurrence.detectionId).Nodup
  occurrences : ∀ id alert, books.store.alerts.lookup id = some alert →
    alert.occurrences = (books.store.rows id).length
  firstSeen : ∀ id alert, books.store.alerts.lookup id = some alert →
    IsLeast (books.store.times id) alert.firstSeen
  lastSeen : ∀ id alert, books.store.alerts.lookup id = some alert →
    IsGreatest (books.store.times id) alert.lastSeen
  key : ∀ id alert, books.store.alerts.lookup id = some alert →
    ∀ row ∈ books.store.rows id, books.keys row.detectionId = some alert.correlationKey

/-- What the books say whatever is folded, and what keeps them. -/
structure Kept (books : Books) : Prop where
  distinct : (books.store.occurrences.map Occurrence.detectionId).Nodup
  own : ∀ id alert, books.store.alerts.lookup id = some alert → books.store.alreadyFolded id = true
  held : ∀ row ∈ books.store.occurrences, (books.store.alerts.lookup row.alertId).isSome
  occurrences : ∀ id alert, books.store.alerts.lookup id = some alert →
    alert.occurrences = (books.store.rows id).length
  firstSeen : ∀ id alert, books.store.alerts.lookup id = some alert →
    alert.firstSeen ∈ books.store.times id
  lastSeen : ∀ id alert, books.store.alerts.lookup id = some alert →
    IsGreatest (books.store.times id) alert.lastSeen
  key : ∀ id alert, books.store.alerts.lookup id = some alert →
    ∀ row ∈ books.store.rows id, books.keys row.detectionId = some alert.correlationKey

def Forward (store : AlertStore) : Prop :=
  ∀ id alert, store.alerts.lookup id = some alert →
    ∀ row ∈ store.rows id, alert.firstSeen ≤ row.eventTime

theorem Kept.bookkept_iff {books : Books} (kept : Kept books) :
    Bookkept books ↔ Forward books.store := by
  constructor
  · intro bookkept id alert found row member
    exact (bookkept.firstSeen id alert found).2 ⟨row, member, rfl⟩
  · intro forward
    refine ⟨kept.distinct, kept.occurrences, fun id alert found => ?_, kept.lastSeen, kept.key⟩
    refine ⟨kept.firstSeen id alert found, ?_⟩
    rintro instant ⟨row, member, rfl⟩
    exact forward id alert found row member

theorem Kept.unheld {books : Books} {detection : String} (kept : Kept books)
    (fresh : books.store.alreadyFolded detection = false) :
    books.store.alerts.lookup detection = none := by
  cases looked : books.store.alerts.lookup detection with
  | none => rfl
  | some alert =>
    rw [kept.own detection alert looked] at fresh
    cases fresh

/-! ## One more detection -/

namespace AlertStore

variable {store after : AlertStore} {row : Occurrence} {id : String}

section

variable (appended : after.occurrences = store.occurrences ++ [row])

include appended

theorem rows_append :
    after.rows id = if row.alertId = id then store.rows id ++ [row] else store.rows id := by
  rw [rows, appended, List.filter_append, rows]
  split <;> simp_all

theorem times_append :
    after.times id = if row.alertId = id then insert row.eventTime (store.times id)
      else store.times id := by
  ext instant
  rw [times, Set.mem_ofPred_eq, rows_append appended]
  split
  · simp only [List.mem_append, List.mem_singleton, Set.mem_insert_iff, times, Set.mem_ofPred_eq]
    constructor
    · rintro ⟨other, member | rfl, rfl⟩
      · exact .inr ⟨other, member, rfl⟩
      · exact .inl rfl
    · rintro (rfl | ⟨other, member, rfl⟩)
      · exact ⟨row, .inr rfl, rfl⟩
      · exact ⟨other, .inl member, rfl⟩
  · rfl

theorem alreadyFolded_append (detection : String) :
    after.alreadyFolded detection =
      (store.alreadyFolded detection || decide (row.detectionId = detection)) := by
  simp [alreadyFolded, appended]

end

end AlertStore

/-- A detection no alert is made of becomes part of one, last seen at the latest of both. -/
structure Adds (books after : Books) (row : Occurrence) (alert : Alert) : Prop where
  fresh : books.store.alreadyFolded row.detectionId = false
  appended : after.store.occurrences = books.store.occurrences ++ [row]
  written : after.store.alerts = books.store.alerts.put alert
  named : alert.alertId = row.alertId
  keys : after.keys = Function.update books.keys row.detectionId (some alert.correlationKey)

variable {row : Occurrence} {alert : Alert}

section

variable {books after : Books} (adds : Adds books after row alert)

include adds

theorem Adds.unseen :
    ∀ other ∈ books.store.occurrences, other.detectionId ≠ row.detectionId := by
  simpa [AlertStore.alreadyFolded] using adds.fresh

theorem Adds.distinct (kept : Kept books) :
    (after.store.occurrences.map Occurrence.detectionId).Nodup := by
  rw [adds.appended, List.map_append, List.nodup_append]
  refine ⟨kept.distinct, by simp, ?_⟩
  rintro detection member other other_mem
  obtain ⟨held, held_mem, rfl⟩ := List.mem_map.mp member
  rw [List.mem_singleton.mp other_mem]
  exact adds.unseen held held_mem

theorem Adds.stands {id : String}
    {found : Alert} (looked : after.store.alerts.lookup id = some found) :
    (id = row.alertId ∧ found = alert ∧ after.store.rows id = books.store.rows id ++ [row] ∧
        after.store.times id = insert row.eventTime (books.store.times id)) ∨
      (books.store.alerts.lookup id = some found ∧ after.store.rows id = books.store.rows id ∧
        after.store.times id = books.store.times id) := by
  rw [adds.written, Table.lookup_put, adds.named] at looked
  rw [AlertStore.rows_append adds.appended, AlertStore.times_append adds.appended]
  split at looked
  · rename_i same
    rw [if_pos same.symm, if_pos same.symm]
    exact .inl ⟨same, (Option.some.inj looked).symm, rfl, rfl⟩
  · rename_i differs
    rw [if_neg (Ne.symm differs), if_neg (Ne.symm differs)]
    exact .inr ⟨looked, rfl, rfl⟩

theorem Adds.kept (kept : Kept books)
    (own : after.store.alreadyFolded row.alertId = true)
    (occurrences : alert.occurrences = (books.store.rows row.alertId).length + 1)
    (firstSeen : alert.firstSeen ∈ insert row.eventTime (books.store.times row.alertId))
    (lastSeen : IsGreatest (insert row.eventTime (books.store.times row.alertId)) alert.lastSeen)
    (key : ∀ other ∈ books.store.rows row.alertId,
      books.keys other.detectionId = some alert.correlationKey) : Kept after := by
  have keys_of : ∀ {id other}, other ∈ books.store.rows id →
      after.keys other.detectionId = books.keys other.detectionId := by
    intro id other member
    rw [adds.keys, Function.update_of_ne (adds.unseen other (List.mem_of_mem_filter member))]
  refine ⟨adds.distinct kept, fun id found looked => ?_, fun other member => ?_,
    fun id found looked => ?_, fun id found looked => ?_, fun id found looked => ?_,
    fun id found looked other member => ?_⟩
  · rcases adds.stands looked with ⟨rfl, -⟩ | ⟨before, -⟩
    · exact own
    · rw [AlertStore.alreadyFolded_append adds.appended, kept.own id found before, Bool.true_or]
  · rw [adds.written, Table.lookup_put, adds.named]
    split
    · rfl
    · rw [adds.appended, List.mem_append, List.mem_singleton] at member
      rcases member with before | rfl
      · exact kept.held other before
      · contradiction
  · rcases adds.stands looked with ⟨rfl, rfl, rows, -⟩ | ⟨before, rows, -⟩
    · rw [rows, List.length_append]
      exact occurrences
    · exact rows ▸ kept.occurrences id found before
  · rcases adds.stands looked with ⟨rfl, rfl, -, times⟩ | ⟨before, -, times⟩
    · exact times ▸ firstSeen
    · exact times ▸ kept.firstSeen id found before
  · rcases adds.stands looked with ⟨rfl, rfl, -, times⟩ | ⟨before, -, times⟩
    · exact times ▸ lastSeen
    · exact times ▸ kept.lastSeen id found before
  · rcases adds.stands looked with ⟨rfl, rfl, rows, -⟩ | ⟨before, rows, -⟩
    · rw [rows, List.mem_append, List.mem_singleton] at member
      rcases member with before | rfl
      · exact (keys_of before).trans (key other before)
      · rw [adds.keys, Function.update_self]
    · rw [rows] at member
      exact (keys_of member).trans (kept.key id found before other member)

theorem Adds.forward_iff
    (same : ∀ found, books.store.alerts.lookup row.alertId = some found →
      found.firstSeen = alert.firstSeen)
    (held : books.store.alerts.lookup row.alertId = none → books.store.rows row.alertId = []) :
    Forward after.store ↔ Forward books.store ∧ alert.firstSeen ≤ row.eventTime := by
  constructor
  · intro forward
    refine ⟨fun id found looked other member => ?_, ?_⟩
    · by_cases written : row.alertId = id
      · subst written
        rw [same found looked]
        refine forward row.alertId alert (by simp [adds.written, Table.lookup_put, adds.named]) other ?_
        rw [AlertStore.rows_append adds.appended, if_pos rfl]
        exact List.mem_append_left _ member
      · refine forward id found ?_ other ?_
        · rw [adds.written, Table.lookup_put, adds.named, if_neg (Ne.symm written)]
          exact looked
        · rw [AlertStore.rows_append adds.appended, if_neg written]
          exact member
    · refine forward row.alertId alert (by simp [adds.written, Table.lookup_put, adds.named]) row ?_
      rw [AlertStore.rows_append adds.appended, if_pos rfl]
      exact List.mem_append_right _ (List.mem_singleton_self row)
  · rintro ⟨forward, not_earlier⟩ id found looked other member
    rcases adds.stands looked with ⟨rfl, rfl, rows, -⟩ | ⟨before, rows, -⟩
    · rw [rows, List.mem_append, List.mem_singleton] at member
      rcases member with before | rfl
      · cases looked_before : books.store.alerts.lookup row.alertId with
        | none =>
          rw [held looked_before] at before
          cases before
        | some was =>
          rw [← same was looked_before]
          exact forward row.alertId was looked_before other before
      · exact not_earlier
    · exact forward id found before other (rows ▸ member)

end

/-! ## One candidate, one batch, one run -/

/-- A candidate an open alert absorbs did not happen before it was first seen. -/
def FoldsForward (newest : Newest) (store : AlertStore) (candidate : Candidate) : Prop :=
  ∀ alert ∈ store.absorbing newest candidate, alert.firstSeen ≤ Instant.stored candidate.instant

/-- No candidate of a batch happened before its alert was first seen. -/
def FoldsForwardAll (newest : Newest) (store : AlertStore) : List Candidate → Prop
  | [] => True
  | candidate :: candidates =>
    FoldsForward newest store candidate ∧
      FoldsForwardAll newest (store.record newest candidate).1 candidates

def InOrder (newest : Newest) (books : Books) : AlertEvent → Prop
  | .record candidates => FoldsForwardAll newest books.store candidates
  | .move _ _ _ => True

instance decidableFoldsForward (newest : Newest) (store : AlertStore) (candidate : Candidate) :
    Decidable (FoldsForward newest store candidate) :=
  inferInstanceAs (Decidable (∀ alert ∈ store.absorbing newest candidate, _))

instance decidableFoldsForwardAll (newest : Newest) (store : AlertStore) :
    (candidates : List Candidate) → Decidable (FoldsForwardAll newest store candidates)
  | [] => .isTrue trivial
  | candidate :: candidates =>
    have := decidableFoldsForwardAll newest (store.record newest candidate).1 candidates
    inferInstanceAs (Decidable (FoldsForward newest store candidate ∧ _))

instance decidableInOrder (newest : Newest) (books : Books) (event : AlertEvent) :
    Decidable (InOrder newest books event) :=
  match event with
  | .record candidates => decidableFoldsForwardAll newest books.store candidates
  | .move _ _ _ => .isTrue trivial

variable {newest : Newest} {books after : Books}

theorem adds_folded {candidate : Candidate}
    (fresh : books.store.alreadyFolded candidate.detectionId = false)
    (found : books.store.openAlert newest candidate = some alert)
    (recorded : books.store.record newest candidate =
      ((books.store.foldInto alert candidate).fold alert.alertId candidate, .folded)) :
    Adds books (books.record newest candidate)
      ⟨alert.alertId, candidate.detectionId, Instant.stored candidate.instant⟩
      { alert with
        occurrences := alert.occurrences + 1
        lastSeen := max alert.lastSeen (Instant.stored candidate.instant) } := by
  obtain ⟨-, -, key_eq, -⟩ := AlertStore.mem_openAlert found
  have unfolded : (books.store.foldInto alert candidate).alreadyFolded candidate.detectionId =
      false := fresh
  rw [AlertStore.fold_of_new unfolded] at recorded
  refine ⟨fresh, ?_, ?_, rfl, ?_⟩
  · rw [Books.record, recorded]
    rfl
  · rw [Books.record, recorded]
    rfl
  · rw [Books.record, recorded]
    simp [key_eq]

theorem adds_raised {candidate : Candidate} (kept : Kept books)
    (fresh : books.store.alreadyFolded candidate.detectionId = false)
    (recorded : books.store.record newest candidate =
      (books.store.raise candidate, .raised)) :
    Adds books (books.record newest candidate)
      ⟨candidate.detectionId, candidate.detectionId, Instant.stored candidate.instant⟩
      (stored { candidate.alert with correlationKey := candidate.key }) := by
  have unheld := kept.unheld fresh
  refine ⟨fresh, ?_, ?_, candidate.named, ?_⟩
  · rw [Books.record, recorded]
    exact AlertStore.raise_occurrences fresh
  · rw [Books.record, recorded]
    change (books.store.raise candidate).alerts = _
    unfold AlertStore.raise
    rw [AlertStore.fold_of_new (by simpa [AlertStore.alreadyFolded] using fresh)]
    simp [AlertStore.insertAlert, candidate.named, unheld]
  · rw [Books.record, recorded]
    simp [stored]

theorem record_kept (newest : Newest) (kept : Kept books) (candidate : Candidate) :
    Kept (books.record newest candidate) ∧
      (Forward (books.record newest candidate).store ↔
        Forward books.store ∧ FoldsForward newest books.store candidate) := by
  have unmoved : ∀ {outcome}, books.store.record newest candidate = (books.store, outcome) →
      outcome ≠ .raised → outcome ≠ .folded → books.record newest candidate = books := by
    intro outcome recorded not_raised not_folded
    simp [Books.record, recorded, not_raised, not_folded]
  rcases books.store.record_cases newest candidate with
    ⟨already, recorded⟩ | ⟨fresh, alert, found, absorbed, recorded⟩ | ⟨back, recorded⟩ |
      ⟨fresh, unabsorbed, -, recorded⟩
  · rw [unmoved recorded (by decide) (by decide)]
    refine ⟨kept, ⟨fun forward => ⟨forward, fun alert member => ?_⟩, And.left⟩⟩
    simp [AlertStore.absorbing, already] at member
  · have adds := adds_folded fresh found recorded
    obtain ⟨looked, -, -, -⟩ := AlertStore.mem_openAlert found
    refine ⟨adds.kept kept ?_ ?_ ?_ ?_ (kept.key _ alert looked), ?_⟩
    · rw [AlertStore.alreadyFolded_append adds.appended, kept.own _ alert looked, Bool.true_or]
    · rw [kept.occurrences _ alert looked]
    · exact Set.mem_insert_of_mem _ (kept.firstSeen _ alert looked)
    · rw [max_comm]
      exact (kept.lastSeen _ alert looked).insert _
    · rw [adds.forward_iff]
      · simp [FoldsForward, absorbed]
      · intro was was_looked
        rw [looked, Option.some.injEq] at was_looked
        rw [was_looked]
      · intro missing
        rw [looked] at missing
        cases missing
  · rw [unmoved recorded (by decide) (by decide)]
    refine ⟨kept, ⟨fun forward => ⟨forward, fun alert member => ?_⟩, And.left⟩⟩
    simp [AlertStore.absorbing, back.2.1] at member
  · have adds := adds_raised kept fresh recorded
    have unheld := kept.unheld fresh
    have no_rows : books.store.rows candidate.detectionId = [] := by
      rw [AlertStore.rows, List.filter_eq_nil_iff]
      intro row member same
      have held := kept.held row member
      rw [of_decide_eq_true same, unheld] at held
      cases held
    have no_times : books.store.times candidate.detectionId = ∅ := by
      simp [AlertStore.times, no_rows]
    have seen := candidate.alone
    refine ⟨adds.kept kept ?_ ?_ ?_ ?_ ?_, ?_⟩
    · rw [AlertStore.alreadyFolded_append adds.appended]
      simp
    · simp [stored, no_rows, seen.1]
    · exact Set.mem_insert_iff.mpr (.inl (congrArg Instant.stored seen.2.1))
    · have last_eq := congrArg Instant.stored seen.2.2
      change IsGreatest (insert (Instant.stored candidate.instant) _)
        (Instant.stored candidate.alert.lastSeen)
      rw [no_times, insert_empty_eq, last_eq]
      exact isGreatest_singleton
    · rw [no_rows]
      intro other member
      cases member
    · rw [adds.forward_iff]
      · have first_le : Instant.stored candidate.alert.firstSeen ≤
            Instant.stored candidate.instant := le_of_eq (congrArg Instant.stored seen.2.1)
        simp [FoldsForward, unabsorbed, stored, first_le]
      · intro was was_looked
        rw [unheld] at was_looked
        cases was_looked
      · exact fun _ => no_rows

theorem recordAll_kept (kept : Kept books) (candidates : List Candidate) :
    Kept (books.recordAll newest candidates) ∧
      (Forward (books.recordAll newest candidates).store ↔
        Forward books.store ∧ FoldsForwardAll newest books.store candidates) := by
  induction candidates generalizing books with
  | nil => exact ⟨kept, by simp [Books.recordAll, FoldsForwardAll]⟩
  | cons candidate candidates ih =>
    obtain ⟨kept_one, forward_one⟩ := record_kept newest kept candidate
    obtain ⟨kept_all, forward_all⟩ := ih kept_one
    refine ⟨kept_all, ?_⟩
    change Forward ((books.record newest candidate).recordAll newest candidates).store ↔ _
    rw [forward_all, forward_one, and_assoc]
    rfl

theorem move_ok {store moved : AlertStore} {id : String} {tenants : List String} {asked : Move}
    (moves : store.move id tenants asked = .ok moved) :
    moved.occurrences = store.occurrences ∧ ∃ alert written,
      store.alerts.lookup id = some alert ∧ moved.alerts = store.alerts.put written ∧
      written.alertId = alert.alertId ∧ written.occurrences = alert.occurrences ∧
      written.firstSeen = alert.firstSeen ∧ written.lastSeen = alert.lastSeen ∧
      written.correlationKey = alert.correlationKey := by
  unfold AlertStore.move at moves
  split at moves
  · cases moves
  · rename_i alert held
    simp only [checked_eq_ok, pure_eq_ok, Prod.exists] at moves
    obtain ⟨_, line, -, rfl⟩ := moves
    exact ⟨AlertStore.insertTransition_occurrences line, alert, _,
      (Option.filter_eq_some_iff.mp held).1, AlertStore.insertTransition_alerts line,
      rfl, rfl, rfl, rfl, rfl⟩

theorem move_kept {id : String} {tenants : List String} {asked : Move} {store : AlertStore}
    (kept : Kept books) (moves : books.store.move id tenants asked = .ok store) :
    Kept { books with store := store } ∧ (Forward store ↔ Forward books.store) := by
  obtain ⟨same_rows, alert, written, looked, written_eq, named, occurrences, first, last, key⟩ :=
    move_ok moves
  have lookup_eq : ∀ other, store.alerts.lookup other =
      if other = id then some written else books.store.alerts.lookup other := by
    intro other
    rw [written_eq, Table.lookup_put, named.trans (Table.key_of_lookup looked)]
  -- Whatever the columns of an alert say is what they said before.
  have was_of : ∀ {other found}, store.alerts.lookup other = some found →
      ∃ was, books.store.alerts.lookup other = some was ∧ found.occurrences = was.occurrences ∧
        found.firstSeen = was.firstSeen ∧ found.lastSeen = was.lastSeen ∧
        found.correlationKey = was.correlationKey := by
    intro other found held
    rw [lookup_eq] at held
    split at held
    · rename_i same_id
      cases held
      exact ⟨alert, same_id ▸ looked, occurrences, first, last, key⟩
    · exact ⟨found, held, rfl, rfl, rfl, rfl⟩
  have rows_eq : ∀ id, store.rows id = books.store.rows id := fun id => by
    rw [AlertStore.rows, same_rows, AlertStore.rows]
  have times_eq : ∀ id, store.times id = books.store.times id := fun id => by
    rw [AlertStore.times, rows_eq, AlertStore.times]
  refine ⟨⟨same_rows ▸ kept.distinct, fun other found held => ?_, fun row member => ?_,
    fun other found held => ?_, fun other found held => ?_, fun other found held => ?_,
    fun other found held => ?_⟩, fun forward other found held row member => ?_,
    fun forward other found held row member => ?_⟩
  · obtain ⟨was, before, -⟩ := was_of held
    rw [AlertStore.alreadyFolded, same_rows]
    exact kept.own other was before
  · rw [lookup_eq]
    split
    · rfl
    · exact kept.held row (same_rows ▸ member)
  · obtain ⟨was, before, columns, -⟩ := was_of held
    rw [columns, rows_eq]
    exact kept.occurrences other was before
  · obtain ⟨was, before, -, columns, -⟩ := was_of held
    rw [columns, times_eq]
    exact kept.firstSeen other was before
  · obtain ⟨was, before, -, -, columns, -⟩ := was_of held
    rw [columns, times_eq]
    exact kept.lastSeen other was before
  · obtain ⟨was, before, -, -, -, columns⟩ := was_of held
    rw [columns, rows_eq]
    exact kept.key other was before
  · by_cases same_id : other = id
    · rw [same_id, looked, Option.some.injEq] at held
      rw [← held, ← first]
      exact forward other written (by rw [lookup_eq, if_pos same_id]) row (rows_eq other ▸ member)
    · exact forward other found (by rw [lookup_eq, if_neg same_id, held]) row
        (rows_eq other ▸ member)
  · obtain ⟨was, before, -, columns, -⟩ := was_of held
    rw [columns]
    exact forward other was before row (rows_eq other ▸ member)

theorem step_kept {event : AlertEvent} (kept : Kept books)
    (stepped : (alerting newest).step books event = some after) :
    Kept after ∧ (Forward after.store ↔ Forward books.store ∧ InOrder newest books event) := by
  cases event with
  | record candidates =>
    cases stepped
    exact recordAll_kept kept candidates
  | move id tenants asked =>
    simp only [alerting] at stepped
    split at stepped
    · rename_i store moves
      cases stepped
      obtain ⟨moved_kept, forward_iff⟩ := move_kept kept moves
      exact ⟨moved_kept, forward_iff.trans (by simp [InOrder])⟩
    · cases stepped

theorem starts_kept (starts : (alerting newest).starts books) :
    Kept books ∧ Forward books.store := by
  obtain ⟨no_alerts, no_rows⟩ := starts
  have unheld : ∀ {id alert}, books.store.alerts.lookup id ≠ some alert := by
    intro id alert found
    rw [no_alerts] at found
    cases found
  refine ⟨⟨by rw [no_rows]; exact List.nodup_nil, ?_, by simp [no_rows], ?_, ?_, ?_, ?_⟩, ?_⟩
  all_goals exact fun _ _ found => absurd found unheld

theorem always_bookkept_iff (kept : Kept books) (forward : Forward books.store)
    (events : List AlertEvent) :
    (alerting newest).Always Bookkept books events ↔
      (alerting newest).Throughout (InOrder newest) books events := by
  induction events generalizing books with
  | nil => exact iff_of_true (kept.bookkept_iff.mpr forward) trivial
  | cons event events ih =>
    constructor
    · rintro ⟨-, always⟩
      have next_forward : ∀ {after}, (alerting newest).step books event = some after →
          Forward after.store := fun stepped =>
        (step_kept kept stepped).1.bookkept_iff.mp (always _ stepped).start
      refine ⟨?_, fun after stepped => ?_⟩
      · cases event with
        | record candidates => exact ((step_kept kept rfl).2.mp (next_forward rfl)).2
        | move id tenants asked => trivial
      · exact (ih (step_kept kept stepped).1 (next_forward stepped)).mp (always after stepped)
    · rintro ⟨in_order, throughout⟩
      refine ⟨kept.bookkept_iff.mpr forward, fun after stepped => ?_⟩
      obtain ⟨after_kept, forward_iff⟩ := step_kept kept stepped
      exact (ih after_kept (forward_iff.mpr ⟨forward, in_order⟩)).mpr (throughout after stepped)

/-- In a run that starts without alerts, every alert counts its detections, is first seen with the
earliest and last seen with the latest of them and was folded under its key, and no detection is
part of two, in every state, exactly if no detection is folded into an alert first seen after it
happened. -/
theorem bookkeeping_iff (newest : Newest) (books : Books) (events : List AlertEvent)
    (starts : (alerting newest).starts books) :
    (alerting newest).Always Bookkept books events ↔
      (alerting newest).Throughout (InOrder newest) books events := by
  obtain ⟨kept, forward⟩ := starts_kept starts
  exact always_bookkept_iff kept forward events

def noAlerts : Books := ⟨⟨Table.empty, Table.empty, []⟩, fun _ => none⟩

theorem bookkeeping_of_sightings :
    (alerting .first).Always Bookkept noAlerts
      [.record [sighting "d-1" 1000, sighting "d-2" 2000], .record [sighting "d-1" 1000]] :=
  (bookkeeping_iff .first noAlerts _ ⟨rfl, rfl⟩).mpr (by decide +kernel)

/-- A detection that happened before the one its alert was raised for is folded in, and the alert
goes on naming the later one as when it was first seen. -/
theorem late_sighting_first_seen :
    ∃ books, (alerting .first).starts noAlerts ∧
      (alerting .first).run noAlerts [.record [sighting "d-1" 2000, sighting "d-2" 1000]] =
        some books ∧ ¬ Bookkept books := by
  refine ⟨_, ⟨rfl, rfl⟩, rfl, fun bookkept => ?_⟩
  have earliest := (bookkept.firstSeen "d-1" _ rfl).2
    ⟨⟨"d-1", "d-2", 1000⟩, by decide +kernel, rfl⟩
  revert earliest
  decide +kernel

end Seagull.Alerts
