import Seagull.Alerts.Candidate
import Seagull.Alerts.Move
import Seagull.Foundation.Table

/-!
# The store of alerts

A batch of detections is recorded in one transaction, one after another.  A detection already folded
moves nothing; one within the window of the open alert of its key is folded into it; one too soon
after the last alert of its key was closed is held back; and any other raises an alert.
-/

namespace Seagull.Alerts

open Contract

/-- A detection an alert is made of. -/
structure Occurrence where
  alertId : String
  detectionId : String
  eventTime : ℤ
  deriving DecidableEq

/-- The alerts, their trail and the detections they are made of. -/
structure AlertStore where
  alerts : Table String Alert Alert.alertId
  trail : Table (String × ℕ) AlertTransition fun line => (line.alertId, line.revision)
  occurrences : List Occurrence

/-- Any of the alerts that were last seen of several. -/
structure Newest where
  pick : List Alert → Option Alert
  pick_none : ∀ alerts, pick alerts = none ↔ alerts = []
  pick_mem : ∀ alerts alert, pick alerts = some alert → alert ∈ alerts
  pick_last : ∀ alerts alert, pick alerts = some alert →
    ∀ other ∈ alerts, other.lastSeen ≤ alert.lastSeen

def firstNewest : List Alert → Option Alert
  | [] => none
  | alert :: alerts =>
    some (match firstNewest alerts with
      | none => alert
      | some newer => if alert.lastSeen < newer.lastSeen then newer else alert)

def Newest.first : Newest where
  pick := firstNewest
  pick_none alerts := by cases alerts <;> simp [firstNewest]
  pick_mem alerts := by
    induction alerts with
    | nil => simp [firstNewest]
    | cons first alerts ih =>
      intro alert found
      simp only [firstNewest, Option.some.injEq] at found
      split at found
      · exact found ▸ List.mem_cons_self
      · rename_i newer newest
        split at found
        · exact List.mem_cons_of_mem _ (ih alert (found ▸ newest))
        · exact found ▸ List.mem_cons_self
  pick_last alerts := by
    induction alerts with
    | nil => simp [firstNewest]
    | cons first alerts ih =>
      intro alert found other member
      simp only [firstNewest, Option.some.injEq] at found
      split at found
      · rename_i none_newer
        have no_others : alerts = [] := by
          cases alerts with
          | nil => rfl
          | cons next rest => simp [firstNewest] at none_newer
        rw [no_others, List.mem_singleton] at member
        rw [member, found]
      · rename_i newer newest
        rcases List.mem_cons.mp member with rfl | later
        · split at found <;> subst found <;> omega
        · have bound := ih newer newest other later
          split at found <;> subst found <;> omega

/-- What became of a detection. -/
inductive Outcome where
  | raised
  | folded
  | repeated
  | cooledDown
  deriving DecidableEq

def storedClosure (closure : Closure) : Closure :=
  { closure with closedAt := Instant.stored closure.closedAt }

/-- An alert as the store keeps it, with its instants to the microsecond. -/
def stored (alert : Alert) : Alert :=
  { alert with
    eventTime := alert.eventTime.map Instant.stored
    raisedAt := Instant.stored alert.raisedAt
    changedAt := Instant.stored alert.changedAt
    closure := alert.closure.map storedClosure
    firstSeen := Instant.stored alert.firstSeen
    lastSeen := Instant.stored alert.lastSeen }

def storedLine (line : AlertTransition) : AlertTransition :=
  { line with instant := Instant.stored line.instant }

namespace AlertStore

variable (newest : Newest) (store : AlertStore)

def keyed (tenant key : String) : List Alert :=
  store.alerts.rows.filter fun alert =>
    alert.tenantId = tenant ∧ alert.correlationKey = key

def alreadyFolded (detection : String) : Bool :=
  store.occurrences.any fun row => row.detectionId = detection

def openAlert (candidate : Candidate) : Option Alert :=
  newest.pick ((store.keyed candidate.alert.tenantId candidate.key).filter fun alert =>
    !AlertState.closed alert.state)

def closedAt (candidate : Candidate) : Option ℤ :=
  let closures := ((store.keyed candidate.alert.tenantId candidate.key).filter fun alert =>
    AlertState.closed alert.state).filterMap fun alert => alert.closure.map Closure.closedAt
  closures.max?

/-- Whether a candidate comes too soon after an alert of its key was closed. -/
def coolingDown (candidate : Candidate) : Bool :=
  (store.closedAt candidate).any fun closed => candidate.instant < closed + candidate.cooldown

/-- Record that a detection is part of an alert, once. -/
def fold (into : String) (candidate : Candidate) : AlertStore :=
  if store.alreadyFolded candidate.detectionId then store
  else { store with
    occurrences := store.occurrences ++
      [⟨into, candidate.detectionId, Instant.stored candidate.instant⟩] }

def foldInto (alert : Alert) (candidate : Candidate) : AlertStore :=
  { store with
    alerts := store.alerts.put { alert with
      occurrences := alert.occurrences + 1
      lastSeen := max alert.lastSeen (Instant.stored candidate.instant) } }

def insertAlert (alert : Alert) : AlertStore :=
  if (store.alerts.lookup alert.alertId).isSome then store
  else { store with alerts := store.alerts.put (stored alert) }

def insertTransition (line : AlertTransition) : AlertStore :=
  if (store.trail.lookup (line.alertId, line.revision)).isSome then store
  else { store with trail := store.trail.put (storedLine line) }

/-- Raise the alert of a candidate, under the key it was looked up by. -/
def raise (candidate : Candidate) : AlertStore :=
  let alert := { candidate.alert with correlationKey := candidate.key }
  ((store.insertAlert alert).insertTransition (raised alert)).fold alert.alertId candidate

def record (candidate : Candidate) : AlertStore × Outcome :=
  if store.alreadyFolded candidate.detectionId then (store, .repeated)
  else
    match store.openAlert newest candidate with
    | some alert =>
      if candidate.instant ≤ alert.lastSeen + candidate.window then
        ((store.foldInto alert candidate).fold alert.alertId candidate, .folded)
      else (store.raise candidate, .raised)
    | none =>
      if 0 < candidate.cooldown ∧ store.coolingDown candidate then (store, .cooledDown)
      else (store.raise candidate, .raised)

/-- `Store.Record`: record a batch, and say what became of every candidate. -/
def recordAll (store : AlertStore) : List Candidate → AlertStore × List Outcome
  | [] => (store, [])
  | candidate :: candidates =>
    let (next, outcome) := store.record newest candidate
    let (last, outcomes) := recordAll next candidates
    (last, outcome :: outcomes)

/-- `Store.Move`: move an alert within the tenants a caller holds. -/
def move (id : String) (tenants : List String) (asked : Move) :
    Except MoveFailure AlertStore := do
  match (store.alerts.lookup id).filter fun alert => alert.tenantId ∈ tenants with
  | none => .error .unknown
  | some alert =>
    let (moved, line) ← asked.apply alert
    let written := { alert with
      state := moved.state
      assignee := moved.assignee
      changedBy := moved.changedBy
      changedAt := Instant.stored moved.changedAt
      revision := moved.revision
      closure := moved.closure.map storedClosure }
    return { store with alerts := store.alerts.put written }.insertTransition line

variable {newest store}

def absorbing (newest : Newest) (store : AlertStore) (candidate : Candidate) : Option Alert :=
  if store.alreadyFolded candidate.detectionId then none
  else (store.openAlert newest candidate).filter fun alert =>
    candidate.instant ≤ alert.lastSeen + candidate.window

def heldBack (newest : Newest) (store : AlertStore) (candidate : Candidate) : Prop :=
  store.alreadyFolded candidate.detectionId = false ∧ store.openAlert newest candidate = none ∧
    0 < candidate.cooldown ∧ store.coolingDown candidate = true

theorem record_cases (newest : Newest) (store : AlertStore) (candidate : Candidate) :
    store.alreadyFolded candidate.detectionId = true ∧
        store.record newest candidate = (store, .repeated) ∨
      store.alreadyFolded candidate.detectionId = false ∧
        (∃ alert, store.openAlert newest candidate = some alert ∧
          store.absorbing newest candidate = some alert ∧ store.record newest candidate =
            ((store.foldInto alert candidate).fold alert.alertId candidate, .folded)) ∨
      store.heldBack newest candidate ∧
        store.record newest candidate = (store, .cooledDown) ∨
      store.alreadyFolded candidate.detectionId = false ∧
        store.absorbing newest candidate = none ∧ ¬ store.heldBack newest candidate ∧
        store.record newest candidate = (store.raise candidate, .raised) := by
  unfold record absorbing heldBack
  cases already : store.alreadyFolded candidate.detectionId with
  | true => simp
  | false =>
    cases found : store.openAlert newest candidate with
    | none =>
      by_cases cooling : 0 < candidate.cooldown ∧ store.coolingDown candidate
      · simp [cooling]
      · simp [cooling]
    | some alert =>
      by_cases within : candidate.instant ≤ alert.lastSeen + candidate.window
      · simp [within]
      · simp [not_le.mp within]

theorem mem_openAlert {candidate : Candidate} {alert : Alert}
    (found : store.openAlert newest candidate = some alert) :
    store.alerts.lookup alert.alertId = some alert ∧ alert.tenantId = candidate.alert.tenantId ∧
      alert.correlationKey = candidate.key ∧ AlertState.closed alert.state = false := by
  have member := newest.pick_mem _ _ found
  simp only [keyed, List.mem_filter, Table.mem_rows, decide_eq_true_eq, Bool.not_eq_true'] at member
  obtain ⟨⟨held, tenant_eq, key_eq⟩, still_open⟩ := member
  exact ⟨held, tenant_eq, key_eq, still_open⟩

theorem fold_of_new {into : String} {candidate : Candidate}
    (fresh : store.alreadyFolded candidate.detectionId = false) :
    store.fold into candidate = { store with
      occurrences := store.occurrences ++
        [⟨into, candidate.detectionId, Instant.stored candidate.instant⟩] } := by
  simp [fold, fresh]

@[simp]
theorem insertTransition_alerts (line : AlertTransition) :
    (store.insertTransition line).alerts = store.alerts := by
  unfold insertTransition
  split <;> rfl

@[simp]
theorem insertTransition_occurrences (line : AlertTransition) :
    (store.insertTransition line).occurrences = store.occurrences := by
  unfold insertTransition
  split <;> rfl

@[simp]
theorem insertAlert_occurrences (alert : Alert) :
    (store.insertAlert alert).occurrences = store.occurrences := by
  unfold insertAlert
  split <;> rfl

theorem raise_occurrences {candidate : Candidate}
    (fresh : store.alreadyFolded candidate.detectionId = false) :
    (store.raise candidate).occurrences = store.occurrences ++
      [⟨candidate.detectionId, candidate.detectionId, Instant.stored candidate.instant⟩] := by
  unfold raise
  rw [fold_of_new (by simpa [alreadyFolded] using fresh)]
  simp [candidate.named]

theorem record_occurrences (newest : Newest) (store : AlertStore) (candidate : Candidate) :
    (store.record newest candidate).1 = store ∨
      store.alreadyFolded candidate.detectionId = false ∧ ∃ into,
        (store.record newest candidate).1.occurrences = store.occurrences ++
          [⟨into, candidate.detectionId, Instant.stored candidate.instant⟩] := by
  rcases store.record_cases newest candidate with
    ⟨-, recorded⟩ | ⟨fresh, alert, -, -, recorded⟩ | ⟨-, recorded⟩ | ⟨fresh, -, -, recorded⟩
  · exact .inl (by rw [recorded])
  · refine .inr ⟨fresh, alert.alertId, ?_⟩
    have unfolded : (store.foldInto alert candidate).alreadyFolded candidate.detectionId = false :=
      fresh
    rw [recorded, fold_of_new unfolded]
    rfl
  · exact .inl (by rw [recorded])
  · exact .inr ⟨fresh, _, by rw [recorded]; exact raise_occurrences fresh⟩

end AlertStore
end Seagull.Alerts
