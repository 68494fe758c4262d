import Seagull.Agent.Roster
import Seagull.Foundation.Transition

/-!
# Whether a roster is recent enough to admit by

A gateway follows the agent log, and every so often compares the ends of the log with what it
delivered.  Past a bound from the last moment its roster was current it admits nothing.  So what
admits a batch had applied every record appended before the bound, and those appended at the very
instant may be missing.
-/

namespace Seagull.Ingest

open Agent

/-! ## The settings and the clock -/

/-- How often a roster is confirmed, and how long it may go unconfirmed. -/
structure Settings where
  every : ℤ
  staleAfter : ℤ
  /-- The interval is between a second and a minute. -/
  every_bounds : Duration.second ≤ every ∧ every ≤ 60 * Duration.second
  /-- The bound is between two seconds and ten minutes. -/
  staleAfter_bounds : 2 * Duration.second ≤ staleAfter ∧ staleAfter ≤ 600 * Duration.second
  /-- A roster is stale only after at least two confirmations were missed. -/
  outlasts : 2 * every ≤ staleAfter

def epoch : ℤ := Contract.Timestamp.epoch * Duration.second

/-- `Time.UnixNano`: nanoseconds from the epoch, in 64 bits. -/
def unixNano (instant : ℤ) : ℤ := (instant - epoch).bmod (2 ^ 64)

/-- The first instant `UnixNano` is defined at, in the year 1677. -/
def firstUnixNano : ℤ := epoch - 2 ^ 63

def unix (nanoseconds : ℤ) : ℤ := epoch + nanoseconds

theorem unix_unixNano_le {instant : ℤ} (defined : firstUnixNano ≤ instant) :
    unix (unixNano instant) ≤ instant := by
  have reduced := Int.emod_add_mul_ediv (instant - epoch) (2 ^ 64)
  unfold firstUnixNano at defined
  unfold unix unixNano
  rw [Int.bmod_def]
  split <;> omega

/-! ## The log, the gateway and what it is asked -/

variable {π : Type}

/-- A record of the agent log, and when it was appended. -/
structure Appended where
  record : Roster.Logged
  instant : ℤ

/-- A record of the log as a reader gets it. -/
structure Fetched (π : Type) where
  partition : π
  offset : ℕ
  record : Roster.Logged

/-- What follows the log into the roster. -/
structure Follower (π : Type) where
  position : π → ℕ
  batch : List (Fetched π)
  /-- The records of the poll that the roster has not taken yet. -/
  rest : List (Fetched π)
  roster : Roster
  /-- Every record the roster took, in the order it took them. -/
  applied : List (Fetched π)
  /-- A record that names no agent ends the reading. -/
  ended : Bool
  delivered : π → ℕ

/-- A confirmation under way. -/
structure Confirming (π : Type) where
  asked : ℤ
  ends : π → Option ℕ
  /-- Whether nothing was found behind. -/
  current : Bool

/-- An admission check under way. -/
inductive Checking where
  /-- A confirmation was stored before. -/
  | begun
  /-- A confirmation was read. -/
  | loaded (confirmed : ℤ)
  /-- The roster was not stale at an instant. -/
  | fresh (instant : ℤ)

/-- A batch that was admitted. -/
structure Admitted (π : Type) where
  agentId : String
  tenant : String
  instant : ℤ
  /-- The records the roster that admitted it had taken. -/
  applied : List (Fetched π)

/-- A gateway and the log it follows. -/
structure Gateway (π : Type) where
  clock : ℤ
  started : ℤ
  log : π → List Appended
  follower : Follower π
  /-- The instant of the last confirmation, zero before the first. -/
  confirmed : ℤ
  confirming : List (Confirming π)
  checking : List Checking
  admitted : List (Admitted π)

/-- What happens to a gateway and to the log. -/
inductive Action (π : Type) where
  | tick (nanoseconds : ℕ)
  | append (partition : π) (record : Roster.Logged)
  /-- The poll under way gets the next record of a partition. -/
  | fetch (partition : π)
  /-- The roster takes the next record of the poll. -/
  | deliver
  /-- The poll is delivered, and the delivered offsets advance. -/
  | advance
  /-- A confirmation reads the clock. -/
  | ask
  /-- A confirmation lists the end of a partition. -/
  | list (run : ℕ) (partition : π)
  /-- A confirmation compares the ends with what was delivered. -/
  | compare (run : ℕ)
  /-- A confirmation could not reach the log. -/
  | fail (run : ℕ)
  | store (run : ℕ)
  /-- A check looks whether a confirmation was stored. -/
  | check
  /-- A check reads the confirmation. -/
  | load (run : ℕ)
  | read (run : ℕ)
  /-- A check asks the roster for the tenant of an agent. -/
  | tenant (run : ℕ) (agentId : String)

def advance [DecidableEq π] (delivered : π → ℕ) (batch : List (Fetched π)) : π → ℕ :=
  batch.foldl (fun delivered fetched => Function.update delivered fetched.partition
    (max (delivered fetched.partition) (fetched.offset + 1))) delivered

/-- How many records the log held that were not delivered. -/
def behind [Fintype π] (ends : π → Option ℕ) (delivered : π → ℕ) : ℕ :=
  Finset.univ.sum fun partition => (ends partition).getD 0 - delivered partition

def age (confirmed now started : ℤ) : ℤ :=
  if 0 < confirmed then Instant.sub now (unix confirmed) else Instant.sub now started

namespace Gateway

def start (instant : ℤ) : Gateway π where
  clock := instant
  started := instant
  log _ := []
  follower := ⟨fun _ => 0, [], [], .empty, [], false, fun _ => 0⟩
  confirmed := 0
  confirming := []
  checking := []
  admitted := []

variable [DecidableEq π] [Fintype π] (settings : Settings)

def step (gateway : Gateway π) : Action π → Option (Gateway π)
  | .tick nanoseconds => some { gateway with clock := gateway.clock + nanoseconds }
  | .append partition record =>
    some { gateway with
      log := Function.update gateway.log partition
        (gateway.log partition ++ [⟨record, gateway.clock⟩]) }
  | .fetch partition =>
    let follower := gateway.follower
    match (gateway.log partition)[follower.position partition]? with
    | none => none
    | some appended =>
      let fetched : Fetched π := ⟨partition, follower.position partition, appended.record⟩
      some { gateway with follower := { follower with
        position := Function.update follower.position partition
          (follower.position partition + 1)
        batch := follower.batch ++ [fetched]
        rest := follower.rest ++ [fetched] } }
  | .deliver =>
    let follower := gateway.follower
    match follower.ended, follower.rest with
    | false, fetched :: rest =>
      match follower.roster.applying fetched.record with
      | none => some { gateway with follower := { follower with ended := true } }
      | some roster =>
        some { gateway with follower := { follower with
          rest := rest
          roster := roster
          applied := follower.applied ++ [fetched] } }
    | _, _ => none
  | .advance =>
    let follower := gateway.follower
    if follower.rest = [] then
      some { gateway with follower := { follower with
        batch := []
        delivered := Ingest.advance follower.delivered follower.batch } }
    else none
  | .ask =>
    some { gateway with confirming := gateway.confirming ++ [⟨gateway.clock, fun _ => none, false⟩] }
  | .list run partition =>
    match gateway.confirming[run]? with
    | none => none
    | some confirming =>
      some { gateway with confirming := gateway.confirming.set run { confirming with
        ends := Function.update confirming.ends partition
          (some (gateway.log partition).length) } }
  | .compare run =>
    match gateway.confirming[run]? with
    | none => none
    | some confirming =>
      if ∀ partition, (confirming.ends partition).isSome then
        if behind confirming.ends gateway.follower.delivered = 0 then
          some { gateway with
            confirming := gateway.confirming.set run { confirming with current := true } }
        else some { gateway with confirming := gateway.confirming.eraseIdx run }
      else none
  | .fail run => some { gateway with confirming := gateway.confirming.eraseIdx run }
  | .store run =>
    match gateway.confirming[run]? with
    | none => none
    | some confirming =>
      if confirming.current then
        some { gateway with
          confirmed := unixNano confirming.asked
          confirming := gateway.confirming.eraseIdx run }
      else none
  | .check =>
    if gateway.confirmed = 0 then none
    else some { gateway with checking := gateway.checking ++ [.begun] }
  | .load run =>
    match gateway.checking[run]? with
    | some .begun =>
      some { gateway with checking := gateway.checking.set run (.loaded gateway.confirmed) }
    | _ => none
  | .read run =>
    match gateway.checking[run]? with
    | some (.loaded confirmed) =>
      if settings.staleAfter < age confirmed gateway.clock gateway.started then
        some { gateway with checking := gateway.checking.eraseIdx run }
      else some { gateway with checking := gateway.checking.set run (.fresh gateway.clock) }
    | _ => none
  | .tenant run agentId =>
    match gateway.checking[run]? with
    | some (.fresh instant) =>
      match gateway.follower.roster.tenant agentId with
      | none => some { gateway with checking := gateway.checking.eraseIdx run }
      | some tenant =>
        some { gateway with
          checking := gateway.checking.eraseIdx run
          admitted := gateway.admitted ++
            [⟨agentId, tenant, instant, gateway.follower.applied⟩] }
    | _ => none

end Gateway

def following [DecidableEq π] [Fintype π] (settings : Settings) : System (Gateway π) (Action π) where
  starts gateway := ∃ instant, firstUnixNano ≤ instant ∧ gateway = .start instant
  step := Gateway.step settings

/-! ## What stays true as time passes -/

def entryAt (log : π → List Appended) (partition : π) (offset : ℕ) : Option Appended :=
  (log partition)[offset]?

def UpTo (gateway : Gateway π) (instant : ℤ) : Prop :=
  ∀ partition offset appended, entryAt gateway.log partition offset = some appended →
    appended.instant < instant →
    ⟨partition, offset, appended.record⟩ ∈ gateway.follower.applied

/-- A confirmation that was asked for: each end it listed lies past every record appended before,
and where nothing was behind the roster took all of them. -/
structure Asked (gateway : Gateway π) (confirming : Confirming π) : Prop where
  started : gateway.started ≤ confirming.asked
  clocked : confirming.asked ≤ gateway.clock
  ends : ∀ partition last, confirming.ends partition = some last →
    ∀ offset appended, entryAt gateway.log partition offset = some appended →
      appended.instant < confirming.asked → offset < last
  current : confirming.current = true → UpTo gateway confirming.asked

/-- A moment since the start at which the roster is known to be current. -/
structure Moment (gateway : Gateway π) (instant : ℤ) : Prop where
  started : gateway.started ≤ instant
  clocked : instant ≤ gateway.clock
  current : UpTo gateway instant

def Checked (settings : Settings) (gateway : Gateway π) : Checking → Prop
  | .begun => ∃ instant, Moment gateway instant
  | .loaded confirmed =>
    (∃ instant, Moment gateway instant) ∧
      (0 < confirmed → ∃ instant, Moment gateway instant ∧ confirmed = unixNano instant)
  | .fresh instant => instant ≤ gateway.clock ∧ UpTo gateway (instant - settings.staleAfter)

/-- A batch was admitted by a roster that had taken every record before the bound. -/
structure Admits (settings : Settings) (gateway : Gateway π) (admitted : Admitted π) : Prop where
  clocked : admitted.instant ≤ gateway.clock
  roster : ∃ roster, Roster.empty.replay (admitted.applied.map Fetched.record) = some roster ∧
    roster.tenant admitted.agentId = some admitted.tenant
  bounded : ∀ partition offset appended, entryAt gateway.log partition offset = some appended →
    appended.instant < admitted.instant - settings.staleAfter →
    ⟨partition, offset, appended.record⟩ ∈ admitted.applied

/-- What every step keeps: time and the log go on, records are stamped as appended, and what was
taken stays taken. -/
structure Later (before after : Gateway π) : Prop where
  clock : before.clock ≤ after.clock
  started : after.started = before.started
  log : ∀ partition offset appended, entryAt after.log partition offset = some appended →
    entryAt before.log partition offset = some appended ∨ before.clock ≤ appended.instant
  applied : before.follower.applied ⊆ after.follower.applied

section Later

variable {before after : Gateway π} {settings : Settings}

theorem UpTo.later {instant : ℤ} (current : UpTo before instant) (later : Later before after)
    (clocked : instant ≤ before.clock) : UpTo after instant := by
  intro partition offset appended found earlier
  rcases later.log partition offset appended found with held | new
  · exact later.applied (current partition offset appended held earlier)
  · omega

theorem Asked.later {confirming : Confirming π} (asked : Asked before confirming)
    (later : Later before after) : Asked after confirming where
  started := later.started ▸ asked.started
  clocked := asked.clocked.trans later.clock
  ends := by
    intro partition last last_eq offset appended found earlier
    rcases later.log partition offset appended found with held | new
    · exact asked.ends partition last last_eq offset appended held earlier
    · have := asked.clocked
      omega
  current := fun current => (asked.current current).later later asked.clocked

theorem Moment.later {instant : ℤ} (moment : Moment before instant) (later : Later before after) :
    Moment after instant :=
  ⟨later.started ▸ moment.started, moment.clocked.trans later.clock,
    moment.current.later later moment.clocked⟩

theorem Checked.later {checking : Checking} (checked : Checked settings before checking)
    (later : Later before after) : Checked settings after checking := by
  cases checking with
  | begun =>
    obtain ⟨instant, moment⟩ := checked
    exact ⟨instant, moment.later later⟩
  | loaded confirmed =>
    obtain ⟨⟨instant, moment⟩, named⟩ := checked
    refine ⟨⟨instant, moment.later later⟩, fun positive => ?_⟩
    obtain ⟨asked, asked_moment, confirmed_eq⟩ := named positive
    exact ⟨asked, asked_moment.later later, confirmed_eq⟩
  | fresh instant =>
    have bound := settings.staleAfter_bounds.1
    unfold Duration.second at bound
    have clocked : instant ≤ before.clock := checked.1
    exact ⟨clocked.trans later.clock, checked.2.later later (by omega)⟩

theorem Admits.later {admitted : Admitted π} (admits : Admits settings before admitted)
    (later : Later before after) : Admits settings after admitted where
  clocked := admits.clocked.trans later.clock
  roster := admits.roster
  bounded := by
    intro partition offset appended found earlier
    rcases later.log partition offset appended found with held | new
    · exact admits.bounded partition offset appended held earlier
    · have bound := settings.staleAfter_bounds.1
      have clocked := admits.clocked
      unfold Duration.second at bound
      omega

theorem Later.of_same (clock : after.clock = before.clock) (started : after.started = before.started)
    (log : after.log = before.log) (applied : before.follower.applied ⊆ after.follower.applied) :
    Later before after :=
  ⟨clock.ge, started, fun _ _ _ found => .inl (log ▸ found), applied⟩

end Later

/-! ## What a step keeps -/

/-- What the follower read, took and delivered of the log. -/
structure Follows (log : π → List Appended) (follower : Follower π) : Prop where
  read : ∀ partition offset, offset < follower.position partition →
    ∃ appended, entryAt log partition offset = some appended ∧
      (⟨partition, offset, appended.record⟩ ∈ follower.applied ∨
        ⟨partition, offset, appended.record⟩ ∈ follower.rest)
  polled : ∀ fetched ∈ follower.batch, fetched.offset < follower.position fetched.partition
  delivered_le : ∀ partition, follower.delivered partition ≤ follower.position partition
  delivered : ∀ partition offset appended, offset < follower.delivered partition →
    entryAt log partition offset = some appended →
    ⟨partition, offset, appended.record⟩ ∈ follower.applied
  replayed : Roster.empty.replay (follower.applied.map Fetched.record) = some follower.roster

/-- What holds of a gateway and the log in every run. -/
structure Current (settings : Settings) (gateway : Gateway π) : Prop where
  follows : Follows gateway.log gateway.follower
  stamped : ∀ partition offset appended, entryAt gateway.log partition offset = some appended →
    appended.instant ≤ gateway.clock
  started : firstUnixNano ≤ gateway.started ∧ gateway.started ≤ gateway.clock
  confirming : ∀ confirming ∈ gateway.confirming, Asked gateway confirming
  confirmed : gateway.confirmed ≠ 0 →
    ∃ instant, Moment gateway instant ∧ gateway.confirmed = unixNano instant
  checking : ∀ checking ∈ gateway.checking, Checked settings gateway checking
  admitted : ∀ admitted ∈ gateway.admitted, Admits settings gateway admitted

theorem entryAt_append [DecidableEq π] {log : π → List Appended} {partition other : π} {offset : ℕ}
    {new appended : Appended}
    (found : entryAt (Function.update log partition (log partition ++ [new])) other offset =
      some appended) : entryAt log other offset = some appended ∨ appended = new := by
  unfold entryAt at found ⊢
  by_cases same : other = partition
  · subst same
    rw [Function.update_self] at found
    rw [List.getElem?_append] at found
    split at found
    · exact .inl found
    · exact .inr (by simpa using List.mem_of_getElem? found)
  · rw [Function.update_of_ne same] at found
    exact .inl found

theorem entryAt_of_held [DecidableEq π] {log : π → List Appended} {partition other : π} {offset : ℕ}
    {new appended : Appended} (held : entryAt log other offset = some appended) :
    entryAt (Function.update log partition (log partition ++ [new])) other offset =
      some appended := by
  unfold entryAt at held ⊢
  by_cases same : other = partition
  · subst same
    rw [Function.update_self, List.getElem?_append_left (List.getElem?_eq_some_iff.mp held).1, held]
  · rw [Function.update_of_ne same, held]

theorem advance_le [DecidableEq π] {delivered bound : π → ℕ} {batch : List (Fetched π)}
    (delivered_le : ∀ partition, delivered partition ≤ bound partition)
    (polled : ∀ fetched ∈ batch, fetched.offset < bound fetched.partition) (partition : π) :
    advance delivered batch partition ≤ bound partition := by
  induction batch generalizing delivered with
  | nil => exact delivered_le partition
  | cons fetched batch ih =>
    refine ih (fun other => ?_) fun other member => polled other (List.mem_cons_of_mem _ member)
    beta_reduce
    by_cases same : other = fetched.partition
    · subst same
      rw [Function.update_self]
      exact max_le (delivered_le _) (polled fetched (by simp))
    · rw [Function.update_of_ne same]
      exact delivered_le other

theorem replay_concat (roster : Roster) (records : List Roster.Logged) (record : Roster.Logged) :
    roster.replay (records ++ [record]) =
      (roster.replay records).bind fun after => after.applying record := by
  induction records generalizing roster with
  | nil => simp [Roster.replay]
  | cons first records ih =>
    rw [List.cons_append, Roster.replay, Roster.replay, Option.bind_assoc]
    exact Option.bind_congr fun after _ => ih after

theorem Current.step {settings : Settings} {before after : Gateway π}
    (current : Current settings before) (later : Later before after)
    (follows : Follows after.log after.follower)
    (stamped : ∀ partition offset appended, entryAt after.log partition offset = some appended →
      appended.instant ≤ after.clock)
    (confirming : ∀ confirming ∈ after.confirming,
      confirming ∈ before.confirming ∨ Asked before confirming)
    (confirmed : after.confirmed = before.confirmed ∨
      ∃ instant, Moment before instant ∧ after.confirmed = unixNano instant)
    (checking : ∀ checking ∈ after.checking,
      checking ∈ before.checking ∨ Checked settings before checking)
    (admitted : ∀ admitted ∈ after.admitted,
      admitted ∈ before.admitted ∨ Admits settings before admitted) : Current settings after where
  follows := follows
  stamped := stamped
  started := ⟨later.started ▸ current.started.1,
    later.started ▸ current.started.2.trans later.clock⟩
  confirming := fun run member =>
    ((confirming run member).elim (current.confirming run) id).later later
  confirmed := by
    intro stored
    rcases confirmed with same | ⟨instant, moment, named⟩
    · obtain ⟨instant, moment, named⟩ := current.confirmed (same ▸ stored)
      exact ⟨instant, moment.later later, same.trans named⟩
    · exact ⟨instant, moment.later later, named⟩
  checking := fun run member =>
    ((checking run member).elim (current.checking run) id).later later
  admitted := fun batch member =>
    ((admitted batch member).elim (current.admitted batch) id).later later

section Parts

variable {settings : Settings} {before : Gateway π}

theorem Current.with_follower (current : Current settings before) {follower : Follower π}
    (applied : before.follower.applied ⊆ follower.applied) (follows : Follows before.log follower) :
    Current settings { before with follower } :=
  current.step (.of_same rfl rfl rfl applied) follows current.stamped (fun _ member => .inl member)
    (.inl rfl) (fun _ member => .inl member) fun _ member => .inl member

theorem Current.with_confirming (current : Current settings before) {confirming : List (Confirming π)}
    (asked : ∀ run ∈ confirming, run ∈ before.confirming ∨ Asked before run) :
    Current settings { before with confirming } :=
  current.step (.of_same rfl rfl rfl fun _ member => member) current.follows current.stamped asked
    (.inl rfl) (fun _ member => .inl member) fun _ member => .inl member

theorem Current.with_checking (current : Current settings before) {checking : List Checking}
    (checked : ∀ run ∈ checking, run ∈ before.checking ∨ Checked settings before run) :
    Current settings { before with checking } :=
  current.step (.of_same rfl rfl rfl fun _ member => member) current.follows current.stamped
    (fun _ member => .inl member) (.inl rfl) checked fun _ member => .inl member

end Parts

theorem upTo_of_age {settings : Settings} {before : Gateway π} {confirmed : ℤ}
    (checked : Checked settings before (.loaded confirmed))
    (defined : firstUnixNano ≤ before.started)
    (recent : age confirmed before.clock before.started ≤ settings.staleAfter) :
    UpTo before (before.clock - settings.staleAfter) := by
  obtain ⟨⟨first, first_moment⟩, named⟩ := checked
  have bound := settings.staleAfter_bounds.2
  have reaches : ∀ since, Instant.sub before.clock since ≤ settings.staleAfter →
      before.clock - settings.staleAfter ≤ since := by
    intro since recent
    unfold Instant.sub Duration.longest Duration.shortest at recent
    unfold Duration.second at bound
    omega
  unfold age at recent
  split at recent
  · rename_i positive
    obtain ⟨instant, moment, confirmed_eq⟩ := named positive
    have named_le := unix_unixNano_le (defined.trans moment.started)
    rw [← confirmed_eq] at named_le
    have bounded := reaches _ recent
    intro partition offset appended entry earlier
    exact moment.current partition offset appended entry (by omega)
  · have bounded := reaches _ recent
    have started := first_moment.started
    intro partition offset appended entry earlier
    exact first_moment.current partition offset appended entry (by omega)

section Steps

variable [DecidableEq π] [Fintype π] {settings : Settings} {before after : Gateway π}

section

variable (current : Current settings before)

include current

theorem Current.tick {nanoseconds : ℕ}
    (stepped : before.step settings (.tick nanoseconds) = some after) : Current settings after := by
  cases stepped
  have passes : before.clock ≤ before.clock + nanoseconds := by omega
  refine current.step ⟨passes, rfl, fun _ _ _ found => .inl found, fun _ member => member⟩
    current.follows (fun partition offset appended found => ?_) (fun _ member => .inl member)
    (.inl rfl) (fun _ member => .inl member) fun _ member => .inl member
  exact (current.stamped partition offset appended found).trans passes

variable {partition : π}

theorem Current.append {record : Roster.Logged}
    (stepped : before.step settings (.append partition record) = some after) :
    Current settings after := by
  cases stepped
  refine current.step ⟨le_rfl, rfl, ?_, fun _ member => member⟩ ?_ ?_ (fun _ member => .inl member)
    (.inl rfl) (fun _ member => .inl member) fun _ member => .inl member
  · intro other offset appended found
    rcases entryAt_append found with held | rfl
    · exact .inl held
    · exact .inr le_rfl
  · refine ⟨?_, current.follows.polled, current.follows.delivered_le, ?_, current.follows.replayed⟩
    · intro other offset reached
      obtain ⟨appended, found, taken⟩ := current.follows.read other offset reached
      exact ⟨appended, entryAt_of_held found, taken⟩
    · intro other offset appended delivered found
      obtain ⟨read, read_found, -⟩ := current.follows.read other offset
        (delivered.trans_le (current.follows.delivered_le other))
      have same : read = appended := by simpa [entryAt_of_held read_found] using found
      exact same ▸ current.follows.delivered other offset read delivered read_found
  · intro other offset appended found
    rcases entryAt_append found with held | rfl
    · exact current.stamped other offset appended held
    · exact le_rfl

theorem Current.fetch
    (stepped : before.step settings (.fetch partition) = some after) : Current settings after := by
  simp only [Gateway.step] at stepped
  split at stepped
  · cases stepped
  · rename_i appended found
    cases stepped
    have further : ∀ other, before.follower.position other ≤
        Function.update before.follower.position partition
          (before.follower.position partition + 1) other := by
      intro other
      by_cases same : other = partition
      · simp [same]
      · simp [Function.update_of_ne same]
    refine current.with_follower (fun _ member => member) ⟨?_, ?_,
      fun other => (current.follows.delivered_le other).trans (further other),
      current.follows.delivered, current.follows.replayed⟩
    · intro other offset reached
      by_cases before_read : offset < before.follower.position other
      · obtain ⟨read, read_found, taken⟩ := current.follows.read other offset before_read
        exact ⟨read, read_found, taken.imp_right fun rest => List.mem_append_left _ rest⟩
      · have same : other = partition := by
          by_contra differs
          simp only [Function.update_of_ne differs] at reached
          exact before_read reached
        subst same
        simp only [Function.update_self] at reached
        have offset_eq : offset = before.follower.position other := by omega
        subst offset_eq
        exact ⟨appended, found, .inr (by simp)⟩
    · intro fetched member
      rcases List.mem_append.mp member with held | new
      · exact (current.follows.polled fetched held).trans_le (further _)
      · rw [List.mem_singleton.mp new]
        simp

theorem Current.deliver
    (stepped : before.step settings .deliver = some after) : Current settings after := by
  simp only [Gateway.step] at stepped
  split at stepped
  · rename_i fetched rest going rest_eq
    split at stepped
    · cases stepped
      exact current.with_follower (fun _ member => member)
        ⟨current.follows.read, current.follows.polled, current.follows.delivered_le,
          current.follows.delivered, current.follows.replayed⟩
    · rename_i roster taken
      cases stepped
      refine current.with_follower (fun _ member => List.mem_append_left _ member)
        ⟨?_, current.follows.polled, current.follows.delivered_le, ?_, ?_⟩
      · intro partition offset reached
        obtain ⟨appended, found, taken⟩ := current.follows.read partition offset reached
        refine ⟨appended, found, ?_⟩
        rcases taken with applied | waiting
        · exact .inl (List.mem_append_left _ applied)
        · rw [rest_eq] at waiting
          rcases List.mem_cons.mp waiting with itself | behind
          · exact .inl (by simp [itself])
          · exact .inr behind
      · intro partition offset appended delivered found
        exact List.mem_append_left _
          (current.follows.delivered partition offset appended delivered found)
      · rw [List.map_append, List.map_singleton, replay_concat, current.follows.replayed]
        exact taken
  · cases stepped

theorem Current.advance
    (stepped : before.step settings .advance = some after) : Current settings after := by
  simp only [Gateway.step] at stepped
  split at stepped
  · rename_i delivered_all
    cases stepped
    have bounded := advance_le current.follows.delivered_le current.follows.polled
    refine current.with_follower (fun _ member => member)
      ⟨current.follows.read, by simp, bounded, ?_, current.follows.replayed⟩
    intro partition offset appended delivered found
    obtain ⟨read, read_found, taken⟩ := current.follows.read partition offset
      (delivered.trans_le (bounded partition))
    rw [read_found] at found
    cases found
    exact taken.resolve_right (by simp [delivered_all])
  · cases stepped

theorem Current.ask
    (stepped : before.step settings .ask = some after) : Current settings after := by
  cases stepped
  refine current.with_confirming fun confirming member => ?_
  rcases List.mem_append.mp member with held | new
  · exact .inl held
  · rw [List.mem_singleton.mp new]
    exact .inr ⟨current.started.2, le_rfl, by simp, by simp⟩

variable {run : ℕ}

theorem Current.list (stepped : before.step settings (.list run partition) = some after) :
    Current settings after := by
  simp only [Gateway.step] at stepped
  split at stepped
  · cases stepped
  · rename_i confirming found
    cases stepped
    have asked := current.confirming confirming (List.mem_of_getElem? found)
    refine current.with_confirming fun other member => ?_
    rcases List.mem_or_eq_of_mem_set member with held | rfl
    · exact .inl held
    · refine .inr ⟨asked.started, asked.clocked, ?_, asked.current⟩
      intro other last last_eq offset appended entry earlier
      by_cases same : other = partition
      · subst same
        simp only [Function.update_self, Option.some.injEq] at last_eq
        rw [← last_eq]
        exact (List.getElem?_eq_some_iff.mp entry).1
      · simp only [Function.update_of_ne same] at last_eq
        exact asked.ends other last last_eq offset appended entry earlier

theorem Current.compare
    (stepped : before.step settings (.compare run) = some after) : Current settings after := by
  simp only [Gateway.step] at stepped
  split at stepped
  · cases stepped
  · rename_i confirming found
    have asked := current.confirming confirming (List.mem_of_getElem? found)
    split at stepped
    · rename_i listed
      split at stepped
      · rename_i nothing
        cases stepped
        refine current.with_confirming fun other member => ?_
        rcases List.mem_or_eq_of_mem_set member with held | rfl
        · exact .inl held
        · refine .inr ⟨asked.started, asked.clocked, asked.ends, fun _ => ?_⟩
          -- Every end lies past what was appended before the confirmation asked, and what was
          -- delivered lies past every end.
          intro partition offset appended entry earlier
          obtain ⟨last, last_eq⟩ := Option.isSome_iff_exists.mp (listed partition)
          have before_end := asked.ends partition last last_eq offset appended entry earlier
          have gap := Finset.sum_eq_zero_iff.mp nothing partition (Finset.mem_univ _)
          rw [last_eq, Option.getD_some] at gap
          exact current.follows.delivered partition offset appended (by omega) entry
      · cases stepped
        exact current.with_confirming fun _ member => .inl (List.mem_of_mem_eraseIdx member)
    · cases stepped

theorem Current.fail
    (stepped : before.step settings (.fail run) = some after) : Current settings after := by
  cases stepped
  exact current.with_confirming fun _ member => .inl (List.mem_of_mem_eraseIdx member)

theorem Current.store
    (stepped : before.step settings (.store run) = some after) : Current settings after := by
  simp only [Gateway.step] at stepped
  split at stepped
  · cases stepped
  · rename_i confirming found
    split at stepped
    · rename_i nothing
      cases stepped
      have asked := current.confirming confirming (List.mem_of_getElem? found)
      exact current.step (.of_same rfl rfl rfl fun _ member => member) current.follows
        current.stamped (fun _ member => .inl (List.mem_of_mem_eraseIdx member))
        (.inr ⟨confirming.asked, ⟨asked.started, asked.clocked, asked.current nothing⟩, rfl⟩)
        (fun _ member => .inl member) fun _ member => .inl member
    · cases stepped

theorem Current.check
    (stepped : before.step settings .check = some after) : Current settings after := by
  simp only [Gateway.step] at stepped
  split at stepped
  · cases stepped
  · rename_i stored
    cases stepped
    refine current.with_checking fun checking member => ?_
    rcases List.mem_append.mp member with held | new
    · exact .inl held
    · rw [List.mem_singleton.mp new]
      obtain ⟨instant, moment, -⟩ := current.confirmed stored
      exact .inr ⟨instant, moment⟩

theorem Current.load
    (stepped : before.step settings (.load run) = some after) : Current settings after := by
  simp only [Gateway.step] at stepped
  split at stepped
  · rename_i found
    cases stepped
    refine current.with_checking fun checking member => ?_
    rcases List.mem_or_eq_of_mem_set member with held | rfl
    · exact .inl held
    · exact .inr ⟨current.checking .begun (List.mem_of_getElem? found), fun positive =>
        current.confirmed positive.ne'⟩
  · cases stepped

theorem Current.read
    (stepped : before.step settings (.read run) = some after) : Current settings after := by
  simp only [Gateway.step] at stepped
  split at stepped
  · rename_i confirmed found
    split at stepped
    · cases stepped
      exact current.with_checking fun _ member => .inl (List.mem_of_mem_eraseIdx member)
    · rename_i recent
      cases stepped
      refine current.with_checking fun checking member => ?_
      rcases List.mem_or_eq_of_mem_set member with held | rfl
      · exact .inl held
      · exact .inr ⟨le_rfl, upTo_of_age (current.checking _ (List.mem_of_getElem? found))
          current.started.1 (not_lt.mp recent)⟩
  · cases stepped

theorem Current.tenant {agentId : String}
    (stepped : before.step settings (.tenant run agentId) = some after) :
    Current settings after := by
  simp only [Gateway.step] at stepped
  split at stepped
  · rename_i instant found
    split at stepped
    · cases stepped
      exact current.with_checking fun _ member => .inl (List.mem_of_mem_eraseIdx member)
    · rename_i tenant admitted
      cases stepped
      refine current.step (.of_same rfl rfl rfl fun _ member => member) current.follows
        current.stamped (fun _ member => .inl member) (.inl rfl)
        (fun _ member => .inl (List.mem_of_mem_eraseIdx member)) ?_
      intro batch member
      rcases List.mem_append.mp member with held | new
      · exact .inl held
      · rw [List.mem_singleton.mp new]
        have checked := current.checking _ (List.mem_of_getElem? found)
        exact .inr ⟨checked.1, ⟨_, current.follows.replayed, admitted⟩, checked.2⟩
  · cases stepped

end


theorem current_of_reaches {gateway : Gateway π} (reaches : (following settings).Reaches gateway) :
    Current settings gateway := by
  refine reaches.invariant ?_ ?_
  · rintro start ⟨instant, defined, rfl⟩
    refine ⟨⟨?_, ?_, ?_, ?_, rfl⟩, ?_, ⟨defined, le_rfl⟩, ?_, ?_, ?_, ?_⟩ <;>
      simp [Gateway.start, entryAt]
  · intro before action after current stepped
    cases action with
    | tick => exact current.tick stepped
    | append => exact current.append stepped
    | fetch => exact current.fetch stepped
    | deliver => exact current.deliver stepped
    | advance => exact current.advance stepped
    | ask => exact current.ask stepped
    | list => exact current.list stepped
    | compare => exact current.compare stepped
    | fail => exact current.fail stepped
    | store => exact current.store stepped
    | check => exact current.check stepped
    | load => exact current.load stepped
    | read => exact current.read stepped
    | tenant => exact current.tenant stepped

end Steps

/-- A batch admitted at an instant was admitted by a roster that had applied every record appended
to the log before the bound from that instant. -/
theorem admitted_within_bound [DecidableEq π] [Fintype π] {settings : Settings}
    {gateway : Gateway π} (reaches : (following settings).Reaches gateway) {batch : Admitted π}
    (admitted : batch ∈ gateway.admitted) :
    (∃ roster, Roster.empty.replay (batch.applied.map Fetched.record) = some roster ∧
      roster.tenant batch.agentId = some batch.tenant) ∧
    ∀ partition offset appended, entryAt gateway.log partition offset = some appended →
      appended.instant < batch.instant - settings.staleAfter →
      ⟨partition, offset, appended.record⟩ ∈ batch.applied :=
  have admits := (current_of_reaches reaches).admitted batch admitted
  ⟨admits.roster, admits.bounded⟩

/-! ## A sensor revoked at the instant its roster was confirmed -/

def twoSeconds : Settings where
  every := Duration.second
  staleAfter := 2 * Duration.second
  every_bounds := by decide
  staleAfter_bounds := by decide
  outlasts := by decide

def sensorRecord (state : Contract.AgentState) (revision : ℕ) : Roster.Logged :=
  ⟨"sensor-1", some (Roster.sensorAdmission state revision)⟩

/-- A sensor is revoked at the very instant its roster is confirmed, and a batch of it is checked
two seconds after. -/
def revokedAtBound : List (Action Unit) :=
  [.append () (sensorRecord .active 1), .tick 1, .fetch (), .deliver, .advance,
    .ask, .list 0 (), .compare 0, .store 0, .append () (sensorRecord .revoked 2),
    .tick 2000000000, .check, .load 0, .read 0, .tenant 0 "sensor-1"]

/-- The gateway the sensor's batch was admitted by. -/
def boundGateway : Gateway Unit :=
  (((following twoSeconds).run (.start (epoch + 1)) revokedAtBound).getD (.start 0))

/-- The batch was admitted by a roster that had applied the record appended before the bound. -/
theorem admitted_within_bound_sensor :
    ∃ batch, boundGateway.admitted = [batch] ∧
      ⟨(), 0, sensorRecord .active 1⟩ ∈ batch.applied := by
  have ran : (following twoSeconds).run (.start (epoch + 1)) revokedAtBound = some boundGateway := rfl
  have reaches : (following twoSeconds).Reaches boundGateway :=
    ⟨_, _, ⟨_, by decide, rfl⟩, ran⟩
  refine ⟨_, rfl, ?_⟩
  refine (admitted_within_bound reaches (List.mem_singleton.mpr rfl)).2 () 0
    ⟨sensorRecord .active 1, epoch + 1⟩ rfl ?_
  decide +kernel

/-- The revocation was appended no later than the bound before the batch was checked, and the roster
that admitted the batch had not applied it. -/
theorem revoked_at_bound_admitted :
    ∃ batch appended,
      (following twoSeconds).run (.start (epoch + 1)) revokedAtBound = some boundGateway ∧
      firstUnixNano ≤ epoch + 1 ∧ boundGateway.admitted = [batch] ∧
      entryAt boundGateway.log () 1 = some appended ∧
      appended.instant ≤ batch.instant - twoSeconds.staleAfter ∧
      ∀ fetched ∈ batch.applied, fetched.offset ≠ 1 := by
  refine ⟨_, _, rfl, by decide, rfl, rfl, ?_, ?_⟩ <;> decide +kernel

end Seagull.Ingest
