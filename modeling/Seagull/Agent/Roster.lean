import Seagull.Agent.Registry
import Seagull.Foundation.FiniteMap
import Seagull.Foundation.Settled

/-!
# The roster

Which identities the platform still honours, and the tenant each one's telemetry belongs to.  Two
gateways that read the same records hold the same roster, whatever order they read them in.
-/

namespace Seagull.Agent

open Contract

/-- What was decided about an agent last. -/
@[ext]
structure Decided where
  admits : Bool
  tenant : String
  revision : ℕ

/-- Everything a process knows about the agents the log has named. -/
structure Roster where
  known : FiniteMap String Decided

namespace Roster

def empty : Roster := ⟨FiniteMap.empty⟩

/-- What is held after a readable record, and whether it disagrees with another of its revision. -/
def answer (held : Option Decided) (state : AgentState) (record : Admission) :
    Decided × Option Failure :=
  match held with
  | none => (⟨State.admits state, record.tenantId, record.revision⟩, none)
  | some held =>
    if record.revision < held.revision then (held, none)
    else if record.revision = held.revision ∧ held.admits ≠ State.admits state then
      (⟨false, "", held.revision⟩, some (.decidesBothWays record.revision record.agentId))
    else if record.revision = held.revision ∧ held.tenant ≠ record.tenantId then
      (⟨false, "", held.revision⟩, some (.twoTenants record.revision record.agentId))
    else (⟨State.admits state, record.tenantId, record.revision⟩, none)

/-- What is asked of a record before it is applied: the state it carries. -/
def readable (record : Admission) : Except Failure AgentState := do
  refuse (record.agentId = "") .namesNoAgent
  match State.fromWire record.state with
  | none => .error (.namesNoState record.state)
  | some state =>
    tenant record.tenantId
    return state

/-- Apply a record.  Two that decide one revision differently leave the agent refused. -/
def apply (roster : Roster) (record : Admission) : Roster × Option Failure :=
  match readable record with
  | .error failure => (roster, some failure)
  | .ok state =>
    let answer := answer (roster.known.lookup record.agentId) state record
    (⟨roster.known.insert record.agentId answer.1⟩, answer.2)

def refuse (roster : Roster) (agentId : String) : Roster :=
  if agentId = "" then roster
  else
    let held := (roster.known.lookup agentId).getD ⟨false, "", 0⟩
    ⟨roster.known.insert agentId { held with admits := false }⟩

/-- The tenant an agent's telemetry is admitted into, if it is. -/
def tenant (roster : Roster) (agentId : String) : Option String :=
  match roster.known.lookup agentId with
  | none => none
  | some held => if held.admits then some held.tenant else none

/-- Apply records one after another, whatever each of them is refused for. -/
def applyAll (roster : Roster) (records : List Admission) : Roster :=
  records.foldl (fun roster record => (roster.apply record).1) roster

/-- A record of the agent log, and the admission it carries, if any. -/
structure Logged where
  key : String
  value : Option Admission
  deriving DecidableEq

/-- Why a record of the log is not applied. -/
inductive Unread where
  | unreadable
  /-- The record is keyed by one agent and decides about another. -/
  | keyed (key agentId : String)
  | refused (failure : Failure)

def read (roster : Roster) (record : Logged) : Roster × Option Unread :=
  match record.value with
  | none => (roster, some .unreadable)
  | some admission =>
    if admission.agentId ≠ record.key then (roster, some (.keyed record.key admission.agentId))
    else ((roster.apply admission).1, (roster.apply admission).2.map .refused)

/-- Take one record of the log; one that names no agent ends the reading. -/
def applying (roster : Roster) (record : Logged) : Option Roster :=
  match roster.read record with
  | (after, none) => some after
  | (after, some _) => if record.key = "" then none else some (after.refuse record.key)

/-- Take the records of the log, to the one that ends the reading. -/
def replay (roster : Roster) : List Logged → Option Roster
  | [] => some roster
  | record :: records => (roster.applying record).bind fun after => after.replay records

end Roster

/-- A record that can be read: it names an agent, a state and a tenant. -/
def Readable (record : Admission) : Prop := ∃ state, Roster.readable record = .ok state

variable {record : Admission} {state : AgentState}

theorem readable_eq_ok :
    Roster.readable record = .ok state ↔
      record.agentId ≠ "" ∧ record.state = .named state ∧ tenant record.tenantId = .ok () := by
  unfold Roster.readable
  cases named : record.state with
  | named stored =>
    simp only [State.fromWire, passes_eq_ok, refuse_eq_ok, pure_eq_ok, WireState.named.injEq]
    tauto
  | unspecified => simp [State.fromWire, passes_eq_ok]
  | undeclared => simp [State.fromWire, passes_eq_ok]

theorem ne_empty_of_tenant {value : String} (usable : tenant value = .ok ()) : value ≠ "" := by
  simp only [tenant, passes_eq_ok, refuse_eq_ok] at usable
  exact usable.1

namespace Decided

/-- An answer no record gives: the records of the agent disagree. -/
def Poisoned (decided : Decided) : Prop := decided.admits = false ∧ decided.tenant = ""

/-- What is held about an agent stands for what its records settle on. -/
def Stands (held : Option Decided) (settled : Option (Settled (Bool × String))) : Prop :=
  match held, settled with
  | none, none => True
  | some held, some settled =>
    held.revision = settled.revision ∧
      match settled.stands with
      | some value => value = (held.admits, held.tenant) ∧ held.tenant ≠ ""
      | none => held.Poisoned
  | _, _ => False

theorem Stands.unique {one other : Option Decided} {settled : Option (Settled (Bool × String))}
    (one_stands : Stands one settled) (other_stands : Stands other settled) : one = other := by
  obtain _ | ⟨revision, stands⟩ := settled
  · cases one <;> cases other <;> simp_all [Stands]
  · cases one <;> cases other <;> cases stands <;>
      simp_all [Stands, Poisoned, Decided.ext_iff]

theorem Stands.answer {held : Option Decided} {settled : Option (Settled (Bool × String))}
    (stands : Stands held settled) (placed : record.tenantId ≠ "") :
    Stands (some (Roster.answer held state record).1)
      (some (Settled.hear settled record.revision (State.admits state, record.tenantId))) := by
  cases settled with
  | none =>
    cases held with
    | none => exact ⟨rfl, rfl, placed⟩
    | some held => exact stands.elim
  | some settled =>
    cases held with
    | none => exact stands.elim
    | some held =>
      obtain ⟨level, said⟩ := stands
      simp only [Roster.answer, Settled.hear, ← level]
      rcases lt_trichotomy record.revision held.revision with lower | same | higher
      · rw [if_pos lower, if_pos lower]
        exact ⟨level, said⟩
      · -- At one revision the entry stays only where it stands for what the record says.
        have agrees : settled.stands = some (State.admits state, record.tenantId) ↔
            held.admits = State.admits state ∧ held.tenant = record.tenantId := by
          cases value : settled.stands with
          | none =>
            rw [value] at said
            simp only [reduceCtorEq, false_iff, not_and]
            exact fun _ tenant_eq => placed (tenant_eq ▸ said.2)
          | some value =>
            rw [value] at said
            simp [said.1]
        have not_lower : ¬ record.revision < held.revision := same.not_lt
        rw [if_neg not_lower, if_neg not_lower]
        by_cases admits_eq : held.admits = State.admits state
        · by_cases tenant_eq : held.tenant = record.tenantId
          · rw [if_neg (by simp [admits_eq]), if_neg (by simp [tenant_eq]),
              if_neg (by simp [agrees.mpr ⟨admits_eq, tenant_eq⟩])]
            exact ⟨rfl, rfl, placed⟩
          · rw [if_neg (by simp [admits_eq]), if_pos ⟨same, tenant_eq⟩,
              if_pos ⟨same, fun equal => tenant_eq (agrees.mp equal).2⟩]
            exact ⟨rfl, rfl, rfl⟩
        · rw [if_pos ⟨same, admits_eq⟩,
            if_pos ⟨same, fun equal => admits_eq (agrees.mp equal).1⟩]
          exact ⟨rfl, rfl, rfl⟩
      · rw [if_neg higher.not_gt, if_neg higher.not_gt, if_neg (by omega), if_neg (by omega),
          if_neg (by omega)]
        exact ⟨rfl, rfl, placed⟩

end Decided

namespace Roster

variable {roster : Roster}

theorem lookup_apply (reads : readable record = .ok state) (agentId : String) :
    (roster.apply record).1.known.lookup agentId =
      if agentId = record.agentId then
        some (answer (roster.known.lookup record.agentId) state record).1
      else roster.known.lookup agentId := by
  rw [apply, reads]
  exact FiniteMap.lookup_insert _ _ _ _

def admits (record : Admission) : Bool :=
  match State.fromWire record.state with
  | none => false
  | some state => State.admits state

def saidOf (agentId : String) (records : List Admission) : List (ℕ × Bool × String) :=
  (records.filter fun record => record.agentId = agentId).map fun record =>
    (record.revision, admits record, record.tenantId)

variable {records : List Admission}

theorem applyAll_stands (reads : ∀ record ∈ records, Readable record) (agentId : String) :
    Decided.Stands ((empty.applyAll records).known.lookup agentId)
      (Settled.hearAll none (saidOf agentId records)) := by
  -- The records are applied from the front, so the list is taken apart from the back.
  induction records using List.reverseRecOn with
  | nil => trivial
  | append_singleton records record ih =>
    have before := ih fun other member => reads other (List.mem_append_left _ member)
    obtain ⟨state, reads_state⟩ := reads record (by simp)
    obtain ⟨-, state_eq, placed⟩ := readable_eq_ok.mp reads_state
    have admits_eq : admits record = State.admits state := by simp [admits, state_eq, State.fromWire]
    rw [applyAll, List.foldl_append, List.foldl_cons, List.foldl_nil, lookup_apply reads_state]
    by_cases about : agentId = record.agentId
    · subst about
      have said_eq : saidOf record.agentId (records ++ [record]) =
          saidOf record.agentId records ++
            [(record.revision, State.admits state, record.tenantId)] := by
        simp [saidOf, admits_eq]
      rw [if_pos rfl, said_eq, Settled.hearAll, List.foldl_append]
      exact before.answer (ne_empty_of_tenant placed)
    · have said_eq : saidOf agentId (records ++ [record]) = saidOf agentId records := by
        simp [saidOf, Ne.symm about]
      rw [if_neg about, said_eq]
      exact before

variable {agentId : String}

theorem tenant_eq_some_iff {tenantId : String} {settled : Option (Settled (Bool × String))}
    (stands : Decided.Stands (roster.known.lookup agentId) settled) :
    roster.tenant agentId = some tenantId ↔
      settled.bind Settled.stands = some (true, tenantId) := by
  unfold tenant
  cases held : roster.known.lookup agentId with
  | none =>
    rw [held] at stands
    cases settled with
    | none => simp
    | some settled => exact stands.elim
  | some decided =>
    rw [held] at stands
    cases settled with
    | none => exact stands.elim
    | some settled =>
      obtain ⟨-, said⟩ := stands
      cases value : settled.stands with
      | none =>
        rw [value] at said
        simp [said.1, value]
      | some value =>
        rw [value] at said
        simp [said.1, value]

theorem lookup_applyAll_eq {others : List Admission} (reads : ∀ record ∈ records, Readable record)
    (same : ∀ record, record ∈ records ↔ record ∈ others) (agentId : String) :
    (empty.applyAll records).known.lookup agentId =
      (empty.applyAll others).known.lookup agentId := by
  have said_same : ∀ spoken, spoken ∈ saidOf agentId records ↔ spoken ∈ saidOf agentId others := by
    intro spoken
    simp [saidOf, same]
  have stands := applyAll_stands reads agentId
  rw [Settled.hearAll_eq_of_mem_iff said_same] at stands
  exact stands.unique
    (applyAll_stands (fun record member => reads record ((same record).mpr member)) agentId)

theorem tenant_applyAll_iff (reads : ∀ record ∈ records, Readable record)
    (agentId tenantId : String) :
    (empty.applyAll records).tenant agentId = some tenantId ↔
      (∃ record ∈ records, record.agentId = agentId) ∧
      ∀ record ∈ records, record.agentId = agentId →
        (∀ other ∈ records, other.agentId = agentId → other.revision ≤ record.revision) →
        admits record = true ∧ record.tenantId = tenantId := by
  rw [tenant_eq_some_iff (applyAll_stands reads agentId),
    (Settled.of_hearAll (saidOf agentId records)).stands_iff]
  have said_iff : ∀ revision spoken, (revision, spoken) ∈ saidOf agentId records ↔
      ∃ record ∈ records, record.agentId = agentId ∧ record.revision = revision ∧
        (admits record, record.tenantId) = spoken := by
    intro revision spoken
    simp [saidOf, and_assoc, Prod.ext_iff]
  simp only [said_iff]
  constructor
  · rintro ⟨⟨revision, spoken, record, member, about, -⟩, all⟩
    refine ⟨⟨record, member, about⟩, fun record member about top => ?_⟩
    have spoken_eq := all record.revision _ ⟨record, member, about, rfl, rfl⟩ ?_
    · exact Prod.ext_iff.mp spoken_eq
    · rintro revision heard ⟨other, other_mem, other_about, rfl, -⟩
      exact top other other_mem other_about
  · rintro ⟨⟨record, member, about⟩, all⟩
    refine ⟨⟨_, _, record, member, about, rfl, rfl⟩, ?_⟩
    rintro revision spoken ⟨record, member, about, rfl, rfl⟩ top
    have admitted := all record member about fun other other_mem other_about =>
      top _ _ ⟨other, other_mem, other_about, rfl, rfl⟩
    exact Prod.ext admitted.1 admitted.2

/-- Any two readings of the same records, in any order and with any repetition, hold the same about
every agent, and admit an agent into a tenant exactly when every record of its highest revision is
in an admitting state and names the tenant. -/
theorem applyAll_settles {records others : List Admission}
    (reads : ∀ record ∈ records, Readable record)
    (same : ∀ record, record ∈ records ↔ record ∈ others) :
    (∀ agentId, (empty.applyAll records).known.lookup agentId =
      (empty.applyAll others).known.lookup agentId) ∧
    ∀ agentId tenantId, (empty.applyAll records).tenant agentId = some tenantId ↔
      (∃ record ∈ records, record.agentId = agentId) ∧
      ∀ record ∈ records, record.agentId = agentId →
        (∀ other ∈ records, other.agentId = agentId → other.revision ≤ record.revision) →
        admits record = true ∧ record.tenantId = tenantId :=
  ⟨lookup_applyAll_eq reads same, tenant_applyAll_iff reads⟩

def sensorAdmission (state : AgentState) (revision : ℕ) : Admission :=
  ⟨"sensor-1", "acme", .named state, revision, .unset⟩

theorem readable_sensorAdmission (state : AgentState) (revision : ℕ) :
    Readable (sensorAdmission state revision) := by
  have usable : Agent.tenant "acme" = .ok () := by
    simp only [Agent.tenant, passes_eq_ok, refuse_eq_ok]
    decide +kernel
  exact ⟨state, readable_eq_ok.mpr ⟨by simp [sensorAdmission], rfl, usable⟩⟩

/-- Two control planes that decide one revision differently leave the sensor refused, until a later
revision admits it. -/
theorem applyAll_settles_sensor :
    (empty.applyAll [sensorAdmission .active 2, sensorAdmission .revoked 2,
      sensorAdmission .active 2]).tenant "sensor-1" = none ∧
    (empty.applyAll [sensorAdmission .active 3, sensorAdmission .revoked 2,
      sensorAdmission .active 2]).tenant "sensor-1" = some "acme" := by
  constructor
  · decide +kernel
  · refine ((applyAll_settles ?_ fun _ => Iff.rfl).2 "sensor-1" "acme").mpr (by decide +kernel)
    simp [readable_sensorAdmission]

/-- A record of the log that can be read under its own key. -/
def Logged.Keyed (record : Logged) : Prop :=
  ∃ admission, record.value = some admission ∧ admission.agentId = record.key ∧ Readable admission

theorem answer_refused {held : Option Decided} {failure : Failure}
    (refused : (answer held state record).2 = some failure) :
    (answer held state record).1.admits = false := by
  unfold answer at refused ⊢
  cases held with
  | none => cases refused
  | some held =>
    simp only at refused ⊢
    split_ifs at refused ⊢ <;> rfl

theorem lookup_refuse {held : Decided} (found : roster.known.lookup agentId = some held)
    (refused : held.admits = false) (other : String) :
    (roster.refuse agentId).known.lookup other = roster.known.lookup other := by
  unfold refuse
  split
  · rfl
  · simp only [found, Option.getD_some, FiniteMap.lookup_insert]
    split
    · rename_i same
      rw [same, found, ← refused]
    · rfl

theorem applying_keyed {one other : Roster} {record : Logged} {admission : Admission}
    (value_eq : record.value = some admission) (about : admission.agentId = record.key)
    (reads : Readable admission)
    (same : ∀ agentId, one.known.lookup agentId = other.known.lookup agentId) :
    ∃ after, one.applying record = some after ∧ ∀ agentId,
      after.known.lookup agentId = (other.apply admission).1.known.lookup agentId := by
  obtain ⟨state, reads⟩ := reads
  have applied : ∀ agentId, (one.apply admission).1.known.lookup agentId =
      (other.apply admission).1.known.lookup agentId := by
    intro agentId
    rw [lookup_apply reads, lookup_apply reads, same, same]
  have read_eq : one.read record =
      ((one.apply admission).1, (one.apply admission).2.map .refused) := by
    rw [read, value_eq]
    simp [about]
  have names : record.key ≠ "" := about ▸ (readable_eq_ok.mp reads).1
  rw [applying, read_eq]
  cases failed : (one.apply admission).2 with
  | none => exact ⟨_, rfl, applied⟩
  | some failure =>
    refine ⟨(one.apply admission).1.refuse record.key, if_neg names, fun agentId => ?_⟩
    have found : (one.apply admission).1.known.lookup record.key =
        some (answer (one.known.lookup admission.agentId) state admission).1 := by
      rw [lookup_apply reads, if_pos about.symm]
    rw [apply, reads] at failed
    rw [lookup_refuse found (answer_refused failed), applied]

theorem replay_keyed {log : List Logged} (keyed : ∀ record ∈ log, record.Keyed) :
    ∃ roster, empty.replay log = some roster ∧ ∀ agentId,
      roster.known.lookup agentId =
        (empty.applyAll (log.filterMap Logged.value)).known.lookup agentId := by
  suffices general : ∀ one other : Roster,
      (∀ agentId, one.known.lookup agentId = other.known.lookup agentId) →
      ∃ roster, one.replay log = some roster ∧ ∀ agentId,
        roster.known.lookup agentId =
          (other.applyAll (log.filterMap Logged.value)).known.lookup agentId from
    general empty empty fun _ => rfl
  induction log with
  | nil => exact fun one other same => ⟨one, rfl, same⟩
  | cons record log ih =>
    intro one other same
    obtain ⟨admission, value_eq, about, reads⟩ := keyed record (by simp)
    obtain ⟨after, taken, after_same⟩ := applying_keyed value_eq about reads same
    obtain ⟨roster, replayed, roster_same⟩ :=
      ih (fun record member => keyed record (List.mem_cons_of_mem _ member)) after _ after_same
    refine ⟨roster, by rw [replay, taken]; exact replayed, fun agentId => ?_⟩
    rw [roster_same, List.filterMap_cons_some value_eq]
    rfl

theorem tenant_eq_of_lookup {one other : Roster}
    (same : one.known.lookup agentId = other.known.lookup agentId) :
    one.tenant agentId = other.tenant agentId := by
  rw [tenant, tenant, same]

end Roster
end Seagull.Agent
