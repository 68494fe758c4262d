import Seagull.Agent.Lifecycle
import Seagull.Agent.Roster
import Seagull.Foundation.CompactedLog

/-!
# How a decision reaches the gateways

The registry is written first and the log after it; what the log was not told is carried again by a
sweep.  Control planes run at once, any of them can stop or be late, and the log can be compacted at
any time.  A record carried too late is what compaction leaves, and re-admits an agent that was
revoked.
-/

namespace Seagull.Agent

open Contract CompactedLog

/-! ## The registry and the log -/

/-- A row of the registry. -/
structure Row where
  agent : Agent
  /-- The highest revision the log is known to have been told. -/
  publishedRevision : ℕ
  deriving DecidableEq

/-- Whether the log was not told what the registry last decided. -/
def Row.outstanding (row : Row) : Bool := row.publishedRevision < row.agent.revision

/-- An instant as the store keeps it, to the microsecond. -/
def keptInstant (stamp : Timestamp) : Timestamp := Timestamp.new (stamp.asTime / 1000 * 1000)

/-- What the store says of a row the log was not told about. -/
def Row.restoreAdmission (row : Row) : Admission :=
  { admission row.agent with changedAt := keptInstant row.agent.changedAt }

def defaultPageSize : ℤ := 50
def maxPageSize : ℤ := 500

abbrev Rows := FiniteMap String Row

/-- The rows the log was not told about. -/
def outstandingRows (rows : Rows) : List Row :=
  (rows.entries.map Prod.snd).filter Row.outstanding

/-- The oldest outstanding agents, as many as were asked for. -/
def Outstanding (rows : Rows) (limit : ℤ) (answer : List Row) : Prop :=
  answer.Nodup ∧ (∀ row ∈ answer, row ∈ outstandingRows rows) ∧
    answer.Pairwise (fun one next =>
      (keptInstant one.agent.changedAt).asTime ≤ (keptInstant next.agent.changedAt).asTime) ∧
    (∀ row ∈ outstandingRows rows, row ∉ answer → ∀ older ∈ answer,
      (keptInstant older.agent.changedAt).asTime ≤ (keptInstant row.agent.changedAt).asTime) ∧
    answer.length = min (min (if limit ≤ 0 then defaultPageSize else limit) maxPageSize).toNat
      (outstandingRows rows).length

instance (rows : Rows) (limit : ℤ) (answer : List Row) : Decidable (Outstanding rows limit answer) :=
  inferInstanceAs (Decidable (_ ∧ _))

/-- Record that the log was told a revision. -/
def announced (rows : Rows) (agentId : String) (revision : ℕ) : Rows :=
  match rows.lookup agentId with
  | none => rows
  | some row =>
    if row.publishedRevision < revision then
      rows.insert agentId { row with publishedRevision := revision }
    else rows

def publish (record : Admission) : Roster.Logged := ⟨record.agentId, some record⟩

/-! ## The control planes -/

/-- Records a control plane is carrying to the log, one after another. -/
structure Carrying where
  record : Admission
  /-- Whether the log took it and the registry is to be told. -/
  published : Bool
  rest : List Admission

def Carrying.start : List Admission → List Carrying
  | [] => []
  | record :: rest => [⟨record, false, rest⟩]

/-- The records the log has not taken yet. -/
def Carrying.unpublished (carrying : Carrying) : List Admission :=
  if carrying.published then carrying.rest else carrying.record :: carrying.rest

/-- The registry, the log, and what is being carried from one to the other. -/
structure Plane where
  rows : Rows
  log : List Roster.Logged
  carried : List Carrying

/-- What happens to the registry and the log. -/
inductive Action where
  /-- An agent is registered, and what was decided begins to be carried. -/
  | register (asked : Registration) (actor : String) (instant : ℤ)
  /-- An agent is moved, and what was decided begins to be carried. -/
  | move (agentId : String) (move : Move)
  /-- An announcer reads what is outstanding and begins to carry it. -/
  | sweep (limit : ℤ) (answer : List Row)
  /-- The log takes the record one carrier carries. -/
  | publish (carrier : ℕ)
  | announce (carrier : ℕ)
  /-- A carrier stops for good, whatever it still carries. -/
  | crash (carrier : ℕ)
  /-- The log is compacted. -/
  | compact (kept : List Roster.Logged)

namespace Plane

/-- A registry of nobody, and nothing told. -/
def empty : Plane := ⟨FiniteMap.empty, [], []⟩

/-- A carrier in the place of another, or none where nothing is left to carry. -/
def replace (plane : Plane) (carrier : ℕ) (after : List Carrying) : List Carrying :=
  plane.carried.take carrier ++ after ++ plane.carried.drop (carrier + 1)

def step (plane : Plane) : Action → Option Plane
  | .register asked actor instant =>
    match Agent.register asked actor instant, plane.rows.lookup asked.agentId with
    | .ok (registered, _), none =>
      some { plane with
        rows := plane.rows.insert asked.agentId ⟨registered, 0⟩
        carried := plane.carried ++ Carrying.start [admission registered] }
    | _, _ => none
  | .move agentId move =>
    match plane.rows.lookup agentId with
    | none => none
    | some row =>
      match Agent.apply row.agent move with
      | .error _ => none
      | .ok (moved, _) =>
        some { plane with
          rows := plane.rows.insert agentId { row with agent := moved }
          carried := plane.carried ++ Carrying.start [admission moved] }
  | .sweep limit answer =>
    if Outstanding plane.rows limit answer then
      some { plane with
        carried := plane.carried ++ Carrying.start (answer.map Row.restoreAdmission) }
    else none
  | .publish carrier =>
    match plane.carried[carrier]? with
    | some ⟨record, false, rest⟩ =>
      if record.agentId = "" then none
      else
        some { plane with
          log := plane.log ++ [Agent.publish record]
          carried := plane.replace carrier [⟨record, true, rest⟩] }
    | _ => none
  | .announce carrier =>
    match plane.carried[carrier]? with
    | some ⟨record, true, rest⟩ =>
      some { plane with
        rows := announced plane.rows record.agentId record.revision
        carried := plane.replace carrier (Carrying.start rest) }
    | _ => none
  | .crash carrier =>
    match plane.carried[carrier]? with
    | some _ => some { plane with carried := plane.replace carrier [] }
    | none => none
  | .compact kept =>
    if Compacts Roster.Logged.key kept plane.log then some { plane with log := kept } else none

/-- No agent is outstanding, and no record is on its way to the log. -/
def Quiet (plane : Plane) : Prop :=
  (∀ agentId row, plane.rows.lookup agentId = some row →
    row.publishedRevision = row.agent.revision) ∧
  ∀ carrying ∈ plane.carried, carrying.unpublished = []

instance (plane : Plane) : Decidable plane.Quiet :=
  decidable_of_iff
    ((∀ entry ∈ plane.rows.entries, entry.2.publishedRevision = entry.2.agent.revision) ∧
      ∀ carrying ∈ plane.carried, carrying.unpublished = [])
    (and_congr_left fun _ => by simp only [Prod.forall, FiniteMap.mem_entries_iff])

end Plane

def announcing : System Plane Action where
  starts plane := plane = .empty
  step := Plane.step

/-! ## What a step keeps -/

def revisionOf (record : Roster.Logged) : ℕ := (record.value.map Admission.revision).getD 0

def Told (log : List Roster.Logged) (agentId : String) (revision : ℕ) : Prop :=
  ∃ record ∈ log, record.key = agentId ∧ revision ≤ revisionOf record

/-- A record says what the registry holds, or held at an earlier revision. -/
structure Known (rows : Rows) (record : Admission) (row : Row) : Prop where
  found : rows.lookup record.agentId = some row
  earlier : record.revision ≤ row.agent.revision
  current : record.revision = row.agent.revision → record.state = row.agent.state
  tenant_eq : record.tenantId = row.agent.tenantId
  readable : Readable record

/-- What holds of the registry, of the log and of what is carried between them. -/
structure Consistent (plane : Plane) : Prop where
  /-- A row is what was decided about its agent, and the log was told no more than that. -/
  rows : ∀ agentId row, plane.rows.lookup agentId = some row →
    row.agent.agentId = agentId ∧ Readable (admission row.agent) ∧ 0 < row.agent.revision ∧
      row.publishedRevision ≤ row.agent.revision
  logged : ∀ record ∈ plane.log, ∃ told, record = publish told ∧ ∃ row, Known plane.rows told row
  carried : ∀ carrying ∈ plane.carried, ∀ record ∈ carrying.record :: carrying.rest,
    ∃ row, Known plane.rows record row
  taken : ∀ carrying ∈ plane.carried, carrying.published = true →
    Told plane.log carrying.record.agentId carrying.record.revision
  told : ∀ agentId row, plane.rows.lookup agentId = some row → 0 < row.publishedRevision →
    Told plane.log agentId row.publishedRevision
  ordered : Ordered Roster.Logged.key revisionOf plane.log

def Grows (rows after : Rows) : Prop :=
  ∀ agentId row, rows.lookup agentId = some row →
    ∃ later, after.lookup agentId = some later ∧ later.agent.tenantId = row.agent.tenantId ∧
      (later.agent = row.agent ∨ row.agent.revision < later.agent.revision)

theorem Grows.refl (rows : Rows) : Grows rows rows := fun _ row found => ⟨row, found, rfl, .inl rfl⟩

variable {rows : Rows} {row : Row}

theorem Known.grows {after : Rows} {record : Admission} (known : Known rows record row)
    (grows : Grows rows after) : ∃ later, Known after record later := by
  obtain ⟨later, found, tenant_eq, same | above⟩ := grows _ row known.found
  · exact ⟨later, found, same ▸ known.earlier, same ▸ known.current, known.tenant_eq.trans tenant_eq.symm,
      known.readable⟩
  · have earlier := known.earlier
    exact ⟨later, found, by omega, by omega, known.tenant_eq.trans tenant_eq.symm, known.readable⟩

variable {agentId : String} {revision : ℕ}

theorem Told.append {log : List Roster.Logged} (told : Told log agentId revision)
    (record : Roster.Logged) : Told (log ++ [record]) agentId revision := by
  obtain ⟨before, member, about, above⟩ := told
  exact ⟨before, List.mem_append_left _ member, about, above⟩

theorem Told.compacts {log kept : List Roster.Logged} (told : Told log agentId revision)
    (ordered : Ordered Roster.Logged.key revisionOf log)
    (compacts : Compacts Roster.Logged.key kept log) : Told kept agentId revision := by
  obtain ⟨before, member, about, above⟩ := told
  obtain ⟨left, left_mem, left_key, left_above⟩ := compacts.reaches ordered member
  exact ⟨left, left_mem, left_key.trans about, above.trans left_above⟩

namespace Plane

theorem mem_replace {plane : Plane} {carrier : ℕ} {after : List Carrying} {carrying : Carrying}
    (member : carrying ∈ plane.replace carrier after) :
    carrying ∈ after ∨ carrying ∈ plane.carried := by
  simp only [replace, List.mem_append] at member
  rcases member with (front | itself) | back
  · exact .inr (List.mem_of_mem_take front)
  · exact .inl itself
  · exact .inr (List.mem_of_mem_drop back)

theorem mem_start {records : List Admission} {carrying : Carrying}
    (member : carrying ∈ Carrying.start records) :
    carrying.published = false ∧ carrying.record :: carrying.rest = records := by
  cases records with
  | nil => cases member
  | cons record rest => simp_all [Carrying.start]

end Plane

variable {plane : Plane}

section

variable (consistent : Consistent plane)

include consistent

theorem Consistent.extend (records : List Admission)
    {carried : List Carrying} (grows : Grows plane.rows rows)
    (rows_wf : ∀ agentId row, rows.lookup agentId = some row →
      row.agent.agentId = agentId ∧ Readable (admission row.agent) ∧ 0 < row.agent.revision ∧
        row.publishedRevision ≤ row.agent.revision ∧
        (0 < row.publishedRevision → Told plane.log agentId row.publishedRevision))
    (known : ∀ record ∈ records, ∃ row, Known rows record row)
    (carried_mem : ∀ carrying ∈ carried, carrying ∈ plane.carried ∨
      carrying ∈ Carrying.start records) :
    Consistent { plane with rows := rows, carried := carried } where
  rows := fun agentId row found =>
    have wf := rows_wf agentId row found
    ⟨wf.1, wf.2.1, wf.2.2.1, wf.2.2.2.1⟩
  logged := by
    intro record member
    obtain ⟨told, record_eq, row, known⟩ := consistent.logged record member
    exact ⟨told, record_eq, known.grows grows⟩
  carried := by
    intro carrying member record record_mem
    rcases carried_mem carrying member with before | started
    · obtain ⟨row, known⟩ := consistent.carried carrying before record record_mem
      exact known.grows grows
    · rw [(Plane.mem_start started).2] at record_mem
      exact known record record_mem
  taken := by
    intro carrying member published
    rcases carried_mem carrying member with before | started
    · exact consistent.taken carrying before published
    · rw [(Plane.mem_start started).1] at published
      cases published
  told := fun agentId row found => (rows_wf agentId row found).2.2.2.2
  ordered := consistent.ordered

theorem Consistent.decide (about : row.agent.agentId = agentId)
    (readable : Readable (admission row.agent)) (positive : 0 < row.agent.revision)
    (published : row.publishedRevision ≤ row.agent.revision)
    (told : 0 < row.publishedRevision → Told plane.log agentId row.publishedRevision)
    (grows : ∀ before, plane.rows.lookup agentId = some before →
      row.agent.tenantId = before.agent.tenantId ∧ before.agent.revision < row.agent.revision) :
    Consistent { plane with
      rows := plane.rows.insert agentId row
      carried := plane.carried ++ Carrying.start [admission row.agent] } := by
  refine consistent.extend [admission row.agent] ?_ ?_ ?_ ?_
  · intro other before found
    rw [FiniteMap.lookup_insert]
    by_cases same : other = agentId
    · subst same
      obtain ⟨tenant_eq, above⟩ := grows before found
      exact ⟨row, if_pos rfl, tenant_eq, .inr above⟩
    · exact ⟨before, by rw [if_neg same, found], rfl, .inl rfl⟩
  · intro other held found
    rw [FiniteMap.lookup_insert] at found
    split at found
    · rename_i same
      subst same
      cases found
      exact ⟨about, readable, positive, published, told⟩
    · have wf := consistent.rows other held found
      exact ⟨wf.1, wf.2.1, wf.2.2.1, wf.2.2.2, consistent.told other held found⟩
  · intro record record_mem
    rw [List.mem_singleton.mp record_mem]
    refine ⟨row, ?_, le_rfl, fun _ => rfl, rfl, readable⟩
    rw [show (admission row.agent).agentId = agentId from about, FiniteMap.lookup_insert_self]
  · intro carrying member
    exact List.mem_append.mp member

variable {after : Plane}

theorem Consistent.register {asked : Registration} {actor : String} {instant : ℤ}
    (stepped : plane.step (.register asked actor instant) = some after) : Consistent after := by
  simp only [Plane.step] at stepped
  split at stepped
  · rename_i made line accepted unknown
    cases stepped
    obtain ⟨usable, placed, rfl, -⟩ := register_eq_ok accepted
    refine consistent.decide rfl ⟨.pending, readable_eq_ok.mpr ⟨?_, rfl, placed⟩⟩ one_pos
      (Nat.zero_le _) (fun positive => absurd positive (lt_irrefl 0)) ?_
    · rintro (empty : asked.agentId = "")
      rw [empty] at usable
      exact absurd usable (by decide)
    · intro before found
      rw [unknown] at found
      cases found
  · cases stepped

theorem Consistent.move {move : Move} (stepped : plane.step (.move agentId move) = some after)
    : Consistent after := by
  simp only [Plane.step] at stepped
  split at stepped
  · cases stepped
  · rename_i row found
    split at stepped
    · cases stepped
    · rename_i moved line applied
      cases stepped
      obtain ⟨state, -, rfl, -⟩ := apply_eq_ok_iff.mp applied
      obtain ⟨about, ⟨before, readable⟩, positive, published⟩ := consistent.rows agentId row found
      obtain ⟨names, -, placed⟩ := readable_eq_ok.mp readable
      refine consistent.decide about
        ⟨move.result state, readable_eq_ok.mpr ⟨names, rfl, placed⟩⟩ (Nat.succ_pos _)
        (published.trans (Nat.le_succ _)) (consistent.told agentId row found) ?_
      intro other other_found
      rw [found] at other_found
      cases other_found
      exact ⟨rfl, Nat.lt_succ_self _⟩

theorem Consistent.sweep {limit : ℤ} {answer : List Row}
    (stepped : plane.step (.sweep limit answer) = some after) :
    Consistent after := by
  simp only [Plane.step] at stepped
  split at stepped
  · rename_i outstanding
    cases stepped
    refine consistent.extend (answer.map Row.restoreAdmission) (Grows.refl _) ?_ ?_ ?_
    · intro agentId row found
      have wf := consistent.rows agentId row found
      exact ⟨wf.1, wf.2.1, wf.2.2.1, wf.2.2.2, consistent.told agentId row found⟩
    · intro record record_mem
      obtain ⟨row, row_mem, rfl⟩ := List.mem_map.mp record_mem
      have read := outstanding.2.1 row row_mem
      simp only [outstandingRows, List.mem_filter, List.mem_map] at read
      obtain ⟨⟨⟨agentId, held⟩, entry, rfl⟩, -⟩ := read
      have found := (FiniteMap.mem_entries_iff _ _ _).mp entry
      obtain ⟨about, ⟨state, readable⟩, -⟩ := consistent.rows agentId held found
      exact ⟨held, (congrArg plane.rows.lookup about).trans found, le_rfl, fun _ => rfl, rfl,
        state, readable_eq_ok.mpr (readable_eq_ok.mp readable)⟩
    · intro carrying member
      exact List.mem_append.mp member
  · cases stepped

variable {carrier : ℕ}

theorem Consistent.publish (stepped : plane.step (.publish carrier) = some after)
    (in_order : ∀ carrying ∈ plane.carried[carrier]?, ∀ before ∈ plane.log,
      before.key = carrying.record.agentId → revisionOf before ≤ carrying.record.revision) :
    Consistent after := by
  simp only [Plane.step] at stepped
  split at stepped
  · rename_i record rest carried
    split at stepped
    · cases stepped
    · cases stepped
      have carried_mem := List.mem_of_getElem? carried
      refine ⟨consistent.rows, ?_, ?_, ?_, ?_, consistent.ordered.append (in_order _ carried)⟩
      · intro logged member
        rcases List.mem_append.mp member with before | new
        · exact consistent.logged logged before
        · rw [List.mem_singleton.mp new]
          exact ⟨record, rfl, consistent.carried _ carried_mem record (by simp)⟩
      · intro carrying member other other_mem
        rcases Plane.mem_replace member with itself | before
        · rw [List.mem_singleton.mp itself] at other_mem
          exact consistent.carried _ carried_mem other other_mem
        · exact consistent.carried carrying before other other_mem
      · intro carrying member published
        rcases Plane.mem_replace member with itself | before
        · rw [List.mem_singleton.mp itself]
          exact ⟨Agent.publish record, by simp, rfl, le_rfl⟩
        · exact (consistent.taken carrying before published).append _
      · exact fun agentId row found positive => (consistent.told agentId row found positive).append _
  · cases stepped

omit consistent in
theorem lookup_announced {other : String}
    (found : (announced rows agentId revision).lookup other = some row) :
    ∃ before, rows.lookup other = some before ∧ row.agent = before.agent ∧
      (row.publishedRevision = before.publishedRevision ∨
        other = agentId ∧ row.publishedRevision = revision) := by
  unfold announced at found
  split at found
  · exact ⟨row, found, rfl, .inl rfl⟩
  · rename_i held held_found
    split at found
    · rw [FiniteMap.lookup_insert] at found
      split at found
      · rename_i same
        cases found
        exact ⟨held, same ▸ held_found, rfl, .inr ⟨same, rfl⟩⟩
      · exact ⟨row, found, rfl, .inl rfl⟩
    · exact ⟨row, found, rfl, .inl rfl⟩

omit consistent in
theorem grows_announced (rows : Rows) (agentId : String) (revision : ℕ) :
    Grows rows (announced rows agentId revision) := by
  intro other row found
  unfold announced
  split
  · exact ⟨row, found, rfl, .inl rfl⟩
  · rename_i held held_found
    split
    · rw [FiniteMap.lookup_insert]
      split
      · rename_i same
        have held_eq : held = row := by simpa [same, held_found] using found
        exact ⟨_, rfl, by rw [held_eq], .inl (by rw [held_eq])⟩
      · exact ⟨row, found, rfl, .inl rfl⟩
    · exact ⟨row, found, rfl, .inl rfl⟩

theorem Consistent.announce (stepped : plane.step (.announce carrier) = some after)
    : Consistent after := by
  simp only [Plane.step] at stepped
  split at stepped
  · rename_i record rest carried
    cases stepped
    have carried_mem := List.mem_of_getElem? carried
    refine consistent.extend rest (grows_announced _ _ _) ?_ ?_ ?_
    · intro agentId row found
      obtain ⟨before, before_found, agent_eq, published⟩ := lookup_announced found
      have wf := consistent.rows agentId before before_found
      refine ⟨agent_eq ▸ wf.1, agent_eq ▸ wf.2.1, agent_eq ▸ wf.2.2.1, ?_, ?_⟩
      · rcases published with same | ⟨rfl, told⟩
        · rw [same, agent_eq]
          exact wf.2.2.2
        · obtain ⟨held, known⟩ := consistent.carried _ carried_mem record (by simp)
          have held_eq : held = before := by simpa [known.found] using before_found
          rw [told, agent_eq, ← held_eq]
          exact known.earlier
      · rcases published with same | ⟨rfl, told⟩
        · rw [same]
          exact consistent.told agentId before before_found
        · rw [told]
          exact fun _ => consistent.taken _ carried_mem rfl
    · intro other other_mem
      obtain ⟨row, known⟩ := consistent.carried _ carried_mem other (by simp [other_mem])
      exact known.grows (grows_announced _ _ _)
    · intro carrying member
      exact (Plane.mem_replace member).symm
  · cases stepped

theorem Consistent.crash (stepped : plane.step (.crash carrier) = some after)
    : Consistent after := by
  simp only [Plane.step] at stepped
  split at stepped
  · cases stepped
    have fewer : ∀ carrying ∈ plane.replace carrier [], carrying ∈ plane.carried := by
      intro carrying member
      exact (Plane.mem_replace member).resolve_left (by simp)
    exact ⟨consistent.rows, consistent.logged, fun carrying member =>
      consistent.carried carrying (fewer carrying member), fun carrying member =>
      consistent.taken carrying (fewer carrying member), consistent.told, consistent.ordered⟩
  · cases stepped

theorem Consistent.compact {kept : List Roster.Logged}
    (stepped : plane.step (.compact kept) = some after) :
    Consistent after := by
  simp only [Plane.step] at stepped
  split at stepped
  · rename_i compacts
    cases stepped
    exact ⟨consistent.rows, fun record member =>
      consistent.logged record (compacts.1.subset member), consistent.carried,
      fun carrying member published =>
        (consistent.taken carrying member published).compacts consistent.ordered compacts,
      fun agentId row found positive =>
        (consistent.told agentId row found positive).compacts consistent.ordered compacts,
      consistent.ordered.compacts compacts⟩
  · cases stepped

end


/-! ## Whole runs -/

/-- A record reaches the log in order: the log holds no later one of its agent. -/
def InOrder (plane : Plane) : Action → Prop
  | .publish carrier => ∀ carrying ∈ plane.carried[carrier]?, ∀ before ∈ plane.log,
      before.key = carrying.record.agentId → revisionOf before ≤ carrying.record.revision
  | _ => True

instance (plane : Plane) (action : Action) : Decidable (InOrder plane action) :=
  match action with
  | .publish carrier => inferInstanceAs (Decidable (∀ carrying ∈ plane.carried[carrier]?, _))
  | .register .. | .move .. | .sweep .. | .announce .. | .crash .. | .compact .. => .isTrue trivial

theorem consistent_of_reaches (reaches : announcing.ReachesUnder InOrder plane) :
    Consistent plane := by
  refine reaches.invariant ?_ ?_
  · rintro start rfl
    constructor <;> simp [Plane.empty, Ordered]
  · intro before action after consistent in_order stepped
    cases action with
    | register => exact consistent.register stepped
    | move => exact consistent.move stepped
    | sweep => exact consistent.sweep stepped
    | publish => exact consistent.publish stepped in_order
    | announce => exact consistent.announce stepped
    | crash => exact consistent.crash stepped
    | compact => exact consistent.compact stepped

/-- Where records reach the log in order, a gateway that replays what is left of the log once
nothing is outstanding or on its way admits an agent only if the registry does, and only into its
tenant there. -/
theorem revocation_reaches_gateways {plane : Plane} (reaches : announcing.ReachesUnder InOrder plane)
    (quiet : plane.Quiet) :
    ∃ roster, Roster.empty.replay plane.log = some roster ∧
      ∀ agentId tenantId, roster.tenant agentId = some tenantId →
        ∃ row state, plane.rows.lookup agentId = some row ∧ row.agent.state = .named state ∧
          State.admits state = true ∧ row.agent.tenantId = tenantId := by
  have consistent := consistent_of_reaches reaches
  have keyed : ∀ record ∈ plane.log, record.Keyed := by
    intro record member
    obtain ⟨told, rfl, row, known⟩ := consistent.logged record member
    exact ⟨told, rfl, rfl, known.readable⟩
  obtain ⟨roster, replayed, same⟩ := Roster.replay_keyed keyed
  refine ⟨roster, replayed, fun agentId tenantId admitted => ?_⟩
  have known_of_mem : ∀ record ∈ plane.log.filterMap Roster.Logged.value,
      ∃ row, Known plane.rows record row := by
    intro record member
    obtain ⟨logged, logged_mem, value_eq⟩ := List.mem_filterMap.mp member
    obtain ⟨told, rfl, known⟩ := consistent.logged logged logged_mem
    cases value_eq
    exact known
  rw [Roster.tenant_eq_of_lookup (same agentId)] at admitted
  obtain ⟨⟨one, one_mem, one_about⟩, highest⟩ := (Roster.tenant_applyAll_iff
    (fun record member => (known_of_mem record member).elim fun _ known => known.readable)
    agentId tenantId).mp admitted
  obtain ⟨row, one_known⟩ := known_of_mem one one_mem
  have found : plane.rows.lookup agentId = some row := one_about ▸ one_known.found
  obtain ⟨-, -, positive, -⟩ := consistent.rows agentId row found
  -- Nothing is outstanding, so the log was told what the registry decided last.
  have published := quiet.1 agentId row found
  obtain ⟨logged, logged_mem, about, above⟩ :=
    consistent.told agentId row found (published ▸ positive)
  obtain ⟨told, rfl, other, told_known⟩ := consistent.logged logged logged_mem
  have about : told.agentId = agentId := about
  have above : row.publishedRevision ≤ told.revision := above
  have row_eq : other = row := by
    have other_found := told_known.found
    rw [about, found] at other_found
    exact (Option.some.inj other_found).symm
  subst row_eq
  have current : told.revision = other.agent.revision := by
    have earlier := told_known.earlier
    omega
  have last := highest told (List.mem_filterMap.mpr ⟨_, logged_mem, rfl⟩) about ?_
  · obtain ⟨state, readable⟩ := told_known.readable
    obtain ⟨-, state_eq, -⟩ := readable_eq_ok.mp readable
    refine ⟨other, state, found, ?_, ?_, told_known.tenant_eq ▸ last.2⟩
    · rw [← told_known.current current, state_eq]
    · simpa [Roster.admits, state_eq, State.fromWire] using last.1
  · intro record record_mem record_about
    obtain ⟨held, known⟩ := known_of_mem record record_mem
    have held_found := known.found
    rw [record_about, found] at held_found
    rw [current, Option.some.inj held_found]
    exact known.earlier

/-- A sensor is registered and revoked, and each decision reaches the log in turn. -/
def carriedInTurn : List Action :=
  [.register sensor "operator" 0, .move "sensor-1" (.operator "revoked" "stolen" none),
    .publish 0, .announce 0, .publish 0, .announce 0,
    .compact [⟨"sensor-1", some ⟨"sensor-1", "acme", .named .revoked, 2, .new 0⟩⟩]]

/-- A gateway that replays the revocation of a sensor does not admit it. -/
theorem revocation_reaches_gateways_sensor :
    ∃ plane roster, announcing.run .empty carriedInTurn = some plane ∧
      Roster.empty.replay plane.log = some roster ∧ roster.tenant "sensor-1" ≠ some "acme" := by
  have ran : ∃ plane, announcing.run .empty carriedInTurn = some plane ∧ plane.Quiet ∧
      (plane.rows.lookup "sensor-1").map (fun row => row.agent.state) = some (.named .revoked) := by
    refine ⟨_, rfl, ?_, rfl⟩
    decide
  obtain ⟨plane, ran, quiet, revoked⟩ := ran
  obtain ⟨roster, replayed, admits⟩ := revocation_reaches_gateways
    ⟨.empty, carriedInTurn, rfl, by decide, ran⟩ quiet
  refine ⟨plane, roster, ran, replayed, fun admitted => ?_⟩
  obtain ⟨row, state, found, state_eq, admits, -⟩ := admits _ _ admitted
  rw [found, Option.map_some, state_eq] at revoked
  cases revoked
  cases admits

/-- The revocation of a sensor reaches the log before its registration. -/
def overtaken : List Action :=
  [.register sensor "operator" 0, .move "sensor-1" (.operator "revoked" "stolen" none),
    .publish 1, .announce 1, .publish 0, .announce 0,
    .compact [⟨"sensor-1", some ⟨"sensor-1", "acme", .named .pending, 1, .new 0⟩⟩]]

/-- A gateway admits the revoked sensor, though nothing is outstanding or on its way. -/
theorem revoked_sensor_admitted :
    ∃ plane row roster, announcing.run .empty overtaken = some plane ∧ plane.Quiet ∧
      plane.rows.lookup "sensor-1" = some row ∧ row.agent.state = .named .revoked ∧
      Roster.empty.replay plane.log = some roster ∧ roster.tenant "sensor-1" = some "acme" := by
  refine ⟨_, _, _, rfl, ?_, rfl, rfl, rfl, ?_⟩
  · decide
  · rfl

end Seagull.Agent
