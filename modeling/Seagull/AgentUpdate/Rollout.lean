import Seagull.AgentUpdate.Root
import Seagull.AgentUpdate.Version
import Seagull.Contract.Update
import Seagull.Event.Limits

/-!
# Rolling a release out

What an operator may ask for, which agents the waves opened so far reach, and what a change makes of
a rollout as it stands.  The rest is decided by the store.
-/

namespace Seagull.AgentUpdate

open Contract

def maxRolloutAgents : ℕ := 10000
def maxWaves : ℕ := 16
def maxCanaryAgents : ℕ := 100
def maxRunning : ℕ := 10000
def maxFailures : ℕ := 10000
def minSoak : ℤ := 60 * Duration.second
def maxSoak : ℤ := 30 * 24 * Duration.hour

/-- How many places agents stand in. -/
def places : ℕ := 10000

/-- Who is recorded as having made a change a gate made. -/
def platform : String := "platform"

namespace RolloutState

/-- A rollout in force still decides what agents are asked to run. -/
def inForce (state : RolloutState) : Bool := state = .active ∨ state = .paused

end RolloutState

/-- Why a rollout or a change of one is refused. -/
inductive RolloutFailure where
  | unattributable (failure : Failure)
  | tenant (tenant : String)
  | tooManyAgents (named : ℕ)
  | failures (failures : ℕ)
  | version (version : String)
  | agentName (what agent : String)
  | agentTwice (what agent : String)
  | waveCount (waves : ℕ)
  | waveBoth (index : ℕ)
  | waveNeither (index : ℕ)
  | waveAgents (index named : ℕ)
  | wavePercent (index percent reached : ℕ)
  | lastPercent
  | lastWaits
  /-- An agent the wave names and the rollout does not; of several, Go's map names any. -/
  | waveStranger (index : ℕ) (agent : String)
  | waveRequires (index : ℕ)
  | waveSoak (index : ℕ)
  | waveRunning (index running : ℕ)
  | rolloutName (rollout : String)
  | noAction
  | uncataloged (version : String)
  | unregistered (agents : List String)
  | drawnTwice (rollout : String)
  | unknown (rollout : String)
  | notActive (verb : String) (state : RolloutState)
  | notPaused (state : RolloutState)
  | notInForce (state : RolloutState)
  | everyWaveOpen

def distinct (what : String) (before : List String) : List String → Except RolloutFailure Unit
  | [] => .ok ()
  | agent :: agents => do
      refuse (EventContract.maxAgentIDLength < agent.utf8ByteSize ∨
        ¬ EventContract.validIdentifier agent) (.agentName what agent)
      refuse (agent ∈ before) (.agentTwice what agent)
      distinct what (before ++ [agent]) agents

/-- Hold the agents a wave names to being agents of the rollout. -/
def strangers (population : List String) (index : ℕ) (agents : List String) :
    Except RolloutFailure Unit :=
  match agents.find? fun agent => population ≠ [] ∧ agent ∉ population with
  | some agent => .error (.waveStranger index agent)
  | none => .ok ()

/-- Hold a wave that is not the last one to how the next one opens. -/
def gated (index : ℕ) (wave : Wave) : Except RolloutFailure Unit :=
  match wave.soak with
  | none => refuse (wave.running ≠ 0) (.waveRequires index)
  | some soak => do
      refuse (¬ soak.isValid ∨ soak.asDuration < minSoak ∨ maxSoak < soak.asDuration)
        (.waveSoak index)
      refuse (wave.running = 0 ∨ maxRunning < wave.running) (.waveRunning index wave.running)

/-- Hold one wave to the rollout it is of. -/
def validateWave (population : List String) (count index reached : ℕ) (wave : Wave) :
    Except RolloutFailure Unit := do
  refuse (wave.agentIds ≠ [] ∧ 0 < wave.percent) (.waveBoth index)
  refuse (wave.agentIds = [] ∧ wave.percent = 0) (.waveNeither index)
  refuse (maxCanaryAgents < wave.agentIds.length) (.waveAgents index wave.agentIds.length)
  refuse (100 < wave.percent ∨ (0 < wave.percent ∧ wave.percent ≤ reached))
    (.wavePercent index wave.percent reached)
  refuse (index + 1 = count ∧ wave.percent ≠ 100) .lastPercent
  refuse (index + 1 = count ∧ (wave.soak.isSome ∨ wave.running ≠ 0)) .lastWaits
  distinct s!"wave {index}" [] wave.agentIds
  strangers population index wave.agentIds
  if index + 1 = count then .ok () else gated index wave

def validateWavesFrom (population : List String) (count index reached : ℕ) :
    List Wave → Except RolloutFailure Unit
  | [] => .ok ()
  | wave :: waves => do
      validateWave population count index reached wave
      validateWavesFrom population count (index + 1) (max reached wave.percent) waves

/-- Hold the waves to how many there may be and to opening ever more. -/
def validateWaves (waves : List Wave) (population : List String) : Except RolloutFailure Unit := do
  refuse (waves = [] ∨ maxWaves < waves.length) (.waveCount waves.length)
  validateWavesFrom population waves.length 0 0 waves

def newRolloutID (drawn : Bytes) : String :=
  let marked := drawn.zipIdx.map fun (byte, index) =>
    if index = 6 then byte &&& 0x0f ||| 0x40 else if index = 8 then byte &&& 0x3f ||| 0x80 else byte
  let part first last := hexEncode ((marked.drop first).take (last - first))
  part 0 4 ++ "-" ++ part 4 6 ++ "-" ++ part 6 8 ++ "-" ++ part 8 10 ++ "-" ++ part 10 16

/-- Whether a text is an identifier as the platform draws them. -/
def validRolloutID (id : String) : Bool :=
  id.utf8ByteSize = 36 && id.toList.zipIdx.all fun (letter, index) =>
    if index ∈ [8, 13, 18, 23] then letter = '-'
    else Text.isDigit letter || ('a' ≤ letter && letter ≤ 'f')

def attributed (actor note : String) : Except RolloutFailure Unit :=
  match attributable actor note with
  | .error failure => .error (.unattributable failure)
  | .ok () => .ok ()

def acceptRollout (asked : Rollout) (actor : String) (instant : ℤ) (drawn : Bytes) :
    Except RolloutFailure RolloutRecord := do
  attributed actor asked.note
  refuse (asked.tenantId = "" ∨ EventContract.maxTenantIDLength < asked.tenantId.utf8ByteSize ∨
    ¬ EventContract.validIdentifier asked.tenantId) (.tenant asked.tenantId)
  refuse (maxRolloutAgents < asked.agentIds.length) (.tooManyAgents asked.agentIds.length)
  refuse (asked.failures = 0 ∨ maxFailures < asked.failures) (.failures asked.failures)
  refuse ((parseVersion asked.version).isNone) (.version asked.version)
  distinct "the rollout" [] asked.agentIds
  validateWaves asked.waves asked.agentIds
  let stamp := Timestamp.new instant
  return {
    rolloutId := newRolloutID drawn
    rollout := asked
    state := .active
    wave := 0
    waveOpenedAt := stamp
    createdBy := actor
    createdAt := stamp
    changedBy := actor
    changedAt := stamp
    reason := asked.note
    progress := none }

theorem acceptRollout_ok {asked : Rollout} {actor : String} {instant : ℤ} {drawn : Bytes}
    {record : RolloutRecord} (accepted : acceptRollout asked actor instant drawn = .ok record) :
    record.rollout = asked ∧ 0 < asked.waves.length ∧ 0 < asked.failures ∧
      record.state = .active ∧ record.wave = 0 ∧ record.rolloutId = newRolloutID drawn := by
  simp only [acceptRollout, validateWaves, passes_eq_ok, refuse_eq_ok, pure_eq_ok, not_or] at accepted
  obtain ⟨-, -, -, ⟨failing, -⟩, -, -, ⟨⟨some_wave, -⟩, -⟩, rfl⟩ := accepted
  exact ⟨rfl, List.length_pos_iff.mpr some_wave, Nat.pos_of_ne_zero failing, rfl, rfl, rfl⟩

section Reaching

variable (sha256 : Bytes → Bytes)

def place (rollout agent : String) : ℕ :=
  let digest := sha256 (bytesOf rollout ++ [0] ++ bytesOf agent)
  (digest.take 8).foldl (fun number byte => 256 * number + byte.toNat) 0 % places

def reaches (rollout : String) (waves : List Wave) (opened : ℕ) (agent : String) : Bool :=
  let open_ := waves.take (opened + 1)
  let share := (open_.map Wave.percent).foldl max 0
  open_.any (fun wave => agent ∈ wave.agentIds) ||
    (0 < share && place sha256 rollout agent < share * (places / 100))

def shareAt (waves : List Wave) (index : ℕ) : ℕ :=
  ((waves.take (index + 1)).map Wave.percent).foldl max 0

/-- A wave takes an agent: it names it, or its share covers the agent's place. -/
def Takes (rollout : String) (waves : List Wave) (agent : String) (index : ℕ) : Prop :=
  index < waves.length ∧ ((∃ wave, waves[index]? = some wave ∧ agent ∈ wave.agentIds) ∨
    place sha256 rollout agent < shareAt waves index * (places / 100))

theorem lt_foldl_max_iff (number : ℕ) {numbers : List ℕ} {least : ℕ} :
    number < numbers.foldl max least ↔ number < least ∨ ∃ other ∈ numbers, number < other := by
  induction numbers generalizing least with
  | nil => simp
  | cons first rest ih => simp [ih, or_assoc]

theorem shareAt_mono (waves : List Wave) : Monotone (shareAt waves) := by
  intro index later further
  refine le_of_forall_lt fun number below => ?_
  obtain none_before | ⟨percent, among, covered⟩ := (lt_foldl_max_iff number).mp below
  · exact absurd none_before number.not_lt_zero
  · have more : waves.take (index + 1) ⊆ waves.take (later + 1) :=
      (List.take_prefix_take_left (by omega)).subset
    exact (lt_foldl_max_iff number).mpr (.inr ⟨percent, List.map_subset _ more among, covered⟩)

theorem reaches_iff {rollout agent : String} {waves : List Wave} {opened : ℕ} :
    reaches sha256 rollout waves opened agent = true ↔
      ∃ index ≤ opened, Takes sha256 rollout waves agent index := by
  simp only [reaches, Bool.or_eq_true, List.any_eq_true, decide_eq_true_eq, Bool.and_eq_true]
  rw [← shareAt]
  constructor
  · rintro (⟨wave, among, named⟩ | ⟨shared, placed⟩)
    · obtain ⟨index, small, rfl⟩ := List.mem_take_iff_getElem.mp among
      rw [lt_min_iff] at small
      exact ⟨index, by omega, small.2, .inl ⟨_, List.getElem?_eq_getElem small.2, named⟩⟩
    · -- Waves opened beyond the last one open nothing more.
      have some_wave : waves ≠ [] := by
        rintro rfl
        simp [shareAt] at shared
      have length_pos := List.length_pos_iff.mpr some_wave
      have same : shareAt waves (min opened (waves.length - 1)) = shareAt waves opened := by
        have taken : waves.take (min opened (waves.length - 1) + 1) = waves.take (opened + 1) :=
          List.take_eq_take_iff.mpr (by omega)
        rw [shareAt, shareAt, taken]
      exact ⟨_, min_le_left _ _, by omega, .inr (same.symm ▸ placed)⟩
  · rintro ⟨index, further, inside, ⟨wave, wave_eq, named⟩ | placed⟩
    · obtain ⟨_, rfl⟩ := List.getElem?_eq_some_iff.mp wave_eq
      exact .inl ⟨_, List.mem_take_iff_getElem.mpr ⟨index, by omega, rfl⟩, named⟩
    · have share_le := shareAt_mono waves further
      have placed := placed.trans_le (Nat.mul_le_mul_right _ share_le)
      exact .inr ⟨Nat.pos_of_mul_pos_right (Nat.zero_lt_of_lt placed), placed⟩

theorem percent_getLast {population : List String} {count index reached : ℕ} {waves : List Wave}
    (accepted : validateWavesFrom population count index reached waves = .ok ())
    (counted : index + waves.length = count) (some_wave : waves ≠ []) :
    (waves.getLast some_wave).percent = 100 := by
  induction waves generalizing index reached with
  | nil => exact absurd rfl some_wave
  | cons wave waves ih =>
    simp only [validateWavesFrom, validateWave, passes_eq_ok, refuse_eq_ok] at accepted
    obtain ⟨⟨-, -, -, -, last_opens, -⟩, rest⟩ := accepted
    cases waves with
    | nil => simpa [← counted] using last_opens
    | cons next others =>
      rw [List.getLast_cons (List.cons_ne_nil next others)]
      refine ih rest ?_ (List.cons_ne_nil next others)
      simp only [List.length_cons] at counted ⊢
      omega

theorem place_lt (rollout agent : String) : place sha256 rollout agent < places :=
  Nat.mod_lt _ (by decide)

/-- What a rollout reached it keeps reaching, the last wave reaches everyone, and an agent is reached
from the first wave that takes it on. -/
theorem reaches_from_first {asked : Rollout} {actor : String} {instant : ℤ} {drawn : Bytes}
    {record : RolloutRecord} (accepted : acceptRollout asked actor instant drawn = .ok record)
    (rollout agent : String) :
    (∀ opened later, opened ≤ later → reaches sha256 rollout asked.waves opened agent = true →
      reaches sha256 rollout asked.waves later agent = true) ∧
    reaches sha256 rollout asked.waves (asked.waves.length - 1) agent = true ∧
    ∃ first, IsLeast {index | Takes sha256 rollout asked.waves agent index} first ∧
      ∀ opened, reaches sha256 rollout asked.waves opened agent = true ↔ first ≤ opened := by
  obtain ⟨-, length_pos, -⟩ := acceptRollout_ok accepted
  have some_wave := List.length_pos_iff.mp length_pos
  simp only [acceptRollout, validateWaves, passes_eq_ok] at accepted
  have opens := percent_getLast accepted.2.2.2.2.2.2.1.2 (Nat.zero_add _) some_wave
  have last : Takes sha256 rollout asked.waves agent (asked.waves.length - 1) := by
    have whole : 100 ≤ shareAt asked.waves (asked.waves.length - 1) := by
      refine (lt_foldl_max_iff 99).mpr (.inr ⟨100, List.mem_map.mpr ⟨_, ?_, opens⟩, by decide⟩)
      rw [List.take_of_length_le (by omega)]
      exact List.getLast_mem some_wave
    refine ⟨by omega, .inr ((place_lt sha256 rollout agent).trans_le ?_)⟩
    exact Nat.mul_le_mul_right (places / 100) whole
  have taken : ∃ index, Takes sha256 rollout asked.waves agent index := ⟨_, last⟩
  classical
  have from_first : ∀ opened, reaches sha256 rollout asked.waves opened agent = true ↔
      Nat.find taken ≤ opened := fun opened => by rw [reaches_iff, Nat.find_le_iff]
  refine ⟨fun opened later further => ?_, ?_, Nat.find taken, ?_, from_first⟩
  · rw [from_first, from_first]
    exact (·.trans further)
  · exact (from_first _).mpr (Nat.find_le last)
  · exact ⟨Nat.find_spec taken, fun _ takes => Nat.find_le takes⟩

end Reaching

/-- A rollout to one agent first, and to everyone a minute later. -/
def canaryFirst : Rollout where
  tenantId := "acme"
  version := "v1.1.0"
  agentIds := []
  waves := [⟨["sensor-1"], 0, some ⟨60, 0⟩, 1⟩, ⟨[], 100, none, 0⟩]
  failures := 1
  note := ""

theorem reaches_from_first_canary :
    ∃ first, IsLeast {index | Takes (fun _ => []) "r" canaryFirst.waves "sensor-1" index} first ∧
      ∀ opened, reaches (fun _ => []) "r" canaryFirst.waves opened "sensor-1" = true ↔
        first ≤ opened := by
  have accepted : ∃ record, acceptRollout canaryFirst "operator" 0 (List.replicate 16 0) =
      .ok record := ⟨_, rfl⟩
  obtain ⟨record, record_eq⟩ := accepted
  exact (reaches_from_first (fun _ => []) record_eq "r" "sensor-1").2.2

/-- A change an operator may make. -/
structure AcceptedChange where
  tenantId : String
  rolloutId : String
  action : RolloutAction
  actor : String
  instant : ℤ
  note : String

/-- Accept a change that is attributable and says what to do with which rollout. -/
def acceptChange (asked : RolloutChange) (actor : String) (instant : ℤ) :
    Except RolloutFailure AcceptedChange := do
  attributed actor asked.note
  refuse (¬ EventContract.validIdentifier asked.tenantId) (.tenant asked.tenantId)
  refuse (¬ validRolloutID asked.rolloutId) (.rolloutName asked.rolloutId)
  match asked.action with
  | .unspecified | .undeclared _ => .error .noAction
  | action => return ⟨asked.tenantId, asked.rolloutId, action, actor, instant, asked.note⟩

namespace AcceptedChange

def recorded (change : AcceptedChange) (changed : RolloutRecord) : RolloutRecord :=
  { changed with
    changedBy := change.actor
    changedAt := Timestamp.new change.instant
    reason := change.note }

/-- What a change makes of a rollout, and whether it resumed it. -/
def apply (change : AcceptedChange) (held : RolloutRecord) :
    Except RolloutFailure (RolloutRecord × Bool) :=
  match change.action with
  | .pause => do
      refuse (held.state ≠ .active) (.notActive "pauses" held.state)
      return (change.recorded { held with state := .paused }, false)
  | .resume => do
      refuse (held.state ≠ .paused) (.notPaused held.state)
      return (change.recorded { held with state := .active }, true)
  | .advance => do
      refuse (held.state ≠ .active) (.notActive "advances" held.state)
      refuse (held.rollout.waves.length ≤ held.wave + 1) .everyWaveOpen
      return (change.recorded { held with
        wave := held.wave + 1
        waveOpenedAt := Timestamp.new change.instant }, false)
  | .abort => do
      refuse (held.state ≠ .active ∧ held.state ≠ .paused) (.notInForce held.state)
      return (change.recorded { held with state := .aborted }, false)
  | .unspecified | .undeclared _ => .ok (change.recorded held, false)

end AcceptedChange

/-- What a change can make of a rollout in force. -/
structure Changed (held changed : RolloutRecord) : Prop where
  was : RolloutState.inForce held.state
  rollout : changed.rollout = held.rollout
  createdBy : changed.createdBy = held.createdBy
  createdAt : changed.createdAt = held.createdAt
  progress : changed.progress = held.progress
  moved : changed.wave = held.wave ∧ changed.waveOpenedAt = held.waveOpenedAt ∨
    changed.state = .active ∧ changed.wave = held.wave + 1 ∧
      held.wave + 1 < held.rollout.waves.length

theorem apply_changed {asked : RolloutChange} {actor : String} {instant : ℤ}
    {change : AcceptedChange} {held changed : RolloutRecord} {resumed : Bool}
    (accepted : acceptChange asked actor instant = .ok change)
    (applied : change.apply held = .ok (changed, resumed)) : Changed held changed := by
  simp only [acceptChange, passes_eq_ok] at accepted
  obtain ⟨-, -, -, named⟩ := accepted
  cases action_eq : asked.action with
  | unspecified => simp [action_eq] at named
  | undeclared number => simp [action_eq] at named
  | pause | resume =>
    simp only [action_eq, pure_eq_ok] at named
    simp only [← named, AcceptedChange.apply, passes_eq_ok, refuse_eq_ok, pure_eq_ok,
      Prod.mk.injEq, not_not] at applied
    obtain ⟨standing, rfl, -⟩ := applied
    exact ⟨by simp [RolloutState.inForce, standing], rfl, rfl, rfl, rfl, .inl ⟨rfl, rfl⟩⟩
  | advance =>
    simp only [action_eq, pure_eq_ok] at named
    simp only [← named, AcceptedChange.apply, passes_eq_ok, refuse_eq_ok, pure_eq_ok,
      Prod.mk.injEq, not_not, not_le] at applied
    obtain ⟨active, another, rfl, -⟩ := applied
    exact ⟨by simp [RolloutState.inForce, active], rfl, rfl, rfl, rfl, .inr ⟨active, rfl, another⟩⟩
  | abort =>
    simp only [action_eq, pure_eq_ok] at named
    simp only [← named, AcceptedChange.apply, passes_eq_ok, refuse_eq_ok, pure_eq_ok,
      Prod.mk.injEq] at applied
    obtain ⟨standing, rfl, -⟩ := applied
    refine ⟨?_, rfl, rfl, rfl, rfl, .inl ⟨rfl, rfl⟩⟩
    simp only [RolloutState.inForce, decide_eq_true_eq]
    tauto

end Seagull.AgentUpdate
