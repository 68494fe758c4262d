import Seagull.Agent.Registry
import Seagull.Foundation.Transition

/-!
# The life of an agent

An agent and its trail, through every move asked of it.  An ending is kept for ever, and the trail
is a chain with one line per revision.  Disabled before it held an identity and enabled again, an
agent is active without anything to authenticate with.
-/

namespace Seagull.Agent

open Contract

/-- A registered agent and its trail. -/
structure Held where
  agent : Agent
  trail : List Transition

/-- What a move makes of an agent and its trail: a refused move leaves both. -/
def Held.take (held : Held) (move : Move) : Held :=
  match apply held.agent move with
  | .ok (moved, line) => ⟨moved, held.trail ++ [line]⟩
  | .error _ => held

def lifecycle : System Held Move where
  starts held := ∃ asked actor instant registered line,
    register asked actor instant = .ok (registered, line) ∧ held = ⟨registered, [line]⟩
  step held move := some (held.take move)

variable {current : Agent} {state : AgentState} {move : Move}

theorem permitted_eq_ok_iff :
    permitted current state move = .ok () ↔
      (move.target ≠ "" → State.valid move.target) ∧
      ((move.changing state).isSome ∨ move.identity.isSome) ∧
      (move.identity.isSome → ¬ State.final state) ∧
      (move.identity.isSome → move.renewal → State.admits state ∧
        (move.presentedFingerprint = (current.identity.map Identity.fingerprintSha256).getD "" ∨
          move.asksAgain)) ∧
      ∀ target, move.changing state = some target → State.legal state target ∧ move.note ≠ "" := by
  unfold permitted
  cases changing : move.changing state with
  | none =>
    simp only [passes_eq_ok, refuse_eq_ok, pure_eq_ok]
    cases binding : move.identity.isSome with
    | false => simp
    | true =>
      simp
      tauto
  | some target =>
    simp only [passes_eq_ok, refuse_eq_ok]
    cases binding : move.identity.isSome with
    | false => simp
    | true =>
      simp
      tauto

theorem subject_of_bindable {agentId : String} {identity : Identity} {instant : ℤ}
    (bound : bindable agentId (some identity) instant = .ok ()) : identity.subject = agentId := by
  simp only [bindable, passes_eq_ok, refuse_eq_ok] at bound
  exact not_not.mp bound.1

theorem legal_of_final {target : AgentState} (final : State.final state = true) :
    State.legal state target = false := by
  cases state <;> simp_all [State.final, State.legal, State.reachable]

theorem not_accepts_of_final (final : State.final state = true) : ¬ Accepts current state move := by
  intro accepts
  obtain ⟨-, asks, takes, -, changes⟩ := permitted_eq_ok_iff.mp accepts.permitted
  rcases asks with changing | binding
  · obtain ⟨target, changing⟩ := Option.isSome_iff_exists.mp changing
    have legal := (changes target changing).1
    rw [legal_of_final final] at legal
    cases legal
  · exact takes binding final

theorem changing_eq_some {target : AgentState} :
    move.changing state = some target ↔ move.target = State.written target ∧ target ≠ state := by
  unfold Move.changing
  rw [Option.filter_eq_some_iff]
  constructor
  · rintro ⟨names, differs⟩
    exact ⟨(State.written_of_named names).symm, by simpa using differs⟩
  · rintro ⟨target_eq, differs⟩
    exact ⟨target_eq ▸ State.named_written target, by simpa using differs⟩

/-- An active agent holds an identity that was bound to it and names it. -/
def Bound (agent : Agent) : Prop :=
  agent.state = .named .active →
    ∃ identity, agent.identity = some identity ∧ identity.subject = agent.agentId ∧
      ∃ instant, bindable agent.agentId (some identity) instant = .ok ()

/-- The trail is a chain with one line per revision, ending where the agent is. -/
structure Chained (held : Held) : Prop where
  revisions : held.trail.map Transition.revision = List.range' 1 held.agent.revision
  chain : held.trail.IsChain fun line next => next.fromState = line.toState
  last : held.trail.getLast?.map Transition.toState = some held.agent.state

/-- What the registry promises of an agent wherever it is in its life. -/
structure Kept (held : Held) : Prop where
  bound : Bound held.agent
  chained : Chained held
  final : ∀ state, held.agent.state = .named state → State.final state = true →
    ∀ moves, lifecycle.run held moves = some held
  raises : ∀ move moved line, apply held.agent move = .ok (moved, line) →
    moved.revision = held.agent.revision + 1 ∧
      lifecycle.step held move = some ⟨moved, held.trail ++ [line]⟩
  refuses : ∀ move failure, apply held.agent move = .error failure →
    lifecycle.step held move = some held

/-- A disabled agent without an identity is asked to become active, and is given none. -/
structure DeclaresActive (current : Agent) (move : Move) : Prop where
  disabled : current.state = .named .disabled
  unheld : current.identity = none
  asks : move.target = "active"
  unbinding : move.identity = none
  attributed : move.actor ≠ ""
  expected : move.expected = 0 ∨ move.expected = current.revision
  reasoned : move.note ≠ ""
  noted : move.note.utf8ByteSize ≤ maxNoteLength

variable {held : Held}

theorem take_of_ok {moved : Agent} {line : Transition}
    (applied : apply held.agent move = .ok (moved, line)) :
    held.take move = ⟨moved, held.trail ++ [line]⟩ := by
  rw [Held.take, applied]

theorem take_of_error {failure : Failure} (refused : apply held.agent move = .error failure)
    : held.take move = held := by
  rw [Held.take, refused]

theorem take_cases (held : Held) (move : Move) :
    held.take move = held ∨
      ∃ state, Accepts held.agent state move ∧
        held.take move = ⟨move.moved held.agent state, held.trail ++ [move.line held.agent state]⟩ := by
  cases applied : apply held.agent move with
  | error failure => exact .inl (take_of_error applied)
  | ok result =>
    obtain ⟨moved, line⟩ := result
    obtain ⟨state, accepts, rfl, rfl⟩ := apply_eq_ok_iff.mp applied
    exact .inr ⟨state, accepts, take_of_ok applied⟩

theorem take_of_final (stored : held.agent.state = .named state) (final : State.final state = true)
    (move : Move) : held.take move = held := by
  rcases take_cases held move with unchanged | ⟨other, accepts, -⟩
  · exact unchanged
  · have same : state = other := by simpa [stored] using accepts.stored
    exact absurd accepts (not_accepts_of_final (same ▸ final))

theorem run_of_final (stored : held.agent.state = .named state) (final : State.final state = true)
    (moves : List Move) :
    lifecycle.run held moves = some held := by
  induction moves with
  | nil => rfl
  | cons move moves ih =>
    change lifecycle.run (held.take move) moves = some held
    rw [take_of_final stored final, ih]

theorem Chained.take (chained : Chained held) (move : Move) :
    Chained (held.take move) := by
  rcases take_cases held move with unchanged | ⟨state, accepts, taken⟩
  · rwa [unchanged]
  rw [taken]
  refine ⟨?_, ?_, ?_⟩
  · change (held.trail ++ [move.line held.agent state]).map Transition.revision =
      List.range' 1 (held.agent.revision + 1)
    rw [List.map_append, chained.revisions, List.range'_1_concat]
    simp [Move.line, add_comm]
  · rw [List.isChain_append]
    refine ⟨chained.chain, List.isChain_singleton _, ?_⟩
    intro line line_last next next_head
    have line_to : line.toState = held.agent.state := by
      have last := chained.last
      rw [Option.mem_def.mp line_last] at last
      simpa using last
    rw [line_to, ← Option.some.inj next_head]
    rfl
  · simp [Move.line, Move.moved]

def Binds (agent : Agent) : Prop :=
  ∀ identity, agent.identity = some identity →
    ∃ instant, bindable agent.agentId (some identity) instant = .ok ()

theorem Binds.take (binds : Binds held.agent) (move : Move) :
    Binds (held.take move).agent := by
  rcases take_cases held move with unchanged | ⟨state, accepts, taken⟩
  · rwa [unchanged]
  rw [taken]
  intro identity identity_eq
  change move.identity.or held.agent.identity = some identity at identity_eq
  change ∃ instant, bindable held.agent.agentId (some identity) instant = .ok ()
  cases given : move.identity with
  | none => exact binds identity (by simpa [given] using identity_eq)
  | some bound =>
    have same : bound = identity := by simpa [given] using identity_eq
    have accepted := accepts.binds
    rw [Move.binds, given] at accepted
    exact ⟨move.instant, same ▸ accepted⟩

theorem Binds.bound {agent : Agent} (binds : Binds agent)
    (held : agent.state = .named .active → agent.identity ≠ none) : Bound agent := by
  intro active
  obtain ⟨identity, identity_eq⟩ := Option.ne_none_iff_exists'.mp (held active)
  obtain ⟨instant, bound⟩ := binds identity identity_eq
  exact ⟨identity, identity_eq, subject_of_bindable bound, instant, bound⟩

theorem declares_of_unheld (accepts : Accepts current state move)
    (active : move.result state = .active) (unheld : (move.moved current state).identity = none) :
    DeclaresActive current move := by
  change move.identity.or current.identity = none at unheld
  obtain ⟨unbinding, unheld⟩ := Option.or_eq_none_iff.mp unheld
  obtain ⟨-, asks, -, -, changes⟩ := permitted_eq_ok_iff.mp accepts.permitted
  have changing : (move.changing state).isSome := by simpa [unbinding] using asks
  obtain ⟨target, changing⟩ := Option.isSome_iff_exists.mp changing
  have target_eq : target = .active := by simpa [Move.result, changing] using active
  subst target_eq
  obtain ⟨legal, reasoned⟩ := changes _ changing
  obtain ⟨target_text, -⟩ := changing_eq_some.mp changing
  have disabled : state = .disabled := by
    cases state <;> simp_all [State.legal, State.reachable]
  exact ⟨disabled ▸ accepts.stored, unheld, target_text, unbinding, accepts.attributed,
    accepts.expected, reasoned, accepts.noted⟩

theorem not_bound_of_declares (declares : DeclaresActive held.agent move) :
    ¬ Bound (held.take move).agent := by
  have changing : move.changing .disabled = some .active :=
    changing_eq_some.mpr ⟨declares.asks, by decide⟩
  have accepts : Accepts held.agent .disabled move := by
    refine ⟨declares.disabled, declares.attributed, declares.expected, declares.noted, ?_, ?_⟩
    · refine permitted_eq_ok_iff.mpr ⟨fun _ => ?_, .inl (by simp [changing]), ?_, ?_, ?_⟩
      · rw [declares.asks]
        rfl
      · simp [declares.unbinding]
      · simp [declares.unbinding]
      · intro target target_eq
        have same : AgentState.active = target := by simpa [changing] using target_eq
        exact ⟨by rw [← same]; decide, declares.reasoned⟩
    · rw [Move.binds, declares.unbinding]
  rw [take_of_ok (apply_eq_ok_iff.mpr ⟨_, accepts, rfl, rfl⟩)]
  intro bound
  obtain ⟨identity, identity_eq, -⟩ := bound (by simp [Move.moved, Move.result, changing])
  simp [Move.moved, declares.unbinding, declares.unheld] at identity_eq

/-- What every move keeps, whatever is asked. -/
structure Sound (held : Held) : Prop where
  chained : Chained held
  binds : Binds held.agent
  holds : held.agent.state = .named .active → held.agent.identity ≠ none

theorem sound_of_starts (starts : lifecycle.starts held) : Sound held := by
  obtain ⟨asked, actor, instant, registered, line, accepted, rfl⟩ := starts
  obtain ⟨-, -, rfl, rfl⟩ := register_eq_ok accepted
  refine ⟨⟨rfl, List.isChain_singleton _, rfl⟩, ?_, ?_⟩
  · simp [Binds, registered]
  · simp [registered]

theorem Sound.take (sound : Sound held) (not_declared : ¬ DeclaresActive held.agent move)
    : Sound (held.take move) := by
  refine ⟨sound.chained.take move, sound.binds.take move, ?_⟩
  rcases take_cases held move with unchanged | ⟨state, accepts, taken⟩
  · rw [unchanged]
    exact sound.holds
  rw [taken]
  intro active unheld
  exact not_declared (declares_of_unheld accepts (by simpa [Move.moved] using active) unheld)

theorem Sound.kept (sound : Sound held) : Kept held where
  bound := sound.binds.bound sound.holds
  chained := sound.chained
  final := fun _ stored final moves => run_of_final stored final moves
  raises := by
    intro move moved line applied
    obtain ⟨state, -, rfl, -⟩ := apply_eq_ok_iff.mp applied
    exact ⟨rfl, congrArg some (take_of_ok applied)⟩
  refuses := fun _ _ refused => congrArg some (take_of_error refused)

/-- Everything promised of an agent holds all through its life exactly when it is never declared
active while it holds nothing to authenticate with. -/
theorem lifecycle_kept_iff {held : Held} (starts : lifecycle.starts held) (moves : List Move) :
    lifecycle.Always Kept held moves ↔
      lifecycle.Throughout (fun held move => ¬ DeclaresActive held.agent move) held moves := by
  have sound := sound_of_starts starts
  constructor
  · clear starts
    intro always
    induction moves generalizing held with
    | nil => trivial
    | cons move moves ih =>
      have rest : lifecycle.Always Kept (held.take move) moves := always.2 _ rfl
      have not_declared : ¬ DeclaresActive held.agent move := fun declares =>
        not_bound_of_declares declares rest.start.bound
      refine ⟨not_declared, fun after stepped => ?_⟩
      cases stepped
      exact ih (sound.take not_declared) rest
  · intro throughout
    refine (System.always_of_throughout ?_ sound throughout).imp fun _ sound => sound.kept
    intro before move after sound not_declared stepped
    cases stepped
    exact sound.take not_declared

def sensor : Registration := ⟨"sensor-1", "acme", none, "", ""⟩

/-- An act of an operator on whatever the agent is. -/
def Move.operator (target note : String) (identity : Option Identity) : Move where
  target := target
  identity := identity
  note := note
  actor := "operator"
  instant := 0
  presentedFingerprint := ""
  request := ""
  bound := ⟨"", ""⟩
  renewal := false
  expected := 0

def sensorIdentity : Identity where
  subject := "sensor-1"
  serial := "0a"
  fingerprintSha256 := "aaaaaaaaaaaaaaaaaaaaaaaaaaaaaaaaaaaaaaaaaaaaaaaaaaaaaaaaaaaaaaaa"
  issuedAt := none
  expiresAt := some ⟨1, 0⟩

/-- A sensor given a certificate, disabled and enabled again keeps every promise. -/
theorem lifecycle_kept_sensor :
    ∃ registered line, register sensor "operator" 0 = .ok (registered, line) ∧
      lifecycle.Always Kept ⟨registered, [line]⟩
        [.operator "" "" (some sensorIdentity), .operator "disabled" "lost" none,
          .operator "active" "found" none] := by
  refine ⟨_, _, rfl, (lifecycle_kept_iff ⟨sensor, "operator", 0, _, _, rfl, rfl⟩ _).mpr ?_⟩
  refine ⟨fun declares => ?_, fun after stepped => ?_⟩
  · cases declares.disabled
  cases stepped
  refine ⟨fun declares => ?_, fun after stepped => ?_⟩
  · exact absurd declares.disabled (by decide)
  cases stepped
  refine ⟨fun declares => ?_, fun after stepped => trivial⟩
  exact absurd declares.unheld (by decide)

/-- A sensor registered, disabled and enabled again is active and holds no identity. -/
theorem enabled_sensor_unheld :
    ∃ registered line held, register sensor "operator" 0 = .ok (registered, line) ∧
      lifecycle.run ⟨registered, [line]⟩
        [.operator "disabled" "lost" none, .operator "active" "found" none] = some held ∧
      held.agent.state = .named .active ∧ held.agent.identity = none := by
  refine ⟨_, _, _, rfl, rfl, ?_⟩
  decide

end Seagull.Agent
