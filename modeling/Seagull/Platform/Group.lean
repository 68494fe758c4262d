import Seagull.Foundation.Transition

/-!
# A run group and the failures of its members

Members run until one returns or the process is told to stop.  The group then waits for the others,
as long as its timer lets it.  Outcomes travel through a channel with room for every member, which is
read for the first of them, and again once everyone has returned.
-/

namespace Seagull.Platform

/-- What a member delivered: its name, and its error if it returned one. -/
structure Outcome (ε : Type) where
  name : String
  err : Option ε
  deriving DecidableEq

/-- A part of the error a group returns. -/
inductive Failure (ε : Type) where
  | noMembers
  | component (name : String) (err : ε)
  | exceeded

/-- How a group returned: it had no members, all returned, or the timer ran out. -/
inductive Ending where
  | refused
  | stopped
  | expired

/-- A group between the start and the return of `Group.Run`. -/
structure Group (ε : Type) where
  /-- The names of the members that have not returned. -/
  running : List String
  /-- Every outcome that was delivered. -/
  delivered : List (Outcome ε)
  channel : List (Outcome ε)
  /-- Whether the context given to the group is done. -/
  done : Bool
  /-- Whether the context of the members is cancelled. -/
  stopping : Bool
  /-- The outcome that made the group stop, if one did. -/
  first : Option (Outcome ε)
  failures : List (Failure ε)
  ended : Option Ending

inductive Event (ε : Type) where
  /-- A member returns, and delivers its outcome. -/
  | deliver (member : ℕ) (err : Option ε)
  /-- The context given to the group is done. -/
  | cancel
  /-- The group receives the first outcome. -/
  | receive
  /-- The group sees that its context is done. -/
  | signal
  /-- The group sees that every member returned. -/
  | stop
  /-- The group sees that the timer ran out. -/
  | expire

section Run

variable {ε : Type} (isCanceled : ε → Bool)

def componentError (result : Outcome ε) : List (Failure ε) :=
  match result.err with
  | none => []
  | some err => if isCanceled err then [] else [.component result.name err]

def Group.start (members : List String) : Group ε where
  running := members
  delivered := []
  channel := []
  done := false
  stopping := false
  first := none
  failures := if members = [] then [.noMembers] else []
  ended := if members = [] then some .refused else none

/-- What an event makes of a group.  Of several cases of a `select` any is taken. -/
def Group.step (group : Group ε) (event : Event ε) : Option (Group ε) :=
  if group.ended.isSome then none
  else match event with
  | .deliver member err =>
    group.running[member]?.map fun name =>
      { group with
        running := group.running.eraseIdx member
        delivered := group.delivered ++ [⟨name, err⟩]
        channel := group.channel ++ [⟨name, err⟩] }
  | .cancel => some { group with done := true }
  | .receive =>
    match group.channel with
    | [] => none
    | first :: channel =>
      if group.stopping then none
      else some { group with
        channel, stopping := true, first := some first
        failures := group.failures ++ componentError isCanceled first }
  | .signal =>
    if group.stopping ∨ ¬ group.done then none else some { group with stopping := true }
  | .stop =>
    if ¬ group.stopping ∨ group.running ≠ [] then none
    else some { group with
      channel := []
      failures := group.failures ++ group.channel.flatMap (componentError isCanceled)
      ended := some .stopped }
  | .expire =>
    if ¬ group.stopping then none
    else some { group with failures := group.failures ++ [.exceeded], ended := some .expired }

/-- `Group.Run`, with every interleaving of its members, context and timer. -/
def running (members : List String) : System (Group ε) (Event ε) where
  starts := (· = Group.start members)
  step := Group.step isCanceled

end Run

section Returned

variable {ε : Type} {isCanceled : ε → Bool} {members : List String} {group after : Group ε}

/-- What was delivered was received first or is in the channel, and only the first is reported. -/
structure Group.Open (isCanceled : ε → Bool) (group : Group ε) (rest : List (Failure ε)) : Prop where
  delivered : ∀ outcome, outcome ∈ group.delivered ↔ outcome ∈ group.first.toList ++ group.channel
  failures : group.failures = group.first.toList.flatMap (componentError isCanceled) ++ rest

/-- What a group has to say for its members, by how it returned. -/
def Group.Accounts (isCanceled : ε → Bool) (group : Group ε) : Prop :=
  match group.ended with
  | none => group.Open isCanceled []
  | some .refused => group.delivered = [] ∧ group.failures = [.noMembers]
  | some .stopped => group.running = [] ∧
    ∀ outcome ∈ group.delivered, componentError isCanceled outcome ⊆ group.failures
  | some .expired => group.Open isCanceled [.exceeded]

structure Group.Sound (isCanceled : ε → Bool) (members : List String) (group : Group ε) : Prop where
  accounts : group.Accounts isCanceled
  unread : group.stopping = false → group.first = none
  everyone : (group.running ++ group.delivered.map Outcome.name).Perm members

theorem Group.Accounts.of_open (opened : group.Open isCanceled []) (going : group.ended = none) :
    group.Accounts isCanceled := by
  simp only [Group.Accounts, going]
  exact opened

theorem sound_start (isCanceled : ε → Bool) (members : List String) :
    (Group.start members).Sound isCanceled members := by
  refine ⟨?_, fun _ => rfl, by simp [Group.start]⟩
  by_cases empty : members = []
  · simp [empty, Group.start, Group.Accounts]
  · exact Group.Accounts.of_open ⟨by simp [Group.start], by simp [Group.start, empty]⟩ (if_neg empty)

theorem running_perm {member : ℕ} {name : String} (found : group.running[member]? = some name)
    (err : Option ε) :
    (group.running.eraseIdx member ++
        (group.delivered ++ [(⟨name, err⟩ : Outcome ε)]).map Outcome.name).Perm
      (group.running ++ group.delivered.map Outcome.name) := by
  obtain ⟨inside, rfl⟩ := List.getElem?_eq_some_iff.mp found
  rw [List.map_append, List.map_singleton, ← List.append_assoc]
  exact List.perm_append_comm.trans ((List.getElem_cons_eraseIdx_perm inside).append_right _)

theorem Group.Sound.step {event : Event ε} (sound : group.Sound isCanceled members)
    (stepped : group.step isCanceled event = some after) : after.Sound isCanceled members := by
  obtain ⟨accounts, unread, everyone⟩ := sound
  obtain ⟨going, stepped⟩ := Option.ite_none_left_eq_some.mp stepped
  rw [Option.not_isSome_iff_eq_none] at going
  have opened : group.Open isCanceled [] := by simpa only [Group.Accounts, going] using accounts
  obtain ⟨delivered, failures⟩ := opened
  cases event with
  | deliver member err =>
    obtain ⟨name, found, rfl⟩ := Option.map_eq_some_iff.mp stepped
    refine ⟨.of_open ⟨fun other => ?_, failures⟩ going, unread,
      (running_perm found err).trans everyone⟩
    rw [List.mem_append, delivered other, ← List.mem_append, List.append_assoc]
  | cancel =>
    cases stepped
    exact ⟨.of_open ⟨delivered, failures⟩ going, unread, everyone⟩
  | receive =>
    dsimp only at stepped
    split at stepped
    · cases stepped
    · rename_i first channel waiting
      obtain ⟨waits, ⟨⟩⟩ := Option.ite_none_left_eq_some.mp stepped
      rw [unread (Bool.eq_false_iff.mpr waits), waiting] at delivered
      rw [unread (Bool.eq_false_iff.mpr waits)] at failures
      exact ⟨.of_open ⟨delivered, by simp [failures]⟩ going, nofun, everyone⟩
  | signal =>
    obtain ⟨-, ⟨⟩⟩ := Option.ite_none_left_eq_some.mp stepped
    exact ⟨.of_open ⟨delivered, failures⟩ going, nofun, everyone⟩
  | stop =>
    obtain ⟨quiet, ⟨⟩⟩ := Option.ite_none_left_eq_some.mp stepped
    refine ⟨⟨not_not.mp (not_or.mp quiet).2, fun outcome member failure among => ?_⟩, unread, everyone⟩
    have held := List.mem_append.mp ((delivered outcome).mp member)
    simp only [failures, List.append_nil, List.mem_append, List.mem_flatMap]
    exact held.imp (⟨outcome, ·, among⟩) (⟨outcome, ·, among⟩)
  | expire =>
    obtain ⟨-, ⟨⟩⟩ := Option.ite_none_left_eq_some.mp stepped
    exact ⟨⟨delivered, by simp [failures]⟩, unread, everyone⟩

theorem exceeded_notMem (outcome : Outcome ε) : .exceeded ∉ componentError isCanceled outcome := by
  unfold componentError
  split
  · simp
  · split <;> simp

/-- When a group returns, every member that delivered a failure is named in its error, unless the
timer ran out while an outcome waited in the channel with a failure that was not received first.  It
returns no error only if every member returned. -/
theorem group_names_failures_iff {ending : Ending}
    (reached : (running isCanceled members).Reaches group) (ended : group.ended = some ending) :
    ((∀ outcome ∈ group.delivered, componentError isCanceled outcome ⊆ group.failures) ↔
      (ending = .expired → ∀ waiting ∈ group.channel, ∀ failure ∈ componentError isCanceled waiting,
        ∃ first ∈ group.first, failure ∈ componentError isCanceled first)) ∧
    (group.failures = [] →
      group.running = [] ∧ (group.delivered.map Outcome.name).Perm members) := by
  obtain ⟨accounts, -, everyone⟩ : group.Sound isCanceled members := reached.invariant
    (fun start starts => starts ▸ sound_start isCanceled members)
    (fun before event after sound stepped => sound.step stepped)
  simp only [Group.Accounts, ended] at accounts
  cases ending with
  | refused => simp [accounts.1, accounts.2]
  | stopped =>
    obtain ⟨quiet, named⟩ := accounts
    exact ⟨iff_of_true named nofun, fun _ => ⟨quiet, by simpa [quiet] using everyone⟩⟩
  | expired =>
    obtain ⟨delivered, failures⟩ := accounts
    have told : ∀ outcome, ∀ failure ∈ componentError isCanceled outcome,
        failure ∈ group.failures ↔
          ∃ first ∈ group.first, failure ∈ componentError isCanceled first := by
      intro outcome failure among
      have differs : failure ≠ .exceeded := fun same => exceeded_notMem outcome (same ▸ among)
      simp [failures, differs]
    refine ⟨⟨fun named _ waiting member failure among => ?_,
      fun unread outcome member failure among => ?_⟩, by simp [failures]⟩
    · have before := (delivered waiting).mpr (List.mem_append_right _ member)
      exact (told waiting failure among).mp (named waiting before among)
    · rw [told outcome failure among]
      rcases List.mem_append.mp ((delivered outcome).mp member) with first | waiting
      · exact ⟨outcome, Option.mem_toList.mp first, among⟩
      · exact unread rfl outcome waiting failure among

end Returned

theorem group_names_failures_iff_both :
    ∃ group : Group String, (running (fun _ => false) ["listener", "writer"]).Reaches group ∧
      group.ended = some .stopped ∧ group.delivered.length = 2 ∧
      ∀ outcome ∈ group.delivered, componentError (fun _ => false) outcome ⊆ group.failures := by
  have reached : (running (fun _ => false) ["listener", "writer"]).Reaches _ :=
    ⟨_, [.deliver 0 (some "bind failed"), .receive, .deliver 0 (some "flush failed"), .stop], rfl, rfl⟩
  exact ⟨_, reached, rfl, rfl, (group_names_failures_iff reached rfl).1.mpr nofun⟩

/-- One member fails, another hangs, and a third fails before the timer runs out. -/
def hungShutdown : List (Event String) :=
  [.deliver 0 (some "bind failed"), .receive, .deliver 0 (some "flush failed"), .expire]

theorem second_failure_lost :
    ∃ group, (running (fun _ => false) ["listener", "writer", "hung"]).Reaches group ∧
      group.ended = some .expired ∧ ⟨"writer", some "flush failed"⟩ ∈ group.delivered ∧
      group.failures = [.component "listener" "bind failed", .exceeded] :=
  ⟨_, ⟨_, hungShutdown, rfl, rfl⟩, rfl, by decide, rfl⟩

end Seagull.Platform
