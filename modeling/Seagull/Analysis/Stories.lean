import Seagull.Analysis.Focus
import Seagull.Foundation.Staging

/-!
# Stories do not depend on the order of delivery

A sequence decides at the fold that made its window tell every stage.  For events that fit one
window and one key, the window only grows, so the story is found once if the events tell it, and
never if they do not.
-/

namespace Seagull.Analysis

open Contract Detection DetectionState Ruleset SlidingWindow Staging

/-! ## What a window tells -/

def tellsStage (stage : ℕ) (seen : Observation) : Bool := (Stages.of seen.value).has stage

/-- Some observations, one strictly later than another, satisfy the stages in order. -/
def Told (stages : ℕ) (seen : List Observation) : Prop :=
  ∃ chosen : List Observation, chosen.length = stages ∧
    chosen.Pairwise (fun earlier later => earlier.time < later.time) ∧
    (∀ one ∈ chosen, one ∈ seen) ∧ Tells tellsStage 0 chosen

variable {stages : ℕ}

theorem Told.mono {seen more : List Observation} (told : Told stages seen)
    (subset : ∀ one ∈ seen, one ∈ more) : Told stages more := by
  obtain ⟨chosen, every, increasing, members, tells⟩ := told
  exact ⟨chosen, every, increasing, fun one one_mem => subset one (members one one_mem), tells⟩

theorem not_told_nil (positive : 0 < stages) : ¬ Told stages [] := by
  rintro ⟨chosen, every, -, members, -⟩
  obtain rfl : chosen = [] := List.eq_nil_iff_forall_not_mem.mpr fun one one_mem => by
    cases members one one_mem
  rw [← every] at positive
  exact lt_irrefl 0 positive

theorem assign_eq (stages : ℕ) (without : EventName) (window : List Observation) (told : ℕ) :
    assign stages without window told =
      earliest (fun stage seen => (seen.event != without) && tellsStage stage seen) stages window
        told := by
  induction window generalizing told with
  | nil => rfl
  | cons seen window ih =>
    unfold assign earliest
    by_cases left_out : seen.event = without
    · simp [left_out, ih]
    · cases satisfied : (Stages.of seen.value).has told <;>
        simp [left_out, satisfied, tellsStage, ih]

variable {window : List Observation}

theorem ordered_iff (stages : ℕ) (without : EventName)
    (increasing : window.Pairwise fun earlier later => earlier.time < later.time) :
    (ordered window stages without).2 = true ↔
      Told stages (window.filter fun seen => seen.event != without) := by
  have rest_increasing :=
    increasing.sublist (List.filter_sublist (p := fun seen => seen.event != without))
  simp only [ordered, assign_eq, beq_iff_eq]
  rw [earliest_filter, earliest_length_iff]
  constructor
  · rintro ⟨chosen, picked, every, tells⟩
    obtain ⟨chosen_increasing, members⟩ := (sublist_iff_increasing rest_increasing).mp picked
    exact ⟨chosen, every, chosen_increasing, members, tells⟩
  · rintro ⟨chosen, every, chosen_increasing, members, tells⟩
    exact ⟨chosen, (sublist_iff_increasing rest_increasing).mpr ⟨chosen_increasing, members⟩, every,
      tells⟩

/-! ## The earliest events -/

/-- The positions of a window that `ordered` picks. -/
def pickedPositions (window : List Observation) (stages : ℕ) (without : EventName) : List ℕ :=
  positions (fun stage seen => (seen.event != without) && tellsStage stage seen) stages window 0 0

/-- Increasing positions of a window, one for each stage, that tell the stages in order. -/
structure Choice (window : List Observation) (stages : ℕ) (without : EventName)
    (places : List ℕ) : Prop where
  every : places.length = stages
  increasing : places.Pairwise (· < ·)
  tells : ∀ stage place, places[stage]? = some place → ∃ seen, window[place]? = some seen ∧
    seen.event ≠ without ∧ (Stages.of seen.value).has stage = true

variable {without : EventName}

theorem choice_iff {places : List ℕ} :
    Choice window stages without places ↔ places.length = stages ∧
      Placed (fun stage seen => (seen.event != without) && tellsStage stage seen) window 0 0
        places := by
  constructor
  · rintro ⟨every, increasing, tells⟩
    refine ⟨every, increasing, fun stage place found => ⟨Nat.zero_le place, ?_⟩⟩
    obtain ⟨seen, at_place, differs, satisfied⟩ := tells stage place found
    exact ⟨seen, at_place, by simp [tellsStage, differs, satisfied]⟩
  · rintro ⟨every, increasing, holds⟩
    refine ⟨every, increasing, fun stage place found => ?_⟩
    obtain ⟨-, seen, at_place, satisfied⟩ := holds stage place found
    simp only [Nat.zero_add, tellsStage, Bool.and_eq_true, bne_iff_ne, ne_eq] at satisfied
    exact ⟨seen, at_place, satisfied.1, satisfied.2⟩

theorem pickedPositions_spec (window : List Observation) (stages : ℕ) (without : EventName) :
    (pickedPositions window stages without).map (fun place => window[place]?) =
      (ordered window stages without).1.map some := by
  simp only [ordered, assign_eq]
  exact earliest_eq_positions window 0 0

theorem ordered_complete_iff (window : List Observation) (stages : ℕ) (without : EventName) :
    (ordered window stages without).2 = true ↔
      Choice window stages without (pickedPositions window stages without) := by
  have same_length := congrArg List.length (pickedPositions_spec window stages without)
  rw [List.length_map, List.length_map] at same_length
  have complete : (ordered window stages without).2 = true ↔
      (ordered window stages without).1.length = stages := by
    simp only [ordered, beq_iff_eq]
  rw [complete, ← same_length, choice_iff]
  exact ⟨fun every => ⟨every, positions_placed window 0 0⟩, fun chosen => chosen.1⟩

theorem Choice.picked {places : List ℕ} (chosen : Choice window stages without places) :
    Choice window stages without (pickedPositions window stages without) ∧
      ∀ stage place other : ℕ, (pickedPositions window stages without)[stage]? = some place →
        places[stage]? = some other → place ≤ other := by
  obtain ⟨every, placed⟩ := choice_iff.mp chosen
  have earlier : (∀ stage place other : ℕ,
      (pickedPositions window stages without)[stage]? = some place →
        places[stage]? = some other → place ≤ other) ∧
      (0 + places.length ≤ stages →
        places.length ≤ (pickedPositions window stages without).length) := positions_le placed
  refine ⟨choice_iff.mpr ⟨?_, positions_placed window 0 0⟩, earlier.1⟩
  have bound : (pickedPositions window stages without).length ≤ stages := by
    have picked_length : 0 + (ordered window stages without).1.length ≤ stages := by
      simp only [ordered, assign_eq]
      exact earliest_length_le window (Nat.zero_le stages)
    rw [← List.length_map, pickedPositions_spec, List.length_map]
    omega
  exact le_antisymm bound (every ▸ earlier.2 (by omega))

theorem cites_of_told {other : EventName} (told : (ordered window stages other).2 = true)
    (untold : (ordered window stages without).2 = false) :
    ∃ seen ∈ (ordered window stages other).1, seen.event = without := by
  by_contra uncited
  push Not at uncited
  have chosen := (ordered_complete_iff window stages other).mp told
  have still : Choice window stages without (pickedPositions window stages other) := by
    refine ⟨chosen.every, chosen.increasing, fun stage place found => ?_⟩
    obtain ⟨seen, at_place, -, satisfied⟩ := chosen.tells stage place found
    refine ⟨seen, at_place, uncited seen ?_, satisfied⟩
    have cited : window[place]? ∈ (ordered window stages other).1.map some := by
      rw [← pickedPositions_spec]
      exact List.mem_map_of_mem (List.mem_of_getElem? found)
    rw [at_place] at cited
    simpa using cited
  rw [(ordered_complete_iff window stages without).mpr still.picked.1] at untold
  cases untold

theorem mem_correlated {names : List String} {told : List Observation} {group : List Binding}
    (every : told.length = names.length) {seen : Observation} (member : seen ∈ told) :
    ∃ stage ∈ (correlated names told group).stages,
      stage.agent = seen.event.agent ∧ stage.event = seen.event.id := by
  obtain ⟨index, found⟩ := List.mem_iff_getElem?.mp member
  obtain ⟨within, at_index⟩ := List.getElem?_eq_some_iff.mp found
  have zipped : (names[index], seen) ∈ names.zip told :=
    List.mem_of_getElem? (List.getElem?_zip_eq_some.mpr
      ⟨List.getElem?_eq_getElem (every ▸ within), found⟩)
  exact ⟨_, List.mem_map_of_mem zipped, rfl, rfl⟩

/-- Reading the stages out of a window finds them whenever positions of it tell them in order, and
picks the earliest; so whenever a story is reported, whatever the store held, the event that was just
folded is one of those it cites. -/
theorem earliest_story :
    (∀ (window : List Observation) (stages : ℕ) (without : EventName),
      ((ordered window stages without).2 = true ↔ ∃ places, Choice window stages without places) ∧
      (pickedPositions window stages without).map (fun place => window[place]?) =
        (ordered window stages without).1.map some ∧
      ((ordered window stages without).2 = true →
        Choice window stages without (pickedPositions window stages without) ∧
        ∀ places, Choice window stages without places →
          ∀ stage place other : ℕ, (pickedPositions window stages without)[stage]? = some place →
            places[stage]? = some other → place ≤ other)) ∧
    ∀ (platform : Platform) (program : Program) (record : Record) (keeper : Keeper)
      (found : Match), (completed platform program record keeper).2 = some found →
        ∃ stage ∈ found.correlated.stages, stage.agent = (nameOf record.event).agent ∧
          stage.event = (nameOf record.event).id := by
  refine ⟨fun window stages without => ⟨⟨fun complete => ?_, fun ⟨places, chosen⟩ => ?_⟩,
    pickedPositions_spec window stages without, fun complete => ⟨?_, fun places chosen => ?_⟩⟩, ?_⟩
  · exact ⟨_, (ordered_complete_iff window stages without).mp complete⟩
  · exact (ordered_complete_iff window stages without).mpr chosen.picked.1
  · exact (ordered_complete_iff window stages without).mp complete
  · exact chosen.picked.2
  · intro platform program record keeper found reports
    unfold completed at reports
    simp only at reports
    split at reports
    · generalize (keeper.fold _).2 = answer at reports
      simp only [storyDecision] at reports
      split_ifs at reports with refused repeated untold before
      cases reports
      have told := Bool.eq_true_of_not_eq_false untold
      obtain ⟨seen, cited, same⟩ := cites_of_told told (Bool.eq_false_of_not_eq_true before)
      have every : (ordered answer.window program.stages.length ⟨"", ""⟩).1.length =
          program.stageNames.length := by
        rw [Program.stageNames, List.length_map]
        simpa only [ordered, beq_iff_eq] using told
      rw [← same]
      exact mem_correlated every cited
    · cases reports

/-! ## A rule and its events -/

/-- A sequence that a store bounded this way can answer. -/
structure Sequencing (engine : Engine) (bounds : Bounds) (program : Program) : Prop where
  member : program ∈ engine.rules.programs
  correlates : program.correlates
  rule_correlates : program.rule.sequence.correlates
  within_pos : 0 < program.rule.sequence.within
  admitted : bounds.orders program.rule.sequence = none

/-- Observations that fit one window and key, each of an event and at a time of its own. -/
structure Episode (bounds : Bounds) (within : ℤ) where
  observations : List Observation
  valid : ∀ seen ∈ observations, seen.validate = none
  events_distinct : (observations.map Observation.event).Nodup
  times_distinct : (observations.map Observation.time).Nodup
  span : ∀ one ∈ observations, ∀ other ∈ observations, other.time - within ≤ one.time
  fits : observations.length ≤ bounds.observationsPerKey

namespace Sequencing

variable {engine : Engine} {bounds : Bounds} {program : Program} {record : Record} {call : Call}

section

variable (sequencing : Sequencing engine bounds program)

include sequencing

theorem within_le :
    program.rule.sequence.within ≤ bounds.window := by
  have admitted := sequencing.admitted
  rw [Bounds.orders, if_neg (by simp [sequencing.rule_correlates])] at admitted
  split_ifs at admitted with long
  exact not_lt.mp long

theorem stages_pos : 0 < program.stages.length := by
  have correlates := sequencing.correlates
  rw [Program.correlates, Bool.not_eq_true', List.isEmpty_eq_false_iff] at correlates
  exact List.length_pos_of_ne_nil correlates

theorem ask_eq (asked : engine.askedOf record program = some call) (keeper : Keeper) :
    engine.ask record program keeper =
      ((keeper.fold call).1, storyDecision engine.platform program
        (program.satisfied engine.platform record.event).2 record.event (keeper.fold call).2) := by
  rw [(Engine.asks_of_some asked).ask_eq, Engine.verdictOn, if_pos sequencing.correlates]

theorem window_eq (asked : engine.askedOf record program = some call) :
    call.window = program.rule.sequence.within := by
  rw [(Engine.asks_of_some asked).window_eq, Engine.windowOf, if_pos sequencing.correlates]

theorem ask_of_none (asked : engine.askedOf record program = none) (keeper : Keeper) :
    engine.ask record program keeper = (keeper, none) := by
  unfold Engine.askedOf at asked
  unfold Engine.ask
  split_ifs at asked ⊢ with runs
  · rw [Engine.callOf, if_pos sequencing.correlates] at asked
    simp only at asked
    split_ifs at asked with any
    rw [Engine.consider, if_pos sequencing.correlates, completed]
    simp only [if_neg any]
  · rfl

end


end Sequencing

variable {platform : Platform} {program : Program} {evidence : List Evidence} {event : Event}
  {answer : Answer}

theorem storyDecision_isSome (refusal_eq : answer.refusal = none)
    (repeated_eq : answer.state.repeated = false) :
    (storyDecision platform program evidence event answer).isSome ↔
      (ordered answer.window program.stages.length ⟨"", ""⟩).2 = true ∧
        ¬ (ordered answer.window program.stages.length (nameOf event)).2 = true := by
  rw [storyDecision, refusal_eq, repeated_eq]
  simp only [Option.isSome_none, Bool.false_eq_true, if_false]
  split_ifs with untold before
  · simp [untold]
  · simp [before]
  · simp only [Option.isSome_some, true_iff]
    exact ⟨by simpa using untold, before⟩

theorem storyDecision_of_repeated (repeated_eq : answer.state.repeated = true) :
    storyDecision platform program evidence event answer = none := by
  simp [storyDecision, repeated_eq]

theorem storyDecision_of_refused (refused : answer.refusal.isSome) :
    storyDecision platform program evidence event answer = none := by
  simp [storyDecision, refused]

/-! ## One event -/

section Step

variable {engine : Engine} {bounds : Bounds} {program : Program} {key : Key} {keeper : Keeper}
  {opener : Key → Int32} {record : Record} {call : Call} {delivered : List Observation}

/-- Observations of an episode, each once. -/
structure Part (episode : Episode bounds program.rule.sequence.within)
    (delivered : List Observation) : Prop where
  members : ∀ seen ∈ delivered, seen ∈ episode.observations
  distinct : delivered.Nodup

namespace Part

variable {episode : Episode bounds program.rule.sequence.within}

section

variable (part : Part episode delivered)

include part

theorem eq_of_event {seen one : Observation}
    (seen_mem : seen ∈ episode.observations) (one_mem : one ∈ delivered)
    (same : one.event = seen.event) : one = seen :=
  List.inj_on_of_nodup_map episode.events_distinct (part.members one one_mem) seen_mem same

theorem cons {seen : Observation}
    (seen_mem : seen ∈ episode.observations) (new : seen ∉ delivered) :
    Part episode (seen :: delivered) where
  members := by
    intro one one_mem
    rcases List.mem_cons.mp one_mem with rfl | before
    · exact seen_mem
    · exact part.members one before
  distinct := List.nodup_cons.mpr ⟨new, part.distinct⟩

theorem length_le :
    delivered.length ≤ bounds.observationsPerKey.toNat := by
  have counted := (List.subperm_of_subset part.distinct part.members).length_le
  have := episode.fits
  omega

theorem increasing {window : List Observation}
    (perm : window.Perm delivered)
    (sorted : window.Pairwise fun earlier later => earlier.time ≤ later.time) :
    window.Pairwise fun earlier later => earlier.time < later.time := by
  have distinct : window.Pairwise fun earlier later => earlier ≠ later :=
    perm.nodup_iff.mpr part.distinct
  refine (sorted.and distinct).imp_of_mem fun {earlier later} earlier_mem later_mem both => ?_
  refine lt_of_le_of_ne both.1 fun same => both.2 ?_
  exact List.inj_on_of_nodup_map episode.times_distinct
    (part.members earlier (perm.subset earlier_mem)) (part.members later (perm.subset later_mem))
    same

end

end Part

section

variable (sequencing : Sequencing engine bounds program)
  (asked : engine.askedOf record program = some call)

include sequencing asked

theorem episode_accepts (episode : Episode bounds program.rule.sequence.within)
    (bounds_eq : keeper.bounds = bounds)
    (brings : call.seen ∈ episode.observations) : call.refusal keeper.bounds = none := by
  have := sequencing.within_pos
  have := sequencing.within_le
  rw [Call.refusal, (Engine.asks_of_some asked).live, episode.valid call.seen brings,
    sequencing.window_eq asked, bounds_eq]
  simp only [Bool.false_eq_true, if_false]
  rw [if_neg (by omega), if_neg (by omega)]

theorem ask_roomless (consistent : Keeper.Consistent opener keeper)
    (retained : (keeper.keys.lookup call.key).isSome →
      ((keeper.fold call).1.keys.lookup call.key).isSome)
    (lacks : Keeper.roomless (keeper.fold call).2 = true) :
    (engine.ask record program keeper).1.heldAt call.key = keeper.heldAt call.key ∧
      (engine.ask record program keeper).2 = none := by
  have refused : (keeper.fold call).2.refusal.isSome := by
    rw [Keeper.roomless] at lacks
    cases refusal_eq : (keeper.fold call).2.refusal with
    | none => simp [refusal_eq] at lacks
    | some refusal => rfl
  rw [sequencing.ask_eq asked keeper]
  refine ⟨?_, storyDecision_of_refused refused⟩
  rcases Keeper.fold_cases consistent call with turned | reaches
  · exact Keeper.fold_elsewhere consistent (Or.inr turned) retained
  · rw [Keeper.roomless, reaches.refusal_eq] at lacks
    split at lacks <;> cases lacks

theorem ask_again (holds : (keeper.heldAt call.key).Perm delivered)
    (before : call.seen ∈ delivered) (reaches : keeper.Reaches call) :
    ((engine.ask record program keeper).1.heldAt call.key).Perm delivered ∧
      (engine.ask record program keeper).2 = none := by
  have window_eq : keeper.windowFold call = (keeper.heldAt call.key, .repeated) :=
    fold_of_repeated (List.mem_map_of_mem (holds.mem_iff.mpr before))
  rw [sequencing.ask_eq asked keeper]
  constructor
  · rw [reaches.held_eq, window_eq]
    exact holds
  · exact storyDecision_of_repeated (by rw [reaches.repeated_eq, window_eq]; rfl)

theorem ask_new
    {episode : Episode bounds program.rule.sequence.within} (part : Part episode delivered)
    (consistent : Keeper.Consistent opener keeper) (bounds_eq : keeper.bounds = bounds)
    (holds : (keeper.heldAt call.key).Perm delivered)
    (brings : call.seen ∈ episode.observations) (new : call.seen ∉ delivered)
    (reaches : keeper.Reaches call) :
    ((engine.ask record program keeper).1.heldAt call.key).Perm (call.seen :: delivered) ∧
      ((engine.ask record program keeper).2.isSome ↔
        Told program.stages.length (call.seen :: delivered) ∧
          ¬ Told program.stages.length delivered) := by
  have grown := part.cons brings new
  have sorted := (consistent.heldAt_valid call.key).sorted
  have close : ∀ one ∈ call.seen :: keeper.heldAt call.key,
      ∀ other ∈ call.seen :: keeper.heldAt call.key, other.time - call.window ≤ one.time := by
    intro one one_mem other other_mem
    rw [sequencing.window_eq asked]
    exact episode.span one (grown.members one ((holds.cons _).subset one_mem)) other
      (grown.members other ((holds.cons _).subset other_mem))
  have unheld : call.seen.event ∉ (keeper.heldAt call.key).map Observation.event := by
    intro held
    obtain ⟨one, one_mem, same⟩ := List.mem_map.mp held
    have one_delivered := holds.mem_iff.mp one_mem
    exact new (part.eq_of_event brings one_delivered same ▸ one_delivered)
  have room : (keeper.heldAt call.key).length < keeper.bounds.observationsPerKey.toNat := by
    have := grown.length_le
    rw [holds.length_eq, bounds_eq]
    simpa using this
  have window_eq : keeper.windowFold call =
      (place Observation.time call.seen (keeper.heldAt call.key), .fresh) :=
    fold_of_close _ _ sorted unheld close room
  have perm : (place Observation.time call.seen (keeper.heldAt call.key)).Perm
      (call.seen :: delivered) := (place_perm _ _ _).trans (holds.cons _)
  have increasing := grown.increasing perm (place_sorted _ _ sorted)
  have reads : call.read = true :=
    (Engine.asks_of_some asked).read_eq.trans sequencing.correlates
  have name_eq := (Engine.asks_of_some asked).event_eq
  rw [sequencing.ask_eq asked keeper]
  refine ⟨by rw [reaches.held_eq, window_eq]; exact perm, ?_⟩
  rw [storyDecision_isSome (by rw [reaches.refusal_eq, window_eq]; rfl)
    (by rw [reaches.repeated_eq, window_eq]; rfl),
    reaches.read_eq reads (by simp [window_eq]), window_eq, ordered_iff _ _ increasing,
    ordered_iff _ _ increasing, ← name_eq]
  -- No event goes by no name, and only the new observation goes by its own.
  have whole : ∀ one, one ∈ (place Observation.time call.seen (keeper.heldAt call.key)).filter
      (fun seen => seen.event != ⟨"", ""⟩) ↔ one ∈ call.seen :: delivered := by
    intro one
    rw [List.mem_filter, perm.mem_iff, and_iff_left_iff_imp]
    intro one_mem
    have valid := episode.valid one (grown.members one one_mem)
    rw [bne_iff_ne]
    rintro nameless
    simp [Observation.validate, nameless] at valid
  have rest : ∀ one, one ∈ (place Observation.time call.seen (keeper.heldAt call.key)).filter
      (fun seen => seen.event != call.seen.event) ↔ one ∈ delivered := by
    intro one
    rw [List.mem_filter, perm.mem_iff, bne_iff_ne, List.mem_cons]
    constructor
    · rintro ⟨rfl | before, differs⟩
      · exact absurd rfl differs
      · exact before
    · intro before
      exact ⟨Or.inr before, fun same => new (part.eq_of_event brings before same ▸ before)⟩
  exact and_congr
    ⟨fun told => told.mono fun one => (whole one).mp, fun told => told.mono fun one => (whole one).mpr⟩
    (not_congr
      ⟨fun told => told.mono fun one => (rest one).mp, fun told => told.mono fun one => (rest one).mpr⟩)

end


end Step

/-! ## A run of events -/

/-- How many events of a run a sequence reported a story of one key at. -/
def storiesOf (engine : Engine) (program : Program) (key : Key) : List Record → Keeper → ℕ
  | [], _ => 0
  | record :: records, keeper =>
    (if keyOf engine.platform program record.event = key then
      (Engine.madeBy program (engine.detect record keeper).2).length else 0) +
      storiesOf engine program key records (engine.detect record keeper).1

/-- How many stories are found while a window grows. -/
structure Tally (stages : ℕ) (before after : List Observation) (count : ℕ) : Prop where
  told_before : Told stages before → count = 0
  told_since : ¬ Told stages before → Told stages after → count = 1
  untold : ¬ Told stages after → count = 0

variable {before after : List Observation}

theorem Tally.trans {between : List Observation} {first second : ℕ}
    (earlier : Tally stages before between first) (later : Tally stages between after second)
    (grows : ∀ seen ∈ before, seen ∈ between) (grows_on : ∀ seen ∈ between, seen ∈ after) :
    Tally stages before after (first + second) where
  told_before told := by
    rw [earlier.told_before told, later.told_before (told.mono grows)]
  told_since untold told := by
    by_cases between_told : Told stages between
    · rw [earlier.told_since untold between_told, later.told_before between_told]
    · rw [earlier.untold between_told, later.told_since between_told told]
  untold untold := by
    rw [earlier.untold fun told => untold (told.mono grows_on), later.untold untold]

theorem Tally.same (shrinks : ∀ seen ∈ after, seen ∈ before) : Tally stages before after 0 where
  told_before _ := rfl
  told_since untold told := absurd (told.mono shrinks) untold
  untold _ := rfl

theorem Tally.of_decided {made : Option Match}
    (decides : made.isSome ↔ Told stages after ∧ ¬ Told stages before) :
    Tally stages before after made.toList.length := by
  cases made with
  | none =>
    simp only [Option.isSome_none, Bool.false_eq_true, false_iff, not_and_not_right] at decides
    exact ⟨fun _ => rfl, fun untold told => absurd (decides told) untold, fun _ => rfl⟩
  | some found =>
    obtain ⟨told, untold⟩ := decides.mp rfl
    exact ⟨fun before => absurd before untold, fun _ _ => rfl, fun after => absurd told after⟩

section Run

variable {engine : Engine} {bounds : Bounds} {program : Program} {key : Key} {keeper : Keeper}
  {opener : Key → Int32} {delivered : List Observation}

variable (sequencing : Sequencing engine bounds program)
  {episode : Episode bounds program.rule.sequence.within} (part : Part episode delivered)
  (own : key.rule = program.rule.id) (consistent : Keeper.Consistent opener keeper)
  (bounds_eq : keeper.bounds = bounds) (holds : (keeper.heldAt key).Perm delivered)

include sequencing part own consistent bounds_eq holds

theorem detect_tally {record : Record} (retains : keeper.Retains key (engine.callsOf record))
    (gives : ∀ seen ∈ keeper.givenTo key (engine.callsOf record), seen ∈ episode.observations) :
    ∃ after : List Observation, Part episode after ∧
      ((engine.detect record keeper).1.heldAt key).Perm after ∧
      (∀ seen, seen ∈ after ↔
        seen ∈ delivered ∨ seen ∈ keeper.givenTo key (engine.callsOf record)) ∧
      Tally program.stages.length delivered after
        (if keyOf engine.platform program record.event = key then
          (Engine.madeBy program (engine.detect record keeper).2).length else 0) := by
  obtain ⟨before, focus⟩ := Engine.detect_focus sequencing.member own consistent retains
  have before_retains := focus.along _ retains
  obtain ⟨before_opener, before_consistent⟩ := focus.before_same.consistent
  rw [focus.after_same.held_eq, focus.made_eq, focus.given_eq] at *
  have before_holds : (before.heldAt key).Perm delivered := focus.before_same.held_eq ▸ holds
  cases asked : engine.askedOf record program with
  | none =>
    refine ⟨delivered, part, ?_, by simp [Keeper.givenTo], ?_⟩
    · rw [sequencing.ask_of_none asked]
      exact before_holds
    · rw [sequencing.ask_of_none asked]
      simpa using Tally.same fun _ => id
  | some call =>
    rw [asked] at before_retains gives
    rw [← Engine.askedOf_key asked]
    by_cases under : call.key = key
    · subst under
      rw [if_pos rfl]
      cases lacks : Keeper.roomless (before.fold call).2 with
      | true =>
        obtain ⟨held, silent⟩ :=
          ask_roomless sequencing asked before_consistent before_retains.1 lacks
        refine ⟨delivered, part, held ▸ before_holds, by simp [Keeper.givenTo, lacks], ?_⟩
        rw [silent]
        exact Tally.same fun _ => id
      | false =>
        have given_eq : before.givenTo call.key [call] = [call.seen] := by
          simp [Keeper.givenTo, lacks]
        rw [Option.toList_some, given_eq] at gives ⊢
        have call_gives := gives call.seen (List.mem_singleton_self _)
        have reaches := Keeper.reaches_of_served before_consistent
          (episode_accepts sequencing asked episode
            (focus.before_same.bounds_eq.trans bounds_eq) call_gives) lacks
        by_cases known : call.seen ∈ delivered
        · obtain ⟨held, silent⟩ := ask_again sequencing asked before_holds known reaches
          refine ⟨delivered, part, held, fun seen => ⟨Or.inl, ?_⟩, ?_⟩
          · rintro (before | new)
            · exact before
            · exact List.mem_singleton.mp new ▸ known
          · rw [silent]
            exact Tally.same fun _ => id
        · obtain ⟨held, decides⟩ := ask_new sequencing asked part before_consistent
            (focus.before_same.bounds_eq.trans bounds_eq) before_holds call_gives known reaches
          refine ⟨call.seen :: delivered, part.cons call_gives known, held, fun seen => ?_, ?_⟩
          · rw [List.mem_cons, or_comm, List.mem_singleton]
          · exact Tally.of_decided decides
    · rw [if_neg under]
      refine ⟨delivered, part, ?_, by simp [Keeper.givenTo, under], Tally.same fun _ => id⟩
      rw [Engine.ask_keeper, asked]
      exact (Keeper.fold_elsewhere before_consistent (Or.inl (Ne.symm under))
        before_retains.1) ▸ before_holds

theorem run_tally {records : List Record} (retains : keeper.Retains key (engine.calls records))
    (gives : ∀ seen ∈ keeper.givenTo key (engine.calls records), seen ∈ episode.observations) :
    ∃ after : List Observation,
      (∀ seen, seen ∈ after ↔
        seen ∈ delivered ∨ seen ∈ keeper.givenTo key (engine.calls records)) ∧
      Tally program.stages.length delivered after (storiesOf engine program key records keeper) := by
  induction records generalizing keeper opener delivered with
  | nil => exact ⟨delivered, by simp [Engine.calls, Keeper.givenTo], Tally.same fun _ => id⟩
  | cons record records ih =>
    have detect_eq : (engine.detect record keeper).1 = (keeper.run (engine.callsOf record)).1 :=
      Engine.considerAll_keeper engine record _ keeper
    have given_eq : keeper.givenTo key (engine.calls (record :: records)) =
        keeper.givenTo key (engine.callsOf record) ++
          (engine.detect record keeper).1.givenTo key (engine.calls records) := by
      rw [Engine.calls, List.flatMap_cons, Keeper.givenTo_append, detect_eq, Engine.calls]
    rw [Engine.calls, List.flatMap_cons, Keeper.Retains, Keeper.along_append, ← Engine.calls,
      ← detect_eq] at retains
    rw [given_eq] at gives
    obtain ⟨between, between_part, between_holds, between_mem, first⟩ :=
      detect_tally sequencing part own consistent bounds_eq holds retains.1
        fun seen seen_mem => gives seen (List.mem_append_left _ seen_mem)
    obtain ⟨next, next_consistent, next_bounds⟩ :=
      Keeper.run_consistent_from consistent (engine.callsOf record)
    rw [← detect_eq] at next_consistent next_bounds
    obtain ⟨after, after_mem, rest⟩ := ih between_part next_consistent
      (next_bounds.trans bounds_eq) between_holds retains.2
      fun seen seen_mem => gives seen (List.mem_append_right _ seen_mem)
    refine ⟨after, fun seen => ?_, first.trans rest (fun seen seen_mem => ?_) fun seen seen_mem => ?_⟩
    · rw [after_mem, between_mem, given_eq, List.mem_append, or_assoc]
    · exact (between_mem seen).mpr (Or.inl seen_mem)
    · exact (after_mem seen).mpr (Or.inl seen_mem)

end Run

/-- However the observations of an episode are delivered, and however often, in a store that does not
reclaim their key in between, a sequence reports their story at exactly one fold if they tell it, and
at none if they do not. -/
theorem story_found_once {engine : Engine} {bounds : Bounds} {program : Program}
    (sequencing : Sequencing engine bounds program) {start : Keeper}
    (made : Keeper.new bounds = .ok start) (earlier : List Call) {key : Key}
    (own : key.rule = program.rule.id) (unheld : (start.run earlier).1.keys.lookup key = none)
    (episode : Episode bounds program.rule.sequence.within) {records : List Record}
    (delivers : ∀ seen, seen ∈ (start.run earlier).1.givenTo key (engine.calls records) ↔
      seen ∈ episode.observations)
    (retains : (start.run earlier).1.Retains key (engine.calls records)) :
    (Told program.stages.length episode.observations →
        storiesOf engine program key records (start.run earlier).1 = 1) ∧
      (¬ Told program.stages.length episode.observations →
        storiesOf engine program key records (start.run earlier).1 = 0) := by
  obtain ⟨opener, consistent, bounds_eq⟩ := Keeper.run_consistent made earlier
  have holds : ((start.run earlier).1.heldAt key).Perm [] := by
    rw [Keeper.heldAt, unheld]
    exact List.Perm.refl []
  have nothing : Part episode [] := ⟨by simp, List.nodup_nil⟩
  obtain ⟨after, after_mem, tally⟩ := run_tally sequencing nothing own consistent bounds_eq holds
    retains fun seen => (delivers seen).mp
  have same : ∀ seen, seen ∈ after ↔ seen ∈ episode.observations := fun seen => by
    rw [after_mem, delivers]
    simp
  refine ⟨fun told => tally.told_since (not_told_nil sequencing.stages_pos) ?_,
    fun untold => tally.untold fun told => untold ?_⟩
  · exact told.mono fun seen => (same seen).mpr
  · exact told.mono fun seen => (same seen).mp

/-- A failed authentication, delivered after one that succeeded later, which comes twice. -/
def guessedLogon : List Record :=
  [.logon "acme" "event-02" 1 2000, .logon "acme" "event-01" 2 1000,
    .logon "acme" "event-02" 1 2000]

def guessedEpisode : Episode .small Duration.hour where
  observations := [⟨⟨"agent-01", "event-01"⟩, 1000, [1], 0, 0⟩,
    ⟨⟨"agent-01", "event-02"⟩, 2000, [2], 0, 0⟩]
  valid := by decide
  events_distinct := by decide
  times_distinct := by decide
  span := by decide
  fits := by decide

/-- The key the sequence remembers them under. -/
def guessedKey : Key := keyFor .plain "acme" "guessed_logon" 1 []

theorem story_found_once_guessed_logon :
    storiesOf Engine.small .guessedLogon guessedKey guessedLogon
      ((Keeper.empty .small).run []).1 = 1 := by
  have sequencing : Sequencing Engine.small .small .guessedLogon :=
    ⟨List.mem_cons_of_mem _ List.mem_cons_self, rfl, rfl, by decide, by decide⟩
  have given : ((Keeper.empty .small).run []).1.givenTo guessedKey
      (Engine.small.calls guessedLogon) =
        [⟨⟨"agent-01", "event-02"⟩, 2000, [2], 0, 0⟩, ⟨⟨"agent-01", "event-01"⟩, 1000, [1], 0, 0⟩,
          ⟨⟨"agent-01", "event-02"⟩, 2000, [2], 0, 0⟩] := by
    decide +kernel
  have delivers : ∀ seen, seen ∈ ((Keeper.empty .small).run []).1.givenTo guessedKey
      (Engine.small.calls guessedLogon) ↔ seen ∈ guessedEpisode.observations := by
    intro seen
    rw [given]
    simp only [guessedEpisode, List.mem_cons, List.not_mem_nil]
    tauto
  have peaceful : ((Keeper.empty .small).run []).1.Peaceful (Engine.small.calls guessedLogon) := by
    decide +kernel
  have told : Told 2 guessedEpisode.observations :=
    ⟨guessedEpisode.observations, rfl, by decide, fun _ => id, by
      simp [guessedEpisode, Tells, tellsStage, Stages.of, Stages.has]⟩
  exact (story_found_once sequencing rfl [] rfl rfl guessedEpisode delivers
    (peaceful.retains guessedKey)).1 told

end Seagull.Analysis
