import Seagull.Analysis.Engine
import Seagull.DetectionState.History

/-!
# Events delivered again

A counting rule answers an event it already folded with nothing, as long as its key still knows the
event's name.  At the ceiling a window also forgets names it still reaches, and an event so
forgotten is folded as new and decides again.
-/

namespace Seagull.Analysis

open Contract Detection DetectionState Ruleset SlidingWindow

/-- A counting rule that a store bounded this way can answer. -/
structure Counting (engine : Engine) (bounds : Bounds) (program : Program) : Prop where
  member : program ∈ engine.rules.programs
  counts : program.counts
  uncorrelated : program.correlates = false
  within_pos : 0 < program.rule.count.within
  admitted : bounds.admits program.rule.count = none

namespace Counting

variable {engine : Engine} {bounds : Bounds} {program : Program}

section

variable (counting : Counting engine bounds program)

include counting

theorem atLeast_le :
    program.rule.count.atLeast ≤ bounds.observationsPerKey := by
  have admitted := counting.admitted
  have counts : program.rule.count.counts = true := counting.counts
  rw [Bounds.admits, if_neg (by simp [counts])] at admitted
  split_ifs at admitted with long unreachable
  exact not_lt.mp unreachable

theorem callOf_eq (record : Record) :
    engine.callOf record program =
      (program.decide engine.platform record.event).map fun _ =>
        observing engine.platform program record := by
  have counts : program.counts = true := counting.counts
  rw [Engine.callOf, counting.uncorrelated]
  cases program.decide engine.platform record.event <;> simp [counts]

theorem consider_eq (record : Record) (keeper : Keeper) :
    engine.consider record program keeper =
      match program.decide engine.platform record.event with
      | none => (keeper, none)
      | some found => reached engine.platform program found record keeper := by
  have counts : program.counts = true := counting.counts
  rw [Engine.consider, counting.uncorrelated]
  cases program.decide engine.platform record.event <;> simp [counts]

theorem one_window {records : List Record} {key : Key}
    (own : key.rule = program.rule.id) {call : Call} (asked : call ∈ engine.calls records)
    (under : call.key = key) :
    ∃ record ∈ records, program ∈ engine.rules.forClass record.event.eventClass ∧
      ∃ found, program.decide engine.platform record.event = some found ∧
        call = observing engine.platform program record := by
  obtain ⟨record, record_mem, runs, call_eq⟩ :=
    Engine.exists_record counting.member asked (under ▸ own)
  rw [counting.callOf_eq, Option.map_eq_some_iff] at call_eq
  obtain ⟨found, decided, rfl⟩ := call_eq
  exact ⟨record, record_mem, runs, found, decided, rfl⟩

theorem mem_calls {records : List Record} {record : Record} {found : Match}
    (record_mem : record ∈ records)
    (runs : program ∈ engine.rules.forClass record.event.eventClass)
    (decided : program.decide engine.platform record.event = some found) :
    observing engine.platform program record ∈ engine.calls records :=
  List.mem_flatMap.mpr ⟨record, record_mem,
    List.mem_filterMap.mpr ⟨program, runs, by rw [counting.callOf_eq, decided]; rfl⟩⟩

end

end Counting

section Decision

variable {engine : Engine} {bounds : Bounds} {program : Program} {opener : Key → Int32}
  {keeper : Keeper} {record : Record} {found : Match}

theorem reached_none
    (reaches : keeper.Reaches (observing engine.platform program record))
    (known : (keeper.windowFold (observing engine.platform program record)).2 ≠ .fresh) :
    (reached engine.platform program found record keeper).2 = none := by
  rw [reached, countDecision, reaches.refusal_eq, reaches.repeated_eq]
  revert known
  cases (keeper.windowFold (observing engine.platform program record)).2 <;> simp

theorem turnedBack_none
    (turned : keeper.TurnedBack (observing engine.platform program record)) :
    (reached engine.platform program found record keeper).2 = none := by
  obtain ⟨refusal, answer_eq, -⟩ := turned
  simp [reached, countDecision, answer_eq, Answer.refused]

theorem reached_isSome
    (reaches : keeper.Reaches (observing engine.platform program record))
    (fresh : (keeper.windowFold (observing engine.platform program record)).2 = .fresh)
    (enough : program.rule.count.atLeast ≤
      (keeper.windowFold (observing engine.platform program record)).1.length) :
    (reached engine.platform program found record keeper).2.isSome := by
  simp [reached, countDecision, reaches.refusal_eq, reaches.repeated_eq, reaches.count_eq, fresh,
    enough]

theorem answered_iff {call : Call} (reaches : keeper.Reaches call) :
    (keeper.fold call).2.state.repeated = true ∨
        (keeper.fold call).2.refusal = some .tooLate ↔
      (keeper.windowFold call).2 ≠ .fresh := by
  rw [reaches.refusal_eq, reaches.repeated_eq]
  cases (keeper.windowFold call).2 <;> simp

end Decision

theorem observing_refusal (platform : Platform) (program : Program) (bounds : Bounds)
    {record again : Record} (same_name : nameOf again.event = nameOf record.event)
    (same_time : again.event.happened = record.event.happened) :
    (observing platform program again).refusal bounds =
      (observing platform program record).refusal bounds := by
  have validate_eq : (observing platform program again).seen.validate =
      (observing platform program record).seen.validate := by
    change Observation.validate ⟨nameOf again.event, again.event.happened, [], _, 0⟩ = _
    rw [same_name, same_time]
    rfl
  unfold Call.refusal
  rw [validate_eq]
  rfl

/-- The observations a key took of a batch. -/
def takenBy (engine : Engine) (start : Keeper) (records : List Record) (key : Key) :
    List Observation :=
  start.taken key (engine.calls records) []

/-- The observations a batch brings a key and the bounds accept. -/
def broughtTo (engine : Engine) (bounds : Bounds) (records : List Record) (key : Key) :
    List Observation :=
  ((engine.calls records).filter fun call =>
    call.key = key ∧ call.refusal bounds = none).map Call.seen

/-- The events no other has left a window behind are no more than a key can hold. -/
def Fits (bounds : Bounds) (window : ℤ) (brought : List Observation) : Prop :=
  ((Remembers.liveNames Observation.time Observation.event window brought).card : ℤ) ≤
    bounds.observationsPerKey

/-- A batch a new store takes whole: it reclaims no key of the rule, refuses none for want of room,
and the events of one name happened at one time. -/
structure TakenWhole (engine : Engine) (bounds : Bounds) (program : Program) (start : Keeper)
    (records : List Record) : Prop where
  made : Keeper.new bounds = .ok start
  retains : ∀ key : Key, key.rule = program.rule.id → start.Retains key (engine.calls records)
  serves : ∀ key : Key, key.rule = program.rule.id → start.Serves key (engine.calls records)
  named : ∀ one ∈ records, ∀ other ∈ records, nameOf one.event = nameOf other.event →
    one.event.happened = other.event.happened

/-- A record that delivers an event of a batch again, which the rule matches. -/
structure Redelivers (engine : Engine) (program : Program) (records : List Record)
    (again : Record) (found : Match) : Prop where
  delivered : ∃ record ∈ records, again.event = record.event
  runs : program ∈ engine.rules.forClass again.event.eventClass
  decided : program.decide engine.platform again.event = some found

section Redelivered

variable {engine : Engine} {bounds : Bounds} {program : Program} {start : Keeper}
  {records : List Record} {key : Key}

section

variable (counting : Counting engine bounds program)
  (whole : TakenWhole engine bounds program start records)

include counting whole

section

variable (own : key.rule = program.rule.id)

include own

omit counting own in
theorem taken_brought {seen : Observation} (seen_mem : seen ∈ takenBy engine start records key) :
    seen ∈ broughtTo engine bounds records key := by
  obtain ⟨accepted, rfl⟩ := Keeper.new_eq_ok whole.made
  have consistent : Keeper.Consistent (fun _ => 0) (Keeper.empty bounds) := .empty accepted
  rcases Keeper.mem_taken consistent seen_mem with before | ⟨call, asked, under, seen_eq, accepts⟩
  · cases before
  · exact List.mem_map.mpr
      ⟨call, List.mem_filter.mpr ⟨asked, decide_eq_true ⟨under, accepts⟩⟩, seen_eq⟩

omit whole in
theorem exists_brought {seen : Observation}
    (seen_mem : seen ∈ broughtTo engine bounds records key) :
    ∃ record ∈ records, ∃ found, Redelivers engine program records record found ∧
      keyOf engine.platform program record.event = key ∧
      (observing engine.platform program record).seen = seen ∧
      (observing engine.platform program record).refusal bounds = none := by
  obtain ⟨call, call_mem, rfl⟩ := List.mem_map.mp seen_mem
  obtain ⟨asked, holds⟩ := List.mem_filter.mp call_mem
  obtain ⟨under, accepts⟩ := of_decide_eq_true holds
  obtain ⟨record, record_mem, runs, found, decided, rfl⟩ := counting.one_window own asked under
  exact ⟨record, record_mem, found, ⟨⟨record, record_mem, rfl⟩, runs, decided⟩, under, rfl, accepts⟩

theorem run_counting_recalls :
    Keeper.Recalls key program.rule.count.within (takenBy engine start records key)
      (engine.run records start).1 := by
  obtain ⟨accepted, start_eq⟩ := Keeper.new_eq_ok whole.made
  have consistent : Keeper.Consistent (fun _ => 0) start := start_eq ▸ .empty accepted
  rw [Engine.run_keeper]
  refine Keeper.run_recalls consistent counting.within_pos.le (fun call asked under => ?_)
    (whole.retains key own) (start_eq ▸ Keeper.empty_recalls bounds key _)
  obtain ⟨record, -, -, found, -, rfl⟩ := counting.one_window own asked under
  rfl

theorem brought_taken {seen : Observation}
    (seen_mem : seen ∈ broughtTo engine bounds records key) :
    Keeper.AlikeIn (takenBy engine start records key) seen := by
  obtain ⟨record, record_mem, found, redelivers, under, rfl, accepts⟩ :=
    exists_brought counting own seen_mem
  obtain ⟨accepted, start_eq⟩ := Keeper.new_eq_ok whole.made
  have consistent : Keeper.Consistent (fun _ => 0) start := start_eq ▸ .empty accepted
  have one_window : ∀ call ∈ engine.calls records, call.key = key →
      call.window = program.rule.count.within := fun call asked under => by
    obtain ⟨-, -, -, -, -, rfl⟩ := counting.one_window own asked under
    rfl
  obtain ⟨alike, alike_mem, same_name⟩ := Keeper.named_taken consistent counting.within_pos.le
    one_window (whole.retains key own) (whole.serves key own)
    (start_eq ▸ Keeper.empty_recalls bounds key _)
    (counting.mem_calls record_mem redelivers.runs redelivers.decided) under
    (start_eq ▸ accepts)
  obtain ⟨other, other_mem, -, -, -, rfl, -⟩ :=
    exists_brought counting own (taken_brought whole alike_mem)
  exact ⟨_, alike_mem, whole.named record record_mem other other_mem same_name.symm, same_name.symm⟩

theorem fits_taken_iff :
    Fits bounds program.rule.count.within (takenBy engine start records key) ↔
      Fits bounds program.rule.count.within (broughtTo engine bounds records key) := by
  rw [Fits, Fits, Remembers.liveNames_congr
    (fun seen seen_mem => ⟨seen, taken_brought whole seen_mem, rfl, rfl⟩)
    fun seen seen_mem => brought_taken counting whole own seen_mem]

end

theorem redelivered_alike {again : Record} {found : Match}
    (redelivers : Redelivers engine program records again found)
    (accepts : (observing engine.platform program again).refusal bounds = none) :
    Keeper.AlikeIn (takenBy engine start records (keyOf engine.platform program again.event))
      (observing engine.platform program again).seen := by
  obtain ⟨⟨record, record_mem, same_event⟩, runs, decided⟩ := redelivers
  have same_refusal := observing_refusal engine.platform program bounds
    (congrArg nameOf same_event) (congrArg Event.happened same_event)
  rw [same_event] at runs decided
  have brought : (observing engine.platform program record).seen ∈
      broughtTo engine bounds records (keyOf engine.platform program record.event) :=
    List.mem_map.mpr ⟨_, List.mem_filter.mpr ⟨counting.mem_calls record_mem runs decided,
      decide_eq_true ⟨rfl, same_refusal.symm.trans accepts⟩⟩, rfl⟩
  obtain ⟨alike, alike_mem, same_time, same_name⟩ := brought_taken counting whole rfl brought
  rw [same_event]
  exact ⟨alike, alike_mem, (congrArg Event.happened same_event).trans same_time,
    (congrArg nameOf same_event).trans same_name⟩

theorem redelivered_reaches {again : Record} {found : Match}
    (redelivers : Redelivers engine program records again found)
    (accepts : (observing engine.platform program again).refusal bounds = none) :
    (engine.run records start).1.Reaches (observing engine.platform program again) := by
  obtain ⟨alike, alike_mem, -⟩ := redelivered_alike counting whole redelivers accepts
  obtain ⟨held, held_mem, -⟩ := (run_counting_recalls counting whole rfl).reached alike alike_mem
  obtain ⟨opener, consistent, bounds_eq⟩ :=
    Keeper.run_consistent whole.made (engine.calls records)
  rw [← Engine.run_keeper] at consistent bounds_eq
  refine Keeper.reaches_of_held consistent (by rwa [bounds_eq]) ?_
  by_contra unheld
  rw [Option.not_isSome_iff_eq_none] at unheld
  have under : (observing engine.platform program again).key =
    keyOf engine.platform program again.event := rfl
  simp [Keeper.heldAt, ← under, unheld] at held_mem

theorem fits_iff :
    (∀ again found, Redelivers engine program records again found →
        (observing engine.platform program again).refusal bounds = none →
        ((engine.run records start).1.windowFold
          (observing engine.platform program again)).2 ≠ .fresh) ↔
      ∀ key : Key, key.rule = program.rule.id →
        Fits bounds program.rule.count.within (broughtTo engine bounds records key) := by
  obtain ⟨opener, consistent, bounds_eq⟩ :=
    Keeper.run_consistent whole.made (engine.calls records)
  rw [← Engine.run_keeper] at consistent bounds_eq
  have positive := consistent.accepted.observations_pos
  have fits_eq : ∀ key : Key, key.rule = program.rule.id →
      (Fits bounds program.rule.count.within (broughtTo engine bounds records key) ↔ _) :=
    fun key own => (fits_taken_iff counting whole own).symm.trans
      (Iff.trans (by rw [Fits, ← bounds_eq]; omega)
        ((run_counting_recalls counting whole own).no_refold_iff counting.within_pos.le).symm)
  constructor
  · intro settled key own
    rw [fits_eq key own]
    intro past past_mem fresh
    obtain ⟨record, -, found, redelivers, rfl, rfl, accepts⟩ :=
      exists_brought counting own (taken_brought whole past_mem)
    exact settled record found redelivers accepts fresh
  · intro fits again found redelivers accepts fresh
    obtain ⟨alike, alike_mem, same_time, same_name⟩ :=
      redelivered_alike counting whole redelivers accepts
    exact (fits_eq _ rfl).mp (fits _ rfl) alike alike_mem
      ((fold_fresh_congr _ _ same_time same_name).mp fresh)

theorem reached_of_fresh {again : Record} {found : Match}
    (redelivers : Redelivers engine program records again found)
    (accepts : (observing engine.platform program again).refusal bounds = none)
    (fresh : ((engine.run records start).1.windowFold
      (observing engine.platform program again)).2 = .fresh) :
    (reached engine.platform program found again (engine.run records start).1).2.isSome := by
  obtain ⟨alike, alike_mem, same_time, same_name⟩ :=
    redelivered_alike counting whole redelivers accepts
  obtain ⟨opener, consistent, bounds_eq⟩ :=
    Keeper.run_consistent whole.made (engine.calls records)
  rw [← Engine.run_keeper] at bounds_eq
  -- A refold leaves the window full, and a full window holds what the rule counts to.
  have full : ((engine.run records start).1.windowFold
      (observing engine.platform program again)).1.length = bounds.observationsPerKey.toNat :=
    ((run_counting_recalls counting whole rfl).length_of_refolded counting.within_pos.le alike_mem
      same_time same_name fresh).trans (by rw [bounds_eq])
  have enough := counting.atLeast_le
  exact reached_isSome (redelivered_reaches counting whole redelivers accepts) fresh (by omega)

end

end Redelivered

/-- A store in which no key of a rule would fold again what it took. -/
structure Quiet (bounds : Bounds) (program : Program) (past : Key → List Observation)
    (keeper : Keeper) : Prop where
  consistent : ∃ opener, Keeper.Consistent opener keeper
  bounds_eq : keeper.bounds = bounds
  settled : ∀ key : Key, key.rule = program.rule.id →
    keeper.Settled key program.rule.count.within (past key)

/-- An event the rule does not match, the bounds refuse, or that was taken before. -/
def Again (engine : Engine) (bounds : Bounds) (program : Program)
    (past : Key → List Observation) (record : Record) : Prop :=
  program ∈ engine.rules.forClass record.event.eventClass →
  ∀ found, program.decide engine.platform record.event = some found →
    (observing engine.platform program record).refusal bounds = none →
    Keeper.AlikeIn (past (keyOf engine.platform program record.event))
      (observing engine.platform program record).seen

section Batch

variable {engine : Engine} {bounds : Bounds} {program : Program} {past : Key → List Observation}
  {keeper : Keeper} {record : Record}

section

variable (quiet : Quiet bounds program past keeper)

include quiet

section

variable (counting : Counting engine bounds program)

include counting

theorem Quiet.fold {call : Call}
    (again : call.key.rule = program.rule.id → call.window = program.rule.count.within ∧
      (call.refusal bounds = none → Keeper.AlikeIn (past call.key) call.seen))
    (retained : ∀ key : Key, key.rule = program.rule.id → keeper.Retains key [call]) :
    Quiet bounds program past (keeper.fold call).1 := by
  obtain ⟨⟨opener, consistent⟩, rfl, settled⟩ := quiet
  refine ⟨⟨_, Keeper.fold_consistent consistent call⟩, Keeper.fold_bounds consistent call,
    fun key own => (settled key own).fold consistent counting.within_pos.le ?_ ?_
      (retained key own).1⟩
  · rintro rfl
    exact (again own).1
  · rintro rfl
    exact (again own).2

section

variable (again : Again engine bounds program past record)

include again

theorem Quiet.reached {found : Match}
    (runs : program ∈ engine.rules.forClass record.event.eventClass)
    (decided : program.decide engine.platform record.event = some found) :
    (reached engine.platform program found record keeper).2 = none := by
  obtain ⟨⟨opener, consistent⟩, rfl, settled⟩ := quiet
  cases refuses : (observing engine.platform program record).refusal keeper.bounds with
  | some refusal => exact turnedBack_none (Keeper.turnedBack_of_refusal refuses)
  | none =>
    rcases Keeper.fold_cases consistent (observing engine.platform program record) with
      turned | reaches
    · exact turnedBack_none turned
    · exact reached_none reaches
        ((settled (keyOf engine.platform program record.event) rfl).not_fresh
          counting.within_pos.le rfl rfl (again runs found decided refuses))

theorem Quiet.consider
    {other : Program} (other_mem : other ∈ engine.rules.forClass record.event.eventClass)
    (retained : ∀ key : Key, key.rule = program.rule.id →
      keeper.Retains key (engine.callOf record other).toList) :
    Quiet bounds program past (engine.consider record other keeper).1 ∧
      ∀ found ∈ (engine.consider record other keeper).2, found.rule.id ≠ program.rule.id := by
  by_cases same : other = program
  · subst same
    rw [counting.callOf_eq] at retained
    rw [counting.consider_eq]
    cases decided : other.decide engine.platform record.event with
    | none => exact ⟨quiet, by simp⟩
    | some found =>
      rw [decided] at retained
      refine ⟨quiet.fold counting (fun _ => ⟨rfl, again other_mem found decided⟩) retained, ?_⟩
      simp only [quiet.reached counting again other_mem decided]
      simp
  · have differs : other.rule.id ≠ program.rule.id := fun id_eq =>
      same (Snapshot.eq_of_id ((engine.rules.forClass_sublist _).subset other_mem)
        counting.member id_eq)
    refine ⟨?_, fun found made => by rw [Engine.consider_rule made]; exact differs⟩
    rw [Engine.consider_keeper]
    cases asked : engine.callOf record other with
    | none => exact quiet
    | some call =>
      rw [asked] at retained
      refine quiet.fold counting (fun own => absurd ?_ differs) retained
      rw [← own, Engine.callOf_key asked]
      rfl

theorem Quiet.considerAll
    {programs : List Program}
    (programs_sub : ∀ other ∈ programs, other ∈ engine.rules.forClass record.event.eventClass)
    (retained : ∀ key : Key, key.rule = program.rule.id →
      keeper.Retains key (programs.filterMap (engine.callOf record))) :
    Quiet bounds program past (engine.considerAll record programs keeper).1 ∧
      ∀ found ∈ (engine.considerAll record programs keeper).2,
        found.rule.id ≠ program.rule.id := by
  induction programs generalizing keeper with
  | nil => exact ⟨quiet, by simp [Engine.considerAll]⟩
  | cons other programs ih =>
    have split : ∀ key : Key, key.rule = program.rule.id →
        keeper.Retains key (engine.callOf record other).toList ∧
          (engine.consider record other keeper).1.Retains key
            (programs.filterMap (engine.callOf record)) := by
      intro key own
      have both := retained key own
      rw [Engine.consider_keeper]
      cases asked : engine.callOf record other with
      | none => exact ⟨trivial, by rwa [List.filterMap_cons_none asked] at both⟩
      | some call =>
        rw [List.filterMap_cons_some asked] at both
        exact ⟨⟨both.1, trivial⟩, both.2⟩
    obtain ⟨next, silent⟩ := quiet.consider counting again
      (programs_sub other List.mem_cons_self) fun key own => (split key own).1
    obtain ⟨after, rest⟩ := ih next
      (fun later later_mem => programs_sub later (List.mem_cons_of_mem other later_mem))
      fun key own => (split key own).2
    refine ⟨after, fun found found_mem => ?_⟩
    rcases List.mem_append.mp found_mem with first | later
    · exact silent found (Option.mem_toList.mp first)
    · exact rest found later

end

theorem Quiet.run
    {records : List Record} (again : ∀ record ∈ records, Again engine bounds program past record)
    (retained : ∀ key : Key, key.rule = program.rule.id →
      keeper.Retains key (engine.calls records)) :
    ∀ made ∈ (engine.run records keeper).2, ∀ found ∈ made,
      found.rule.id ≠ program.rule.id := by
  induction records generalizing keeper with
  | nil => simp [Engine.run]
  | cons record records ih =>
    have split : ∀ key : Key, key.rule = program.rule.id →
        keeper.Retains key (engine.callsOf record) ∧
          (engine.detect record keeper).1.Retains key (engine.calls records) := by
      intro key own
      rw [Engine.detect, Engine.considerAll_keeper]
      exact Keeper.along_append.mp (retained key own)
    obtain ⟨next, silent⟩ := quiet.considerAll counting (again record List.mem_cons_self)
      (fun other other_mem => other_mem) fun key own => (split key own).1
    intro made made_mem
    rcases List.mem_cons.mp made_mem with rfl | later
    · exact silent
    · exact ih next (fun later later_mem => again later (List.mem_cons_of_mem record later_mem))
        (fun key own => (split key own).2) made later

end

end

end Batch

/-- Three authentications of one tenant that failed, one after another. -/
def threeFailures : List Record :=
  [.logon "acme" "event-01" 2 1000, .logon "acme" "event-02" 2 2000,
    .logon "acme" "event-03" 2 3000]

theorem counting_failedLogons {bounds : Bounds}
    (admitted : bounds.admits Rule.failedLogons.count = none) :
    Counting Engine.small bounds .failedLogons where
  member := List.mem_cons_self
  counts := rfl
  uncorrelated := rfl
  within_pos := by decide
  admitted := admitted

/-- A store whose keys hold two observations. -/
def pairBounds : Bounds := ⟨Duration.hour, 2, 24, 12, 6⟩

end Seagull.Analysis
