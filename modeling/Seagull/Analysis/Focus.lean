import Seagull.Analysis.Engine
import Seagull.DetectionState.History

/-!
# One rule and one key of an engine

The rules of an engine share its store, and keys of different rules are different keys.  So what an
event does to one key of one rule is what that rule alone does to it.
-/

namespace Seagull.Analysis.Engine

open Contract Detection DetectionState Ruleset

variable {engine : Engine} {record : Record} {program : Program} {key : Key} {keeper : Keeper}
  {opener : Key → Int32}

def runsFor (program : Program) (record : Record) : Bool :=
  program.rule.eventClass = record.event.eventClass && program.rule.status.runs

/-- What one rule makes of an event. -/
def ask (engine : Engine) (record : Record) (program : Program) (keeper : Keeper) :
    Keeper × Option Match :=
  if runsFor program record then engine.consider record program keeper else (keeper, none)

def askedOf (engine : Engine) (record : Record) (program : Program) : Option Call :=
  if runsFor program record then engine.callOf record program else none

def windowOf (program : Program) : ℤ :=
  if program.correlates then program.rule.sequence.within else program.rule.count.within

/-- What a rule makes of the answer to the fold it asked for. -/
def verdictOn (engine : Engine) (record : Record) (program : Program) (answer : Answer) :
    Option Match :=
  if program.correlates then
    storyDecision engine.platform program (program.satisfied engine.platform record.event).2
      record.event answer
  else
    (program.decide engine.platform record.event).bind fun found =>
      countDecision engine.platform program found record.event answer

def madeBy (program : Program) (made : List Match) : List Match :=
  made.filter fun found => found.rule.id = program.rule.id

/-- A store that holds under a key what another holds. -/
structure Same (key : Key) (keeper after : Keeper) : Prop where
  consistent : ∃ opener, Keeper.Consistent opener after
  bounds_eq : after.bounds = keeper.bounds
  held_eq : after.heldAt key = keeper.heldAt key

theorem Same.refl (consistent : Keeper.Consistent opener keeper) : Same key keeper keeper :=
  ⟨⟨opener, consistent⟩, rfl, rfl⟩

theorem Same.trans {after final : Keeper} (first : Same key keeper after)
    (second : Same key after final) : Same key keeper final :=
  ⟨second.consistent, second.bounds_eq.trans first.bounds_eq,
    second.held_eq.trans first.held_eq⟩

theorem considerAll_append (earlier later : List Program) (keeper : Keeper) :
    engine.considerAll record (earlier ++ later) keeper =
      ((engine.considerAll record later (engine.considerAll record earlier keeper).1).1,
        (engine.considerAll record earlier keeper).2 ++
          (engine.considerAll record later (engine.considerAll record earlier keeper).1).2) := by
  induction earlier generalizing keeper with
  | nil => rfl
  | cons other earlier ih =>
    simp only [List.cons_append, considerAll, ih, List.append_assoc]

theorem considerAll_elsewhere (consistent : Keeper.Consistent opener keeper)
    {programs : List Program} (elsewhere : ∀ other ∈ programs, other.rule.id ≠ key.rule)
    (retains : keeper.Retains key (programs.filterMap (engine.callOf record))) :
    Same key keeper (engine.considerAll record programs keeper).1 ∧
      ∀ found ∈ (engine.considerAll record programs keeper).2, found.rule.id ≠ key.rule := by
  induction programs generalizing keeper opener with
  | nil => exact ⟨.refl consistent, by simp [considerAll]⟩
  | cons other programs ih =>
    have differs := elsewhere other List.mem_cons_self
    have later : ∀ later ∈ programs, later.rule.id ≠ key.rule := fun later later_mem =>
      elsewhere later (List.mem_cons_of_mem other later_mem)
    have stepped : Same key keeper (engine.consider record other keeper).1 ∧
        (engine.consider record other keeper).1.Retains key
          (programs.filterMap (engine.callOf record)) := by
      rw [consider_keeper]
      cases asked : engine.callOf record other with
      | none =>
        rw [List.filterMap_cons_none asked] at retains
        exact ⟨.refl consistent, retains⟩
      | some call =>
        rw [List.filterMap_cons_some asked] at retains
        have other_key : key ≠ call.key := by
          rintro rfl
          rw [callOf_key asked] at differs
          exact differs rfl
        exact ⟨⟨⟨_, Keeper.fold_consistent consistent call⟩,
          Keeper.fold_bounds consistent call,
          Keeper.fold_elsewhere consistent (Or.inl other_key) retains.1⟩, retains.2⟩
    obtain ⟨⟨next, next_consistent⟩, next_bounds, next_held⟩ := stepped.1
    obtain ⟨rest, silent⟩ := ih next_consistent later stepped.2
    refine ⟨stepped.1.trans rest, fun found found_mem => ?_⟩
    rcases List.mem_append.mp found_mem with first | after
    · rw [consider_rule (Option.mem_toList.mp first)]
      exact differs
    · exact silent found after

theorem madeBy_eq_nil {made : List Match}
    (elsewhere : ∀ found ∈ made, found.rule.id ≠ program.rule.id) : madeBy program made = [] := by
  rw [madeBy, List.filter_eq_nil_iff]
  simpa using elsewhere

theorem askedOf_key {call : Call} (asked : engine.askedOf record program = some call) :
    call.key = keyOf engine.platform program record.event := by
  unfold askedOf at asked
  split at asked
  · exact callOf_key asked
  · cases asked

theorem ask_keeper :
    (engine.ask record program keeper).1 =
      ((engine.askedOf record program).elim keeper fun call => (keeper.fold call).1) := by
  unfold ask askedOf
  split
  · exact consider_keeper engine record program keeper
  · rfl

/-- The fold a rule asks for, and what it makes of the answer. -/
structure Asks (engine : Engine) (record : Record) (program : Program) (call : Call) : Prop where
  key_eq : call.key = keyOf engine.platform program record.event
  event_eq : call.seen.event = nameOf record.event
  time_eq : call.seen.time = record.event.happened
  window_eq : call.window = windowOf program
  read_eq : call.read = program.correlates
  live : call.cancelled = false
  runs : runsFor program record
  ask_eq : ∀ keeper : Keeper, engine.ask record program keeper =
    ((keeper.fold call).1, engine.verdictOn record program (keeper.fold call).2)

theorem asks_of_some {call : Call} (asked : engine.askedOf record program = some call) :
    Asks engine record program call := by
  unfold askedOf at asked
  split_ifs at asked with runs
  have considered : ∀ keeper : Keeper,
      engine.ask record program keeper = engine.consider record program keeper := by
    intro keeper
    rw [ask, if_pos runs]
  by_cases correlates : program.correlates = true
  · rw [callOf, if_pos correlates] at asked
    simp only at asked
    split_ifs at asked with any
    obtain rfl := Option.some.inj asked
    refine ⟨rfl, rfl, rfl, by simp [ordering, windowOf, correlates], by simp [ordering, correlates],
      rfl, runs, fun keeper => ?_⟩
    rw [considered, consider, if_pos correlates, completed, verdictOn, if_pos correlates]
    simp only [if_pos any]
  · rw [callOf, if_neg correlates] at asked
    cases decided : program.decide engine.platform record.event with
    | none => simp [decided] at asked
    | some found =>
      rw [decided] at asked
      simp only at asked
      split_ifs at asked with counts
      obtain rfl := Option.some.inj asked
      refine ⟨rfl, rfl, rfl, by simp [observing, windowOf, correlates],
        by simp [observing, correlates], rfl, runs, fun keeper => ?_⟩
      rw [considered, consider, if_neg correlates, decided, verdictOn, if_neg correlates, decided]
      simp only [if_pos counts]
      rfl

theorem ask_of_none (asked : engine.askedOf record program = none) :
    ∃ made, ∀ keeper : Keeper, engine.ask record program keeper = (keeper, made) := by
  unfold askedOf at asked
  split_ifs at asked with runs
  · by_cases correlates : program.correlates = true
    · rw [callOf, if_pos correlates] at asked
      simp only at asked
      split_ifs at asked with any
      refine ⟨none, fun keeper => ?_⟩
      rw [ask, if_pos runs, consider, if_pos correlates, completed]
      simp only [if_neg any]
    · rw [callOf, if_neg correlates] at asked
      refine ⟨program.decide engine.platform record.event, fun keeper => ?_⟩
      rw [ask, if_pos runs, consider, if_neg correlates]
      cases decided : program.decide engine.platform record.event with
      | none => rfl
      | some found =>
        rw [decided] at asked
        simp only at asked
        split_ifs at asked with counts
        simp only [if_neg counts]
  · refine ⟨none, fun keeper => ?_⟩
    rw [ask, if_neg runs]

theorem verdictOn_of_refused {answer : Answer} (refused : answer.refusal.isSome) :
    engine.verdictOn record program answer = none := by
  unfold verdictOn
  split_ifs
  · simp [storyDecision, refused]
  · cases program.decide engine.platform record.event <;> simp [countDecision, refused]

theorem verdictOn_of_repeated {answer : Answer} (repeated : answer.state.repeated = true) :
    engine.verdictOn record program answer = none := by
  unfold verdictOn
  split_ifs
  · simp [storyDecision, repeated]
  · cases program.decide engine.platform record.event <;> simp [countDecision, repeated]

theorem verdictOn_congr {one other : Answer} (refusal_eq : one.refusal = other.refusal)
    (repeated_eq : one.state.repeated = other.state.repeated)
    (count_eq : one.state.count = other.state.count)
    (first_eq : one.state.first = other.state.first)
    (saturated_eq : one.state.saturated = other.state.saturated)
    (window_eq : program.correlates = true → one.window = other.window) :
    engine.verdictOn record program one = engine.verdictOn record program other := by
  unfold verdictOn
  split_ifs with correlates
  · rw [storyDecision, storyDecision, refusal_eq, repeated_eq, window_eq correlates]
  · simp only [countDecision, refusal_eq, repeated_eq, count_eq, first_eq, saturated_eq]

theorem madeBy_append (earlier later : List Match) :
    madeBy program (earlier ++ later) = madeBy program earlier ++ madeBy program later :=
  List.filter_append earlier later

theorem madeBy_consider :
    madeBy program (engine.consider record program keeper).2.toList =
      (engine.consider record program keeper).2.toList := by
  rw [madeBy, List.filter_eq_self]
  intro found found_mem
  rw [consider_rule (Option.mem_toList.mp found_mem)]
  simp

theorem givenTo_elsewhere {programs : List Program}
    (elsewhere : ∀ other ∈ programs, other.rule.id ≠ key.rule) :
    keeper.givenTo key (programs.filterMap (engine.callOf record)) = [] := by
  refine Keeper.givenTo_elsewhere fun call call_mem own => ?_
  obtain ⟨other, other_mem, asked⟩ := List.mem_filterMap.mp call_mem
  rw [← own, callOf_key asked] at elsewhere
  exact elsewhere other other_mem rfl

/-- An event and a key of a rule, in the store the rule's own turn finds. -/
structure Focus (program : Program) (key : Key)
    (keeper before : Keeper) (asked : Option Call) (made : Keeper × Option Match)
    (calls : List Call) (detected : Keeper × List Match) : Prop where
  before_same : Same key keeper before
  along : ∀ condition, Keeper.Along condition keeper calls →
    Keeper.Along condition before asked.toList
  given_eq : keeper.givenTo key calls = before.givenTo key asked.toList
  after_same : Same key made.1 detected.1
  made_eq : madeBy program detected.2 = made.2.toList

theorem considerAll_focus (own : key.rule = program.rule.id)
    (consistent : Keeper.Consistent opener keeper) {earlier later : List Program}
    (earlier_elsewhere : ∀ other ∈ earlier, other.rule.id ≠ key.rule)
    (later_elsewhere : ∀ other ∈ later, other.rule.id ≠ key.rule)
    (retains :
      keeper.Retains key ((earlier ++ program :: later).filterMap (engine.callOf record))) :
    ∃ before : Keeper, Focus program key keeper before
      (engine.callOf record program) (engine.consider record program before)
      ((earlier ++ program :: later).filterMap (engine.callOf record))
      (engine.considerAll record (earlier ++ program :: later) keeper) := by
  have split_at : ∀ condition, Keeper.Along condition keeper
      ((earlier ++ program :: later).filterMap (engine.callOf record)) →
      Keeper.Along condition keeper (earlier.filterMap (engine.callOf record)) ∧
        Keeper.Along condition (engine.considerAll record earlier keeper).1
          ((program :: later).filterMap (engine.callOf record)) := by
    intro condition along
    rw [List.filterMap_append, Keeper.along_append, ← considerAll_keeper] at along
    exact along
  obtain ⟨earlier_retains, rest_retains⟩ := split_at _ retains
  obtain ⟨before_same, before_silent⟩ :=
    considerAll_elsewhere consistent earlier_elsewhere earlier_retains
  obtain ⟨next, before_consistent⟩ := before_same.consistent
  have given_eq : keeper.givenTo key
      ((earlier ++ program :: later).filterMap (engine.callOf record)) =
      (engine.considerAll record earlier keeper).1.givenTo key
        ((program :: later).filterMap (engine.callOf record)) := by
    rw [List.filterMap_append, Keeper.givenTo_append, givenTo_elsewhere earlier_elsewhere,
      ← considerAll_keeper, List.nil_append]
  rw [considerAll_append, considerAll]
  generalize engine.considerAll record earlier keeper = before at *
  have parts : (engine.consider record program before.1).1.Retains key
        (later.filterMap (engine.callOf record)) ∧
      (∃ opener, Keeper.Consistent opener (engine.consider record program before.1).1) ∧
      (∀ condition, Keeper.Along condition before.1
          ((program :: later).filterMap (engine.callOf record)) →
        Keeper.Along condition before.1 (engine.callOf record program).toList) ∧
      before.1.givenTo key ((program :: later).filterMap (engine.callOf record)) =
        before.1.givenTo key (engine.callOf record program).toList := by
    rw [consider_keeper]
    cases asked : engine.callOf record program with
    | none =>
      rw [List.filterMap_cons_none asked] at rest_retains ⊢
      exact ⟨rest_retains, ⟨next, before_consistent⟩, fun _ _ => trivial,
        givenTo_elsewhere later_elsewhere⟩
    | some call =>
      rw [List.filterMap_cons_some asked] at rest_retains ⊢
      refine ⟨rest_retains.2, ⟨_, Keeper.fold_consistent before_consistent call⟩,
        fun _ along => ⟨along.1, trivial⟩, ?_⟩
      rw [Option.toList_some, Keeper.givenTo, Keeper.givenTo, givenTo_elsewhere later_elsewhere]
      rfl
  obtain ⟨later_retains, ⟨_, after_consistent⟩, along, own_given⟩ := parts
  obtain ⟨after_same, after_silent⟩ :=
    considerAll_elsewhere after_consistent later_elsewhere later_retains
  refine ⟨before.1, before_same, fun condition all => along condition (split_at condition all).2,
    given_eq.trans own_given, after_same, ?_⟩
  simp only [madeBy_append, madeBy_consider, madeBy_eq_nil (own ▸ before_silent),
    madeBy_eq_nil (own ▸ after_silent), List.nil_append, List.append_nil]

theorem detect_focus (member : program ∈ engine.rules.programs)
    (own : key.rule = program.rule.id) (consistent : Keeper.Consistent opener keeper)
    (retains : keeper.Retains key (engine.callsOf record)) :
    ∃ before : Keeper, Focus program key keeper before
      (engine.askedOf record program) (engine.ask record program before)
      (engine.callsOf record) (engine.detect record keeper) := by
  unfold detect ask askedOf
  split_ifs with runs
  · have running : program ∈ engine.rules.forClass record.event.eventClass :=
      List.mem_filter.mpr ⟨member, runs⟩
    have sorted := engine.rules.sorted.sublist
      (engine.rules.forClass_sublist record.event.eventClass)
    rw [callsOf] at retains ⊢
    obtain ⟨earlier, later, programs_eq⟩ := List.append_of_mem running
    rw [programs_eq] at retains sorted ⊢
    obtain ⟨-, tail_sorted, across⟩ := List.pairwise_append.mp sorted
    refine considerAll_focus own consistent (fun other other_mem => own ▸ ?_)
      (fun other other_mem => own ▸ ?_) retains
    · exact (across other other_mem program List.mem_cons_self).ne
    · exact ((List.pairwise_cons.mp tail_sorted).1 other other_mem).ne'
  · have elsewhere : ∀ other ∈ engine.rules.forClass record.event.eventClass,
        other.rule.id ≠ key.rule := by
      intro other other_mem same_id
      have same : other = program := Snapshot.eq_of_id
        ((engine.rules.forClass_sublist _).subset other_mem) member (same_id.trans own)
      rw [same, Snapshot.forClass] at other_mem
      exact runs (List.mem_filter.mp other_mem).2
    obtain ⟨same, silent⟩ := considerAll_elsewhere consistent elsewhere retains
    exact ⟨keeper, .refl consistent, fun _ _ => trivial, givenTo_elsewhere elsewhere, same,
      madeBy_eq_nil (own ▸ silent)⟩

end Seagull.Analysis.Engine
