import Seagull.Analysis.Focus
import Seagull.Broker.Recovery
import Seagull.Foundation.WindowSuffix

/-!
# Reading a partition back

An engine that starts again with an empty store reads its partition back from before the position it
committed.  It decides an event as an engine that never stopped does if nothing it did not read back
still counts with the event: the windows of the two stores agree from some instant on, and an event
a whole window past it is answered alike.  An event delivered late can count with events the read
back does not reach.
-/

namespace Seagull.Analysis

open Contract Detection DetectionState Ruleset SlidingWindow Broker

/-- The names of the detections one rule makes of each event of a run. -/
def Engine.detectionIds (engine : Engine) (program : Program) :
    List Record → Keeper → List (List String)
  | [], _ => []
  | record :: records, keeper =>
    (Engine.madeBy program (engine.detect record keeper).2).map
        (fun found => found.detectionId engine.platform record.event) ::
      detectionIds engine program records (engine.detect record keeper).1

/-- A run that does not reclaim a key, has room for it, and never fills it. -/
structure Undisturbed (key : Key) (keeper : Keeper) (calls : List Call) : Prop where
  retains : keeper.Retains key calls
  serves : keeper.Serves key calls
  unfilled : keeper.Unfilled key calls

theorem undisturbed_append {key : Key} {keeper : Keeper} {earlier later : List Call} :
    Undisturbed key keeper (earlier ++ later) ↔
      Undisturbed key keeper earlier ∧ Undisturbed key (keeper.run earlier).1 later := by
  constructor
  · rintro ⟨retains, serves, unfilled⟩
    obtain ⟨retains, later_retains⟩ := Keeper.along_append.mp retains
    obtain ⟨serves, later_serves⟩ := Keeper.along_append.mp serves
    obtain ⟨unfilled, later_unfilled⟩ := Keeper.along_append.mp unfilled
    exact ⟨⟨retains, serves, unfilled⟩, ⟨later_retains, later_serves, later_unfilled⟩⟩
  · rintro ⟨earlier, later⟩
    exact ⟨Keeper.along_append.mpr ⟨earlier.retains, later.retains⟩,
      Keeper.along_append.mpr ⟨earlier.serves, later.serves⟩,
      Keeper.along_append.mpr ⟨earlier.unfilled, later.unfilled⟩⟩

theorem Undisturbed.focus {program : Program} {key : Key} {keeper before : Keeper}
    {asked : Option Call} {made : Keeper × Option Match} {calls : List Call}
    {detected : Keeper × List Match} (peace : Undisturbed key keeper calls)
    (focus : Engine.Focus program key keeper before asked made calls detected) :
    Undisturbed key before asked.toList :=
  ⟨focus.along _ peace.retains, focus.along _ peace.serves, focus.along _ peace.unfilled⟩

/-! ## Two stores -/

/-- Calls that bring a key events under one window, and each name at one time. -/
structure Brings (key : Key) (window : ℤ) (calls : List Call) : Prop where
  one_window : ∀ call ∈ calls, call.key = key → call.window = window
  named : ∀ one ∈ calls, ∀ other ∈ calls, one.key = key → other.key = key →
    one.seen.event = other.seen.event → one.seen.time = other.seen.time

theorem Brings.of_subset {key : Key} {window : ℤ} {calls fewer : List Call}
    (brings : Brings key window calls) (subset : fewer ⊆ calls) : Brings key window fewer :=
  ⟨fun call call_mem => brings.one_window call (subset call_mem),
    fun one one_mem other other_mem => brings.named one (subset one_mem) other (subset other_mem)⟩

/-- What a store holds under a key after calls that left the key in peace. -/
structure Kept (bounds : Bounds) (key : Key) (window : ℤ) (calls : List Call) (keeper : Keeper) :
    Prop where
  consistent : ∃ opener, Keeper.Consistent opener keeper
  bounds_eq : keeper.bounds = bounds
  within : Within Observation.time window (keeper.heldAt key)
  brought : ∀ held ∈ keeper.heldAt key, ∃ call ∈ calls,
    call.key = key ∧ call.refusal bounds = none ∧ call.seen = held
  reached : ∀ call ∈ calls, call.key = key → call.refusal bounds = none →
    ∃ held ∈ keeper.heldAt key, call.seen.time ≤ held.time

/-- Two stores fold an observation as new into the same window, or neither as new. -/
def FoldAlike (one other : Keeper) (call : Call) : Prop :=
  ((one.windowFold call).2 = .fresh ↔ (other.windowFold call).2 = .fresh) ∧
    ((one.windowFold call).2 = .fresh → (one.windowFold call).1 = (other.windowFold call).1)

section Stores

variable {bounds : Bounds} {start : Keeper} {key : Key} {window cut : ℤ}
  {calls earlier later : List Call} {keeper one other : Keeper} {call : Call}

theorem kept_of_run (made : Keeper.new bounds = .ok start) (nonneg : 0 ≤ window)
    (brings : Brings key window calls) (peace : Undisturbed key start calls) :
    Kept bounds key window calls (start.run calls).1 := by
  obtain ⟨opener, ran, bounds_eq⟩ := Keeper.run_consistent made calls
  obtain ⟨accepted, rfl⟩ := Keeper.new_eq_ok made
  have consistent : Keeper.Consistent (fun _ => 0) (Keeper.empty bounds) := .empty accepted
  have nothing := Keeper.empty_recalls bounds key window
  have recalls := Keeper.run_recalls consistent nonneg brings.one_window peace.retains nothing
  have brought : ∀ seen ∈ (Keeper.empty bounds).taken key calls [], ∃ call ∈ calls,
      call.key = key ∧ call.refusal bounds = none ∧ call.seen = seen := by
    intro seen seen_mem
    rcases Keeper.mem_taken consistent seen_mem with before | ⟨call, call_mem, under, same, accepts⟩
    · cases before
    · exact ⟨call, call_mem, under, accepts, same⟩
  refine ⟨⟨opener, ran⟩, bounds_eq, recalls.within,
    fun held held_mem => brought held (recalls.held_folded held held_mem),
    fun call call_mem under accepts => ?_⟩
  obtain ⟨alike, alike_mem, same_name⟩ := Keeper.named_taken consistent nonneg brings.one_window
    peace.retains peace.serves nothing call_mem under accepts
  obtain ⟨other, other_mem, other_under, -, rfl⟩ := brought alike alike_mem
  rw [brings.named call call_mem other other_mem under other_under same_name.symm]
  exact recalls.reached other.seen alike_mem

theorem Kept.of_same (kept : Kept bounds key window calls keeper)
    (same : Engine.Same key keeper other) : Kept bounds key window calls other :=
  ⟨same.consistent, same.bounds_eq.trans kept.bounds_eq, same.held_eq ▸ kept.within,
    same.held_eq ▸ kept.brought, same.held_eq ▸ kept.reached⟩

theorem Kept.valid (kept : Kept bounds key window calls keeper) :
    Valid Observation.time Observation.event bounds.observationsPerKey.toNat
      (keeper.heldAt key) := by
  obtain ⟨opener, consistent⟩ := kept.consistent
  exact kept.bounds_eq ▸ consistent.heldAt_valid key

theorem Kept.windowFold_eq (kept : Kept bounds key window calls keeper) (under : call.key = key)
    (one_window : call.window = window) :
    keeper.windowFold call = fold Observation.time Observation.event window
      bounds.observationsPerKey.toNat (keeper.heldAt key) call.seen := by
  rw [Keeper.windowFold, kept.bounds_eq, under, one_window]

theorem Kept.reaches (kept : Kept bounds key window calls keeper) (under : call.key = key)
    (accepts : call.refusal bounds = none) (peace : Undisturbed key keeper [call]) :
    keeper.Reaches call ∧ (keeper.windowFold call).1.length < bounds.observationsPerKey.toNat := by
  obtain ⟨opener, consistent⟩ := kept.consistent
  have reaches := Keeper.reaches_of_served consistent (kept.bounds_eq ▸ accepts)
    (peace.serves.1 under)
  subst under
  exact ⟨reaches, kept.bounds_eq ▸ reaches.room_of_unfilled peace.unfilled⟩

theorem Kept.heldAt_fold (kept : Kept bounds key window calls keeper)
    (elsewhere : call.key ≠ key ∨ call.refusal bounds ≠ none)
    (peace : Undisturbed key keeper [call]) :
    (keeper.fold call).1.heldAt key = keeper.heldAt key := by
  obtain ⟨opener, consistent⟩ := kept.consistent
  refine Keeper.fold_elsewhere consistent (elsewhere.imp Ne.symm fun refused => ?_) peace.retains.1
  obtain ⟨refusal, refuses⟩ := Option.ne_none_iff_exists'.mp refused
  exact Keeper.turnedBack_of_refusal (kept.bounds_eq ▸ refuses)

section

variable (ours : Kept bounds key window earlier one) (theirs : Kept bounds key window later other)
  (our_peace : Undisturbed key one [call]) (their_peace : Undisturbed key other [call])
  (one_window : call.key = key → call.window = window)
  (named : ∀ asked ∈ earlier ++ later, asked.key = key → call.key = key →
    asked.seen.event = call.seen.event → asked.seen.time = call.seen.time)
  (alike : since Observation.time cut (one.heldAt key) =
    since Observation.time cut (other.heldAt key))

include ours theirs named in
theorem Kept.same_time (under : call.key = key) :
    ∀ held ∈ one.heldAt key ++ other.heldAt key, held.event = call.seen.event →
      held.time = call.seen.time := by
  intro held held_mem same
  rcases List.mem_append.mp held_mem with held_mem | held_mem
  · obtain ⟨asked, asked_mem, asked_under, -, rfl⟩ := ours.brought held held_mem
    exact named asked (List.mem_append_left later asked_mem) asked_under under same
  · obtain ⟨asked, asked_mem, asked_under, -, rfl⟩ := theirs.brought held held_mem
    exact named asked (List.mem_append_right earlier asked_mem) asked_under under same

include ours theirs our_peace their_peace one_window named alike

theorem Kept.since_fold :
    since Observation.time cut ((one.fold call).1.heldAt key) =
      since Observation.time cut ((other.fold call).1.heldAt key) := by
  by_cases elsewhere : call.key ≠ key ∨ call.refusal bounds ≠ none
  · rw [ours.heldAt_fold elsewhere our_peace, theirs.heldAt_fold elsewhere their_peace, alike]
  · rw [not_or, not_not, not_not] at elsewhere
    obtain ⟨rfl, accepts⟩ := elsewhere
    obtain ⟨our_reaches, our_room⟩ := ours.reaches rfl accepts our_peace
    obtain ⟨their_reaches, their_room⟩ := theirs.reaches rfl accepts their_peace
    rw [our_reaches.held_eq, their_reaches.held_eq]
    rw [ours.windowFold_eq rfl (one_window rfl)] at our_room ⊢
    rw [theirs.windowFold_eq rfl (one_window rfl)] at their_room ⊢
    exact since_fold_congr ours.valid theirs.valid our_room their_room
      (ours.same_time theirs named rfl) alike ours.within theirs.within

theorem Kept.foldAlike_of_past (under : call.key = key) (accepts : call.refusal bounds = none)
    (nonneg : 0 ≤ window) (past : cut + window ≤ call.seen.time) : FoldAlike one other call := by
  have our_room := (ours.reaches under accepts our_peace).2
  have their_room := (theirs.reaches under accepts their_peace).2
  rw [FoldAlike]
  rw [ours.windowFold_eq under (one_window under)] at our_room ⊢
  rw [theirs.windowFold_eq under (one_window under)] at their_room ⊢
  obtain ⟨verdicts, windows⟩ := fold_congr_of_past ours.valid theirs.valid our_room their_room
    (ours.same_time theirs named under) alike past nonneg
  exact ⟨by rw [verdicts], windows⟩

end

theorem Kept.foldAlike_of_passed (ours : Kept bounds key window earlier one)
    (theirs : Kept bounds key window later other) (under : call.key = key)
    (one_window : call.window = window) {passed : Call} (passed_under : passed.key = key)
    (passed_accepts : passed.refusal bounds = none) (earlier_mem : passed ∈ earlier)
    (later_mem : passed ∈ later) (behind : call.seen.time + window < passed.seen.time) :
    FoldAlike one other call := by
  have known : ∀ {keeper : Keeper} {calls : List Call}, Kept bounds key window calls keeper →
      passed ∈ calls → (keeper.windowFold call).2 ≠ .fresh := by
    intro keeper calls kept passed_mem
    obtain ⟨held, held_mem, passed_le⟩ :=
      kept.reached passed passed_mem passed_under passed_accepts
    rw [kept.windowFold_eq under one_window]
    exact fold_ne_fresh_of_passed kept.valid held_mem (behind.trans_le passed_le)
  exact ⟨iff_of_false (known ours earlier_mem) (known theirs later_mem),
    fun fresh => absurd fresh (known ours earlier_mem)⟩

theorem since_run_eq (cut : ℤ) (made : Keeper.new bounds = .ok start) (nonneg : 0 ≤ window)
    (brings : Brings key window (earlier ++ later))
    (peace : Undisturbed key start (earlier ++ later)) (later_peace : Undisturbed key start later)
    (behind : ∀ call ∈ earlier, call.key = key → call.refusal bounds = none →
      call.seen.time < cut) :
    since Observation.time cut ((start.run (earlier ++ later)).1.heldAt key) =
      since Observation.time cut ((start.run later).1.heldAt key) := by
  -- From the last call backwards, so that both stores are what a whole run leaves.
  induction later using List.reverseRecOn with
  | nil =>
    rw [List.append_nil] at brings peace ⊢
    have nothing : (start.run []).1.heldAt key = [] := by rw [(Keeper.new_eq_ok made).2]; rfl
    rw [nothing, since_eq_nil fun held held_mem => ?_]
    · rfl
    · obtain ⟨call, call_mem, under, accepts, rfl⟩ :=
        (kept_of_run made nonneg brings peace).brought held held_mem
      exact behind call call_mem under accepts
  | append_singleton later call ih =>
    rw [← List.append_assoc] at brings peace ⊢
    obtain ⟨our_peace, our_own⟩ := undisturbed_append.mp peace
    obtain ⟨their_peace, their_own⟩ := undisturbed_append.mp later_peace
    have shorter : Brings key window (earlier ++ later) :=
      brings.of_subset (List.subset_append_left _ _)
    have call_mem : call ∈ earlier ++ later ++ [call] :=
      List.mem_append_right _ (List.mem_singleton_self call)
    rw [Keeper.run_append start (earlier ++ later), Keeper.run_append start later]
    refine (kept_of_run made nonneg shorter our_peace).since_fold
      (kept_of_run made nonneg (shorter.of_subset (List.subset_append_right _ _)) their_peace)
      our_own their_own (brings.one_window call call_mem) (fun asked asked_mem under own => ?_)
      (ih shorter our_peace their_peace)
    refine brings.named asked (List.mem_append_left [call] ?_) call call_mem under own
    rcases List.mem_append.mp asked_mem with both | late
    · exact both
    · exact List.mem_append_right earlier late

end Stores

/-! ## One event -/

section Event

variable {engine : Engine} {bounds : Bounds} {program : Program} {record : Record}
  {records : List Record} {key : Key}

theorem exists_asked {call : Call} (member : program ∈ engine.rules.programs)
    (asked : call ∈ engine.calls records) (own : call.key.rule = program.rule.id) :
    ∃ record ∈ records, engine.askedOf record program = some call := by
  obtain ⟨record, record_mem, runs, call_eq⟩ := Engine.exists_record member asked own
  have running : Engine.runsFor program record = true := (List.mem_filter.mp runs).2
  exact ⟨record, record_mem, by rw [Engine.askedOf, if_pos running, call_eq]⟩

theorem mem_calls_of_asked {call : Call} (member : program ∈ engine.rules.programs)
    (record_mem : record ∈ records) (asked : engine.askedOf record program = some call) :
    call ∈ engine.calls records := by
  have runs := (Engine.asks_of_some asked).runs
  rw [Engine.askedOf, if_pos runs] at asked
  exact List.mem_flatMap.mpr ⟨record, record_mem,
    List.mem_filterMap.mpr ⟨program, List.mem_filter.mpr ⟨member, runs⟩, asked⟩⟩

section Verdict

variable {call : Call} {keeper one other : Keeper}

theorem verdictOn_of_known (reaches : keeper.Reaches call)
    (known : (keeper.windowFold call).2 ≠ .fresh) :
    engine.verdictOn record program (keeper.fold call).2 = none := by
  cases verdict : (keeper.windowFold call).2 with
  | repeated => exact Engine.verdictOn_of_repeated (by rw [reaches.repeated_eq, verdict]; rfl)
  | late => exact Engine.verdictOn_of_refused (by rw [reaches.refusal_eq, verdict]; rfl)
  | fresh => exact absurd verdict known

theorem verdictOn_of_refusal (refused : call.refusal keeper.bounds ≠ none) :
    engine.verdictOn record program (keeper.fold call).2 = none := by
  obtain ⟨refusal, refuses⟩ := Option.ne_none_iff_exists'.mp refused
  obtain ⟨_, answer_eq, -⟩ := Keeper.turnedBack_of_refusal refuses
  exact Engine.verdictOn_of_refused (by rw [answer_eq]; rfl)

theorem verdictOn_of_alike (asks : Engine.Asks engine record program call)
    (one_reaches : one.Reaches call) (other_reaches : other.Reaches call)
    (bounds_eq : one.bounds = other.bounds) (alike : FoldAlike one other call) :
    engine.verdictOn record program (one.fold call).2 =
      engine.verdictOn record program (other.fold call).2 := by
  obtain ⟨fresh_iff, windows⟩ := alike
  by_cases fresh : (one.windowFold call).2 = .fresh
  · have other_fresh := fresh_iff.mp fresh
    apply Engine.verdictOn_congr
    · rw [one_reaches.refusal_eq, other_reaches.refusal_eq, fresh, other_fresh]
    · rw [one_reaches.repeated_eq, other_reaches.repeated_eq, fresh, other_fresh]
    · rw [one_reaches.count_eq, other_reaches.count_eq, windows fresh]
    · rw [one_reaches.first_eq, other_reaches.first_eq, windows fresh]
    · rw [one_reaches.saturated_eq, other_reaches.saturated_eq, windows fresh, bounds_eq]
    · intro correlates
      have reads := asks.read_eq.trans correlates
      rw [one_reaches.read_eq reads (by simp [fresh]),
        other_reaches.read_eq reads (by simp [other_fresh]), windows fresh]
  · rw [verdictOn_of_known one_reaches fresh,
      verdictOn_of_known other_reaches fun known => fresh (fresh_iff.mpr known)]

end Verdict

theorem madeBy_detect_congr {calls others : List Call} {window : ℤ} {one other : Keeper}
    (member : program ∈ engine.rules.programs)
    (key_eq : keyOf engine.platform program record.event = key)
    (ours : Kept bounds key window calls one) (theirs : Kept bounds key window others other)
    (our_peace : Undisturbed key one (engine.callsOf record))
    (their_peace : Undisturbed key other (engine.callsOf record))
    (alike : ∀ call our_before their_before, engine.askedOf record program = some call →
      call.refusal bounds = none →
      Engine.Same key one our_before → Engine.Same key other their_before →
      Undisturbed key our_before [call] → Undisturbed key their_before [call] →
        FoldAlike our_before their_before call) :
    Engine.madeBy program (engine.detect record one).2 =
      Engine.madeBy program (engine.detect record other).2 := by
  obtain ⟨_, our_consistent⟩ := ours.consistent
  obtain ⟨_, their_consistent⟩ := theirs.consistent
  have own : key.rule = program.rule.id := key_eq ▸ rfl
  obtain ⟨our_before, our_focus⟩ :=
    Engine.detect_focus member own our_consistent our_peace.retains
  obtain ⟨their_before, their_focus⟩ :=
    Engine.detect_focus member own their_consistent their_peace.retains
  rw [our_focus.made_eq, their_focus.made_eq]
  cases asked : engine.askedOf record program with
  | none =>
    obtain ⟨made, ask_eq⟩ := Engine.ask_of_none asked
    rw [ask_eq, ask_eq]
  | some call =>
    have asks := Engine.asks_of_some asked
    have under : call.key = key := asks.key_eq.trans key_eq
    have our_kept := ours.of_same our_focus.before_same
    have their_kept := theirs.of_same their_focus.before_same
    have our_call := our_peace.focus our_focus
    have their_call := their_peace.focus their_focus
    rw [asked] at our_call their_call
    rw [asks.ask_eq, asks.ask_eq]
    by_cases accepts : call.refusal bounds = none
    · rw [verdictOn_of_alike asks (our_kept.reaches under accepts our_call).1
        (their_kept.reaches under accepts their_call).1
        (our_kept.bounds_eq.trans their_kept.bounds_eq.symm)
        (alike call our_before their_before asked accepts our_focus.before_same
          their_focus.before_same our_call their_call)]
    · rw [verdictOn_of_refusal (our_kept.bounds_eq ▸ accepts),
        verdictOn_of_refusal (their_kept.bounds_eq ▸ accepts)]

end Event

/-! ## A log -/

/-- An event the gateway admitted, by its record's timestamp. -/
def Admitted (skew age : ℤ) (logged : Logged Record) : Prop :=
  logged.carried.event.happened ≤ logged.instant + skew ∧
    logged.instant - age ≤ logged.carried.event.happened

/-- A rule of an engine that keeps a window, one the store can keep. -/
structure Windowed (engine : Engine) (bounds : Bounds) (program : Program) : Prop where
  member : program ∈ engine.rules.programs
  window_pos : 0 < Engine.windowOf program
  window_le : Engine.windowOf program ≤ bounds.window

/-- The events of a log, in its order. -/
def eventsOf (log : Log Record) : List Record := log.records.map Logged.carried

/-- Where an engine that committed a position starts to read back. -/
def startOf (engine : Engine) (bounds : Bounds) (skew : ℤ) (log : Log Record) (position : ℕ) : ℕ :=
  rewind log (recovering bounds skew engine.rules) position

/-- A record whose event a rule folds under a key. -/
def Folds (engine : Engine) (bounds : Bounds) (program : Program) (key : Key)
    (logged : Logged Record) : Prop :=
  ∃ call, engine.askedOf logged.carried program = some call ∧ call.key = key ∧
    call.refusal bounds = none

/-- The timestamp the read back reaches from the last committed record. -/
def reachOf (engine : Engine) (bounds : Bounds) (skew : ℤ) (last : Logged Record) : ℤ :=
  (last.instant - recovering bounds skew engine.rules) / millisecond

/-- An event the read back reaches.  It happened no earlier than the last committed record was
stamped, or a whole window after every event of its key stamped before the reach, or it is itself a
window behind an event of its key stamped within the reach that comes before it. -/
def Reached (engine : Engine) (bounds : Bounds) (skew : ℤ) (program : Program) (log : Log Record)
    (position index : ℕ) : Prop :=
  ∀ last late key, log.records[position - 1]? = some last → log.records[index]? = some late →
    Folds engine bounds program key late →
    last.instant ≤ late.carried.event.happened ∨
    (∀ early ∈ log.records, early.stamp < reachOf engine bounds skew last →
      Folds engine bounds program key early →
        early.carried.event.happened + Engine.windowOf program < late.carried.event.happened) ∨
    ∃ newer ∈ log.records.take index, reachOf engine bounds skew last ≤ newer.stamp ∧
      Folds engine bounds program key newer ∧
        late.carried.event.happened + Engine.windowOf program < newer.carried.event.happened

section Log

variable {engine : Engine} {bounds : Bounds} {program : Program} {log : Log Record} {skew age : ℤ}
  {position index : ℕ} {key : Key} {early late last : Logged Record}

theorem Windowed.covered (windowed : Windowed engine bounds program)
    (folds : Folds engine bounds program key late) :
    Engine.windowOf program + skew ≤ recovering bounds skew engine.rules := by
  obtain ⟨call, asked, -⟩ := folds
  have runs := (Engine.asks_of_some asked).runs
  simp only [Engine.runsFor, Bool.and_eq_true] at runs
  refine window_le_recovering windowed.member runs.2 windowed.window_pos windowed.window_le ?_
  rw [Engine.windowOf]
  split_ifs
  · exact le_max_right _ _
  · exact le_max_left _ _

theorem stamp_lt_reachOf (positive : 0 < recovering bounds skew engine.rules)
    (committed : log.records[position - 1]? = some last)
    (early_mem : early ∈ log.records.take (startOf engine bounds skew log position)) :
    early.stamp < reachOf engine bounds skew last := by
  obtain ⟨index, index_lt, found⟩ := List.mem_take_iff_getElem.mp early_mem
  have before : index < startOf engine bounds skew log position :=
    lt_of_lt_of_le index_lt (min_le_left _ _)
  cases position with
  | zero => exact absurd before (by simp [startOf, rewind])
  | succ position =>
    exact stamp_lt_of_lt_rewind positive committed before
      (List.getElem?_eq_some_iff.mpr ⟨_, found⟩)

theorem apart_of_punctual (windowed : Windowed engine bounds program)
    (early_admitted : Admitted skew age early) (folds : Folds engine bounds program key late)
    (early_stamp : early.stamp < reachOf engine bounds skew last)
    (punctual : last.instant ≤ late.carried.event.happened) :
    early.carried.event.happened + Engine.windowOf program < late.carried.event.happened := by
  have covered : Engine.windowOf program + skew ≤ _ := windowed.covered folds
  have reach_le := Int.ediv_mul_le (last.instant - recovering bounds skew engine.rules)
    (show millisecond ≠ 0 by decide)
  have ahead := early_admitted.1
  unfold reachOf at early_stamp
  unfold Logged.instant millisecond at *
  omega

theorem brings_of_named (windowed : Windowed engine bounds program)
    (own : key.rule = program.rule.id) {records : List Record}
    (named : ∀ one ∈ records, ∀ other ∈ records, nameOf one.event = nameOf other.event →
      one.event.happened = other.event.happened) :
    Brings key (Engine.windowOf program) (engine.calls records) where
  one_window call call_mem under := by
    obtain ⟨record, -, asked⟩ := exists_asked windowed.member call_mem (under ▸ own)
    exact (Engine.asks_of_some asked).window_eq
  named one one_mem other other_mem one_under other_under same := by
    obtain ⟨first, first_mem, first_asked⟩ := exists_asked windowed.member one_mem (one_under ▸ own)
    obtain ⟨second, second_mem, second_asked⟩ :=
      exists_asked windowed.member other_mem (other_under ▸ own)
    have first_asks := Engine.asks_of_some first_asked
    have second_asks := Engine.asks_of_some second_asked
    rw [first_asks.time_eq, second_asks.time_eq]
    exact named first first_mem second second_mem
      (by rw [← first_asks.event_eq, ← second_asks.event_eq, same])

end Log

/-- What a run over records, and one that starts at a place in them, rest on. -/
structure Rereads (engine : Engine) (bounds : Bounds) (program : Program) (start : Keeper)
    (records : List Record) (back : ℕ) : Prop where
  windowed : Windowed engine bounds program
  made : Keeper.new bounds = .ok start
  named : ∀ one ∈ records, ∀ other ∈ records,
    nameOf one.event = nameOf other.event → one.event.happened = other.event.happened
  peace : ∀ key : Key, key.rule = program.rule.id → Undisturbed key start (engine.calls records)
  reread_peace : ∀ key : Key, key.rule = program.rule.id →
    Undisturbed key start (engine.calls (records.drop back))

section Runs

variable {engine : Engine} {bounds : Bounds} {program : Program} {start : Keeper}
  {records early late rest : List Record} {record : Record} {back : ℕ}

theorem peace_append {key : Key} {keeper : Keeper} :
    Undisturbed key keeper (engine.calls (early ++ late)) ↔
      Undisturbed key keeper (engine.calls early) ∧
        Undisturbed key (engine.run early keeper).1 (engine.calls late) := by
  rw [Engine.calls, List.flatMap_append, undisturbed_append, Engine.run_keeper]
  rfl

theorem madeBy_run_eq
    (rereads : Rereads engine bounds program start (early ++ (late ++ record :: rest)) early.length)
    (reached : ∀ call, engine.askedOf record program = some call → call.refusal bounds = none →
      (∀ one ∈ early, ∀ asked, engine.askedOf one program = some asked → asked.key = call.key →
        asked.refusal bounds = none →
          one.event.happened + Engine.windowOf program < record.event.happened) ∨
      ∃ newer ∈ late, ∃ asked, engine.askedOf newer program = some asked ∧
        asked.key = call.key ∧ asked.refusal bounds = none ∧
          record.event.happened + Engine.windowOf program < newer.event.happened) :
    Engine.madeBy program (engine.detect record (engine.run (early ++ late) start).1).2 =
      Engine.madeBy program (engine.detect record (engine.run late start).1).2 := by
  obtain ⟨windowed, made, named, peace, reread_peace⟩ := rereads
  have nonneg := windowed.window_pos.le
  let key := keyOf engine.platform program record.event
  have own : key.rule = program.rule.id := rfl
  have run_calls : engine.calls (early ++ late) = engine.calls early ++ engine.calls late :=
    List.flatMap_append
  have our_peace := peace key own
  have their_peace := reread_peace key own
  rw [← List.append_assoc] at our_peace
  rw [List.drop_left] at their_peace
  obtain ⟨our_peace, our_rest⟩ := peace_append.mp our_peace
  obtain ⟨their_peace, their_rest⟩ := peace_append.mp their_peace
  have brings := brings_of_named windowed own named
  have part : engine.calls early ++ engine.calls late ⊆
      engine.calls (early ++ (late ++ record :: rest)) := by
    have whole : engine.calls (early ++ late ++ record :: rest) =
        engine.calls (early ++ late) ++ engine.calls (record :: rest) := List.flatMap_append
    rw [← run_calls, ← List.append_assoc, whole]
    exact List.subset_append_left _ _
  have shorter := brings.of_subset part
  rw [run_calls] at our_peace
  have ours := kept_of_run made nonneg shorter our_peace
  have theirs := kept_of_run made nonneg (shorter.of_subset (List.subset_append_right _ _))
    their_peace
  rw [Engine.run_keeper] at our_rest their_rest ⊢
  rw [Engine.run_keeper]
  rw [run_calls] at our_rest ⊢
  refine madeBy_detect_congr windowed.member rfl ours theirs (undisturbed_append.mp our_rest).1
    (undisturbed_append.mp their_rest).1
    fun call our_before their_before asked accepts our_same their_same our_call their_call => ?_
  have asks := Engine.asks_of_some asked
  have call_mem : call ∈ engine.calls (early ++ (late ++ record :: rest)) :=
    mem_calls_of_asked windowed.member (by simp) asked
  rcases reached call asked accepts with
    apart | ⟨newer, newer_mem, passed, passed_asked, passed_under, passed_accepts, behind⟩
  · -- What the store did not read back lies before the window of the event.
    have alike := since_run_eq (record.event.happened - Engine.windowOf program) made nonneg shorter
      our_peace their_peace fun earlier earlier_mem under refused => by
        obtain ⟨one, one_mem, one_asked⟩ :=
          exists_asked windowed.member earlier_mem (under ▸ own)
        have := apart one one_mem earlier one_asked (under.trans asks.key_eq.symm) refused
        rw [(Engine.asks_of_some one_asked).time_eq]
        omega
    refine (ours.of_same our_same).foldAlike_of_past (theirs.of_same their_same) our_call their_call
      (fun _ => asks.window_eq) (fun earlier earlier_mem under own_key => ?_)
      (by rw [our_same.held_eq, their_same.held_eq, alike]) asks.key_eq accepts nonneg
      (by rw [asks.time_eq]; omega)
    refine brings.named earlier (part ?_) call call_mem under own_key
    rcases List.mem_append.mp earlier_mem with both | again
    · exact both
    · exact List.mem_append_right _ again
  · have passed_mem := mem_calls_of_asked windowed.member newer_mem passed_asked
    refine (ours.of_same our_same).foldAlike_of_passed (theirs.of_same their_same) asks.key_eq
      asks.window_eq (passed_under.trans asks.key_eq) passed_accepts
      (List.mem_append_right _ passed_mem) passed_mem ?_
    rwa [asks.time_eq, (Engine.asks_of_some passed_asked).time_eq]

theorem Engine.detectionIds_getElem? (engine : Engine) (program : Program) (records : List Record)
    (keeper : Keeper) (index : ℕ) :
    (engine.detectionIds program records keeper)[index]? = records[index]?.map fun record =>
      (Engine.madeBy program
          (engine.detect record (engine.run (records.take index) keeper).1).2).map
        fun found => found.detectionId engine.platform record.event := by
  induction index generalizing records keeper with
  | zero => cases records <;> rfl
  | succ index ih =>
    cases records with
    | nil => rfl
    | cons record records => exact ih records (engine.detect record keeper).1

theorem recovered_event {log : Log Record} {skew age : ℤ} {position index : ℕ}
    {late : Logged Record} (skew_nonneg : 0 ≤ skew)
    (admitted : ∀ logged ∈ log.records, Admitted skew age logged)
    (rereads : Rereads engine bounds program start (eventsOf log)
      (startOf engine bounds skew log position))
    (reached : Reached engine bounds skew program log position index)
    (position_le : position ≤ index) (found : log.records[index]? = some late) :
    Engine.madeBy program
        (engine.detect late.carried (engine.run ((eventsOf log).take index) start).1).2 =
      Engine.madeBy program (engine.detect late.carried (engine.run
        (((eventsOf log).drop (startOf engine bounds skew log position)).take
          (index - startOf engine bounds skew log position)) start).1).2 := by
  have start_le : startOf engine bounds skew log position ≤ position := rewind_le _ _ _
  have unread := @stamp_lt_reachOf engine bounds log skew position
  generalize startOf engine bounds skew log position = back at *
  obtain ⟨read, rfl⟩ := Nat.exists_eq_add_of_le (start_le.trans position_le)
  obtain ⟨index_lt, late_eq⟩ := List.getElem?_eq_some_iff.mp found
  have split_at : log.records = log.records.take back ++
      ((log.records.drop back).take read ++ late :: log.records.drop (back + read + 1)) := by
    rw [← late_eq, ← List.drop_eq_getElem_cons, ← List.append_assoc, ← List.take_add,
      List.take_append_drop]
  have whole := congrArg (List.map Logged.carried) split_at
  rw [List.map_append, List.map_append, List.map_cons] at whole
  have early_length : ((log.records.take back).map Logged.carried).length = back := by
    rw [List.length_map, List.length_take_of_le (by omega)]
  rw [Nat.add_sub_cancel_left, eventsOf, ← List.map_take, ← List.map_drop, ← List.map_take,
    List.take_add, List.map_append]
  rw [eventsOf, ← early_length, whole] at rereads
  refine madeBy_run_eq rereads fun call asked accepts => ?_
  have folds : Folds engine bounds program call.key late := ⟨call, asked, rfl, accepts⟩
  have committed := List.getElem?_eq_getElem (show position - 1 < log.records.length by omega)
  have covered : Engine.windowOf program + skew ≤ _ := rereads.windowed.covered folds
  have window_pos := rereads.windowed.window_pos
  have unread_stamp := fun early => @unread early _ (by omega) committed
  rcases reached _ late call.key committed found folds with
    punctual | apart | ⟨newer, newer_mem, within_reach, ⟨asked, newer_folds⟩, behind⟩
  · refine Or.inl fun one one_mem _ _ _ _ => ?_
    obtain ⟨early, early_mem, rfl⟩ := List.mem_map.mp one_mem
    exact apart_of_punctual rereads.windowed (admitted early (List.mem_of_mem_take early_mem)) folds
      (unread_stamp early early_mem) punctual
  · refine Or.inl fun one one_mem asked one_asked under refused => ?_
    obtain ⟨early, early_mem, rfl⟩ := List.mem_map.mp one_mem
    exact apart early (List.mem_of_mem_take early_mem) (unread_stamp early early_mem)
      ⟨asked, one_asked, under, refused⟩
  · rw [List.take_add] at newer_mem
    rcases List.mem_append.mp newer_mem with unread_mem | read_mem
    · exact absurd (unread_stamp newer unread_mem) (not_lt.mpr within_reach)
    · exact Or.inr ⟨newer.carried, List.mem_map_of_mem read_mem, asked, newer_folds.1,
        newer_folds.2.1, newer_folds.2.2, behind⟩

end Runs

/-- An engine that reads its partition back makes, from the position it committed on, the detections
an engine that never stopped makes there, while the read back reaches every event still to be
decided. -/
theorem recovered_detections {engine : Engine} {bounds : Bounds} {program : Program}
    {start : Keeper} {log : Log Record} {skew age : ℤ} {position : ℕ} (skew_nonneg : 0 ≤ skew)
    (admitted : ∀ logged ∈ log.records, Admitted skew age logged)
    (rereads : Rereads engine bounds program start (eventsOf log)
      (startOf engine bounds skew log position))
    (reached : ∀ index, position ≤ index → Reached engine bounds skew program log position index) :
    (engine.detectionIds program ((eventsOf log).drop (startOf engine bounds skew log position))
        start).drop (position - startOf engine bounds skew log position) =
      (engine.detectionIds program (eventsOf log) start).drop position := by
  have start_le : startOf engine bounds skew log position ≤ position := rewind_le _ _ _
  apply List.ext_getElem?
  intro offset
  rw [List.getElem?_drop, List.getElem?_drop, Engine.detectionIds_getElem?,
    Engine.detectionIds_getElem?, List.getElem?_drop, eventsOf, List.getElem?_map,
    List.getElem?_map, ← Nat.add_assoc, Nat.add_sub_cancel' start_le,
    ← Nat.sub_add_comm start_le]
  cases found : log.records[position + offset]? with
  | none => rfl
  | some late =>
    have alike :=
      recovered_event skew_nonneg admitted rereads (reached _ (by omega)) (by omega) found
    simp only [Option.map_some]
    rw [← eventsOf, ← alike]

theorem undisturbed_of_peaceful {keeper : Keeper} {calls : List Call}
    (peaceful : keeper.Peaceful calls) (key : Key) : Undisturbed key keeper calls :=
  ⟨peaceful.retains key, peaceful.serves key, peaceful.unfilled key⟩

/-- A rule that counts the failed authentications an agent reports. -/
def agentLogons : Rule :=
  { Rule.failedLogons with count := ⟨2, Duration.hour, ["origin.agent_id"]⟩ }

/-- What the rule compiles to. -/
def agentProgram : Program :=
  { Program.failedLogons with
    rule := agentLogons
    grouped := [⟨"origin.agent_id", .agentId⟩] }

theorem compile_agentLogons : agentLogons.compile .plain = .ok agentProgram :=
  Rule.compile_eq_ok_iff.mpr {
    accepted := validate_eq_none_iff.mp (by rfl)
    rule_eq := rfl
    matching := by rfl
    fields_eq := by rfl
    grouped := by rfl
    light := by decide +kernel }

/-- An engine that runs the rule. -/
def byAgent : Engine := ⟨.plain, ⟨[agentProgram], List.pairwise_singleton _ _⟩⟩

/-- An authentication that failed, in a log whose clock runs in hours. -/
def loggedFailure (tenant id : String) (hour : ℕ) (stamp : ℕ) : Logged Record :=
  ⟨.logon tenant id 2 (hour * 3600000000000 + 1), stamp * 3600000⟩

/-- A log with a punctual event, and one a window behind the second. -/
def reachedLog : Log Record where
  records := [loggedFailure "acme" "event-01" 1 1, loggedFailure "acme" "event-02" 100 100,
    loggedFailure "acme" "event-03" 100 100, loggedFailure "acme" "event-04" 1 100]
  ordered := by decide

/-- A log whose last event is delivered late. -/
def lateLog : Log Record where
  records := [loggedFailure "acme" "event-01" 1 1, loggedFailure "other" "event-02" 100 100,
    loggedFailure "acme" "event-03" 1 100]
  ordered := by decide

/-- The clock skew a gateway admits. -/
def fiveMinutes : ℤ := 300 * Duration.second

theorem recovered_detections_late :
    startOf byAgent .small fiveMinutes reachedLog 2 = 1 ∧
      (byAgent.detectionIds agentProgram ((eventsOf reachedLog).drop 1) (.empty .small)).drop 1 =
        (byAgent.detectionIds agentProgram (eventsOf reachedLog) (.empty .small)).drop 2 ∧
      ((byAgent.detectionIds agentProgram (eventsOf reachedLog) (.empty .small)).drop 2).map
        List.length = [1, 0] := by
  have start_eq : startOf byAgent .small fiveMinutes reachedLog 2 = 1 := by rfl
  have admitted : ∀ logged ∈ reachedLog.records,
      Admitted fiveMinutes (168 * Duration.hour) logged := by
    unfold Admitted
    decide
  have peaceful : (Keeper.empty .small).Peaceful (byAgent.calls (eventsOf reachedLog)) := by
    decide +kernel
  have reread_peaceful : (Keeper.empty .small).Peaceful
      (byAgent.calls ((eventsOf reachedLog).drop 1)) := by
    decide +kernel
  have rereads : Rereads byAgent .small agentProgram (.empty .small) (eventsOf reachedLog) 1 :=
    ⟨⟨List.mem_cons_self, by decide, by decide⟩, rfl, by decide,
      fun key _ => undisturbed_of_peaceful peaceful key,
      fun key _ => undisturbed_of_peaceful reread_peaceful key⟩
  have reached : ∀ index, 2 ≤ index →
      Reached byAgent .small fiveMinutes agentProgram reachedLog 2 index := by
    intro index after last late key committed found folds
    obtain rfl := Option.some.inj committed
    have index_lt : index < 4 := (List.getElem?_eq_some_iff.mp found).1
    interval_cases index <;> obtain rfl := Option.some.inj found
    · exact Or.inl (by decide)
    · obtain ⟨call, asked, under, -⟩ := folds
      have key_eq := (Engine.asks_of_some asked).key_eq
      refine Or.inr (Or.inr ⟨loggedFailure "acme" "event-02" 100 100, by simp [reachedLog],
        by decide, ⟨_, rfl, ?_, by decide +kernel⟩, by decide⟩)
      rw [← under, key_eq]
      rfl
  refine ⟨start_eq, ?_, by decide +kernel⟩
  have alike := recovered_detections (by decide) admitted (start_eq ▸ rereads) reached
  rwa [start_eq] at alike

/-- An event the gateway admitted late counts with one the read back does not reach: the engine that
never stopped detects it, the one that started again does not.  The stream colocates the rule. -/
theorem late_event_lost :
    agentLogons.compile .plain = .ok agentProgram ∧
      colocates partitionedBy agentLogons.count.groupBy ∧
      Keeper.new .small = .ok (.empty .small) ∧
      Bounds.small.admits agentLogons.count = none ∧
      (∀ logged ∈ lateLog.records, Admitted fiveMinutes (168 * Duration.hour) logged) ∧
      (∀ key, Undisturbed key (.empty .small) (byAgent.calls (eventsOf lateLog))) ∧
      ((byAgent.detectionIds agentProgram ((eventsOf lateLog).drop
          (startOf byAgent .small fiveMinutes lateLog 2)) (.empty .small)).drop
        (2 - startOf byAgent .small fiveMinutes lateLog 2)).map List.length = [0] ∧
      ((byAgent.detectionIds agentProgram (eventsOf lateLog) (.empty .small)).drop 2).map
        List.length = [1] := by
  have admitted : ∀ logged ∈ lateLog.records,
      Admitted fiveMinutes (168 * Duration.hour) logged := by
    unfold Admitted
    decide
  have peaceful : (Keeper.empty .small).Peaceful (byAgent.calls (eventsOf lateLog)) := by
    decide +kernel
  exact ⟨compile_agentLogons, by decide, rfl, by decide, admitted,
    fun key => undisturbed_of_peaceful peaceful key, by decide +kernel, by decide +kernel⟩

end Seagull.Analysis
