import Seagull.DetectionState.Reachable

/-!
# What a key remembers of a run

While a key is not reclaimed, its window accounts for every observation the key was ever given under
a name it did not hold: each is held still, or is behind the window, or gave way at the ceiling to
as many observations as the ceiling admits.
-/

namespace Seagull.DetectionState

open SlidingWindow

namespace Keeper

def heldAt (keeper : Keeper) (key : Key) : List Observation :=
  ((keeper.keys.lookup key).map Held.seen).getD []

def windowFold (keeper : Keeper) (call : Call) : List Observation × Verdict :=
  SlidingWindow.fold Observation.time Observation.event call.window
    keeper.bounds.observationsPerKey.toNat (keeper.heldAt call.key) call.seen

/-- What a fold that reaches the window of its key does. -/
structure Reaches (keeper : Keeper) (call : Call) : Prop where
  held_eq : (keeper.fold call).1.heldAt call.key = (keeper.windowFold call).1
  held : ((keeper.fold call).1.keys.lookup call.key).isSome
  refusal_eq : (keeper.fold call).2.refusal =
    if (keeper.windowFold call).2 = .late then some .tooLate else none
  repeated_eq : (keeper.fold call).2.state.repeated =
    decide ((keeper.windowFold call).2 = .repeated)
  count_eq : (keeper.fold call).2.state.count = (keeper.windowFold call).1.length
  first_eq : (keeper.fold call).2.state.first =
    ((keeper.windowFold call).1.head?.map Observation.time).getD Instant.zero
  saturated_eq : (keeper.fold call).2.state.saturated =
    decide ((keeper.windowFold call).1 ≠ [] ∧
      keeper.bounds.observationsPerKey ≤ (keeper.windowFold call).1.length)
  read_eq : call.read → (keeper.windowFold call).2 ≠ .late →
    (keeper.fold call).2.window = (keeper.windowFold call).1

/-- Whether a refusal is for want of room. -/
def isRoomless : Refusal → Bool
  | .tenantAtCapacity | .ruleAtCapacity | .atCapacity => true
  | _ => false

/-- A fold that is refused before it reaches the window of its key. -/
def TurnedBack (keeper : Keeper) (call : Call) : Prop :=
  ∃ refusal, (keeper.fold call).2 = .refused refusal ∧
    (call.refusal keeper.bounds = some refusal ∨ isRoomless refusal = true)

variable {opener : Key → Int32} {keeper : Keeper}

theorem state_count (held : Held) (ceiling : ℤ) :
    (held.state ceiling).count = held.seen.length ∧
      (held.state ceiling).first = (held.seen.head?.map Observation.time).getD Instant.zero ∧
      (held.state ceiling).saturated =
        decide (held.seen ≠ [] ∧ ceiling ≤ held.seen.length) := by
  unfold Held.state
  cases held.seen <;> simp [State.empty]

variable {call : Call}

private theorem reaches_of_folds {entry : Held} {after : Keeper}
    {folded : Held × State × Option Refusal}
    (folds : ({ entry with window := call.window } : Held).Folds call.seen
      keeper.bounds.observationsPerKey folded) (entry_seen : entry.seen = keeper.heldAt call.key)
    (stepped : keeper.fold call = (after, answer call.read folded))
    (found : after.keys.lookup call.key = some folded.1) : Reaches keeper call := by
  have window_eq : keeper.windowFold call =
      Held.windowFold { entry with window := call.window } call.seen
        keeper.bounds.observationsPerKey := by
    rw [windowFold, Held.windowFold, ← entry_seen]
  have held_eq : after.heldAt call.key = (keeper.windowFold call).1 := by
    rw [heldAt, found, Option.map_some, Option.getD_some, folds.seen_eq, window_eq]
  have counted := state_count folded.1 keeper.bounds.observationsPerKey
  rw [folds.seen_eq, ← window_eq] at counted
  refine ⟨by rw [stepped, held_eq], by simp [stepped, found], ?_, ?_, ?_, ?_, ?_, ?_⟩
  · rw [stepped, window_eq]
    exact folds.refusal_eq
  · rw [stepped, window_eq]
    simp only [answer, folds.state_eq]
  · rw [stepped]
    simp only [answer, folds.state_eq]
    exact counted.1
  · rw [stepped]
    simp only [answer, folds.state_eq]
    exact counted.2.1
  · rw [stepped]
    simp only [answer, folds.state_eq]
    exact counted.2.2
  · intro reads on_time
    rw [window_eq] at on_time
    rw [stepped, window_eq, ← folds.seen_eq]
    simp [answer, folds.refusal_eq, on_time, reads]

theorem refusal_ne_tooLate (call : Call) (bounds : Bounds) :
    call.refusal bounds ≠ some .tooLate := by
  unfold Call.refusal Observation.validate
  split_ifs <;> simp

variable {key : Key}

theorem admit_roomless {order : Order} {keeper : Keeper} {refusal : Refusal}
    (refuses : (keeper.admitKey order key).2 = some refusal) : isRoomless refusal = true := by
  have quota : ∀ (owner : TenantKeys) (refusal : Refusal),
      owner.refuses key.rule keeper.bounds = some refusal → isRoomless refusal = true := by
    intro owner refusal refuses
    unfold TenantKeys.refuses at refuses
    split_ifs at refuses <;> cases refuses <;> rfl
  have room : ∀ (keeper : Keeper) (refusal : Refusal),
      (keeper.makeRoom order).2 = some refusal → isRoomless refusal = true := by
    intro keeper refusal refuses
    obtain ⟨-, refusal_eq⟩ := Option.ite_none_right_eq_some.mp refuses
    cases refusal_eq
    rfl
  have granted : ∀ (asked : Keeper) (owner : TenantKeys) (refusal : Refusal),
      (asked.grant order (owner.refuses key.rule keeper.bounds)).2 = some refusal →
        isRoomless refusal = true := by
    intro asked owner refusal refuses
    cases refused : owner.refuses key.rule keeper.bounds with
    | none =>
      rw [refused] at refuses
      exact room asked refusal refuses
    | some other =>
      rw [refused] at refuses
      exact quota owner refusal (refused.trans refuses)
  unfold admitKey at refuses
  split at refuses
  · exact room keeper refusal refuses
  · exact granted _ _ refusal refuses

section

variable (consistent : Consistent opener keeper)

include consistent

private theorem folded_reaches {entry : Held}
    (accepts : call.refusal keeper.bounds = none) (found : keeper.keys.lookup call.key = some entry)
    (stepped : keeper.fold call =
      ({ keeper.advance call.key.tenant call.seen with
          keys := keeper.keys.insert call.key (call.observe keeper.bounds entry).1 },
        answer call.read (call.observe keeper.bounds entry))) : Reaches keeper call := by
  have kept := consistent.kept call.key entry found
  obtain ⟨folds, -⟩ := observe_kept consistent.accepted accepts kept.sound kept.bounded
  exact reaches_of_folds folds (by rw [heldAt, found]; rfl) stepped
    (FiniteMap.lookup_insert_self _ _ _)

omit consistent in
private theorem opened_reaches {admitted : Keeper}
    (admission : Admission opener keeper call admitted)
    (accepts : call.refusal keeper.bounds = none) (unheld : keeper.keys.lookup call.key = none)
    (stepped : keeper.fold call =
      (admitted.openKey (call.observe admitted.bounds (Held.opening call.key)).1 call.seen,
        answer call.read (call.observe admitted.bounds (Held.opening call.key)))) :
    Reaches keeper call := by
  obtain ⟨folds, kept⟩ := admission.folds accepts
  rw [admission.bounds_eq] at folds kept stepped
  refine reaches_of_folds folds (by rw [heldAt, unheld]; rfl) stepped ?_
  rw [openKey_keys, kept.key_eq]
  exact FiniteMap.lookup_insert_self _ _ _

theorem reaches_of_held
    (accepts : call.refusal keeper.bounds = none) (held : (keeper.keys.lookup call.key).isSome) :
    Reaches keeper call := by
  obtain ⟨entry, found⟩ := Option.isSome_iff_exists.mp held
  have step := keeper.fold_step call
  cases stepped : keeper.fold call with
  | mk after given =>
    rw [stepped] at step
    cases step with
    | refused refusal refuses => rw [accepts] at refuses; cases refuses
    | folded entry accepts found => exact folded_reaches consistent accepts found stepped
    | turnedAway admitted refusal accepts unheld admits => rw [found] at unheld; cases unheld
    | opened admitted accepts unheld admits => rw [found] at unheld; cases unheld

theorem fold_cases (call : Call) :
    TurnedBack keeper call ∨ Reaches keeper call := by
  have step := keeper.fold_step call
  cases stepped : keeper.fold call with
  | mk after given =>
    rw [stepped] at step
    cases step with
    | refused refusal refuses =>
      exact Or.inl ⟨refusal, by rw [stepped], Or.inl refuses⟩
    | folded entry accepts found =>
      exact Or.inr (folded_reaches consistent accepts found stepped)
    | turnedAway admitted refusal accepts unheld admits =>
      exact Or.inl ⟨refusal, by rw [stepped], Or.inr (admit_roomless (by rw [admits]))⟩
    | opened admitted accepts unheld admits =>
      exact Or.inr (opened_reaches (consistent.admission admits) accepts unheld stepped)

omit consistent in
theorem turnedBack_of_refusal {refusal : Refusal}
    (refuses : call.refusal keeper.bounds = some refusal) : TurnedBack keeper call :=
  ⟨refusal, by simp [fold, refuses], Or.inl refuses⟩

omit consistent in
theorem TurnedBack.ne_tooLate (turned : TurnedBack keeper call) :
    ∃ refusal, refusal ≠ .tooLate ∧ (keeper.fold call).2 = .refused refusal := by
  obtain ⟨refusal, answer_eq, refuses | roomless⟩ := turned
  · exact ⟨refusal, fun late => refusal_ne_tooLate call keeper.bounds (late ▸ refuses), answer_eq⟩
  · exact ⟨refusal, fun late => by simp [late, isRoomless] at roomless, answer_eq⟩

omit consistent in
theorem Reaches.not_turnedBack (reaches : Reaches keeper call) : ¬ TurnedBack keeper call := by
  intro turned
  obtain ⟨refusal, not_late, turned⟩ := turned.ne_tooLate
  have refusal_eq := reaches.refusal_eq
  rw [turned, Answer.refused] at refusal_eq
  split at refusal_eq
  · exact not_late (Option.some.inj refusal_eq)
  · cases refusal_eq

theorem lookup_elsewhere (elsewhere : key ≠ call.key ∨ TurnedBack keeper call) {held : Held}
    (survives : (keeper.fold call).1.keys.lookup key = some held) :
    keeper.keys.lookup key = some held := by
  have step := keeper.fold_step call
  cases stepped : keeper.fold call with
  | mk after given =>
    rw [stepped] at step survives
    cases step with
    | refused refusal refuses => exact survives
    | folded entry accepts found =>
      have other := elsewhere.resolve_right
        (folded_reaches consistent accepts found stepped).not_turnedBack
      rwa [FiniteMap.lookup_insert, if_neg other] at survives
    | turnedAway admitted refusal accepts unheld admits =>
      exact (consistent.admission admits).kept key held survives
    | opened admitted accepts unheld admits =>
      have admission := consistent.admission admits
      have other := elsewhere.resolve_right
        (opened_reaches admission accepts unheld stepped).not_turnedBack
      rw [openKey_keys, (admission.folds accepts).2.key_eq, FiniteMap.lookup_insert,
        if_neg other] at survives
      exact admission.kept key held survives

theorem fold_elsewhere (elsewhere : key ≠ call.key ∨ TurnedBack keeper call)
    (retained : (keeper.keys.lookup key).isSome → ((keeper.fold call).1.keys.lookup key).isSome) :
    (keeper.fold call).1.heldAt key = keeper.heldAt key := by
  cases after : (keeper.fold call).1.keys.lookup key with
  | some held => rw [heldAt, heldAt, after, lookup_elsewhere consistent elsewhere after]
  | none =>
    have unheld : keeper.keys.lookup key = none := by
      by_contra held
      have survives := retained (Option.isSome_iff_ne_none.mpr held)
      rw [after] at survives
      cases survives
    rw [heldAt, heldAt, after, unheld]

theorem Consistent.heldAt_valid (key : Key) :
    Valid Observation.time Observation.event keeper.bounds.observationsPerKey.toNat
      (keeper.heldAt key) := by
  cases found : keeper.keys.lookup key with
  | none =>
    rw [heldAt, found]
    exact ⟨List.Pairwise.nil, List.nodup_nil, Nat.zero_le _⟩
  | some held =>
    rw [heldAt, found]
    have kept := consistent.kept key held found
    exact kept.sound.valid kept.bounded

end


/-- Whether the key took an observation under a name its window did not hold. -/
def took (answer : Answer) : Bool :=
  !answer.state.repeated && (answer.refusal == none || answer.refusal == some .tooLate)

theorem TurnedBack.not_took (turned : TurnedBack keeper call) :
    took (keeper.fold call).2 = false := by
  obtain ⟨refusal, not_late, answer_eq⟩ := turned.ne_tooLate
  simp [took, answer_eq, Answer.refused, State.empty, not_late]

theorem Reaches.took_iff (reaches : Reaches keeper call) :
    took (keeper.fold call).2 = true ↔ (keeper.windowFold call).2 ≠ .repeated := by
  rw [took, reaches.repeated_eq, reaches.refusal_eq]
  cases (keeper.windowFold call).2 <;> simp

/-- The observations a key took in a run, before those it took earlier. -/
def taken (key : Key) : Keeper → List Call → List Observation → List Observation
  | _, [], earlier => earlier
  | keeper, call :: calls, earlier =>
    taken key (keeper.fold call).1 calls
      (if call.key = key ∧ took (keeper.fold call).2 then call.seen :: earlier else earlier)

theorem refusal_of_took (took : took (keeper.fold call).2) : call.refusal keeper.bounds = none := by
  cases refuses : call.refusal keeper.bounds with
  | none => rfl
  | some refusal =>
    rw [(turnedBack_of_refusal refuses).not_took] at took
    cases took

variable {calls : List Call}

theorem mem_taken (consistent : Consistent opener keeper) {earlier : List Observation}
    {seen : Observation} (seen_mem : seen ∈ keeper.taken key calls earlier) :
    seen ∈ earlier ∨
      ∃ call ∈ calls, call.key = key ∧ call.seen = seen ∧ call.refusal keeper.bounds = none := by
  induction calls generalizing keeper opener earlier with
  | nil => exact Or.inl seen_mem
  | cons call calls ih =>
    have later := ih (fold_consistent consistent call) seen_mem
    rw [fold_bounds consistent call] at later
    rcases later with before | ⟨asked, asked_mem, asks⟩
    · split at before
      · rename_i own
        rcases List.mem_cons.mp before with rfl | before
        · exact Or.inr ⟨call, List.mem_cons_self, own.1, rfl, refusal_of_took own.2⟩
        · exact Or.inl before
      · exact Or.inl before
    · exact Or.inr ⟨asked, List.mem_cons_of_mem call asked_mem, asks⟩

/-- Every fold of a run satisfies a condition on its store and call. -/
def Along (condition : Keeper → Call → Prop) : Keeper → List Call → Prop
  | _, [] => True
  | keeper, call :: calls => condition keeper call ∧ Along condition (keeper.fold call).1 calls

instance {condition : Keeper → Call → Prop} [∀ keeper call, Decidable (condition keeper call)] :
    ∀ (keeper : Keeper) (calls : List Call), Decidable (Along condition keeper calls)
  | _, [] => .isTrue trivial
  | keeper, call :: calls =>
    @instDecidableAnd _ _ (inferInstanceAs (Decidable (condition keeper call)))
      (instDecidableAlong (keeper.fold call).1 calls)

theorem along_append {condition : Keeper → Call → Prop} {earlier later : List Call} :
    Along condition keeper (earlier ++ later) ↔
      Along condition keeper earlier ∧ Along condition (keeper.run earlier).1 later := by
  induction earlier generalizing keeper with
  | nil => simp [Along, run]
  | cons call calls ih => exact (and_congr_right fun _ => ih).trans and_assoc.symm

theorem Along.imp {condition weaker : Keeper → Call → Prop} (along : Along condition keeper calls)
    (implies : ∀ keeper call, condition keeper call → weaker keeper call) :
    Along weaker keeper calls := by
  induction calls generalizing keeper with
  | nil => trivial
  | cons call calls ih => exact ⟨implies keeper call along.1, ih along.2⟩

/-- A run that does not reclaim a key it holds. -/
def Retains (key : Key) : Keeper → List Call → Prop :=
  Along fun keeper call =>
    (keeper.keys.lookup key).isSome → ((keeper.fold call).1.keys.lookup key).isSome

theorem retains_of_along
    (along : Along (fun keeper call =>
      ∀ key ∈ keeper.keys.keys, key ∈ (keeper.fold call).1.keys.keys) keeper calls) (key : Key) :
    keeper.Retains key calls := by
  refine along.imp fun keeper call kept held => ?_
  rw [Option.isSome_iff_exists, ← FiniteMap.mem_keys] at held ⊢
  exact kept key held

def roomless (answer : Answer) : Bool := answer.refusal.any isRoomless

/-- A run that finds room for a key. -/
def Serves (key : Key) : Keeper → List Call → Prop :=
  Along fun keeper call => call.key = key → roomless (keeper.fold call).2 = false

/-- A run in which a key never holds as many observations as the ceiling. -/
def Unfilled (key : Key) : Keeper → List Call → Prop :=
  Along fun keeper call =>
    ((keeper.fold call).1.heldAt key).length < keeper.bounds.observationsPerKey.toNat

/-- A run that reclaims no key, finds room for each, and fills none. -/
def Peaceful : Keeper → List Call → Prop :=
  Along fun keeper call =>
    (∀ key ∈ keeper.keys.keys, key ∈ (keeper.fold call).1.keys.keys) ∧
      roomless (keeper.fold call).2 = false ∧ 0 < keeper.bounds.observationsPerKey.toNat ∧
      ∀ entry ∈ (keeper.fold call).1.keys.entries,
        entry.2.seen.length < keeper.bounds.observationsPerKey.toNat

instance (keeper : Keeper) (calls : List Call) : Decidable (keeper.Peaceful calls) :=
  inferInstanceAs (Decidable (Along _ keeper calls))

theorem Peaceful.retains (peaceful : keeper.Peaceful calls) (key : Key) :
    keeper.Retains key calls :=
  retains_of_along (peaceful.imp fun _ _ calm => calm.1) key

theorem Peaceful.serves (peaceful : keeper.Peaceful calls) (key : Key) : keeper.Serves key calls :=
  peaceful.imp fun _ _ calm _ => calm.2.1

theorem Peaceful.unfilled (peaceful : keeper.Peaceful calls) (key : Key) :
    keeper.Unfilled key calls := by
  refine peaceful.imp fun keeper call calm => ?_
  rw [heldAt]
  cases held : (keeper.fold call).1.keys.lookup key with
  | none => exact calm.2.2.1
  | some entry => exact calm.2.2.2 (key, entry) ((FiniteMap.mem_entries_iff _ _ _).mpr held)

theorem Reaches.room_of_unfilled (reaches : Reaches keeper call)
    (unfilled : keeper.Unfilled call.key [call]) :
    (keeper.windowFold call).1.length < keeper.bounds.observationsPerKey.toNat :=
  reaches.held_eq ▸ unfilled.1

/-- The observations a run gives a key: those the store has room for. -/
def givenTo (key : Key) : Keeper → List Call → List Observation
  | _, [] => []
  | keeper, call :: calls =>
    (if call.key = key ∧ roomless (keeper.fold call).2 = false then [call.seen] else []) ++
      givenTo key (keeper.fold call).1 calls

theorem givenTo_append {earlier later : List Call} :
    keeper.givenTo key (earlier ++ later) =
      keeper.givenTo key earlier ++ (keeper.run earlier).1.givenTo key later := by
  induction earlier generalizing keeper with
  | nil => rfl
  | cons call calls ih =>
    rw [List.cons_append, givenTo, ih, givenTo, List.append_assoc]
    rfl

theorem givenTo_elsewhere (elsewhere : ∀ call ∈ calls, call.key ≠ key) :
    keeper.givenTo key calls = [] := by
  induction calls generalizing keeper with
  | nil => rfl
  | cons call calls ih =>
    rw [givenTo, if_neg fun own => elsewhere call List.mem_cons_self own.1,
      ih fun later later_mem => elsewhere later (List.mem_cons_of_mem call later_mem)]
    rfl

theorem reaches_of_served (consistent : Consistent opener keeper)
    (accepts : call.refusal keeper.bounds = none) (served : roomless (keeper.fold call).2 = false) :
    Reaches keeper call := by
  rcases fold_cases consistent call with turned | reaches
  · obtain ⟨refusal, answer_eq, refuses | lacks⟩ := turned
    · rw [accepts] at refuses
      cases refuses
    · simp [roomless, answer_eq, Answer.refused, lacks] at served
  · exact reaches

abbrev Recalls (key : Key) (window : ℤ) (folded : List Observation) (keeper : Keeper) : Prop :=
  Remembers Observation.time Observation.event window keeper.bounds.observationsPerKey.toNat folded
    (keeper.heldAt key)

variable {window : ℤ}

theorem fold_recalls (consistent : Consistent opener keeper) (nonneg : 0 ≤ window)
    (one_window : call.key = key → call.window = window)
    (retained : (keeper.keys.lookup key).isSome → ((keeper.fold call).1.keys.lookup key).isSome)
    {folded : List Observation} (recalls : Recalls key window folded keeper) :
    Recalls key window
      (if call.key = key ∧ took (keeper.fold call).2 then call.seen :: folded else folded)
      (keeper.fold call).1 := by
  have positive : 0 < keeper.bounds.observationsPerKey.toNat := by
    have := consistent.accepted.observations_pos
    omega
  rw [Recalls, fold_bounds consistent call]
  by_cases own : call.key = key
  · subst own
    rcases fold_cases consistent call with turned | reaches
    · rw [if_neg (by simp [turned.not_took]), fold_elsewhere consistent (Or.inr turned) retained]
      exact recalls
    · have step := recalls.step nonneg positive call.seen
      rw [foldedWith, ← one_window rfl, ← windowFold] at step
      rw [reaches.held_eq, ← one_window rfl]
      by_cases repeated : (keeper.windowFold call).2 = .repeated
      · rw [if_neg fun both => reaches.took_iff.mp both.2 repeated]
        rwa [if_pos repeated] at step
      · rw [if_pos ⟨rfl, reaches.took_iff.mpr repeated⟩]
        rwa [if_neg repeated] at step
  · rw [if_neg (by simp [own]), fold_elsewhere consistent (Or.inl (Ne.symm own)) retained]
    exact recalls

theorem run_recalls (consistent : Consistent opener keeper) (nonneg : 0 ≤ window)
    (one_window : ∀ call ∈ calls, call.key = key → call.window = window)
    (retains : keeper.Retains key calls) {earlier : List Observation}
    (recalls : Recalls key window earlier keeper) :
    Recalls key window (keeper.taken key calls earlier) (keeper.run calls).1 := by
  induction calls generalizing keeper opener earlier with
  | nil => exact recalls
  | cons call calls ih =>
    refine ih (fold_consistent consistent call)
      (fun later later_mem => one_window later (List.mem_cons_of_mem call later_mem))
      retains.2 ?_
    exact fold_recalls consistent nonneg (one_window call List.mem_cons_self) retains.1 recalls

theorem mem_taken_of_earlier {earlier : List Observation} {seen : Observation}
    (seen_mem : seen ∈ earlier) : seen ∈ keeper.taken key calls earlier := by
  induction calls generalizing keeper earlier with
  | nil => exact seen_mem
  | cons call calls ih =>
    refine ih ?_
    split
    · exact List.mem_cons_of_mem _ seen_mem
    · exact seen_mem

theorem named_taken (consistent : Consistent opener keeper) (nonneg : 0 ≤ window)
    (one_window : ∀ call ∈ calls, call.key = key → call.window = window)
    (retains : keeper.Retains key calls) (serves : keeper.Serves key calls)
    {earlier : List Observation} (recalls : Recalls key window earlier keeper)
    (call_mem : call ∈ calls) (own : call.key = key)
    (accepts : call.refusal keeper.bounds = none) :
    ∃ alike ∈ keeper.taken key calls earlier, alike.event = call.seen.event := by
  induction calls generalizing keeper opener earlier with
  | nil => cases call_mem
  | cons first calls ih =>
    rcases List.mem_cons.mp call_mem with rfl | later
    · have reaches := reaches_of_served consistent accepts (serves.1 own)
      by_cases repeated : (keeper.windowFold call).2 = .repeated
      · -- The window holds the name, and it holds nothing but what the key took.
        rw [windowFold, own] at repeated
        obtain ⟨held, held_mem, same_name⟩ := List.mem_map.mp (fold_repeated_iff.mp repeated)
        exact ⟨held, mem_taken_of_earlier (recalls.held_folded held held_mem), same_name⟩
      · refine ⟨call.seen, ?_, rfl⟩
        rw [taken, if_pos ⟨own, reaches.took_iff.mpr repeated⟩]
        exact mem_taken_of_earlier List.mem_cons_self
    · exact ih (fold_consistent consistent first)
        (fun asked asked_mem => one_window asked (List.mem_cons_of_mem first asked_mem))
        retains.2 serves.2
        (fold_recalls consistent nonneg (one_window first List.mem_cons_self) retains.1 recalls)
        later (by rwa [fold_bounds consistent first])

/-- Whether an observation is of the same event as one of those given. -/
def AlikeIn (past : List Observation) (seen : Observation) : Prop :=
  ∃ alike ∈ past, seen.time = alike.time ∧ seen.event = alike.event

def Settled (key : Key) (window : ℤ) (past : List Observation) (keeper : Keeper) : Prop :=
  ∃ folded, Recalls key window folded keeper ∧ (∀ seen ∈ past, seen ∈ folded) ∧
    (Remembers.liveNames Observation.time Observation.event window folded).card ≤
      keeper.bounds.observationsPerKey.toNat

theorem Settled.not_fresh {past : List Observation} (settled : Settled key window past keeper)
    (nonneg : 0 ≤ window) (own : call.key = key) (one_window : call.window = window)
    (again : AlikeIn past call.seen) : (keeper.windowFold call).2 ≠ .fresh := by
  obtain ⟨folded, recalls, past_folded, room⟩ := settled
  obtain ⟨alike, alike_mem, same_time, same_event⟩ := again
  intro fresh
  rw [windowFold, own, one_window] at fresh
  exact (recalls.no_refold_iff nonneg).mpr room alike (past_folded alike alike_mem)
    ((fold_fresh_congr _ _ same_time same_event).mp fresh)

theorem Settled.fold {past : List Observation} (settled : Settled key window past keeper)
    (consistent : Consistent opener keeper) (nonneg : 0 ≤ window)
    (one_window : call.key = key → call.window = window)
    (again : call.key = key → call.refusal keeper.bounds = none → AlikeIn past call.seen)
    (retained : (keeper.keys.lookup key).isSome → ((keeper.fold call).1.keys.lookup key).isSome) :
    Settled key window past (keeper.fold call).1 := by
  obtain ⟨folded, recalls, past_folded, room⟩ := settled
  have after := fold_recalls consistent nonneg one_window retained recalls
  refine ⟨_, after, fun seen seen_mem => ?_, ?_⟩
  · split
    · exact List.mem_cons_of_mem _ (past_folded seen seen_mem)
    · exact past_folded seen seen_mem
  · rw [fold_bounds consistent call]
    split
    · rename_i own
      obtain ⟨alike, alike_mem, same_time, same_event⟩ := again own.1 (refusal_of_took own.2)
      rwa [Remembers.liveNames_cons (past_folded alike alike_mem) same_time same_event]
    · exact room

theorem empty_recalls (bounds : Bounds) (key : Key) (window : ℤ) :
    Recalls key window [] (Keeper.empty bounds) :=
  Remembers.nil window _

end Keeper
end Seagull.DetectionState
