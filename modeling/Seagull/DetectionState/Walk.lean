import Seagull.DetectionState.Reachable

/-!
# A walk over every key

What the keeper is for, without its index: the set of keys held, the observations under each, the
partition that opened it, and a clock for each partition.  Room is made and quotas are counted by
walking over every key.  The keeper simulates this walk, fold by fold.
-/

namespace Seagull.DetectionState

/-- How far one partition has taken a tenant. -/
structure Clock where
  watermark : ℤ
  heard : ℤ

def Clock.instant (clock : Clock) (newest : ℤ) : ℤ :=
  clock.watermark + Instant.sub newest clock.heard

def State.of (seen : List Observation) (ceiling : ℤ) : State :=
  match seen with
  | [] => .empty
  | first :: rest =>
    { first := first.time
      last := lastTime (first :: rest)
      count := (first :: rest).length
      distinct := (((first :: rest).map Observation.value).toFinset.erase []).card
      saturated := ceiling ≤ (first :: rest).length
      repeated := false }

/-- The store without its index. -/
structure Walk where
  bounds : Bounds
  held : Finset Key
  seen : Key → List Observation
  /-- The window each key held was last observed under. -/
  window : Key → ℤ
  opener : Key → Int32
  /-- The clocks of the partitions that opened a key held. -/
  clock : String → Int32 → Option Clock
  newest : ℤ
  swept : ℤ

namespace Walk

/-- A store that holds nothing. -/
def new (bounds : Bounds) : Walk where
  bounds := bounds
  held := ∅
  seen := fun _ => []
  window := fun _ => 0
  opener := fun _ => 0
  clock := fun _ _ => none
  newest := Instant.zero
  swept := Instant.zero

def last (walk : Walk) (key : Key) : ℤ := lastTime (walk.seen key)

/-- Whether the clock of its partition has passed the end of a key's window. -/
def isPast (walk : Walk) (key : Key) : Bool :=
  match walk.clock key.tenant (walk.opener key) with
  | none => false
  | some clock => walk.last key + walk.window key < clock.instant walk.newest

def survivors (walk : Walk) (scope : String → Bool) : Finset Key :=
  walk.held.filter fun key => ¬ (scope key.tenant ∧ walk.isPast key)

/-- Drop exactly the keys of some tenants that are past, and the clocks left without. -/
def reclaim (walk : Walk) (scope : String → Bool) : Walk :=
  { walk with
    held := walk.survivors scope
    clock := fun tenant partition =>
      if scope tenant ∧ ¬ ∃ key ∈ walk.survivors scope,
          key.tenant = tenant ∧ walk.opener key = partition then
        none
      else
        walk.clock tenant partition }

def full (walk : Walk) : Bool := walk.bounds.keys ≤ walk.held.card

/-- Reclaim every tenant, once in a while of the stream. -/
def sweep (walk : Walk) : Walk :=
  if Instant.sub walk.newest walk.swept < sweepEvery then
    walk
  else
    { walk.reclaim (fun _ => true) with swept := walk.newest }

/-- The store a key is admitted to once its own tenant was asked for room. -/
def askOwner (walk : Walk) (key : Key) : Walk :=
  if (Keeper.overQuota walk.bounds walk.held key).isSome ∨ walk.full then
    walk.reclaim fun tenant => tenant = key.tenant
  else
    walk

def makeRoom (walk : Walk) : Walk × Option Refusal :=
  let swept := if walk.full then walk.sweep else walk
  (swept, if swept.full then some .atCapacity else none)

/-- Make room for a key, or say why there is none. -/
def admitKey (walk : Walk) (key : Key) : Walk × Option Refusal :=
  match Keeper.overQuota walk.bounds (walk.askOwner key).held key with
  | some refusal => (walk.askOwner key, some refusal)
  | none => (walk.askOwner key).makeRoom

theorem sweep_opener (walk : Walk) : walk.sweep.opener = walk.opener := by
  unfold sweep
  split <;> rfl

theorem admit_opener (walk : Walk) (key : Key) : (walk.admitKey key).1.opener = walk.opener := by
  have asked : (walk.askOwner key).opener = walk.opener := by
    unfold askOwner
    split <;> rfl
  unfold admitKey
  split
  · exact asked
  · unfold makeRoom
    split
    · exact (sweep_opener _).trans asked
    · exact asked

def advance (walk : Walk) (named : String) (seen : Observation) : Walk :=
  let newest := max walk.newest seen.time
  { walk with
    newest
    clock := fun tenant partition =>
      (walk.clock tenant partition).map fun clock =>
        if tenant = named ∧ partition = seen.partition then
          ⟨max clock.watermark seen.time, newest⟩
        else
          clock }

def openKey (walk : Walk) (key : Key) (seen : Observation) : Walk :=
  { walk with
    held := insert key walk.held
    seen := Function.update walk.seen key []
    opener := Function.update walk.opener key seen.partition
    clock := fun tenant partition =>
      if tenant = key.tenant ∧ partition = seen.partition then
        some ((walk.clock tenant partition).getD ⟨seen.time, walk.newest⟩)
      else
        walk.clock tenant partition }

def observe (walk : Walk) (call : Call) : Walk × Answer :=
  let folded := SlidingWindow.fold Observation.time Observation.event call.window
    walk.bounds.observationsPerKey.toNat (walk.seen call.key) call.seen
  let refusal := if folded.2 = .late then some Refusal.tooLate else none
  ({ walk with
      seen := Function.update walk.seen call.key folded.1
      window := Function.update walk.window call.key call.window },
    { state :=
        { State.of folded.1 walk.bounds.observationsPerKey with repeated := folded.2 = .repeated }
      window := if refusal.isSome ∨ call.read = false then [] else folded.1
      refusal })

/-- Fold an observation into its key, holding the key if the store does not. -/
def fold (walk : Walk) (call : Call) : Walk × Answer :=
  match call.refusal walk.bounds with
  | some refusal => (walk, .refused refusal)
  | none =>
    let advanced := walk.advance call.key.tenant call.seen
    if call.key ∈ advanced.held then
      advanced.observe call
    else
      match advanced.admitKey call.key with
      | (admitted, some refusal) => (admitted, .refused refusal)
      | (admitted, none) => (admitted.openKey call.key call.seen).observe call

end Walk

theorem Held.domain_values {held : Held} (sound : held.Sound) :
    held.values.domain = (held.seen.map Observation.value).toFinset.erase [] := by
  ext value
  rw [FiniteMap.mem_domain, sound.tallied value, Finset.mem_erase, List.mem_toFinset,
    ← List.count_pos_iff, carrying]
  by_cases empty : value = []
  · simp [empty]
  · simp [empty, Nat.pos_iff_ne_zero]

theorem Held.state_eq {held : Held} (sound : held.Sound) (ceiling : ℤ) :
    held.state ceiling = State.of held.seen ceiling := by
  have distinct_eq := congrArg Finset.card (held.domain_values sound)
  rw [FiniteMap.card_domain] at distinct_eq
  unfold state State.of last
  cases seen_eq : held.seen with
  | nil => rfl
  | cons first rest =>
    rw [seen_eq] at distinct_eq
    simp only [distinct_eq]

def PartitionKeys.toClock (queue : PartitionKeys) : Clock := ⟨queue.watermark, queue.heard⟩

/-- A keeper and a walk hold the same keys, observations and clocks. -/
structure Simulates (windowOf : Key → ℤ) (keeper : Keeper) (walk : Walk) : Prop where
  consistent : Keeper.Consistent walk.opener keeper
  punctual : Keeper.Punctual windowOf keeper
  bounds_eq : walk.bounds = keeper.bounds
  newest_eq : walk.newest = keeper.newest
  swept_eq : walk.swept = keeper.swept
  held_eq : walk.held = keeper.keys.domain
  entries : ∀ key held, keeper.keys.lookup key = some held →
    walk.seen key = held.seen ∧ walk.window key = held.window
  clock_eq : ∀ tenant partition,
    walk.clock tenant partition = (keeper.queues tenant partition).map PartitionKeys.toClock

namespace Simulates

variable {windowOf : Key → ℤ} {keeper after : Keeper} {walk : Walk}

variable (simulates : Simulates windowOf keeper walk)

include simulates

theorem isPast_eq {key : Key} {held : Held}
    {queue : PartitionKeys} (found : keeper.keys.lookup key = some held)
    (queue_eq : keeper.queues key.tenant (walk.opener key) = some queue) :
    walk.isPast key = true ↔ held.expires < queue.clock keeper.newest := by
  obtain ⟨seen_eq, window_eq⟩ := simulates.entries key held found
  have last_eq : walk.last key = held.last := by rw [Walk.last, Held.last, seen_eq]
  rw [Walk.isPast, simulates.clock_eq, queue_eq]
  simp only [Option.map_some, decide_eq_true_eq]
  rw [last_eq, window_eq, simulates.newest_eq]
  rfl

section

variable {scope : String → Bool}
  (reclaims : Keeper.Reclaims walk.opener (fun tenant => scope tenant = true) keeper after)

include reclaims

theorem survivors_eq :
    walk.survivors scope = after.keys.domain := by
  ext key
  rw [Walk.survivors, Finset.mem_filter, simulates.held_eq]
  constructor
  · rintro ⟨key_mem, stays⟩
    obtain ⟨held, found⟩ := (FiniteMap.mem_domain _ _).mp key_mem
    by_contra lost
    obtain ⟨reclaimed, queue, queue_eq, passed⟩ :=
      reclaims.thins.dropped key held found ((FiniteMap.notMem_domain _ _).mp lost)
    exact stays ⟨reclaimed, (simulates.isPast_eq found queue_eq).mpr passed⟩
  · intro key_mem
    refine ⟨reclaims.thins.domain_subset key_mem, ?_⟩
    rintro ⟨reclaimed, past⟩
    obtain ⟨held, held_eq⟩ := (FiniteMap.mem_domain _ _).mp key_mem
    obtain ⟨queue, queue_eq, filed⟩ :=
      ((simulates.consistent.reclaimed reclaims).files_iff _ _ key).mpr ⟨key_mem, rfl, rfl⟩
    obtain ⟨place, place_mem, place_eq⟩ := List.mem_map.mp filed
    obtain ⟨former, former_eq, watermark_eq, heard_eq, settled⟩ :=
      reclaims.thins.clocks _ _ queue queue_eq
    have passed := (simulates.isPast_eq (reclaims.thins.kept key held held_eq) former_eq).mp past
    have placed := (simulates.punctual.reclaimed reclaims).timely _ _ queue queue_eq place
      place_mem held (place_eq ▸ held_eq)
    have clocked := settled reclaimed place place_mem
    rw [PartitionKeys.clock, watermark_eq, heard_eq, ← PartitionKeys.clock] at clocked
    omega

theorem reclaimed :
    Simulates windowOf after { walk.reclaim scope with swept := after.swept } := by
  have consistent := simulates.consistent.reclaimed reclaims
  have survivors_eq := simulates.survivors_eq reclaims
  refine ⟨consistent, simulates.punctual.reclaimed reclaims,
    simulates.bounds_eq.trans reclaims.bounds_eq.symm,
    simulates.newest_eq.trans reclaims.newest_eq.symm, rfl, survivors_eq,
    fun key held found => simulates.entries key held (reclaims.thins.kept key held found),
    fun tenant partition => ?_⟩
  have opened_iff := consistent.queue_iff tenant partition
  simp only [Walk.reclaim, survivors_eq]
  cases after_eq : after.queues tenant partition with
  | none =>
    by_cases reclaimed : scope tenant = true
    · have none_opened := opened_iff.not.mp (by simp [after_eq])
      simp only [reclaimed, none_opened, not_false_eq_true, and_self, if_true, Option.map_none]
    · have untouched := reclaims.thins.untouched tenant partition reclaimed
      rw [after_eq] at untouched
      simp [reclaimed, simulates.clock_eq, ← untouched]
  | some queue =>
    obtain ⟨former, former_eq, watermark_eq, heard_eq, -⟩ :=
      reclaims.thins.clocks tenant partition queue after_eq
    have opened := opened_iff.mp ⟨queue, after_eq⟩
    rw [if_neg fun both => both.2 opened, simulates.clock_eq, former_eq]
    simp [PartitionKeys.toClock, watermark_eq, heard_eq]

end

theorem full_eq : walk.full = keeper.full := by
  rw [Walk.full, Keeper.full, simulates.held_eq, FiniteMap.card_domain, simulates.bounds_eq]

theorem advance (tenant : String) (seen : Observation) :
    Simulates windowOf (keeper.advance tenant seen) (walk.advance tenant seen) := by
  have newest_eq : (walk.advance tenant seen).newest = (keeper.advance tenant seen).newest := by
    rw [Keeper.advance_newest, ← simulates.newest_eq]
    rfl
  refine ⟨simulates.consistent.advance tenant seen, simulates.punctual.advance tenant seen,
    simulates.bounds_eq, newest_eq, simulates.swept_eq, simulates.held_eq, simulates.entries,
    fun named partition => ?_⟩
  have clock_eq : (walk.advance tenant seen).clock named partition =
      (walk.clock named partition).map fun clock =>
        if named = tenant ∧ partition = seen.partition then
          ⟨max clock.watermark seen.time, (walk.advance tenant seen).newest⟩
        else clock := rfl
  rw [clock_eq, newest_eq, simulates.clock_eq, Keeper.queues_advance, Option.map_map,
    Option.map_map]
  congr 1
  funext queue
  simp only [Function.comp_apply]
  split
  · simp only [PartitionKeys.toClock, PartitionKeys.delivered, Clock.mk.injEq, and_true]
    split <;> omega
  · rfl

theorem askOwner (order : Order) (key : Key) :
    Simulates windowOf (keeper.askOwner order key) (walk.askOwner key) := by
  rw [Keeper.askOwner, Walk.askOwner, simulates.bounds_eq, simulates.held_eq, simulates.full_eq]
  split
  · have reclaims : Keeper.Reclaims walk.opener
        (fun tenant => decide (tenant = key.tenant) = true) keeper
        (keeper.reclaimTenant order.own key.tenant) := by
      simpa using Keeper.reclaimTenant_reclaims order.own key.tenant simulates.consistent.indexed
    have reclaimed := simulates.reclaimed reclaims
    rwa [Keeper.reclaimTenant_swept, ← simulates.swept_eq] at reclaimed
  · exact simulates

theorem sweep (order : Order) :
    Simulates windowOf (keeper.sweep order) walk.sweep := by
  have spec := Keeper.sweep_spec order simulates.consistent.indexed
  rw [Walk.sweep, simulates.newest_eq, simulates.swept_eq]
  split at spec
  · rename_i early
    rw [if_pos early, spec]
    exact simulates
  · rename_i due
    have reclaims : Keeper.Reclaims walk.opener (fun _ => true = true) keeper
        (keeper.sweep order) := by
      simpa using spec.1
    rw [if_neg due, ← spec.2]
    exact simulates.reclaimed reclaims

theorem makeRoom (order : Order) :
    Simulates windowOf (keeper.makeRoom order).1 walk.makeRoom.1 ∧
      (keeper.makeRoom order).2 = walk.makeRoom.2 := by
  have swept : Simulates windowOf (if keeper.full then keeper.sweep order else keeper)
      (if walk.full then walk.sweep else walk) := by
    rw [simulates.full_eq]
    split
    · exact simulates.sweep order
    · exact simulates
  refine ⟨swept, ?_⟩
  simp only [Keeper.makeRoom, Walk.makeRoom, swept.full_eq]

theorem admitKey (order : Order) (key : Key) :
    Simulates windowOf (keeper.admitKey order key).1 (walk.admitKey key).1 ∧
      (keeper.admitKey order key).2 = (walk.admitKey key).2 := by
  have asked := simulates.askOwner order key
  rw [Keeper.admit_eq order key simulates.consistent.accepted simulates.consistent.indexed,
    Walk.admitKey, simulates.bounds_eq, asked.held_eq]
  cases Keeper.overQuota keeper.bounds (keeper.askOwner order key).keys.domain key with
  | some refusal => exact ⟨asked, rfl⟩
  | none => exact asked.makeRoom order

omit simulates in
theorem observe_eq {keys : FiniteMap Key Held} {call : Call} {entry : Held}
    (folds : ({ entry with window := call.window } : Held).Folds call.seen
      walk.bounds.observationsPerKey (call.observe walk.bounds entry))
    (seen_eq : walk.seen call.key = entry.seen)
    (others : ∀ key held, key ≠ call.key → keys.lookup key = some held →
      walk.seen key = held.seen ∧ walk.window key = held.window) :
    Keeper.answer call.read (call.observe walk.bounds entry) = (walk.observe call).2 ∧
      ∀ key held,
        (keys.insert call.key (call.observe walk.bounds entry).1).lookup key = some held →
          (walk.observe call).1.seen key = held.seen ∧
            (walk.observe call).1.window key = held.window := by
  have fold_eq : ({ entry with window := call.window } : Held).windowFold call.seen
      walk.bounds.observationsPerKey =
        SlidingWindow.fold Observation.time Observation.event call.window
          walk.bounds.observationsPerKey.toNat (walk.seen call.key) call.seen := by
    rw [seen_eq]
    rfl
  have after_eq := folds.seen_eq
  have state_eq := folds.state_eq
  have refusal_eq := folds.refusal_eq
  rw [Held.state_eq folds.sound, after_eq] at state_eq
  rw [fold_eq] at after_eq state_eq refusal_eq
  refine ⟨by simp only [Keeper.answer, Walk.observe, after_eq, state_eq, refusal_eq],
    fun key held held_eq => ?_⟩
  rw [FiniteMap.lookup_insert] at held_eq
  split at held_eq
  · rename_i same
    subst same
    cases held_eq
    simp only [Walk.observe, Function.update_self, after_eq, folds.window_eq, and_self]
  · rename_i differs
    simp only [Walk.observe, Function.update_of_ne differs]
    exact others key held differs held_eq

section

variable {call : Call} (accepts : call.refusal keeper.bounds = none)

include accepts

private theorem fold_held {entry : Held}
    (found : keeper.keys.lookup call.key = some entry)
    (consistent : Keeper.Consistent walk.opener
      { keeper.advance call.key.tenant call.seen with
        keys := keeper.keys.insert call.key (call.observe keeper.bounds entry).1 })
    (punctual : Keeper.Punctual windowOf
      { keeper.advance call.key.tenant call.seen with
        keys := keeper.keys.insert call.key (call.observe keeper.bounds entry).1 }) :
    Simulates windowOf
        { keeper.advance call.key.tenant call.seen with
          keys := keeper.keys.insert call.key (call.observe keeper.bounds entry).1 }
        (walk.fold call).1 ∧
      Keeper.answer call.read (call.observe keeper.bounds entry) = (walk.fold call).2 := by
  have advanced := simulates.advance call.key.tenant call.seen
  have held_mem := (FiniteMap.mem_domain _ _).mpr ⟨entry, found⟩
  have walk_eq : walk.fold call = (walk.advance call.key.tenant call.seen).observe call := by
    have held : call.key ∈ (walk.advance call.key.tenant call.seen).held := by
      rw [advanced.held_eq]
      exact held_mem
    simp only [Walk.fold, simulates.bounds_eq, accepts, held, if_true]
  have kept := simulates.consistent.kept call.key entry found
  have folds := (Keeper.observe_kept simulates.consistent.accepted accepts kept.sound
    kept.bounded).1
  have bounds_eq : (walk.advance call.key.tenant call.seen).bounds = keeper.bounds :=
    advanced.bounds_eq
  rw [← bounds_eq] at folds
  obtain ⟨answer_eq, entries⟩ := observe_eq folds (simulates.entries call.key entry found).1
    fun key held _ => advanced.entries key held
  rw [bounds_eq] at answer_eq entries
  rw [walk_eq]
  refine ⟨⟨consistent, punctual, advanced.bounds_eq, advanced.newest_eq, advanced.swept_eq, ?_,
    entries, advanced.clock_eq⟩, answer_eq⟩
  rw [FiniteMap.domain_insert, Finset.insert_eq_of_mem held_mem]
  exact advanced.held_eq

theorem fold_unheld (unheld : keeper.keys.lookup call.key = none) :
    walk.fold call =
      match (walk.advance call.key.tenant call.seen).admitKey call.key with
      | (admitted, some refusal) => (admitted, .refused refusal)
      | (admitted, none) => (admitted.openKey call.key call.seen).observe call := by
  have absent : call.key ∉ (walk.advance call.key.tenant call.seen).held := by
    rw [(simulates.advance call.key.tenant call.seen).held_eq]
    exact (FiniteMap.notMem_domain _ _).mpr unheld
  simp only [Walk.fold, simulates.bounds_eq, accepts, absent, if_false]

private theorem fold_opened
    (consistent : Keeper.Consistent
      (Function.update walk.opener call.key call.seen.partition)
      (keeper.openKey (call.observe keeper.bounds (Held.opening call.key)).1 call.seen))
    (punctual : Keeper.Punctual windowOf
      (keeper.openKey (call.observe keeper.bounds (Held.opening call.key)).1 call.seen)) :
    Simulates windowOf
        (keeper.openKey (call.observe keeper.bounds (Held.opening call.key)).1 call.seen)
        ((walk.openKey call.key call.seen).observe call).1 ∧
      Keeper.answer call.read (call.observe keeper.bounds (Held.opening call.key)) =
        ((walk.openKey call.key call.seen).observe call).2 := by
  have folds := (Keeper.observe_kept simulates.consistent.accepted accepts
    (Held.Sound.opening call.key) (Nat.zero_le _)).1
  have bounds_eq : (walk.openKey call.key call.seen).bounds = keeper.bounds := simulates.bounds_eq
  have key_eq : (call.observe keeper.bounds (Held.opening call.key)).1.key = call.key :=
    folds.key_eq
  rw [← bounds_eq] at folds
  obtain ⟨answer_eq, entries⟩ := observe_eq folds
    (show (walk.openKey call.key call.seen).seen call.key = (Held.opening call.key).seen by
      simp [Walk.openKey, Held.opening])
    (fun key held differs found => by
      simpa only [Walk.openKey, Function.update_of_ne differs] using
        simulates.entries key held found)
  rw [bounds_eq] at answer_eq entries
  refine ⟨⟨consistent, punctual, simulates.bounds_eq, simulates.newest_eq, simulates.swept_eq, ?_,
    fun key held => ?_, fun tenant partition => ?_⟩, answer_eq⟩
  · rw [Keeper.openKey_keys, FiniteMap.domain_insert, key_eq, ← simulates.held_eq]
    rfl
  · rw [Keeper.openKey_keys, key_eq]
    exact entries key held
  · rw [Keeper.queues_openKey, key_eq]
    simp only [Walk.observe, Walk.openKey, simulates.clock_eq, simulates.newest_eq]
    split
    · rename_i same
      rw [same.1, same.2, Keeper.openQueue]
      cases keeper.queues call.key.tenant call.seen.partition <;> rfl
    · rfl

end

theorem fold {call : Call} (window_eq : call.window = windowOf call.key) :
    Simulates windowOf (keeper.fold call).1 (walk.fold call).1 ∧
      (keeper.fold call).2 = (walk.fold call).2 := by
  have step := keeper.fold_step call
  have consistent := Keeper.fold_consistent simulates.consistent call
  have punctual := Keeper.fold_punctual simulates.punctual simulates.consistent window_eq
  have admission :=
    (simulates.advance call.key.tenant call.seen).admitKey call.order call.key
  cases stepped : keeper.fold call with
  | mk after given =>
    rw [stepped] at step consistent punctual
    cases step with
    | refused refusal refuses =>
      have walk_eq : walk.fold call = (walk, .refused refusal) := by
        simp only [Walk.fold, simulates.bounds_eq, refuses]
      rw [walk_eq]
      exact ⟨simulates, rfl⟩
    | folded entry accepts found =>
      rw [Keeper.openerAfter, if_neg fun both => by rw [found] at both; cases both.2.1]
        at consistent
      exact simulates.fold_held accepts found consistent punctual
    | turnedAway admitted refusal accepts unheld admits =>
      rw [admits] at admission
      rw [simulates.fold_unheld accepts unheld, ← Prod.mk.eta (p := Walk.admitKey _ _),
        ← admission.2]
      exact ⟨admission.1, rfl⟩
    | opened admitted accepts unheld admits =>
      rw [Keeper.openerAfter, if_pos ⟨accepts, unheld, by rw [admits]⟩] at consistent
      rw [admits] at admission
      rw [simulates.fold_unheld accepts unheld, ← Prod.mk.eta (p := Walk.admitKey _ _),
        ← admission.2]
      have bounds_eq := (simulates.consistent.admission admits).bounds_eq
      refine admission.1.fold_opened (bounds_eq.symm ▸ accepts) ?_ punctual
      rw [Walk.admit_opener]
      exact consistent

end Simulates

/-- What each fold of a run answers, and which keys are held after it. -/
def Walk.trace (walk : Walk) : List Call → List (Answer × Finset Key)
  | [] => []
  | call :: calls =>
    ((walk.fold call).2, (walk.fold call).1.held) :: (walk.fold call).1.trace calls

/-- What each fold of a run answers, and which keys are held after it. -/
def Keeper.trace (keeper : Keeper) : List Call → List (Answer × Finset Key)
  | [] => []
  | call :: calls =>
    ((keeper.fold call).2, (keeper.fold call).1.keys.domain) :: (keeper.fold call).1.trace calls

theorem Simulates.trace {windowOf : Key → ℤ} {keeper : Keeper} {walk : Walk}
    (simulates : Simulates windowOf keeper walk) {calls : List Call}
    (one_window : ∀ call ∈ calls, call.window = windowOf call.key) :
    keeper.trace calls = walk.trace calls := by
  induction calls generalizing keeper walk with
  | nil => rfl
  | cons call calls ih =>
    obtain ⟨after, answer_eq⟩ := simulates.fold (one_window call List.mem_cons_self)
    rw [Keeper.trace, Walk.trace, answer_eq, after.held_eq,
      ih after fun later later_mem => one_window later (List.mem_cons_of_mem call later_mem)]

theorem Simulates.empty {windowOf : Key → ℤ} {bounds : Bounds} (accepted : bounds.Accepted) :
    Simulates windowOf (Keeper.empty bounds) (Walk.new bounds) where
  consistent := .empty accepted
  punctual := .empty bounds
  bounds_eq := rfl
  newest_eq := rfl
  swept_eq := rfl
  held_eq := rfl
  entries := fun _ _ found => by cases found
  clock_eq := fun _ _ => rfl

/-- The keeper answers every run of folds as a walk over every key answers it, and holds the same
keys after each fold. -/
theorem keeper_refines_walk {bounds : Bounds} {start : Keeper}
    (made : Keeper.new bounds = .ok start) {windowOf : Key → ℤ} {calls : List Call}
    (one_window : ∀ call ∈ calls, call.window = windowOf call.key) :
    start.trace calls = (Walk.new bounds).trace calls := by
  obtain ⟨accepted, rfl⟩ := Keeper.new_eq_ok made
  exact (Simulates.empty accepted).trace one_window

theorem keeper_refines_walk_two_tenants :
    (Keeper.empty .small).trace Call.twoTenants = (Walk.new .small).trace Call.twoTenants :=
  @keeper_refines_walk .small _ rfl (fun _ => 60) _ (by simp [Call.twoTenants, Call.plain])

end Seagull.DetectionState
