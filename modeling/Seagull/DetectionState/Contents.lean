import Seagull.DetectionState.Held
import Seagull.Foundation.WindowContents

/-!
# What a key holds in the end

The observations of a stream reach a key late, twice and out of order.  What the key then holds
depends on the set of them alone: the times it holds are the latest of the events that are live in
its window.
-/

namespace Seagull.DetectionState

open SlidingWindow

/-- The key after the observations of a list, under one window and ceiling. -/
def observeAll (key : Key) (window ceiling : ℤ) (stream : List Observation) : Held :=
  stream.foldl (fun held seen => (held.observe seen ceiling).1) { Held.opening key with window }

def Named (stream : List Observation) : Prop :=
  ∀ one ∈ stream, ∀ other ∈ stream, one.event = other.event → one = other

/-- No observation is before the zero time. -/
def Timed (stream : List Observation) : Prop :=
  ∀ seen ∈ stream, Instant.zero ≤ seen.time

/-- The distinct events observed within a window of the greatest time. -/
def liveIn (window : ℤ) (stream : List Observation) : Finset Observation :=
  live Observation.time window stream.toFinset

namespace Held

theorem foldl_observe {held : Held} (sound : held.Sound) {ceiling : ℕ} {stream : List Observation}
    (timed : Timed stream) :
    let reached := stream.foldl (fun held seen => (held.observe seen ceiling).1) held
    reached.Sound ∧ reached.seen =
      foldAll Observation.time Observation.event held.window ceiling held.seen stream := by
  induction stream generalizing held with
  | nil => exact ⟨sound, rfl⟩
  | cons seen rest ih =>
    obtain ⟨timed_seen, timed_rest⟩ := List.forall_mem_cons.mp timed
    have folds := observe_folds sound timed_seen (Int.natCast_nonneg ceiling)
    have tail := ih folds.sound timed_rest
    rw [folds.window_eq, folds.seen_eq, windowFold, Int.toNat_natCast] at tail
    exact tail

theorem Sound.values_size {held other : Held} (sound : held.Sound) (other_sound : other.Sound)
    (same : held.seen.Perm other.seen) : held.values.size = other.values.size := by
  rw [← FiniteMap.card_domain, ← FiniteMap.card_domain]
  congr 1
  ext value
  rw [FiniteMap.mem_domain, FiniteMap.mem_domain, sound.tallied, other_sound.tallied,
    carrying_perm same]

theorem state_times_congr {held other : Held} (ceiling : ℤ)
    (same : held.seen.map Observation.time = other.seen.map Observation.time) :
    (held.state ceiling).first = (other.state ceiling).first ∧
      (held.state ceiling).last = (other.state ceiling).last ∧
        (held.state ceiling).count = (other.state ceiling).count ∧
          (held.state ceiling).saturated = (other.state ceiling).saturated := by
  have last_eq : ∀ held : Held, held.last =
      ((held.seen.map Observation.time).getLast?).getD Instant.zero := by
    intro held
    rw [last, lastTime, List.getLast?_map]
    cases held.seen.getLast? <;> rfl
  have lasts : held.last = other.last := by rw [last_eq, last_eq, same]
  cases seen_eq : held.seen with
  | nil =>
    have others_eq : other.seen = [] := by simpa [seen_eq] using same.symm
    simp [state, seen_eq, others_eq]
  | cons first rest =>
    cases others_eq : other.seen with
    | nil => simp [seen_eq, others_eq] at same
    | cons start others =>
      rw [seen_eq, others_eq, List.map_cons, List.map_cons, List.cons.injEq] at same
      have lengths : rest.length = others.length := by
        simpa using congrArg List.length same.2
      simp [state, seen_eq, others_eq, same.1, lasts, lengths]

theorem state_distinct (held : Held) (ceiling : ℤ) (sound : held.Sound) :
    (held.state ceiling).distinct = held.values.size := by
  cases seen_eq : held.seen with
  | nil =>
    have none_held : ∀ value, held.values.lookup value = none := by
      intro value
      rw [sound.tallied, seen_eq]
      simp [carrying]
    have empty : held.values.domain = ∅ :=
      Finset.eq_empty_of_forall_notMem fun value =>
        (FiniteMap.notMem_domain _ value).mpr (none_held value)
    rw [← FiniteMap.card_domain, empty]
    simp [state, seen_eq, State.empty]
  | cons first rest => simp [state, seen_eq]

end Held

theorem observeAll_folds (key : Key) (window : ℤ) (ceiling : ℕ) {stream : List Observation}
    (timed : Timed stream) :
    (observeAll key window ceiling stream).Sound ∧
      (observeAll key window ceiling stream).seen =
        foldAll Observation.time Observation.event window ceiling [] stream :=
  Held.foldl_observe ((Held.Sound.opening key).under window) timed

/-- After any list of observations a key holds the latest times of the events that are live among
them, as many as the ceiling admits.  So what it counts and where its window lies depend on the set
of the observations alone, and so do the events and values when no two events share a time or the
ceiling was not passed. -/
theorem observeAll_contents (key : Key) (window : ℤ) (ceiling : ℕ) (stream : List Observation)
    (named : Named stream) (timed : Timed stream) :
    (observeAll key window ceiling stream).seen.map Observation.time =
        latest ceiling (timesOf Observation.time (liveIn window stream)) ∧
      ∀ other : List Observation, other.toFinset = stream.toFinset →
        let held := observeAll key window ceiling stream
        let again := observeAll key window ceiling other
        ((again.state ceiling).count = (held.state ceiling).count ∧
          (again.state ceiling).first = (held.state ceiling).first ∧
            (again.state ceiling).last = (held.state ceiling).last ∧
              (again.state ceiling).saturated = (held.state ceiling).saturated) ∧
        ((Set.InjOn Observation.time stream.toFinset ∨ (liveIn window stream).card ≤ ceiling) →
          again.seen.Perm held.seen ∧ again.ids = held.ids ∧
            (again.state ceiling).distinct = (held.state ceiling).distinct) := by
  have named_set : Set.InjOn Observation.event {one | one ∈ stream} :=
    fun one one_mem other other_mem => named one one_mem other other_mem
  obtain ⟨sound, seen_eq⟩ := observeAll_folds key window ceiling timed
  have times_eq : (observeAll key window ceiling stream).seen.map Observation.time =
      latest ceiling (timesOf Observation.time (liveIn window stream)) := by
    rw [seen_eq]
    exact foldAll_times window ceiling named_set
  refine ⟨times_eq, fun other same => ?_⟩
  have mem_other : ∀ {seen}, seen ∈ other → seen ∈ stream :=
    fun seen_mem => List.mem_toFinset.mp (same ▸ List.mem_toFinset.mpr seen_mem)
  obtain ⟨again_sound, again_eq⟩ := observeAll_folds key window ceiling
    (fun seen seen_mem => timed seen (mem_other seen_mem) : Timed other)
  have again_times : (observeAll key window ceiling other).seen.map Observation.time =
      (observeAll key window ceiling stream).seen.map Observation.time := by
    rw [times_eq, again_eq, foldAll_times window ceiling
      (named_set.mono fun one one_mem => mem_other one_mem), same]
    rfl
  obtain ⟨first_eq, last_eq, count_eq, saturated_eq⟩ :=
    Held.state_times_congr (ceiling : ℤ) again_times
  refine ⟨⟨count_eq, first_eq, last_eq, saturated_eq⟩, fun apart => ?_⟩
  have perm : (observeAll key window ceiling other).seen.Perm
      (observeAll key window ceiling stream).seen := by
    rw [seen_eq, again_eq]
    exact (foldAll_perm named_set same.symm apart).symm
  refine ⟨perm, ?_, ?_⟩
  · rw [again_sound.ids_eq, sound.ids_eq, List.toFinset_eq_of_perm _ _ (perm.map _)]
  · rw [Held.state_distinct _ _ again_sound, Held.state_distinct _ _ sound,
      again_sound.values_size sound perm]

def lateAttempts : List Observation :=
  [⟨⟨"a-1", "e-2"⟩, 20, [], 0, 0⟩, ⟨⟨"a-1", "e-1"⟩, 10, [1], 0, 0⟩, ⟨⟨"a-1", "e-2"⟩, 20, [], 0, 0⟩]

theorem observeAll_contents_lateAttempts :
    Named lateAttempts ∧ Timed lateAttempts ∧
      (observeAll ⟨"t", "r", "g"⟩ 60 5 lateAttempts).seen.map Observation.time =
        latest 5 (timesOf Observation.time (liveIn 60 lateAttempts)) := by
  have named : Named lateAttempts := by unfold Named; decide
  have timed : Timed lateAttempts := by unfold Timed; decide
  exact ⟨named, timed, (observeAll_contents ⟨"t", "r", "g"⟩ 60 5 lateAttempts named timed).1⟩

end Seagull.DetectionState
