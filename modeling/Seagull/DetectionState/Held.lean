import Seagull.DetectionState.Bounds
import Seagull.Foundation.FiniteMap
import Seagull.Foundation.SlidingWindow

/-!
# What one key holds

The observations under one key, as `held.observe` folds them, and what a fold answers.  Every fold
of a sound key is a fold of a sliding window of its observations, named by their events.
-/

namespace Seagull.DetectionState

open SlidingWindow

/-- What a count is kept under.  The group is a digest of what binds the events. -/
structure Key where
  tenant : String
  rule : String
  group : String
  deriving DecidableEq, Repr, Inhabited

/-- An event as the platform names it. -/
structure EventName where
  agent : String
  id : String
  deriving DecidableEq, Repr

/-- What one event contributes to a key. -/
structure Observation where
  /-- The event, so that a replayed batch counts once. -/
  event : EventName
  time : ℤ
  /-- The stages the event satisfied, empty under a rule that only counts. -/
  value : List UInt8
  partition : Int32
  /-- How far the clock that timed the event stood from the platform's own. -/
  skew : ℤ
  deriving DecidableEq, Repr

/-- The longest value an observation carries, in bytes. -/
def maxValueLength : ℕ := 512

def Observation.validate (seen : Observation) : Option Refusal :=
  if seen.event.id = "" then
    some .noEvent
  else if seen.event.agent = "" then
    some .noAgent
  else if seen.time = Instant.zero then
    some .noTime
  else if maxValueLength < seen.value.length then
    some .valueTooLong
  else
    none

/-- What a key holds after an observation. -/
structure State where
  first : ℤ
  last : ℤ
  count : ℕ
  distinct : ℕ
  /-- The key is full, so the count is a floor. -/
  saturated : Bool
  /-- The key already held the event, so nothing moved. -/
  repeated : Bool
  deriving DecidableEq, Repr

/-- The state of a key that holds nothing, and of a fold that is refused. -/
def State.empty : State := ⟨Instant.zero, Instant.zero, 0, 0, false, false⟩

/-- The observations under one key. -/
structure Held where
  key : Key
  window : ℤ
  /-- The observations, in event time. -/
  seen : List Observation
  ids : Finset EventName
  /-- How many observations carry each value that is not empty. -/
  values : FiniteMap (List UInt8) ℤ

/-- The time of the last of some observations, or the zero time. -/
def lastTime (seen : List Observation) : ℤ :=
  match seen.getLast? with
  | none => Instant.zero
  | some last => last.time

namespace Held

def opening (key : Key) : Held := ⟨key, 0, [], ∅, FiniteMap.empty⟩

def last (held : Held) : ℤ := lastTime held.seen

def expires (held : Held) : ℤ := held.last + held.window

/-- What the key holds. -/
def state (held : Held) (ceiling : ℤ) : State :=
  match held.seen with
  | [] => .empty
  | first :: rest =>
    { first := first.time
      last := held.last
      count := (first :: rest).length
      distinct := held.values.size
      saturated := ceiling ≤ (first :: rest).length
      repeated := false }

def insert (held : Held) (seen : Observation) : Held :=
  let place := search (isLater Observation.time seen held.seen) held.seen.length 0 held.seen.length
  { held with
    seen := held.seen.insertIdx place seen
    ids := Insert.insert seen.event held.ids
    values :=
      if seen.value = [] then held.values
      else held.values.increment seen.value }

def discard (held : Held) (index : ℕ) : Held :=
  match held.seen[index]? with
  | none => held
  | some gone =>
    { held with
      seen := held.seen.eraseIdx index
      ids := held.ids.erase gone.event
      values :=
        if gone.value = [] then held.values
        else held.values.decrement gone.value }

/-- Discard first observations while asked to, for a count of rounds. -/
def discardWhile (asks : List Observation → Bool) : ℕ → Held → Held
  | 0, held => held
  | rounds + 1, held =>
    if asks held.seen then discardWhile asks rounds (held.discard 0) else held

def startsBefore (cutoff : ℤ) : List Observation → Bool
  | [] => false
  | first :: _ => first.time < cutoff

def expire (held : Held) (cutoff : ℤ) : Held :=
  discardWhile (startsBefore cutoff) held.seen.length held

def trim (held : Held) (ceiling : ℤ) : Held :=
  discardWhile (fun seen => ceiling < seen.length) held.seen.length held

/-- Fold an observation into a key, and answer what the key then holds. -/
def observe (held : Held) (seen : Observation) (ceiling : ℤ) : Held × State × Option Refusal :=
  if seen.event ∈ held.ids then
    (held, { held.state ceiling with repeated := true }, none)
  else
    let newest := if seen.time < held.last then held.last else seen.time
    let cutoff := newest - held.window
    let expired := held.expire cutoff
    if seen.time < cutoff then
      (expired, expired.state ceiling, some .tooLate)
    else
      let folded := (expired.insert seen).trim ceiling
      (folded, folded.state ceiling, none)

def carrying (seen : List Observation) (value : List UInt8) : ℕ :=
  if value = [] then 0 else (seen.map Observation.value).count value

theorem carrying_cons (first : Observation) (rest : List Observation) (value : List UInt8) :
    carrying (first :: rest) value =
      if value = first.value ∧ first.value ≠ [] then carrying rest value + 1
      else carrying rest value := by
  unfold carrying
  rw [List.map_cons, List.count_cons]
  grind

theorem carrying_perm {seen other : List Observation} (perm : seen.Perm other) :
    carrying seen = carrying other := by
  funext value
  rw [carrying, carrying, (perm.map Observation.value).count_eq]

/-- The parts of a key agree, and its observations stand in event time. -/
structure Sound (held : Held) : Prop where
  sorted : held.seen.Pairwise fun earlier later => earlier.time ≤ later.time
  distinct : (held.seen.map Observation.event).Nodup
  ids_eq : held.ids = (held.seen.map Observation.event).toFinset
  tallied : held.values.Counts (carrying held.seen)
  times : ∀ seen ∈ held.seen, Instant.zero ≤ seen.time

namespace Sound

variable {held : Held}

theorem opening (key : Key) : (Held.opening key).Sound where
  sorted := List.Pairwise.nil
  distinct := List.nodup_nil
  ids_eq := rfl
  tallied := fun value => by simp [Held.opening, carrying]
  times := by simp [Held.opening]

section

variable (sound : held.Sound)

include sound

theorem under (window : ℤ) : ({ held with window } : Held).Sound :=
  ⟨sound.sorted, sound.distinct, sound.ids_eq, sound.tallied, sound.times⟩

theorem valid {ceiling : ℕ} (bounded : held.seen.length ≤ ceiling) :
    Valid Observation.time Observation.event ceiling held.seen :=
  ⟨sound.sorted, sound.distinct, bounded⟩

theorem mem_ids (event : EventName) :
    event ∈ held.ids ↔ event ∈ held.seen.map Observation.event := by
  rw [sound.ids_eq, List.mem_toFinset]

theorem discard {first : Observation} {rest : List Observation}
    (seen_eq : held.seen = first :: rest) :
    (held.discard 0).Sound ∧ (held.discard 0).seen = rest := by
  have discard_eq : held.discard 0 =
      { held with
        seen := rest
        ids := held.ids.erase first.event
        values :=
          if first.value = [] then held.values else held.values.decrement first.value } := by
    simp [Held.discard, seen_eq]
  obtain ⟨sorted, distinct, ids_eq, tallied, times⟩ := sound
  rw [seen_eq] at sorted distinct ids_eq tallied times
  rw [discard_eq]
  refine ⟨⟨(List.pairwise_cons.mp sorted).2, (List.nodup_cons.mp distinct).2, ?_, ?_, ?_⟩, rfl⟩
  · rw [List.map_cons, List.nodup_cons] at distinct
    rw [ids_eq, List.map_cons, List.toFinset_cons, Finset.erase_insert]
    simpa using distinct.1
  · split
    · rename_i empty
      have unmoved : carrying (first :: rest) = carrying rest := by
        funext value
        rw [carrying_cons, if_neg (fun both => both.2 empty)]
      rwa [unmoved] at tallied
    · rename_i carries
      refine tallied.decrement fun value => ?_
      rw [carrying_cons]
      simp [carries]
  · exact fun seen seen_mem => times seen (List.mem_cons_of_mem _ seen_mem)

omit sound in
theorem discard_key (held : Held) (index : ℕ) : (held.discard index).key = held.key := by
  unfold Held.discard
  split <;> rfl

omit sound in
theorem discard_window (held : Held) (index : ℕ) : (held.discard index).window = held.window := by
  unfold Held.discard
  split <;> rfl

theorem discardWhile {asks : List Observation → Bool}
    {drops : List Observation → List Observation} (asks_nil : asks [] = false)
    (drops_eq : ∀ seen, drops seen = if asks seen then drops seen.tail else seen)
    {rounds : ℕ} (enough : held.seen.length ≤ rounds) :
    (Held.discardWhile asks rounds held).Sound ∧
      (Held.discardWhile asks rounds held).seen = drops held.seen ∧
        (Held.discardWhile asks rounds held).key = held.key ∧
          (Held.discardWhile asks rounds held).window = held.window := by
  induction rounds generalizing held with
  | zero =>
    have empty : held.seen = [] := List.eq_nil_of_length_eq_zero (Nat.le_zero.mp enough)
    refine ⟨sound, ?_, rfl, rfl⟩
    rw [drops_eq, empty, asks_nil]
    simp [Held.discardWhile, empty]
  | succ rounds ih =>
    simp only [Held.discardWhile]
    rw [drops_eq held.seen]
    split
    · rename_i asked
      cases seen_eq : held.seen with
      | nil => rw [seen_eq, asks_nil] at asked; cases asked
      | cons first rest =>
        obtain ⟨rest_sound, rest_eq⟩ := sound.discard seen_eq
        rw [seen_eq, List.length_cons] at enough
        have tail := ih rest_sound (by rw [rest_eq]; omega)
        rwa [rest_eq, discard_key, discard_window] at tail
    · exact ⟨sound, rfl, rfl, rfl⟩

theorem expire (cutoff : ℤ) :
    (held.expire cutoff).Sound ∧
      (held.expire cutoff).seen = SlidingWindow.expire Observation.time cutoff held.seen ∧
        (held.expire cutoff).key = held.key ∧ (held.expire cutoff).window = held.window := by
  refine sound.discardWhile rfl (fun seen => ?_) le_rfl
  cases seen with
  | nil => rfl
  | cons first rest => simp [SlidingWindow.expire, startsBefore, List.dropWhile_cons]

theorem trim {ceiling : ℤ} (nonneg : 0 ≤ ceiling) :
    (held.trim ceiling).Sound ∧
      (held.trim ceiling).seen = latest ceiling.toNat held.seen ∧
        (held.trim ceiling).key = held.key ∧ (held.trim ceiling).window = held.window := by
  refine sound.discardWhile ?_ (fun seen => ?_) le_rfl
  · simpa using nonneg
  · cases seen with
    | nil => simp [latest]
    | cons first rest =>
      simp only [latest, List.length_cons, decide_eq_true_eq, List.tail_cons]
      split
      · obtain ⟨extra, extra_eq⟩ : ∃ extra, rest.length + 1 - ceiling.toNat = extra + 1 :=
          ⟨rest.length - ceiling.toNat, by omega⟩
        rw [extra_eq, List.drop_succ_cons]
        congr 1
        omega
      · rw [Nat.sub_eq_zero_of_le (by omega), List.drop_zero]

theorem insert {seen : Observation} (unheld : seen.event ∉ held.ids)
    (named : Instant.zero ≤ seen.time) :
    (held.insert seen).Sound ∧
      (held.insert seen).seen = place Observation.time seen held.seen := by
  have seen_eq : (held.insert seen).seen = place Observation.time seen held.seen :=
    insertIdx_search Observation.time sound.sorted
  have perm := place_perm Observation.time seen held.seen
  refine ⟨⟨?_, ?_, ?_, ?_, ?_⟩, seen_eq⟩
  · rw [seen_eq]
    exact place_sorted Observation.time seen sound.sorted
  · rw [seen_eq, (perm.map Observation.event).nodup_iff, List.map_cons, List.nodup_cons]
    exact ⟨fun held_mem => unheld ((sound.mem_ids _).mpr held_mem), sound.distinct⟩
  · rw [seen_eq, List.toFinset_eq_of_perm _ _ (perm.map Observation.event), List.map_cons,
      List.toFinset_cons, ← sound.ids_eq]
    rfl
  · rw [seen_eq, carrying_perm perm]
    simp only [Held.insert]
    split
    · rename_i empty
      have unmoved : carrying (seen :: held.seen) = carrying held.seen := by
        funext value
        rw [carrying_cons, if_neg (fun both => both.2 empty)]
      rw [unmoved]
      exact sound.tallied
    · rename_i carries
      refine sound.tallied.increment fun value => ?_
      rw [carrying_cons]
      simp [carries]
  · intro other other_mem
    rw [seen_eq] at other_mem
    rcases (mem_place Observation.time).mp other_mem with rfl | before
    · exact named
    · exact sound.times other before

end


end Sound

theorem newest_eq (held : Held) {seen : Observation} (named : Instant.zero ≤ seen.time) :
    (if seen.time < held.last then held.last else seen.time) =
      newest Observation.time held.seen seen := by
  unfold Held.last lastTime newest
  cases held.seen.getLast? with
  | none => exact if_neg (not_lt.mpr named)
  | some last =>
    simp only
    split <;> omega

def windowFold (held : Held) (seen : Observation) (ceiling : ℤ) : List Observation × Verdict :=
  fold Observation.time Observation.event held.window ceiling.toNat held.seen seen

/-- What a fold of a key does, in the terms of its sliding window. -/
structure Folds (held : Held) (seen : Observation) (ceiling : ℤ)
    (answer : Held × State × Option Refusal) : Prop where
  sound : answer.1.Sound
  seen_eq : answer.1.seen = (held.windowFold seen ceiling).1
  key_eq : answer.1.key = held.key
  window_eq : answer.1.window = held.window
  /-- The state is what the key then holds, marked when the window held the event. -/
  state_eq : answer.2.1 =
    { answer.1.state ceiling with repeated := (held.windowFold seen ceiling).2 = .repeated }
  refusal_eq : answer.2.2 =
    if (held.windowFold seen ceiling).2 = .late then some .tooLate else none

theorem state_repeated (held : Held) (ceiling : ℤ) :
    { held.state ceiling with repeated := false } = held.state ceiling := by
  unfold state
  cases held.seen <;> rfl

theorem observe_folds {held : Held} (sound : held.Sound) {seen : Observation}
    (named : Instant.zero ≤ seen.time) {ceiling : ℤ} (nonneg : 0 ≤ ceiling) :
    held.Folds seen ceiling (held.observe seen ceiling) := by
  simp only [observe, held.newest_eq named]
  split
  · rename_i known
    have verdict_eq : held.windowFold seen ceiling = (held.seen, .repeated) :=
      fold_of_repeated ((sound.mem_ids _).mp known)
    exact ⟨sound, by rw [verdict_eq], rfl, rfl, by simp [verdict_eq], by simp [verdict_eq]⟩
  · rename_i unknown
    have unheld : seen.event ∉ held.seen.map Observation.event :=
      fun held_mem => unknown ((sound.mem_ids _).mpr held_mem)
    obtain ⟨expired_sound, expired_seen, expired_key, expired_window⟩ :=
      sound.expire (newest Observation.time held.seen seen - held.window)
    split
    · rename_i late
      have verdict_eq : held.windowFold seen ceiling = _ := fold_of_late unheld late
      exact ⟨expired_sound, by rw [verdict_eq, expired_seen], expired_key, expired_window,
        by simp [verdict_eq, state_repeated], by simp [verdict_eq]⟩
    · rename_i reached
      have verdict_eq : held.windowFold seen ceiling = _ :=
        fold_of_fresh unheld (not_lt.mp reached)
      have unheld_expired :
          seen.event ∉ (held.expire (newest Observation.time held.seen seen - held.window)).ids := by
        rw [expired_sound.mem_ids, expired_seen]
        exact fun held_mem => unheld (((expire_sublist _ _ _).map _).subset held_mem)
      obtain ⟨inserted_sound, inserted_seen⟩ := expired_sound.insert unheld_expired named
      obtain ⟨folded_sound, folded_seen, folded_key, folded_window⟩ := inserted_sound.trim nonneg
      refine ⟨folded_sound, ?_, folded_key.trans expired_key, folded_window.trans expired_window,
        by simp [verdict_eq, state_repeated], by simp [verdict_eq]⟩
      rw [folded_seen, inserted_seen, expired_seen, verdict_eq]

theorem Sound.le_last {held : Held} (sound : held.Sound) {seen : Observation}
    (seen_mem : seen ∈ held.seen) : seen.time ≤ held.last := by
  obtain ⟨front, final, seen_eq⟩ :=
    (List.eq_nil_or_concat' held.seen).resolve_left (List.ne_nil_of_mem seen_mem)
  have last_eq : held.last = final.time := by simp [last, lastTime, seen_eq]
  have sorted := sound.sorted
  rw [seen_eq, List.pairwise_append] at sorted
  rw [seen_eq, List.mem_append, List.mem_singleton] at seen_mem
  rw [last_eq]
  rcases seen_mem with before | rfl
  · exact sorted.2.2 seen before final (List.mem_singleton_self final)
  · exact le_rfl

theorem exists_last {held : Held} (nonempty : held.seen ≠ []) :
    ∃ seen ∈ held.seen, seen.time = held.last := by
  obtain ⟨front, final, seen_eq⟩ := (List.eq_nil_or_concat' held.seen).resolve_left nonempty
  exact ⟨final, by simp [seen_eq], by simp [last, lastTime, seen_eq]⟩

/-- What the keeper knows of every key it holds. -/
structure Kept (ceiling : ℤ) (key : Key) (held : Held) : Prop where
  key_eq : held.key = key
  sound : held.Sound
  nonempty : held.seen ≠ []
  bounded : held.seen.length ≤ ceiling.toNat

section Folds

variable {held : Held} {seen : Observation} {ceiling : ℤ} {answer : Held × State × Option Refusal}

section

variable (folds : held.Folds seen ceiling answer) (sound : held.Sound)
  (bounded : held.seen.length ≤ ceiling.toNat) (nonneg : 0 ≤ held.window) (room : 0 < ceiling)

include folds sound bounded nonneg room

theorem Folds.kept :
    Kept ceiling held.key answer.1 := by
  have valid := sound.valid bounded
  refine ⟨folds.key_eq, folds.sound, ?_, ?_⟩
  · rw [folds.seen_eq, windowFold]
    by_cases known : seen.event ∈ held.seen.map Observation.event
    · rw [fold_of_repeated known]
      obtain ⟨held_seen, held_mem, -⟩ := List.mem_map.mp known
      exact List.ne_nil_of_mem held_mem
    · obtain ⟨kept, kept_mem, -⟩ := exists_fold_newest valid nonneg (by omega)
        (show (fold Observation.time Observation.event held.window ceiling.toNat held.seen seen).2 ≠
          .repeated from fun same => known (fold_repeated_iff.mp same))
      exact List.ne_nil_of_mem kept_mem
  · rw [folds.seen_eq]
    exact (fold_valid valid).bounded

theorem Folds.last_le
    (nonempty : held.seen ≠ []) : held.last ≤ answer.1.last := by
  obtain ⟨final, final_mem, final_eq⟩ := exists_last nonempty
  obtain ⟨kept, kept_mem, final_le⟩ := exists_fold_ge (sound.valid bounded) nonneg (by omega)
    final_mem
  rw [← final_eq]
  refine final_le.trans (folds.sound.le_last ?_)
  rw [folds.seen_eq]
  exact kept_mem

end

end Folds

end Held

end Seagull.DetectionState
