import Mathlib.Tactic

/-!
# Sliding windows of named items

A window holds items that carry a time and a name, in the order of their times.  Folding an item
drops what the newest time has left behind, refuses an item that is itself behind, and keeps the
latest items when there are more than a ceiling.  An item whose name the window holds moves nothing.
-/

namespace Seagull.SlidingWindow

variable {α ν : Type} [DecidableEq ν] (time : α → ℤ) (name : α → ν)

/-- How a window took an item. -/
inductive Verdict
  | repeated
  | late
  | fresh
  deriving DecidableEq, Repr

/-- The newest time among the last item held and the item that arrives. -/
def newest (items : List α) (item : α) : ℤ :=
  match items.getLast? with
  | none => time item
  | some last => max (time item) (time last)

def expire (cutoff : ℤ) (items : List α) : List α :=
  items.dropWhile fun held => time held < cutoff

def place (item : α) : List α → List α
  | [] => [item]
  | first :: rest =>
    if time item < time first then item :: first :: rest else first :: place item rest

def latest (ceiling : ℕ) (items : List α) : List α :=
  items.drop (items.length - ceiling)

def fold (window : ℤ) (ceiling : ℕ) (items : List α) (item : α) : List α × Verdict :=
  if name item ∈ items.map name then
    (items, .repeated)
  else if time item < newest time items item - window then
    (expire time (newest time items item - window) items, .late)
  else
    (latest ceiling (place time item (expire time (newest time items item - window) items)), .fresh)

/-- What every fold keeps: items in the order of their times, under names of their own, no more than
the ceiling. -/
structure Valid (ceiling : ℕ) (items : List α) : Prop where
  sorted : items.Pairwise fun earlier later => time earlier ≤ time later
  distinct : (items.map name).Nodup
  bounded : items.length ≤ ceiling

def Within (window : ℤ) (items : List α) : Prop :=
  ∀ earlier ∈ items, ∀ later ∈ items, time later - window ≤ time earlier

section Sorted

variable {time} {items : List α} {held : α} {cutoff : ℤ}
  (sorted : items.Pairwise fun earlier later => time earlier ≤ time later)

include sorted

theorem expire_eq_filter :
    expire time cutoff items = items.filter fun held => cutoff ≤ time held := by
  induction items with
  | nil => rfl
  | cons first rest ih =>
    obtain ⟨first_le, rest_sorted⟩ := List.pairwise_cons.mp sorted
    have tail_eq := ih rest_sorted
    simp only [expire] at tail_eq ⊢
    by_cases behind : time first < cutoff
    · rw [List.dropWhile_cons_of_pos (by simpa using behind), tail_eq,
        List.filter_cons_of_neg (by simpa using behind)]
    · rw [List.dropWhile_cons_of_neg (by simpa using behind), List.filter_eq_self.mpr]
      intro held held_mem
      have held_ge : time first ≤ time held := by
        rcases List.mem_cons.mp held_mem with rfl | rest_mem
        · exact le_rfl
        · exact first_le held rest_mem
      simp only [decide_eq_true_eq]
      omega

theorem mem_expire :
    held ∈ expire time cutoff items ↔ held ∈ items ∧ cutoff ≤ time held := by
  rw [expire_eq_filter sorted, List.mem_filter, decide_eq_true_eq]

theorem expire_eq_self (reached : ∀ held ∈ items, cutoff ≤ time held) :
    expire time cutoff items = items := by
  rw [expire_eq_filter sorted, List.filter_eq_self]
  simpa using reached

theorem le_newest (item : α) (held_mem : held ∈ items) : time held ≤ newest time items item := by
  obtain ⟨front, last, rfl⟩ :=
    (List.eq_nil_or_concat' items).resolve_left (List.ne_nil_of_mem held_mem)
  have held_le : time held ≤ time last := by
    rcases List.mem_append.mp held_mem with front_mem | last_mem
    · exact (List.pairwise_append.mp sorted).2.2 held front_mem last (List.mem_singleton_self last)
    · rw [List.mem_singleton.mp last_mem]
  simp only [newest, List.getLast?_append, List.getLast?_singleton, Option.some_or]
  omega

end Sorted

theorem expire_sublist (cutoff : ℤ) (items : List α) : (expire time cutoff items).Sublist items :=
  List.dropWhile_sublist _

theorem time_le_newest (items : List α) (item : α) : time item ≤ newest time items item := by
  unfold newest
  split
  · exact le_rfl
  · exact le_max_left _ _

theorem newest_attained (items : List α) (item : α) :
    newest time items item = time item ∨
      ∃ held ∈ items, newest time items item = time held := by
  unfold newest
  split
  · exact Or.inl rfl
  · rename_i last last_eq
    rcases le_total (time last) (time item) with item_later | last_later
    · exact Or.inl (max_eq_left item_later)
    · exact Or.inr ⟨last, List.mem_of_getLast? last_eq, max_eq_right last_later⟩

theorem place_perm (item : α) (items : List α) : (place time item items).Perm (item :: items) := by
  induction items with
  | nil => exact List.Perm.refl _
  | cons first rest ih =>
    simp only [place]
    split
    · exact List.Perm.refl _
    · exact (ih.cons first).trans (List.Perm.swap item first rest)

variable {item held : α} {items : List α}

theorem mem_place : held ∈ place time item items ↔ held = item ∨ held ∈ items := by
  rw [(place_perm time item items).mem_iff, List.mem_cons]

theorem length_place (item : α) (items : List α) :
    (place time item items).length = items.length + 1 := by
  rw [(place_perm time item items).length_eq, List.length_cons]

theorem place_sorted (item : α)
    (sorted : items.Pairwise fun earlier later => time earlier ≤ time later) :
    (place time item items).Pairwise fun earlier later => time earlier ≤ time later := by
  induction items with
  | nil => exact List.pairwise_singleton _ _
  | cons first rest ih =>
    obtain ⟨first_le, rest_sorted⟩ := List.pairwise_cons.mp sorted
    simp only [place]
    split
    · rename_i before
      refine List.pairwise_cons.mpr ⟨?_, sorted⟩
      intro held held_mem
      rcases List.mem_cons.mp held_mem with rfl | rest_mem
      · exact before.le
      · exact before.le.trans (first_le held rest_mem)
    · rename_i behind
      refine List.pairwise_cons.mpr ⟨?_, ih rest_sorted⟩
      intro held held_mem
      rcases (mem_place time).mp held_mem with rfl | rest_mem
      · exact not_lt.mp behind
      · exact first_le held rest_mem

/-- `sort.Search`: the first index below a bound where a question turns true, for a count of rounds.
-/
def search (turned : ℕ → Bool) : ℕ → ℕ → ℕ → ℕ
  | 0, low, _ => low
  | rounds + 1, low, high =>
    if low < high then
      if turned ((low + high) / 2) then
        search turned rounds low ((low + high) / 2)
      else
        search turned rounds ((low + high) / 2 + 1) high
    else
      low

def isLater (item : α) (items : List α) (index : ℕ) : Bool :=
  match items[index]? with
  | none => true
  | some held => time item < time held

theorem search_spec {turned : ℕ → Bool}
    (stays : ∀ index later, index ≤ later → turned index = true → turned later = true)
    {rounds low high : ℕ} (enough : high - low ≤ rounds) (ordered : low ≤ high)
    (before : ∀ index < low, turned index = false) (after : turned high = true) :
    search turned rounds low high ≤ high ∧
      (∀ index < search turned rounds low high, turned index = false) ∧
        turned (search turned rounds low high) = true := by
  induction rounds generalizing low high with
  | zero =>
    obtain rfl : low = high := by omega
    exact ⟨le_rfl, before, after⟩
  | succ rounds ih =>
    simp only [search]
    split
    · split
      · rename_i middle_turned
        obtain ⟨bounded, found⟩ := ih (by omega) (by omega) before middle_turned
        exact ⟨by omega, found⟩
      · rename_i middle_waits
        refine ih (by omega) (by omega) (fun index below => ?_) after
        cases waits : turned index with
        | false => rfl
        | true => exact absurd (stays index _ (by omega) waits) middle_waits
    · obtain rfl : low = high := by omega
      exact ⟨le_rfl, before, after⟩

private theorem insertIdx_eq_place {index : ℕ}
    (before : ∀ earlier < index, isLater time item items earlier = false)
    (after : isLater time item items index = true) (bounded : index ≤ items.length) :
    items.insertIdx index item = place time item items := by
  induction items generalizing index with
  | nil =>
    obtain rfl : index = 0 := by simpa using bounded
    rfl
  | cons first rest ih =>
    cases index with
    | zero =>
      have later : time item < time first := by simpa [isLater] using after
      rw [List.insertIdx_zero, place, if_pos later]
    | succ index =>
      have waits : ¬ time item < time first := by
        simpa [isLater] using before 0 (Nat.succ_pos index)
      rw [List.insertIdx_succ_cons, place, if_neg waits, ih]
      · exact fun earlier below => by
          simpa [isLater] using before (earlier + 1) (Nat.succ_lt_succ below)
      · simpa [isLater] using after
      · simpa using bounded

theorem insertIdx_search (sorted : items.Pairwise fun earlier later => time earlier ≤ time later) :
    items.insertIdx (search (isLater time item items) items.length 0 items.length) item =
      place time item items := by
  have stays : ∀ index later, index ≤ later → isLater time item items index = true →
      isLater time item items later = true := by
    intro index later ordered turned
    simp only [isLater] at turned ⊢
    cases later_eq : items[later]? with
    | none => rfl
    | some held =>
      obtain ⟨later_lt, rfl⟩ := List.getElem?_eq_some_iff.mp later_eq
      rw [List.getElem?_eq_getElem (ordered.trans_lt later_lt)] at turned
      have held_le : time items[index] ≤ time items[later] := by
        rcases ordered.eq_or_lt with rfl | strictly
        · exact le_rfl
        · exact List.pairwise_iff_getElem.mp sorted _ _ _ _ strictly
      simp only [decide_eq_true_eq] at turned ⊢
      omega
  have ends : isLater time item items items.length = true := by simp [isLater]
  obtain ⟨bounded, before, after⟩ := search_spec stays (Nat.sub_le _ _) (Nat.zero_le _)
    (fun index below => absurd below (Nat.not_lt_zero index)) ends
  exact insertIdx_eq_place time before after bounded

theorem place_eq_cons (before : ∀ held ∈ items, time item < time held) :
    place time item items = item :: items := by
  cases items with
  | nil => rfl
  | cons first rest => rw [place, if_pos (before first List.mem_cons_self)]

theorem latest_sublist (ceiling : ℕ) (items : List α) : (latest ceiling items).Sublist items :=
  List.drop_sublist _ _

theorem length_latest (ceiling : ℕ) (items : List α) :
    (latest ceiling items).length = min ceiling items.length := by
  rw [latest, List.length_drop]
  omega

variable {ceiling : ℕ}

theorem latest_eq_self (bounded : items.length ≤ ceiling) : latest ceiling items = items := by
  rw [latest, Nat.sub_eq_zero_of_le bounded, List.drop_zero]

theorem exists_latest_ge (room : 0 < ceiling)
    (sorted : items.Pairwise fun earlier later => time earlier ≤ time later)
    (held_mem : held ∈ items) : ∃ kept ∈ latest ceiling items, time held ≤ time kept := by
  rcases List.mem_append.mp ((List.take_append_drop (items.length - ceiling) items).symm ▸ held_mem)
    with dropped | kept
  · have nonempty : latest ceiling items ≠ [] := by
      apply List.ne_nil_of_length_pos
      rw [length_latest]
      exact lt_min room (List.length_pos_of_mem held_mem)
    obtain ⟨first, rest, latest_eq⟩ := List.exists_cons_of_ne_nil nonempty
    have first_mem : first ∈ latest ceiling items := latest_eq ▸ List.mem_cons_self
    rw [← List.take_append_drop (items.length - ceiling) items, List.pairwise_append] at sorted
    exact ⟨first, first_mem, sorted.2.2 held dropped first first_mem⟩
  · exact ⟨held, kept, le_rfl⟩

theorem latest_of_dropped (sorted : items.Pairwise fun earlier later => time earlier ≤ time later)
    (held_mem : held ∈ items) (dropped : held ∉ latest ceiling items) :
    (latest ceiling items).length = ceiling ∧
      ∀ kept ∈ latest ceiling items, time held ≤ time kept := by
  constructor
  · rw [length_latest]
    refine min_eq_left (le_of_not_gt fun short => dropped ?_)
    rwa [latest_eq_self short.le]
  · intro kept kept_mem
    rcases List.mem_append.mp
      ((List.take_append_drop (items.length - ceiling) items).symm ▸ held_mem) with front | back
    · rw [← List.take_append_drop (items.length - ceiling) items, List.pairwise_append] at sorted
      exact sorted.2.2 held front kept kept_mem
    · exact absurd back dropped

section Fold

variable {time name} {window : ℤ} {ceiling : ℕ} {items : List α} {item : α}

theorem fold_of_repeated (held : name item ∈ items.map name) :
    fold time name window ceiling items item = (items, .repeated) := by
  rw [fold, if_pos held]

theorem fold_of_late (unheld : name item ∉ items.map name)
    (late : time item < newest time items item - window) :
    fold time name window ceiling items item =
      (expire time (newest time items item - window) items, .late) := by
  rw [fold, if_neg unheld, if_pos late]

theorem fold_of_fresh (unheld : name item ∉ items.map name)
    (reached : newest time items item - window ≤ time item) :
    fold time name window ceiling items item =
      (latest ceiling (place time item (expire time (newest time items item - window) items)),
        .fresh) := by
  rw [fold, if_neg unheld, if_neg (not_lt.mpr reached)]

theorem fold_verdict :
    (fold time name window ceiling items item).2 =
      if name item ∈ items.map name then .repeated
      else if time item < newest time items item - window then .late else .fresh := by
  unfold fold
  split
  · rfl
  · split <;> rfl

theorem fold_repeated_iff :
    (fold time name window ceiling items item).2 = .repeated ↔ name item ∈ items.map name := by
  rw [fold_verdict]
  grind

theorem fold_late_iff :
    (fold time name window ceiling items item).2 = .late ↔
      name item ∉ items.map name ∧ time item < newest time items item - window := by
  rw [fold_verdict]
  grind

theorem fold_fresh_iff :
    (fold time name window ceiling items item).2 = .fresh ↔
      name item ∉ items.map name ∧ newest time items item - window ≤ time item := by
  rw [fold_verdict]
  grind

section

variable (valid : Valid time name ceiling items)

include valid

theorem mem_of_mem_fold {held : α}
    (held_mem : held ∈ (fold time name window ceiling items item).1) :
    held ∈ items ∨ held = item ∧ (fold time name window ceiling items item).2 = .fresh := by
  by_cases known : name item ∈ items.map name
  · rw [fold_of_repeated known] at held_mem
    exact Or.inl held_mem
  rcases lt_or_ge (time item) (newest time items item - window) with late | reached
  · rw [fold_of_late known late] at held_mem
    exact Or.inl ((mem_expire valid.sorted).mp held_mem).1
  · rw [fold_of_fresh known reached] at held_mem ⊢
    rcases (mem_place time).mp ((latest_sublist _ _).subset held_mem) with rfl | kept
    · exact Or.inr ⟨rfl, rfl⟩
    · exact Or.inl ((mem_expire valid.sorted).mp kept).1

theorem fold_valid :
    Valid time name ceiling (fold time name window ceiling items item).1 := by
  have expired_sublist :
      (expire time (newest time items item - window) items).Sublist items :=
    expire_sublist time _ _
  by_cases known : name item ∈ items.map name
  · rwa [fold_of_repeated known]
  rcases lt_or_ge (time item) (newest time items item - window) with late | reached
  · rw [fold_of_late known late]
    exact ⟨valid.sorted.sublist expired_sublist,
      valid.distinct.sublist (expired_sublist.map name),
      expired_sublist.length_le.trans valid.bounded⟩
  · rw [fold_of_fresh known reached]
    refine ⟨(place_sorted time item (valid.sorted.sublist expired_sublist)).sublist
      (latest_sublist _ _), ?_, ?_⟩
    · refine List.Nodup.sublist ((latest_sublist _ _).map name) ?_
      rw [((place_perm time item _).map name).nodup_iff, List.map_cons, List.nodup_cons]
      exact ⟨fun held => known ((expired_sublist.map name).subset held),
        valid.distinct.sublist (expired_sublist.map name)⟩
    · rw [length_latest]
      exact min_le_left _ _

theorem fold_within (within : Within time window items) :
    Within time window (fold time name window ceiling items item).1 := by
  by_cases known : name item ∈ items.map name
  · rwa [fold_of_repeated known]
  rcases lt_or_ge (time item) (newest time items item - window) with late | reached
  · rw [fold_of_late known late]
    intro earlier earlier_mem later later_mem
    exact within earlier ((mem_expire valid.sorted).mp earlier_mem).1
      later ((mem_expire valid.sorted).mp later_mem).1
  · rw [fold_of_fresh known reached]
    have lower : ∀ held ∈ place time item (expire time (newest time items item - window) items),
        newest time items item - window ≤ time held := by
      intro held held_mem
      rcases (mem_place time).mp held_mem with rfl | kept
      · exact reached
      · exact ((mem_expire valid.sorted).mp kept).2
    have upper : ∀ held ∈ place time item (expire time (newest time items item - window) items),
        time held ≤ newest time items item := by
      intro held held_mem
      rcases (mem_place time).mp held_mem with rfl | kept
      · exact time_le_newest time items held
      · exact le_newest valid.sorted item ((mem_expire valid.sorted).mp kept).1
    intro earlier earlier_mem later later_mem
    have := lower earlier ((latest_sublist _ _).subset earlier_mem)
    have := upper later ((latest_sublist _ _).subset later_mem)
    omega

theorem fold_eq_self_of_late (within : Within time window items) (nonneg : 0 ≤ window)
    (late : (fold time name window ceiling items item).2 = .late) :
    (fold time name window ceiling items item).1 = items := by
  obtain ⟨unheld, behind⟩ := fold_late_iff.mp late
  rw [fold_of_late unheld behind]
  refine expire_eq_self valid.sorted fun held held_mem => ?_
  rcases newest_attained time items item with own | ⟨last, last_mem, last_eq⟩
  · omega
  · rw [last_eq]
    exact within held held_mem last last_mem

theorem exists_fold_newest (nonneg : 0 ≤ window)
    (room : 0 < ceiling) (moved : (fold time name window ceiling items item).2 ≠ .repeated) :
    ∃ held ∈ (fold time name window ceiling items item).1,
      newest time items item ≤ time held := by
  have unheld : name item ∉ items.map name := fun known => moved (fold_repeated_iff.mpr known)
  rcases lt_or_ge (time item) (newest time items item - window) with late | reached
  · rw [fold_of_late unheld late]
    rcases newest_attained time items item with own | ⟨last, last_mem, last_eq⟩
    · omega
    · exact ⟨last, (mem_expire valid.sorted).mpr ⟨last_mem, by omega⟩, last_eq.le⟩
  · rw [fold_of_fresh unheld reached]
    have sorted := place_sorted time item
      (valid.sorted.sublist (expire_sublist time (newest time items item - window) items))
    rcases newest_attained time items item with own | ⟨last, last_mem, last_eq⟩
    · obtain ⟨kept, kept_mem, kept_ge⟩ :=
        exists_latest_ge time room sorted ((mem_place time).mpr (Or.inl rfl))
      exact ⟨kept, kept_mem, own.le.trans kept_ge⟩
    · have last_kept : last ∈ expire time (newest time items item - window) items :=
        (mem_expire valid.sorted).mpr ⟨last_mem, by omega⟩
      obtain ⟨kept, kept_mem, kept_ge⟩ :=
        exists_latest_ge time room sorted ((mem_place time).mpr (Or.inr last_kept))
      exact ⟨kept, kept_mem, last_eq.le.trans kept_ge⟩

theorem exists_fold_ge (nonneg : 0 ≤ window)
    (room : 0 < ceiling) {held : α} (held_mem : held ∈ items) :
    ∃ kept ∈ (fold time name window ceiling items item).1, time held ≤ time kept := by
  by_cases known : name item ∈ items.map name
  · rw [fold_of_repeated known]
    exact ⟨held, held_mem, le_rfl⟩
  · have moved : (fold time name window ceiling items item).2 ≠ .repeated :=
      fun same => known (fold_repeated_iff.mp same)
    obtain ⟨kept, kept_mem, newest_le⟩ := exists_fold_newest valid nonneg room moved
    exact ⟨kept, kept_mem, (le_newest valid.sorted item held_mem).trans newest_le⟩

theorem fold_of_dropped {held : α} (held_mem : held ∈ items ∨
      held = item ∧ (fold time name window ceiling items item).2 = .fresh)
    (dropped : held ∉ (fold time name window ceiling items item).1) :
    time held < newest time items item - window ∨
      (fold time name window ceiling items item).1.length = ceiling ∧
        ∀ kept ∈ (fold time name window ceiling items item).1, time held ≤ time kept := by
  by_cases known : name item ∈ items.map name
  · rcases held_mem with held_mem | ⟨-, fresh⟩
    · rw [fold_of_repeated known] at dropped
      exact absurd held_mem dropped
    · exact absurd known (fold_fresh_iff.mp fresh).1
  rcases lt_or_ge (time held) (newest time items item - window) with behind | held_reached
  · exact Or.inl behind
  rcases lt_or_ge (time item) (newest time items item - window) with late | reached
  · rw [fold_of_late known late] at dropped
    rcases held_mem with held_mem | ⟨rfl, -⟩
    · exact absurd ((mem_expire valid.sorted).mpr ⟨held_mem, held_reached⟩) dropped
    · omega
  · rw [fold_of_fresh known reached] at dropped ⊢
    refine Or.inr (latest_of_dropped time (place_sorted time item
      (valid.sorted.sublist (expire_sublist time _ _))) ((mem_place time).mpr ?_) dropped)
    rcases held_mem with held_mem | ⟨rfl, -⟩
    · exact Or.inr ((mem_expire valid.sorted).mpr ⟨held_mem, held_reached⟩)
    · exact Or.inl rfl

end


end Fold

theorem fold_of_close {window : ℤ}
    (sorted : items.Pairwise fun earlier later => time earlier ≤ time later)
    (unheld : name item ∉ items.map name)
    (close : ∀ one ∈ item :: items, ∀ other ∈ item :: items, time other - window ≤ time one)
    (room : items.length < ceiling) :
    fold time name window ceiling items item = (place time item items, .fresh) := by
  have reached : ∀ one ∈ item :: items, newest time items item - window ≤ time one := by
    intro one one_mem
    rcases newest_attained time items item with own | ⟨last, last_mem, last_eq⟩
    · rw [own]
      exact close one one_mem item List.mem_cons_self
    · rw [last_eq]
      exact close one one_mem last (List.mem_cons_of_mem item last_mem)
  rw [fold_of_fresh unheld (reached item List.mem_cons_self),
    expire_eq_self sorted fun held held_mem => reached held (List.mem_cons_of_mem item held_mem),
    latest_eq_self (by rw [length_place]; omega)]

theorem fold_fresh_congr {window : ℤ} {alike : α} (same_time : time item = time alike)
    (same_name : name item = name alike) :
    (fold time name window ceiling items item).2 = .fresh ↔
      (fold time name window ceiling items alike).2 = .fresh := by
  simp only [fold_fresh_iff, newest, same_time, same_name]

/-- What a window knows of the items that ever arrived under a name it did not hold: each is held,
behind the window, or gave way to as many later items as the ceiling admits. -/
structure Remembers (window : ℤ) (ceiling : ℕ) (folded items : List α) : Prop where
  valid : Valid time name ceiling items
  within : Within time window items
  held_folded : ∀ held ∈ items, held ∈ folded
  reached : ∀ past ∈ folded, ∃ held ∈ items, time past ≤ time held
  accounted : ∀ past ∈ folded,
    past ∈ items ∨ (∃ held ∈ items, time past < time held - window) ∨
      items.length = ceiling ∧ ∀ held ∈ items, time past ≤ time held

/-- The items that arrived so far, after one more arrival. -/
def foldedWith (window : ℤ) (ceiling : ℕ) (folded items : List α) (item : α) : List α :=
  if (fold time name window ceiling items item).2 = .repeated then folded else item :: folded

namespace Remembers

variable {time name} {window : ℤ} {ceiling : ℕ} {folded items : List α} {item : α}

omit [DecidableEq ν] in
theorem nil (window : ℤ) (ceiling : ℕ) : Remembers time name window ceiling [] [] where
  valid := ⟨List.Pairwise.nil, List.nodup_nil, Nat.zero_le _⟩
  within := by simp [Within]
  held_folded := by simp
  reached := by simp
  accounted := by simp

section

variable (memory : Remembers time name window ceiling folded items)

include memory

omit [DecidableEq ν] in
theorem late_iff (nonneg : 0 ≤ window) (past : α) :
    time past < newest time items past - window ↔
      ∃ held ∈ items, time past < time held - window := by
  constructor
  · intro behind
    rcases newest_attained time items past with own | ⟨last, last_mem, last_eq⟩
    · omega
    · exact ⟨last, last_mem, last_eq ▸ behind⟩
  · rintro ⟨held, held_mem, behind⟩
    have := le_newest memory.valid.sorted past held_mem
    omega

omit [DecidableEq ν] in
private theorem cons {held : α}
    (held_mem : held ∈ items) (behind : time item < time held - window) (nonneg : 0 ≤ window) :
    Remembers time name window ceiling (item :: folded) items where
  valid := memory.valid
  within := memory.within
  held_folded := fun other other_mem => List.mem_cons_of_mem _ (memory.held_folded other other_mem)
  reached := fun past past_mem => by
    rcases List.mem_cons.mp past_mem with rfl | before
    · exact ⟨held, held_mem, by omega⟩
    · exact memory.reached past before
  accounted := fun past past_mem => by
    rcases List.mem_cons.mp past_mem with rfl | before
    · exact Or.inr (Or.inl ⟨held, held_mem, behind⟩)
    · exact memory.accounted past before

variable {past : α}

private theorem displaced_step (nonneg : 0 ≤ window) (room : 0 < ceiling)
    (fresh : (fold time name window ceiling items item).2 = .fresh) (full : items.length = ceiling)
    (later : ∀ held ∈ items, time past ≤ time held) :
    (∃ held ∈ (fold time name window ceiling items item).1, time past < time held - window) ∨
      (fold time name window ceiling items item).1.length = ceiling ∧
        ∀ held ∈ (fold time name window ceiling items item).1, time past ≤ time held := by
  obtain ⟨unheld, reached⟩ := fold_fresh_iff.mp fresh
  by_cases expiring : ∃ held ∈ items, time held < newest time items item - window
  · obtain ⟨gone, gone_mem, gone_behind⟩ := expiring
    have moved : (fold time name window ceiling items item).2 ≠ .repeated := by
      rw [fresh]
      decide
    obtain ⟨kept, kept_mem, newest_le⟩ := exists_fold_newest memory.valid nonneg room moved
    have := later gone gone_mem
    exact Or.inl ⟨kept, kept_mem, by omega⟩
  · push Not at expiring
    have after_eq : (fold time name window ceiling items item).1 =
        latest ceiling (place time item items) := by
      rw [fold_of_fresh unheld reached, expire_eq_self memory.valid.sorted expiring]
    rw [after_eq]
    refine Or.inr ⟨by rw [length_latest, length_place]; omega, fun kept kept_mem => ?_⟩
    rcases (mem_place time).mp ((latest_sublist _ _).subset kept_mem) with rfl | held_mem
    · by_contra before
      have first : ∀ held ∈ items, time kept < time held := fun held held_mem =>
        (not_le.mp before).trans_le (later held held_mem)
      rw [place_eq_cons time first, latest, List.length_cons, full, Nat.add_sub_cancel_left,
        List.drop_one, List.tail_cons] at kept_mem
      exact unheld (List.mem_map_of_mem kept_mem)
    · exact later kept held_mem

theorem step (nonneg : 0 ≤ window) (room : 0 < ceiling) (item : α) :
    Remembers time name window ceiling
      (foldedWith time name window ceiling folded items item)
      (fold time name window ceiling items item).1 := by
  cases verdict_eq : (fold time name window ceiling items item).2 with
  | repeated =>
    rw [fold_of_repeated (fold_repeated_iff.mp verdict_eq)]
    simpa [foldedWith, verdict_eq] using memory
  | late =>
    obtain ⟨-, behind⟩ := fold_late_iff.mp verdict_eq
    obtain ⟨held, held_mem, item_behind⟩ := (memory.late_iff nonneg item).mp behind
    rw [fold_eq_self_of_late memory.valid memory.within nonneg verdict_eq, foldedWith,
      if_neg (by simp [verdict_eq])]
    exact memory.cons held_mem item_behind nonneg
  | fresh =>
    have moved : (fold time name window ceiling items item).2 ≠ .repeated := by
      rw [verdict_eq]
      decide
    obtain ⟨newest_kept, newest_mem, newest_le⟩ :=
      exists_fold_newest memory.valid nonneg room moved
    rw [foldedWith, if_neg moved]
    refine ⟨fold_valid memory.valid, fold_within memory.valid memory.within, ?_, ?_, ?_⟩
    · intro held held_mem
      rcases mem_of_mem_fold memory.valid held_mem with before | ⟨rfl, -⟩
      · exact List.mem_cons_of_mem _ (memory.held_folded held before)
      · exact List.mem_cons_self
    · intro past past_mem
      rcases List.mem_cons.mp past_mem with rfl | before
      · exact ⟨newest_kept, newest_mem, (time_le_newest time items past).trans newest_le⟩
      · obtain ⟨held, held_mem, past_le⟩ := memory.reached past before
        exact ⟨newest_kept, newest_mem,
          past_le.trans ((le_newest memory.valid.sorted item held_mem).trans newest_le)⟩
    · intro past past_mem
      by_cases kept : past ∈ (fold time name window ceiling items item).1
      · exact Or.inl kept
      refine Or.inr ?_
      have accounted : past ∈ items ∨ past = item →
          (∃ held ∈ (fold time name window ceiling items item).1,
              time past < time held - window) ∨
            (fold time name window ceiling items item).1.length = ceiling ∧
              ∀ held ∈ (fold time name window ceiling items item).1,
                time past ≤ time held := by
        intro source
        have source' := source.imp_right fun own => And.intro own verdict_eq
        rcases fold_of_dropped memory.valid source' kept with behind | displaced
        · exact Or.inl ⟨newest_kept, newest_mem, by omega⟩
        · exact Or.inr displaced
      rcases List.mem_cons.mp past_mem with own | before
      · exact accounted (Or.inr own)
      rcases memory.accounted past before with held | ⟨held, held_mem, behind⟩ | ⟨full, later⟩
      · exact accounted (Or.inl held)
      · obtain ⟨kept_later, kept_mem, held_le⟩ :=
          exists_fold_ge memory.valid nonneg room held_mem
        exact Or.inl ⟨kept_later, kept_mem, by omega⟩
      · exact displaced_step memory nonneg room verdict_eq full later

section

variable (nonneg : 0 ≤ window) (past_mem : past ∈ folded) (same_time : time item = time past)
  (same_name : name item = name past)
  (fresh : (fold time name window ceiling items item).2 = .fresh)

include nonneg past_mem same_time same_name fresh

theorem displaced_of_refolded :
    items.length = ceiling ∧ ∀ held ∈ items, time item ≤ time held := by
  obtain ⟨unheld, reached⟩ := fold_fresh_iff.mp ((fold_fresh_congr _ _ same_time same_name).mp fresh)
  rw [same_time]
  rcases memory.accounted past past_mem with held | behind | displaced
  · exact absurd (List.mem_map_of_mem held) unheld
  · exact absurd ((memory.late_iff nonneg past).mpr behind) (not_lt.mpr reached)
  · exact displaced

theorem length_of_refolded :
    (fold time name window ceiling items item).1.length = ceiling := by
  obtain ⟨full, later⟩ :=
    memory.displaced_of_refolded nonneg past_mem same_time same_name fresh
  obtain ⟨unheld, reached⟩ := fold_fresh_iff.mp fresh
  have nothing_expires : ∀ held ∈ items, newest time items item - window ≤ time held :=
    fun held held_mem => reached.trans (later held held_mem)
  rw [fold_of_fresh unheld reached, expire_eq_self memory.valid.sorted nothing_expires,
    length_latest, length_place]
  omega

end

/-- The names of the items no further than a window behind any other. -/
def liveNames (time : α → ℤ) (name : α → ν) (window : ℤ) (folded : List α) : Finset ν :=
  ((folded.filter fun past => ∀ other ∈ folded, time other - window ≤ time past).map name).toFinset

omit memory in
theorem mem_liveNames {window : ℤ} {folded : List α} {spoken : ν} :
    spoken ∈ liveNames time name window folded ↔
      ∃ past ∈ folded, (∀ other ∈ folded, time other - window ≤ time past) ∧ name past = spoken := by
  simp only [liveNames, List.mem_toFinset, List.mem_map, List.mem_filter, decide_eq_true_eq,
    and_assoc]

omit memory in
private theorem liveNames_subset {window : ℤ} {folded others : List α}
    (alike : ∀ item ∈ folded, ∃ other ∈ others, time item = time other ∧ name item = name other)
    (back : ∀ other ∈ others, ∃ item ∈ folded, time other = time item ∧ name other = name item) :
    liveNames time name window folded ⊆ liveNames time name window others := by
  intro spoken spoken_mem
  obtain ⟨past, past_mem, live, rfl⟩ := mem_liveNames.mp spoken_mem
  obtain ⟨other, other_mem, same_time, same_name⟩ := alike past past_mem
  refine mem_liveNames.mpr ⟨other, other_mem, fun later later_mem => ?_, same_name.symm⟩
  obtain ⟨item, item_mem, item_time, -⟩ := back later later_mem
  rw [item_time, ← same_time]
  exact live item item_mem

omit memory in
theorem liveNames_congr {window : ℤ} {folded others : List α}
    (alike : ∀ item ∈ folded, ∃ other ∈ others, time item = time other ∧ name item = name other)
    (back : ∀ other ∈ others, ∃ item ∈ folded, time other = time item ∧ name other = name item) :
    liveNames time name window folded = liveNames time name window others :=
  (liveNames_subset alike back).antisymm (liveNames_subset back alike)

omit memory in
theorem liveNames_cons {window : ℤ} {folded : List α} {item alike : α} (arrived : alike ∈ folded)
    (same_time : time item = time alike) (same_name : name item = name alike) :
    liveNames time name window (item :: folded) = liveNames time name window folded := by
  refine liveNames_congr (fun past past_mem => ?_) fun past past_mem =>
    ⟨past, List.mem_cons_of_mem item past_mem, rfl, rfl⟩
  rcases List.mem_cons.mp past_mem with rfl | before
  · exact ⟨alike, arrived, same_time, same_name⟩
  · exact ⟨past, before, rfl, rfl⟩

omit [DecidableEq ν] in
theorem live_iff (nonneg : 0 ≤ window) (past : α) :
    newest time items past - window ≤ time past ↔
      ∀ other ∈ folded, time other - window ≤ time past := by
  constructor
  · intro reached other other_mem
    obtain ⟨held, held_mem, other_le⟩ := memory.reached other other_mem
    have := le_newest memory.valid.sorted past held_mem
    omega
  · intro live
    by_contra behind
    obtain ⟨held, held_mem, held_ahead⟩ := (memory.late_iff nonneg past).mp (not_le.mp behind)
    have := live held (memory.held_folded held held_mem)
    omega

theorem held_subset_liveNames
    (nonneg : 0 ≤ window) : (items.map name).toFinset ⊆ liveNames time name window folded := by
  intro spoken spoken_mem
  obtain ⟨held, held_mem, rfl⟩ := List.mem_map.mp (List.mem_toFinset.mp spoken_mem)
  refine mem_liveNames.mpr ⟨held, memory.held_folded held held_mem, ?_, rfl⟩
  refine (memory.live_iff nonneg held).mp ?_
  rcases newest_attained time items held with own | ⟨last, last_mem, last_eq⟩
  · omega
  · rw [last_eq]
    exact memory.within held held_mem last last_mem

theorem card_held :
    (items.map name).toFinset.card = items.length := by
  rw [List.toFinset_card_of_nodup memory.valid.distinct, List.length_map]

theorem no_refold_iff (nonneg : 0 ≤ window) :
    (∀ past ∈ folded, (fold time name window ceiling items past).2 ≠ .fresh) ↔
      (liveNames time name window folded).card ≤ ceiling := by
  constructor
  · intro settled
    have live_held : liveNames time name window folded ⊆ (items.map name).toFinset := by
      intro spoken spoken_mem
      obtain ⟨past, past_mem, live, rfl⟩ := mem_liveNames.mp spoken_mem
      by_contra unheld
      exact settled past past_mem
        (fold_fresh_iff.mpr ⟨fun held => unheld (List.mem_toFinset.mpr held),
          (memory.live_iff nonneg past).mpr live⟩)
    calc
      (liveNames time name window folded).card ≤ (items.map name).toFinset.card :=
        Finset.card_le_card live_held
      _ = items.length := memory.card_held
      _ ≤ ceiling := memory.valid.bounded
  · intro room past past_mem fresh
    obtain ⟨full, later⟩ := memory.displaced_of_refolded nonneg past_mem rfl rfl fresh
    obtain ⟨unheld, reached⟩ := fold_fresh_iff.mp fresh
    have live : insert (name past) (items.map name).toFinset ⊆
        liveNames time name window folded :=
      Finset.insert_subset
        (mem_liveNames.mpr ⟨past, past_mem, (memory.live_iff nonneg past).mp reached, rfl⟩)
        (memory.held_subset_liveNames nonneg)
    have counted := Finset.card_le_card live
    rw [Finset.card_insert_of_notMem (fun held => unheld (List.mem_toFinset.mp held)),
      memory.card_held, full] at counted
    omega

end


end Remembers

end Seagull.SlidingWindow
