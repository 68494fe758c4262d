import Seagull.Foundation.SlidingWindow

/-!
# Windows that agree from an instant on

Two windows that were folded differently may still hold the same items from some instant on.  Folding
one item into both keeps that, and an item a whole window past the instant makes them one.
-/

namespace Seagull.SlidingWindow

variable {α ν : Type} (time : α → ℤ)

def since (cut : ℤ) (items : List α) : List α := items.filter fun held => cut ≤ time held

section Since

variable {time} {cut : ℤ} {items : List α}

theorem mem_since {held : α} : held ∈ since time cut items ↔ held ∈ items ∧ cut ≤ time held := by
  simp [since]

theorem since_cons_of_le {first : α} (kept : cut ≤ time first) :
    since time cut (first :: items) = first :: since time cut items :=
  List.filter_cons_of_pos (by simpa using kept)

theorem since_cons_of_lt {first : α} (behind : time first < cut) :
    since time cut (first :: items) = since time cut items :=
  List.filter_cons_of_neg (by simpa using behind)

theorem since_eq_nil (behind : ∀ held ∈ items, time held < cut) : since time cut items = [] := by
  rw [since, List.filter_eq_nil_iff]
  simpa using behind

section

variable (sorted : items.Pairwise fun earlier later => time earlier ≤ time later)

include sorted

theorem since_expire {cutoff : ℤ} :
    since time cut (expire time cutoff items) = since time cutoff (since time cut items) := by
  rw [expire_eq_filter sorted, since, since, since, List.filter_filter, List.filter_filter]
  simp only [Bool.and_comm]

omit sorted in
theorem since_place_of_lt {item : α} (behind : time item < cut) :
    since time cut (place time item items) = since time cut items := by
  induction items with
  | nil => exact since_cons_of_lt behind
  | cons first rest ih =>
    rw [place]
    split
    · exact since_cons_of_lt behind
    · rcases lt_or_ge (time first) cut with dropped | kept
      · rw [since_cons_of_lt dropped, since_cons_of_lt dropped, ih]
      · rw [since_cons_of_le kept, since_cons_of_le kept, ih]

theorem since_place_of_le {item : α} (reached : cut ≤ time item) :
    since time cut (place time item items) = place time item (since time cut items) := by
  induction items with
  | nil => exact since_cons_of_le reached
  | cons first rest ih =>
    obtain ⟨first_le, rest_sorted⟩ := List.pairwise_cons.mp sorted
    rcases lt_or_ge (time item) (time first) with before | behind
    · have all_later : ∀ held ∈ first :: rest, time item < time held := by
        intro held held_mem
        rcases List.mem_cons.mp held_mem with rfl | later
        · exact before
        · exact before.trans_le (first_le held later)
      rw [place_eq_cons time all_later, since_cons_of_le reached, place_eq_cons time]
      exact fun held held_mem => all_later held (mem_since.mp held_mem).1
    · rw [place, if_neg (not_lt.mpr behind)]
      rcases lt_or_ge (time first) cut with dropped | kept
      · rw [since_cons_of_lt dropped, since_cons_of_lt dropped, ih rest_sorted]
      · rw [since_cons_of_le kept, since_cons_of_le kept, ih rest_sorted, place,
          if_neg (not_lt.mpr behind)]

theorem since_sorted :
    (since time cut items).Pairwise fun earlier later => time earlier ≤ time later :=
  sorted.sublist List.filter_sublist

theorem newest_since {item : α} (reached : cut ≤ time item) :
    newest time (since time cut items) item = newest time items item := by
  apply le_antisymm
  · rcases newest_attained time (since time cut items) item with own | ⟨held, held_mem, held_eq⟩
    · exact own.le.trans (time_le_newest time items item)
    · exact held_eq.le.trans (le_newest sorted item (mem_since.mp held_mem).1)
  · have item_le := time_le_newest time items item
    rcases newest_attained time items item with own | ⟨held, held_mem, held_eq⟩
    · exact own.le.trans (time_le_newest time _ item)
    · exact held_eq.le.trans
        (le_newest (since_sorted sorted) item (mem_since.mpr ⟨held_mem, by omega⟩))

end

end Since

section Fold

variable {time} [DecidableEq ν] {name : α → ν} {cut window : ℤ} {ceiling : ℕ} {items : List α}
  {item : α}

section

variable (unfilled : (fold time name window ceiling items item).1.length < ceiling)

include unfilled

theorem fold_of_unfilled (unheld : name item ∉ items.map name)
    (reached : newest time items item - window ≤ time item) :
    (place time item (expire time (newest time items item - window) items)).length < ceiling ∧
      fold time name window ceiling items item =
        (place time item (expire time (newest time items item - window) items), .fresh) := by
  rw [fold_of_fresh unheld reached, length_latest] at unfilled
  have short := (min_lt_iff.mp unfilled).resolve_left (lt_irrefl ceiling)
  exact ⟨short, by rw [fold_of_fresh unheld reached, latest_eq_self short.le]⟩

theorem since_fold_of_lt (valid : Valid time name ceiling items)
    (within : Within time window items) (behind : time item < cut) :
    since time cut (fold time name window ceiling items item).1 = since time cut items := by
  have expired : since time cut (expire time (newest time items item - window) items) =
      since time cut items := by
    rw [since_expire valid.sorted, since, List.filter_eq_self]
    intro held held_mem
    obtain ⟨held_mem, kept⟩ := mem_since.mp held_mem
    have held_le := le_newest valid.sorted item held_mem
    rcases newest_attained time items item with own | ⟨last, last_mem, last_eq⟩
    · omega
    · simpa [last_eq] using within held held_mem last last_mem
  by_cases known : name item ∈ items.map name
  · rw [fold_of_repeated known]
  rcases lt_or_ge (time item) (newest time items item - window) with late | reached
  · rw [fold_of_late known late, expired]
  · rw [(fold_of_unfilled unfilled known reached).2, since_place_of_lt behind, expired]

theorem fold_since (valid : Valid time name ceiling items) (reached : cut ≤ time item)
    (named : ∀ held ∈ items, name held = name item → time held = time item) :
    fold time name window ceiling (since time cut items) item =
      (since time cut (fold time name window ceiling items item).1,
        (fold time name window ceiling items item).2) := by
  have newest_eq := newest_since valid.sorted reached
  have expired : expire time (newest time items item - window) (since time cut items) =
      since time cut (expire time (newest time items item - window) items) := by
    rw [expire_eq_filter (since_sorted valid.sorted), since_expire valid.sorted]
    rfl
  by_cases known : name item ∈ items.map name
  · obtain ⟨held, held_mem, held_name⟩ := List.mem_map.mp known
    have kept : held ∈ since time cut items :=
      mem_since.mpr ⟨held_mem, by rw [named held held_mem held_name]; exact reached⟩
    rw [fold_of_repeated known, fold_of_repeated (List.mem_map.mpr ⟨held, kept, held_name⟩)]
  have unheld : name item ∉ (since time cut items).map name := fun held =>
    known ((List.filter_sublist.map name).subset held)
  rcases lt_or_ge (time item) (newest time items item - window) with late | on_time
  · rw [fold_of_late known late, fold_of_late unheld (by rwa [newest_eq]), newest_eq, expired]
  · obtain ⟨short, folded⟩ := fold_of_unfilled unfilled known on_time
    have placed := since_place_of_le
      (valid.sorted.sublist (expire_sublist time (newest time items item - window) items)) reached
    have shorter : (place time item
        (since time cut (expire time (newest time items item - window) items))).length ≤
        (place time item (expire time (newest time items item - window) items)).length := by
      rw [← placed]
      exact List.filter_sublist.length_le
    rw [folded, fold_of_fresh unheld (by rwa [newest_eq]), newest_eq, expired, placed,
      latest_eq_self (shorter.trans short.le)]

end

theorem since_fold_eq_self (valid : Valid time name ceiling items) (past : cut + window ≤ time item)
    (fresh : (fold time name window ceiling items item).2 = .fresh) (nonneg : 0 ≤ window) :
    since time cut (fold time name window ceiling items item).1 =
      (fold time name window ceiling items item).1 := by
  obtain ⟨unheld, reached⟩ := fold_fresh_iff.mp fresh
  have item_le := time_le_newest time items item
  rw [fold_of_fresh unheld reached, since, List.filter_eq_self]
  intro held held_mem
  rw [decide_eq_true_eq]
  rcases (mem_place time).mp ((latest_sublist _ _).subset held_mem) with rfl | kept
  · omega
  · have := ((mem_expire valid.sorted).mp kept).2
    omega

section Alike

variable {ours theirs : List α} (our_valid : Valid time name ceiling ours)
  (their_valid : Valid time name ceiling theirs)
  (our_room : (fold time name window ceiling ours item).1.length < ceiling)
  (their_room : (fold time name window ceiling theirs item).1.length < ceiling)
  (named : ∀ held ∈ ours ++ theirs, name held = name item → time held = time item)
  (alike : since time cut ours = since time cut theirs)

include our_valid their_valid our_room their_room named alike

theorem since_fold_congr (our_within : Within time window ours)
    (their_within : Within time window theirs) :
    since time cut (fold time name window ceiling ours item).1 =
      since time cut (fold time name window ceiling theirs item).1 := by
  rcases lt_or_ge (time item) cut with behind | reached
  · rw [since_fold_of_lt our_room our_valid our_within behind,
      since_fold_of_lt their_room their_valid their_within behind, alike]
  · have our_fold := fold_since our_room our_valid reached
      fun held held_mem => named held (List.mem_append_left theirs held_mem)
    have their_fold := fold_since their_room their_valid reached
      fun held held_mem => named held (List.mem_append_right ours held_mem)
    rw [alike, their_fold] at our_fold
    exact (congrArg Prod.fst our_fold).symm

theorem fold_congr_of_past (past : cut + window ≤ time item) (nonneg : 0 ≤ window) :
    (fold time name window ceiling ours item).2 = (fold time name window ceiling theirs item).2 ∧
      ((fold time name window ceiling ours item).2 = .fresh →
        (fold time name window ceiling ours item).1 =
          (fold time name window ceiling theirs item).1) := by
  have our_fold := fold_since our_room our_valid (show cut ≤ time item by omega)
    fun held held_mem => named held (List.mem_append_left theirs held_mem)
  have their_fold := fold_since their_room their_valid (show cut ≤ time item by omega)
    fun held held_mem => named held (List.mem_append_right ours held_mem)
  rw [alike, their_fold, Prod.mk.injEq] at our_fold
  refine ⟨our_fold.2.symm, fun fresh => ?_⟩
  rw [← since_fold_eq_self our_valid past fresh nonneg, ← our_fold.1,
    since_fold_eq_self their_valid past (our_fold.2.trans fresh) nonneg]

end Alike

theorem fold_ne_fresh_of_passed (valid : Valid time name ceiling items) {held : α}
    (held_mem : held ∈ items) (passed : time item + window < time held) :
    (fold time name window ceiling items item).2 ≠ .fresh := by
  intro fresh
  have := (fold_fresh_iff.mp fresh).2
  have := le_newest valid.sorted item held_mem
  omega

end Fold

end Seagull.SlidingWindow
