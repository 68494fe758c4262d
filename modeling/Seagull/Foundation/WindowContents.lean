import Seagull.Foundation.SlidingWindow

/-!
# What a window holds in the end

A window forgets at every fold, yet what it holds in the end is the latest of the items that are
live among all that arrived.  When a name stands for one item, neither the order nor the repetitions
of the arrivals leave a trace in it.
-/

namespace Seagull.SlidingWindow

variable {α ν : Type} [DecidableEq α] [DecidableEq ν] {time : α → ℤ} {name : α → ν}
variable {window : ℤ} {ceiling : ℕ}

def foldAll (time : α → ℤ) (name : α → ν) (window : ℤ) (ceiling : ℕ) (items arrivals : List α) :
    List α :=
  arrivals.foldl (fun items item => (fold time name window ceiling items item).1) items

def live (time : α → ℤ) (window : ℤ) (arrived : Finset α) : Finset α :=
  arrived.filter fun item => ∀ other ∈ arrived, time other - window ≤ time item

def timesOf (time : α → ℤ) (items : Finset α) : List ℤ :=
  (items.val.map time).sort (· ≤ ·)

omit [DecidableEq α] in
@[simp]
theorem length_timesOf (items : Finset α) : (timesOf time items).length = items.card := by
  simp [timesOf]

theorem timesOf_eq_append {items : List α} {among : Finset α}
    (sorted : items.Pairwise fun earlier later => time earlier ≤ time later)
    (distinct : items.Nodup) (among_of_mem : ∀ held ∈ items, held ∈ among)
    (rest_le : ∀ past ∈ among, past ∉ items → ∀ held ∈ items, time past ≤ time held) :
    timesOf time among = timesOf time (among \ items.toFinset) ++ items.map time := by
  have among_eq : among.val = (among \ items.toFinset).val + (items : Multiset α) := by
    have held_sub : items.toFinset ⊆ among :=
      fun held held_mem => among_of_mem held (List.mem_toFinset.mp held_mem)
    have held_val : items.toFinset.val = (items : Multiset α) := by
      rw [List.toFinset_val, List.dedup_eq_self.mpr distinct]
    rw [← held_val, Finset.sdiff_val, Multiset.sub_add_cancel (Finset.val_le_iff.mpr held_sub)]
  refine List.Perm.eq_of_pairwise' (r := (· ≤ ·)) (Multiset.pairwise_sort _ _) ?_ ?_
  · refine List.pairwise_append.mpr
      ⟨Multiset.pairwise_sort _ _, List.pairwise_map.mpr sorted, ?_⟩
    intro early early_mem late late_mem
    obtain ⟨past, past_mem, rfl⟩ := Multiset.mem_map.mp ((Multiset.mem_sort _).mp early_mem)
    obtain ⟨held, held_mem, rfl⟩ := List.mem_map.mp late_mem
    obtain ⟨past_among, unheld⟩ := Finset.mem_sdiff.mp past_mem
    exact rest_le past past_among (fun past_held => unheld (List.mem_toFinset.mpr past_held))
      held held_mem
  · rw [← Multiset.coe_eq_coe, ← Multiset.coe_add]
    simp only [timesOf, Multiset.sort_eq]
    rw [among_eq, Multiset.map_add, Multiset.map_coe]

namespace Remembers

variable {folded items : List α}

section

variable (memory : Remembers time name window ceiling folded items)

include memory

omit [DecidableEq α] [DecidableEq ν] in
theorem nodup : items.Nodup :=
  memory.valid.distinct.of_map name

omit [DecidableEq ν] in
theorem mem_live {held : α}
    (held_mem : held ∈ items) : held ∈ live time window folded.toFinset := by
  refine Finset.mem_filter.mpr ⟨List.mem_toFinset.mpr (memory.held_folded held held_mem), ?_⟩
  intro other other_mem
  obtain ⟨later, later_mem, other_le⟩ := memory.reached other (List.mem_toFinset.mp other_mem)
  have := memory.within held held_mem later later_mem
  omega

omit [DecidableEq ν] in
theorem displaced {past : α}
    (past_live : past ∈ live time window folded.toFinset) (unheld : past ∉ items) :
    items.length = ceiling ∧ ∀ held ∈ items, time past ≤ time held := by
  obtain ⟨past_mem, reaches⟩ := Finset.mem_filter.mp past_live
  rcases memory.accounted past (List.mem_toFinset.mp past_mem) with
    past_held | ⟨held, held_mem, behind⟩ | gave_way
  · exact absurd past_held unheld
  · have := reaches held (List.mem_toFinset.mpr (memory.held_folded held held_mem))
    omega
  · exact gave_way

omit [DecidableEq ν] in
theorem times_eq :
    items.map time = latest ceiling (timesOf time (live time window folded.toFinset)) := by
  have append_eq := timesOf_eq_append memory.valid.sorted memory.nodup
    (fun held held_mem => memory.mem_live held_mem)
    (fun past past_live unheld => (memory.displaced past_live unheld).2)
  set gone := live time window folded.toFinset \ items.toFinset with gone_eq
  have dropped : gone.card + items.length - ceiling = gone.card := by
    rcases gone.eq_empty_or_nonempty with none_gone | ⟨past, past_mem⟩
    · have := memory.valid.bounded
      rw [none_gone, Finset.card_empty]
      omega
    · obtain ⟨past_live, unheld⟩ := Finset.mem_sdiff.mp (gone_eq ▸ past_mem)
      have full := (memory.displaced past_live fun held => unheld (List.mem_toFinset.mpr held)).1
      omega
  rw [append_eq, latest, List.length_append, length_timesOf, List.length_map, dropped]
  exact (List.drop_left' (length_timesOf gone)).symm

omit [DecidableEq ν] in
theorem items_eq_live (below : (live time window folded.toFinset).card ≤ ceiling) :
    items.toFinset = live time window folded.toFinset := by
  refine Finset.eq_of_subset_of_card_le
    (fun held held_mem => memory.mem_live (List.mem_toFinset.mp held_mem)) ?_
  rw [List.toFinset_card_of_nodup memory.nodup, ← List.length_map time, memory.times_eq,
    latest_eq_self (by rwa [length_timesOf]), length_timesOf]

omit [DecidableEq ν] in
theorem items_perm {others kept : List α} (other : Remembers time name window ceiling others kept)
    (same : folded.toFinset = others.toFinset)
    (apart : Set.InjOn time folded.toFinset ∨ (live time window folded.toFinset).card ≤ ceiling) :
    items.Perm kept := by
  refine (List.perm_ext_iff_of_nodup memory.nodup other.nodup).mpr fun held => ?_
  rcases apart with apart | below
  · -- An item is found again in the other window by its time.
    have times_eq : items.map time = kept.map time := by
      rw [memory.times_eq, other.times_eq, same]
    have found : ∀ {ours theirs : List α}, ours.map time = theirs.map time →
        (∀ one ∈ ours, one ∈ folded.toFinset) → (∀ one ∈ theirs, one ∈ folded.toFinset) →
          held ∈ ours → held ∈ theirs := by
      intro ours theirs agree ours_mem theirs_mem held_mem
      obtain ⟨twin, twin_mem, twin_time⟩ :=
        List.mem_map.mp (agree ▸ List.mem_map_of_mem held_mem : time held ∈ theirs.map time)
      rwa [← apart (theirs_mem twin twin_mem) (ours_mem held held_mem) twin_time]
    have items_mem : ∀ one ∈ items, one ∈ folded.toFinset :=
      fun one one_mem => List.mem_toFinset.mpr (memory.held_folded one one_mem)
    have kept_mem : ∀ one ∈ kept, one ∈ folded.toFinset :=
      fun one one_mem => same ▸ List.mem_toFinset.mpr (other.held_folded one one_mem)
    exact ⟨found times_eq items_mem kept_mem, found times_eq.symm kept_mem items_mem⟩
  · rw [← List.mem_toFinset, memory.items_eq_live below, same,
      ← other.items_eq_live (same ▸ below), List.mem_toFinset]

theorem foldedWith_eq (item : α) (named : Set.InjOn name {one | one ∈ item :: folded}) :
    (foldedWith time name window ceiling folded items item).toFinset =
      insert item folded.toFinset := by
  unfold foldedWith
  split
  · rename_i repeated
    obtain ⟨held, held_mem, same_name⟩ := List.mem_map.mp (fold_repeated_iff.mp repeated)
    have held_folded := memory.held_folded held held_mem
    have same : held = item :=
      named (List.mem_cons_of_mem item held_folded) List.mem_cons_self same_name
    rw [Finset.insert_eq_of_mem (List.mem_toFinset.mpr (same ▸ held_folded))]
  · rw [List.toFinset_cons]

theorem foldAll (nonneg : 0 ≤ window) (room : 0 < ceiling) (arrivals : List α)
    (named : Set.InjOn name {one | one ∈ folded ∨ one ∈ arrivals}) :
    ∃ reached, reached.toFinset = folded.toFinset ∪ arrivals.toFinset ∧
      Remembers time name window ceiling reached
        (foldAll time name window ceiling items arrivals) := by
  induction arrivals generalizing folded items with
  | nil => exact ⟨folded, by simp, memory⟩
  | cons item rest ih =>
    have added := memory.foldedWith_eq item (named.mono fun one one_mem =>
      (List.mem_cons.mp one_mem).elim (fun same => Or.inr (same ▸ List.mem_cons_self)) Or.inl)
    have member : ∀ one, one ∈ foldedWith time name window ceiling folded items item ↔
        one = item ∨ one ∈ folded := by
      intro one
      rw [← List.mem_toFinset, added, Finset.mem_insert, List.mem_toFinset]
    obtain ⟨reached, reached_eq, remembers⟩ := ih (memory.step nonneg room item)
      (named.mono fun one one_mem => by
        simp only [Set.mem_ofPred_eq, member, List.mem_cons] at one_mem ⊢
        tauto)
    refine ⟨reached, ?_, remembers⟩
    rw [reached_eq, added, List.toFinset_cons, Finset.insert_union, Finset.union_insert]

end


end Remembers

omit [DecidableEq α] in
theorem foldAll_of_shut (shut : window < 0 ∨ ceiling = 0) (arrivals : List α) :
    foldAll time name window ceiling [] arrivals = [] := by
  have fold_nil : ∀ item, (fold time name window ceiling [] item).1 = [] := by
    intro item
    rcases shut with short | rfl
    · rw [fold_of_late (by simp) (by simp only [newest, List.getLast?_nil]; omega)]
      rfl
    · simp only [fold, List.map_nil, List.not_mem_nil, if_false]
      split <;> simp [expire, latest]
  induction arrivals with
  | nil => rfl
  | cons item rest ih => rw [foldAll, List.foldl_cons, fold_nil item]; exact ih

omit [DecidableEq α] in
theorem latest_live_of_shut (shut : window < 0 ∨ ceiling = 0) (arrived : Finset α) :
    latest ceiling (timesOf time (live time window arrived)) = [] := by
  rcases shut with short | rfl
  · have none_live : live time window arrived = ∅ := by
      refine Finset.filter_eq_empty_iff.mpr fun {item} item_mem reaches => ?_
      have := reaches item item_mem
      omega
    simp [none_live, timesOf, latest]
  · simp [latest]

theorem foldAll_times (window : ℤ) (ceiling : ℕ) {arrivals : List α}
    (named : Set.InjOn name {one | one ∈ arrivals}) :
    (foldAll time name window ceiling [] arrivals).map time =
      latest ceiling (timesOf time (live time window arrivals.toFinset)) := by
  by_cases shut : window < 0 ∨ ceiling = 0
  · rw [foldAll_of_shut shut, latest_live_of_shut shut, List.map_nil]
  · rw [not_or, not_lt, ← Ne, ← Nat.pos_iff_ne_zero] at shut
    have start : Remembers time name window ceiling [] [] := .nil window ceiling
    obtain ⟨reached, reached_eq, memory⟩ :=
      start.foldAll shut.1 shut.2 arrivals (by simpa using named)
    rw [memory.times_eq, reached_eq, List.toFinset_nil, Finset.empty_union]

theorem foldAll_perm {arrivals others : List α} (named : Set.InjOn name {one | one ∈ arrivals})
    (same : arrivals.toFinset = others.toFinset)
    (apart : Set.InjOn time arrivals.toFinset ∨
      (live time window arrivals.toFinset).card ≤ ceiling) :
    (foldAll time name window ceiling [] arrivals).Perm
      (foldAll time name window ceiling [] others) := by
  by_cases shut : window < 0 ∨ ceiling = 0
  · rw [foldAll_of_shut shut, foldAll_of_shut shut]
  · rw [not_or, not_lt, ← Ne, ← Nat.pos_iff_ne_zero] at shut
    have named_others : Set.InjOn name {one | one ∈ others} :=
      named.mono fun one one_mem => List.mem_toFinset.mp (same ▸ List.mem_toFinset.mpr one_mem)
    have start : Remembers time name window ceiling [] [] := .nil window ceiling
    obtain ⟨reached, reached_eq, memory⟩ :=
      start.foldAll shut.1 shut.2 arrivals (by simpa using named)
    obtain ⟨touched, touched_eq, other⟩ :=
      start.foldAll shut.1 shut.2 others (by simpa using named_others)
    rw [List.toFinset_nil, Finset.empty_union] at reached_eq touched_eq
    exact memory.items_perm other (by rw [reached_eq, touched_eq, same])
      (by rwa [reached_eq])

end Seagull.SlidingWindow
