import Seagull.Foundation.CompactedLog

/-!
# Admission in order

Items are read off a log one after another, and each is admitted unless one admitted before it
blocks it.  A reader that admits some items ahead of their turn ends with the same ones if nothing
between its place and theirs blocks them.
-/

namespace Seagull.Admission

variable {α : Type} (blocks : α → α → Prop) [DecidableRel blocks]

def accept (held : List α) (item : α) : List α :=
  if ∃ earlier ∈ held, blocks earlier item then held else held ++ [item]

/-- What a place of a log adds to the items admitted before. -/
def consider (held : List α) : Option α → List α
  | none => held
  | some item => accept blocks held item

def settle (log : List (Option α)) : List α := log.foldl (consider blocks) []

variable {blocks}

variable (blocks) in
theorem consider_cases (held : List α) (place : Option α) :
    consider blocks held place = held ∨ ∃ item, place = some item ∧
      (∀ earlier ∈ held, ¬ blocks earlier item) ∧ consider blocks held place = held ++ [item] := by
  cases place with
  | none => exact .inl rfl
  | some item =>
    by_cases blocked : ∃ earlier ∈ held, blocks earlier item
    · exact .inl (if_pos blocked)
    · refine .inr ⟨item, rfl, fun earlier member blocking => ?_, if_neg blocked⟩
      exact blocked ⟨earlier, member, blocking⟩

theorem mem_accept {held : List α} {item other : α} :
    other ∈ accept blocks held item ↔
      other ∈ held ∨ (other = item ∧ ∀ earlier ∈ held, ¬ blocks earlier item) := by
  by_cases blocked : ∃ earlier ∈ held, blocks earlier item
  · obtain ⟨earlier, member, blocks_it⟩ := blocked
    rw [accept, if_pos ⟨earlier, member, blocks_it⟩]
    refine (or_iff_left ?_).symm
    rintro ⟨-, unblocked⟩
    exact unblocked earlier member blocks_it
  · rw [accept, if_neg blocked, List.mem_append, List.mem_singleton]
    push Not at blocked
    exact or_congr_right (and_iff_left blocked).symm

theorem mem_consider {held : List α} {place : Option α} {other : α} :
    other ∈ consider blocks held place ↔
      other ∈ held ∨ (place = some other ∧ ∀ earlier ∈ held, ¬ blocks earlier other) := by
  cases place with
  | none => simp [consider]
  | some item =>
    rw [consider, mem_accept, Option.some.injEq, eq_comm (a := item)]
    exact or_congr_right (and_congr_right fun same => by rw [same])

theorem settle_concat (log : List (Option α)) (place : Option α) :
    settle blocks (log ++ [place]) = consider blocks (settle blocks log) place := by
  rw [settle, List.foldl_append]
  rfl

theorem settle_take_succ {log : List (Option α)} {index : ℕ} {place : Option α}
    (found : log[index]? = some place) :
    settle blocks (log.take (index + 1)) =
      consider blocks (settle blocks (log.take index)) place := by
  rw [List.take_add_one, found, Option.toList_some, settle_concat]

theorem settle_sublist (log : List (Option α)) : ((settle blocks log).map some).Sublist log := by
  induction log using List.reverseRecOn with
  | nil => exact List.Sublist.refl []
  | append_singleton log place ih =>
    rw [settle_concat]
    rcases consider_cases blocks (settle blocks log) place with same | ⟨item, rfl, -, added⟩
    · rw [same]
      exact ih.trans (List.sublist_append_left log [place])
    · rw [added, List.map_append]
      exact ih.append (List.Sublist.refl [some item])

theorem mem_of_mem_settle {log : List (Option α)} {item : α} (admitted : item ∈ settle blocks log) :
    some item ∈ log :=
  (settle_sublist log).subset (List.mem_map_of_mem admitted)

theorem settle_pairwise (log : List (Option α)) :
    (settle blocks log).Pairwise fun earlier later => ¬ blocks earlier later := by
  induction log using List.reverseRecOn with
  | nil => exact List.Pairwise.nil
  | append_singleton log place ih =>
    rw [settle_concat]
    rcases consider_cases blocks (settle blocks log) place with same | ⟨item, -, unblocked, added⟩
    · rwa [same]
    · rw [added]
      refine List.pairwise_append.mpr ⟨ih, List.pairwise_singleton _ _, ?_⟩
      intro earlier member later later_mem
      rw [List.mem_singleton.mp later_mem]
      exact unblocked earlier member

theorem exists_blocking (reflexive : ∀ item, blocks item item) {log : List (Option α)} {item : α}
    (member : some item ∈ log) : ∃ admitted ∈ settle blocks log, blocks admitted item := by
  induction log using List.reverseRecOn with
  | nil => cases member
  | append_singleton log place ih =>
    rw [settle_concat]
    rcases List.mem_append.mp member with before | here
    · obtain ⟨admitted, admitted_mem, blocking⟩ := ih before
      exact ⟨admitted, mem_consider.mpr (.inl admitted_mem), blocking⟩
    · rw [List.mem_singleton] at here
      subst here
      by_cases blocked : ∃ earlier ∈ settle blocks log, blocks earlier item
      · obtain ⟨earlier, earlier_mem, blocking⟩ := blocked
        exact ⟨earlier, mem_consider.mpr (.inl earlier_mem), blocking⟩
      · push Not at blocked
        exact ⟨item, mem_consider.mpr (.inr ⟨rfl, blocked⟩), reflexive item⟩

theorem settle_map {β : Type} (carried : β → α) (log : List (Option β)) :
    settle blocks (log.map (Option.map carried)) =
      (settle (fun one other => blocks (carried one) (carried other)) log).map carried := by
  induction log using List.reverseRecOn with
  | nil => rfl
  | append_singleton log place ih =>
    rw [List.map_append, List.map_singleton, settle_concat, settle_concat, ih]
    cases place with
    | none => rfl
    | some item =>
      simp only [Option.map_some, consider, accept, List.mem_map, exists_exists_and_eq_and]
      split
      · rfl
      · rw [List.map_append, List.map_singleton]

/-! ## Readers that run ahead -/

variable (blocks) in
/-- A reader of the first places of a log, which has also admitted items further on.  None of those
is blocked by what the log admits up to the reader, or by an item in between. -/
structure Ahead (log : List (Option α)) (applied : ℕ) (held : List α) (early : Set ℕ) : Prop where
  held_iff : ∀ item, item ∈ held ↔
    item ∈ settle blocks (log.take applied) ∨ ∃ index ∈ early, log[index]? = some (some item)
  later : ∀ index ∈ early, applied ≤ index
  unblocked : ∀ index ∈ early, ∃ item, log[index]? = some (some item) ∧
    (∀ earlier ∈ settle blocks (log.take applied), ¬ blocks earlier item) ∧
    ∀ between other, applied ≤ between → between < index →
      log[between]? = some (some other) → ¬ blocks other item

namespace Ahead

variable {log : List (Option α)} {applied : ℕ} {held : List α} {early : Set ℕ}

theorem start (log : List (Option α)) : Ahead blocks log 0 [] ∅ where
  held_iff item := by simp [settle]
  later index member := member.elim
  unblocked index member := member.elim

section

variable (ahead : Ahead blocks log applied held early)

include ahead

theorem append (within : applied ≤ log.length)
    (place : Option α) : Ahead blocks (log ++ [place]) applied held early := by
  have take_eq : (log ++ [place]).take applied = log.take applied :=
    List.take_append_of_le_length within
  have at_early : ∀ index ∈ early, (log ++ [place])[index]? = log[index]? ∧ index < log.length := by
    intro index member
    obtain ⟨item, found, -⟩ := ahead.unblocked index member
    have inside := (List.getElem?_eq_some_iff.mp found).1
    exact ⟨List.getElem?_append_left inside, inside⟩
  refine ⟨fun item => ?_, ahead.later, fun index member => ?_⟩
  · rw [take_eq, ahead.held_iff]
    refine or_congr_right (exists_congr fun index => and_congr_right fun member => ?_)
    rw [(at_early index member).1]
  · obtain ⟨item, found, by_settled, by_between⟩ := ahead.unblocked index member
    obtain ⟨same, inside⟩ := at_early index member
    refine ⟨item, same ▸ found, take_eq ▸ by_settled, ?_⟩
    intro between other after before found_other
    rw [List.getElem?_append_left (before.trans inside)] at found_other
    exact by_between between other after before found_other

theorem mem_of_settled {item : α}
    (settled : item ∈ settle blocks (log.take applied)) : item ∈ held :=
  (ahead.held_iff item).mpr (.inl settled)

theorem follow (symmetric : ∀ {one other}, blocks one other → blocks other one) {place : Option α}
    (found : log[applied]? = some place) :
    Ahead blocks log (applied + 1) (consider blocks held place) (early \ {applied}) := by
  have settled_next : settle blocks (log.take (applied + 1)) =
      consider blocks (settle blocks (log.take applied)) place := settle_take_succ found
  have later : ∀ index ∈ early, index ≠ applied → applied < index := fun index member differs =>
    lt_of_le_of_ne (ahead.later index member) differs.symm
  refine ⟨fun item => ?_, fun index member => later index member.1 member.2,
    fun index member => ?_⟩
  · rw [settled_next, mem_consider, mem_consider, ahead.held_iff]
    constructor
    · rintro ((settled | ⟨index, member, at_index⟩) | ⟨rfl, unblocked⟩)
      · exact .inl (.inl settled)
      · by_cases same : index = applied
        · obtain ⟨waiting, at_waiting, by_settled, -⟩ := ahead.unblocked index member
          rw [at_index, Option.some.injEq, Option.some.injEq] at at_waiting
          rw [same, found, Option.some.injEq] at at_index
          exact .inl (.inr ⟨at_index, at_waiting ▸ by_settled⟩)
        · exact .inr ⟨index, ⟨member, same⟩, at_index⟩
      · exact .inl (.inr ⟨rfl, fun earlier settled =>
          unblocked earlier (ahead.mem_of_settled settled)⟩)
    · rintro ((settled | ⟨rfl, unblocked⟩) | ⟨index, ⟨member, -⟩, at_index⟩)
      · exact .inl (.inl settled)
      · by_cases waiting : applied ∈ early
        · exact .inl (.inr ⟨applied, waiting, found⟩)
        · refine .inr ⟨rfl, fun earlier earlier_held blocking => ?_⟩
          rcases (ahead.held_iff earlier).mp earlier_held with settled | ⟨index, member, at_index⟩
          · exact unblocked earlier settled blocking
          · -- What waits further on does not block the item that is read now.
            obtain ⟨_, at_waiting, -, by_between⟩ := ahead.unblocked index member
            rw [at_index, Option.some.injEq, Option.some.injEq] at at_waiting
            subst at_waiting
            exact by_between applied item le_rfl
              (later index member fun same => waiting (same ▸ member)) found (symmetric blocking)
      · exact .inl (.inr ⟨index, member, at_index⟩)
  · obtain ⟨waiting, at_index, by_settled, by_between⟩ := ahead.unblocked index member.1
    refine ⟨waiting, at_index, fun earlier settled => ?_, fun between other after before => ?_⟩
    · rw [settled_next, mem_consider] at settled
      rcases settled with settled | ⟨rfl, -⟩
      · exact by_settled earlier settled
      · exact by_between applied earlier le_rfl (later index member.1 member.2) found
    · exact by_between between other (by omega) before

theorem jump (reflexive : ∀ item, blocks item item) {index : ℕ} {item : α}
    (found : log[index]? = some (some item))
    (clear : ∀ between other, applied ≤ between → between < index →
      log[between]? = some (some other) → ¬ blocks other item) :
    ∃ early, Ahead blocks log applied (accept blocks held item) early := by
  by_cases blocked : ∃ earlier ∈ held, blocks earlier item
  · exact ⟨early, by rwa [accept, if_pos blocked]⟩
  · push Not at blocked
    have later : applied ≤ index := by
      by_contra passed
      have passed_place : some item ∈ log.take applied := by
        refine List.mem_of_getElem? (i := index) ?_
        rw [List.getElem?_take_of_lt (by omega), found]
      obtain ⟨admitted, admitted_mem, blocking⟩ := exists_blocking reflexive passed_place
      exact blocked admitted (ahead.mem_of_settled admitted_mem) blocking
    refine ⟨insert index early, fun other => ?_, fun place member => ?_, fun place member => ?_⟩
    · rw [mem_accept, ahead.held_iff]
      constructor
      · rintro ((settled | ⟨place, member, at_place⟩) | ⟨rfl, -⟩)
        · exact .inl settled
        · exact .inr ⟨place, .inr member, at_place⟩
        · exact .inr ⟨index, .inl rfl, found⟩
      · rintro (settled | ⟨place, rfl | member, at_place⟩)
        · exact .inl (.inl settled)
        · rw [found, Option.some.injEq, Option.some.injEq] at at_place
          exact .inr ⟨at_place.symm, blocked⟩
        · exact .inl (.inr ⟨place, member, at_place⟩)
    · rcases member with rfl | member
      · exact later
      · exact ahead.later place member
    · rcases member with rfl | member
      · exact ⟨item, found, fun earlier settled => blocked earlier (ahead.mem_of_settled settled),
          clear⟩
      · exact ahead.unblocked place member

theorem mem_iff_of_done
    (done : log.length ≤ applied) (item : α) : item ∈ held ↔ item ∈ settle blocks log := by
  rw [ahead.held_iff, List.take_of_length_le done]
  refine or_iff_left ?_
  rintro ⟨index, member, found⟩
  have := ahead.later index member
  have := (List.getElem?_eq_some_iff.mp found).1
  omega

end

end Ahead

/-! ## What the order decides -/

def Before (log : List (Option α)) (one next : α) : Prop := [some one, some next].Sublist log

variable {one next : α}

theorem mem_left_of_before {log : List (Option α)} (before : Before log one next) :
    some one ∈ log :=
  before.subset (by simp)

theorem pair_sublist_of_first {β : Type} {front back : List β} {one next : β}
    (within : [one, next].Sublist (front ++ back)) (first : one ∉ front) :
    [one, next].Sublist back := by
  obtain ⟨left, right, split_eq, in_front, in_back⟩ := List.sublist_append_iff.mp within
  cases left with
  | cons head tail =>
    rw [List.cons_append, List.cons.injEq] at split_eq
    exact absurd (in_front.subset (by simp [split_eq.1])) first
  | nil => exact split_eq ▸ in_back

theorem before_iff_of_first {front back : List (Option α)} (first : some one ∉ front)
    : Before (front ++ some one :: back) one next ↔ some next ∈ back := by
  constructor
  · intro before
    exact List.singleton_sublist.mp
      (List.cons_sublist_cons.mp (pair_sublist_of_first before first))
  · intro after
    exact ((List.singleton_sublist.mpr after).cons_cons _).trans (List.sublist_append_right _ _)

/-- The items a log admits in any case: none blocks another, and each blocks the others before they
could stand before it. -/
structure Decided (blocks : α → α → Prop) (log : List (Option α)) (admitted : Set α) : Prop where
  listed : ∀ item ∈ admitted, some item ∈ log
  free : ∀ one ∈ admitted, ∀ other ∈ admitted, blocks one other → one = other
  refused : ∀ item, some item ∈ log → item ∉ admitted →
    ∃ blocking ∈ admitted, blocks blocking item ∧ ¬ Before log item blocking

variable {admitted : Set α}

omit [DecidableRel blocks] in
theorem Decided.blocked_before {log front back : List (Option α)} {next : α}
    (decided : Decided blocks log admitted) (whole : front ++ some next :: back = log)
    (refused : next ∉ admitted) :
    ∃ blocking ∈ admitted, some blocking ∈ front ∧ blocks blocking next := by
  obtain ⟨blocking, blocking_admitted, blocks_next, not_after⟩ :=
    decided.refused next (by rw [← whole]; simp) refused
  refine ⟨blocking, blocking_admitted, ?_, blocks_next⟩
  have listed := decided.listed blocking blocking_admitted
  rw [← whole, List.mem_append, List.mem_cons, Option.some.injEq] at listed
  rcases listed with before | here | after
  · exact before
  · exact absurd (here ▸ blocking_admitted) refused
  · refine absurd ?_ not_after
    rw [← whole]
    exact ((List.singleton_sublist.mpr after).cons_cons _).trans (List.sublist_append_right _ _)

theorem Decided.mem_settle_front {log : List (Option α)} (decided : Decided blocks log admitted)
    (front : List (Option α)) :
    ∀ back, front ++ back = log → ∀ item,
      item ∈ settle blocks front ↔ item ∈ admitted ∧ some item ∈ front := by
  induction front using List.reverseRecOn with
  | nil => simp [settle]
  | append_singleton front place ih =>
    intro back whole item
    rw [List.append_assoc, List.singleton_append] at whole
    have before := ih (place :: back) whole
    rw [settle_concat, mem_consider, before, List.mem_append, List.mem_singleton]
    constructor
    · rintro (⟨item_admitted, seen⟩ | ⟨rfl, unblocked⟩)
      · exact ⟨item_admitted, .inl seen⟩
      · refine ⟨by_contra fun refused => ?_, .inr rfl⟩
        obtain ⟨blocking, blocking_admitted, seen_blocking, blocks_item⟩ :=
          decided.blocked_before whole refused
        exact unblocked blocking ((before blocking).mpr ⟨blocking_admitted, seen_blocking⟩)
          blocks_item
    · rintro ⟨item_admitted, seen | rfl⟩
      · exact .inl ⟨item_admitted, seen⟩
      · by_cases seen : some item ∈ front
        · exact .inl ⟨item_admitted, seen⟩
        · -- Only the item itself, read before, may keep a decided item out.
          refine .inr ⟨rfl, fun earlier earlier_mem blocking => ?_⟩
          obtain ⟨earlier_admitted, seen_earlier⟩ := (before earlier).mp earlier_mem
          have same := decided.free earlier earlier_admitted item item_admitted blocking
          exact seen (same ▸ seen_earlier)

theorem Decided.mem_settle_iff {log : List (Option α)} (decided : Decided blocks log admitted)
    (item : α) :
    item ∈ settle blocks log ↔ item ∈ admitted := by
  rw [decided.mem_settle_front log [] (List.append_nil log)]
  exact and_iff_left_of_imp (decided.listed item)

theorem settle_append_isPrefix (front back : List (Option α)) :
    settle blocks front <+: settle blocks (front ++ back) := by
  induction back using List.reverseRecOn with
  | nil => rw [List.append_nil]
  | append_singleton back place ih =>
    rw [← List.append_assoc, settle_concat]
    rcases consider_cases blocks (settle blocks (front ++ back)) place with same | ⟨item, -, -, added⟩
    · rwa [same]
    · rw [added]
      exact ih.trans (List.prefix_append _ _)

/-! ## Compacted logs of keyed items -/

section Compacted

open CompactedLog

variable {ρ κ : Type} [DecidableEq κ] {key : ρ → κ} {item : ρ → Option α} {log kept : List ρ}

theorem before_map : Before (log.map item) one next ↔
    ∃ first second, [first, second].Sublist log ∧ item first = some one ∧
      item second = some next := by
  unfold Before
  rw [List.sublist_map_iff]
  constructor
  · rintro ⟨pair, within, pair_eq⟩
    obtain ⟨first, rest, rfl, first_eq, rest_eq⟩ := List.map_eq_cons_iff.mp pair_eq.symm
    obtain ⟨second, tail, rfl, second_eq, tail_eq⟩ := List.map_eq_cons_iff.mp rest_eq
    rw [List.map_eq_nil_iff] at tail_eq
    subst tail_eq
    exact ⟨first, second, within, first_eq, second_eq⟩
  · rintro ⟨first, second, within, first_eq, second_eq⟩
    exact ⟨[first, second], within, by simp [first_eq, second_eq]⟩

def Keyed (key : ρ → κ) (item : ρ → Option α) (log : List ρ) : Prop :=
  ∀ one ∈ log, ∀ other ∈ log, ∀ carried, item one = some carried →
    (item other = some carried ↔ key other = key one)

section

variable (keyed : Keyed key item log)

include keyed

theorem mem_map_of_compacts (compacts : Compacts key kept log) {carried : α}
    (member : some carried ∈ log.map item) : some carried ∈ kept.map item := by
  obtain ⟨record, record_mem, carries⟩ := List.mem_map.mp member
  obtain ⟨left, left_mem, same_key⟩ := compacts.exists_key record_mem
  have left_in := compacts.1.subset left_mem
  exact List.mem_map.mpr ⟨left, left_mem, (keyed record record_mem left left_in _ carries).mpr same_key⟩

theorem before_map_prune {spared : κ → Bool} (before : Before (log.map item) one next)
    (is_spared : ∀ record ∈ log, item record = some one → spared (key record)) :
    Before ((prune key spared log).map item) one next := by
  obtain ⟨first, second, within, first_eq, second_eq⟩ := before_map.mp before
  have first_mem : first ∈ log := within.subset (by simp)
  have second_mem : second ∈ log := within.subset (by simp)
  obtain ⟨last, still, same_key⟩ := before_prune within (is_spared first first_mem first_eq)
  have last_mem : last ∈ log := (prune_sublist log).subset (still.subset (by simp))
  exact before_map.mpr ⟨first, last, still, first_eq,
    (keyed second second_mem last last_mem _ second_eq).mpr same_key⟩

theorem not_before_self_prune {spared : κ → Bool} {carried : α}
    (not_spared : ∀ record ∈ log, item record = some carried → spared (key record) = false) :
    ¬ Before ((prune key spared log).map item) carried carried := by
  intro before
  obtain ⟨first, second, within, first_eq, second_eq⟩ := before_map.mp before
  have left_of : ∀ record ∈ [first, second], record ∈ log := fun record member =>
    (prune_sublist log).subset (within.subset member)
  have first_mem := left_of first (by simp)
  have is_spared := List.pairwise_iff_forall_sublist.mp (prune_pairwise log) within
    ((keyed first first_mem second (left_of second (by simp)) _ first_eq).mp second_eq)
  rw [not_spared first first_mem first_eq] at is_spared
  cases is_spared

omit [DecidableRel blocks] in
theorem Decided.compacts (decided : Decided blocks (log.map item) admitted)
    (compacts : Compacts key kept log) : Decided blocks (kept.map item) admitted where
  listed carried member := mem_map_of_compacts keyed compacts (decided.listed carried member)
  free := decided.free
  refused carried member refused := by
    obtain ⟨blocking, blocking_admitted, blocks_it, not_before⟩ :=
      decided.refused carried ((compacts.1.map item).subset member) refused
    refine ⟨blocking, blocking_admitted, blocks_it, fun before => not_before ?_⟩
    exact before.trans (compacts.1.map item)

theorem settle_steady_iff (symmetric : ∀ {one other}, blocks one other → blocks other one) :
    (∀ kept, Compacts key kept log → ∀ carried,
        carried ∈ settle blocks (kept.map item) ↔ carried ∈ settle blocks (log.map item)) ↔
      ∃ admitted, Decided blocks (log.map item) admitted := by
  constructor
  · intro steady
    refine ⟨{carried | carried ∈ settle blocks (log.map item)}, fun carried => mem_of_mem_settle,
      fun one one_mem other other_mem blocking => ?_, fun carried member refused => ?_⟩
    · by_contra differs
      have unblocked : Std.Symm fun one other => ¬ blocks one other :=
        ⟨fun _ _ free blocking => free (symmetric blocking)⟩
      exact (settle_pairwise (log.map item)).forall one_mem other_mem differs blocking
    · -- Spare the records of the refused item, and leave one record of each other.
      obtain ⟨record, record_mem, carries⟩ := List.mem_map.mp member
      let spared : κ → Bool := fun under => under = key record
      have left_over : Compacts key (prune key spared log) log := prune_compacts log
      have still : some carried ∈ (prune key spared log).map item :=
        mem_map_of_compacts keyed left_over member
      obtain ⟨front, back, parts, first⟩ := List.eq_append_cons_of_mem still
      have refused_left : carried ∉ settle blocks ((prune key spared log).map item) :=
        fun admitted => refused ((steady _ left_over carried).mp admitted)
      have refused_here : carried ∉ settle blocks (front ++ [some carried]) := by
        intro admitted
        refine refused_left ?_
        rw [parts, List.append_cons]
        exact (settle_append_isPrefix _ back).subset admitted
      rw [settle_concat, consider, mem_accept] at refused_here
      push Not at refused_here
      obtain ⟨blocking, blocking_mem, blocks_it⟩ := refused_here.2 rfl
      refine ⟨blocking, ?_, blocks_it, fun before => ?_⟩
      · refine (steady _ left_over blocking).mp ?_
        rw [parts]
        exact (settle_append_isPrefix front _).subset blocking_mem
      · have differs : blocking ≠ carried :=
          fun same => first (same ▸ mem_of_mem_settle blocking_mem)
        have before_left : Before ((prune key spared log).map item) carried blocking :=
          before_map_prune keyed before fun other other_mem other_eq => by
            simpa [spared] using (keyed record record_mem other other_mem _ carries).mp other_eq
        rw [parts, before_iff_of_first first] at before_left
        have alone : ¬ Before ((prune key spared log).map item) blocking blocking := by
          refine not_before_self_prune keyed fun other other_mem other_eq => ?_
          have : key other ≠ key record := fun same_key => differs (Option.some.inj
            (other_eq.symm.trans ((keyed record record_mem other other_mem _ carries).mpr same_key)))
          simpa [spared] using this
        refine alone ?_
        rw [parts]
        exact (List.singleton_sublist.mpr (mem_of_mem_settle blocking_mem)).append
          (List.singleton_sublist.mpr (List.mem_cons_of_mem _ before_left))
  · rintro ⟨admitted, decided⟩ kept compacts carried
    rw [(decided.compacts keyed compacts).mem_settle_iff, decided.mem_settle_iff]

end

/-! ## Items that block only themselves -/

variable [DecidableEq α]

theorem mem_settle_eq {log : List (Option α)} {carried : α} :
    carried ∈ settle Eq log ↔ some carried ∈ log := by
  constructor
  · exact mem_of_mem_settle
  · intro member
    obtain ⟨admitted, admitted_mem, same⟩ := exists_blocking (fun _ => rfl) member
    exact same ▸ admitted_mem

theorem settle_eq_nodup (log : List (Option α)) : (settle Eq log).Nodup := settle_pairwise log

theorem first_of_settle_before {log : List (Option α)}
    (before : [one, next].Sublist (settle Eq log)) :
    ∃ front back, log = front ++ some one :: back ∧ some one ∉ front ∧ some next ∉ front := by
  have one_mem : one ∈ settle Eq log := before.subset (by simp)
  obtain ⟨front, back, parts, first⟩ := List.eq_append_cons_of_mem (mem_settle_eq.mp one_mem)
  refine ⟨front, back, parts, first, fun next_front => ?_⟩
  have grows : settle Eq front <+: settle Eq (front ++ some one :: back) :=
    settle_append_isPrefix front _
  obtain ⟨rest, whole⟩ := grows
  rw [← parts] at whole
  have distinct := settle_eq_nodup log
  rw [← whole] at distinct before
  have in_rest := pair_sublist_of_first before fun member => first (mem_settle_eq.mp member)
  exact (List.nodup_append.mp distinct).2.2 next (mem_settle_eq.mpr next_front) next
    (in_rest.subset (by simp)) rfl

theorem settle_eq_steady_iff (keyed : Keyed key item log) :
    (∀ kept, Compacts key kept log →
        settle Eq (kept.map item) = settle Eq (log.map item)) ↔
      ∀ one other, Before (log.map item) one other → Before (log.map item) other one →
        one = other := by
  constructor
  · intro steady
    -- An item admitted before another never stands behind a record of it.
    have in_order : ∀ one next, [one, next].Sublist (settle Eq (log.map item)) →
        ¬ Before (log.map item) next one := by
      intro one next admitted_before behind
      have differs : one ≠ next := by
        have := List.pairwise_iff_forall_sublist.mp (settle_eq_nodup (log.map item)) admitted_before
        exact this
      obtain ⟨record, record_mem, carries⟩ :=
        List.mem_map.mp (mem_settle_eq.mp (admitted_before.subset (by simp : one ∈ [one, next])))
      let spared : κ → Bool := fun under => under ≠ key record
      have left_over : Compacts key (prune key spared log) log := prune_compacts log
      rw [← steady _ left_over] at admitted_before
      obtain ⟨front, back, parts, first, next_first⟩ := first_of_settle_before admitted_before
      have behind_left : Before ((prune key spared log).map item) next one :=
        before_map_prune keyed behind fun other other_mem other_eq => by
          have : key other ≠ key record := fun same_key => differs (Option.some.inj
            (((keyed record record_mem other other_mem _ carries).mpr same_key).symm.trans other_eq))
          simpa [spared] using this
      have alone : ¬ Before ((prune key spared log).map item) one one :=
        not_before_self_prune keyed fun other other_mem other_eq => by
          simpa [spared] using (keyed record record_mem other other_mem _ carries).mp other_eq
      rw [parts] at behind_left alone
      rw [before_iff_of_first first] at alone
      cases pair_sublist_of_first behind_left next_first with
      | cons _ in_back => exact alone (in_back.subset (by simp))
      | cons_cons _ _ => exact differs rfl
    intro one other before behind
    by_contra differs
    have one_mem : one ∈ settle Eq (log.map item) := mem_settle_eq.mpr (mem_left_of_before before)
    have other_mem : other ∈ settle Eq (log.map item) :=
      mem_settle_eq.mpr (mem_left_of_before behind)
    obtain ⟨front, back, parts, first⟩ := List.eq_append_cons_of_mem one_mem
    rw [parts, List.mem_append, List.mem_cons] at other_mem
    rcases other_mem with in_front | same | in_back
    · refine in_order other one ?_ before
      rw [parts]
      exact (List.singleton_sublist.mpr in_front).append
        (List.singleton_sublist.mpr List.mem_cons_self)
    · exact differs same.symm
    · refine in_order one other ?_ behind
      rw [parts]
      exact ((List.singleton_sublist.mpr in_back).cons_cons one).trans
        (List.sublist_append_right _ _)
  · intro unmixed kept compacts
    have same_items : ∀ carried, carried ∈ settle Eq (kept.map item) ↔
        carried ∈ settle Eq (log.map item) := by
      intro carried
      rw [mem_settle_eq, mem_settle_eq]
      exact ⟨fun member => (compacts.1.map item).subset member, mem_map_of_compacts keyed compacts⟩
    have ordered : ∀ left : List ρ, left.Sublist log →
        (settle Eq (left.map item)).Pairwise (Before (log.map item)) := by
      intro left within
      refine List.pairwise_iff_forall_sublist.mpr fun {one next} admitted => ?_
      exact ((admitted.map some).trans (settle_sublist _)).trans (within.map item)
    refine List.Perm.eq_of_pairwise (fun one other _ _ before behind => unmixed one other before behind)
      (ordered kept compacts.1) (ordered log (List.Sublist.refl log)) ?_
    exact (List.perm_ext_iff_of_nodup (settle_eq_nodup _) (settle_eq_nodup _)).mpr same_items

end Compacted
end Seagull.Admission
