import Mathlib.Tactic

/-!
# Keyset paging

A listing read one page after another, each starting behind the mark the one before it left, in
descending order of positions.  A mark may lie below the position of the row it was taken of; then
the rows between the two are behind neither.
-/

namespace Seagull.Paging

/-- A page, and where the next one starts if there is one. -/
structure Page (ρ τ : Type) where
  rows : List ρ
  next : Option τ

variable {ρ τ : Type}

/-- The rows of one page after another, until a page names no next one. -/
def follow (pageFrom : τ → Option (Page ρ τ)) : ℕ → τ → Option (List ρ)
  | 0, _ => none
  | fuel + 1, start =>
    (pageFrom start).bind fun page =>
      match page.next with
      | none => some page.rows
      | some next => (follow pageFrom fuel next).map (page.rows ++ ·)

theorem follow_eq {σ : Type} {pageFrom : τ → Option (Page ρ τ)} {readFrom : σ → Option (Page ρ σ)}
    (Matches : τ → σ → Prop)
    (agree : ∀ start place, Matches start place → ∃ page read,
      pageFrom start = some page ∧ readFrom place = some read ∧ page.rows = read.rows ∧
        Option.Rel Matches page.next read.next)
    (fuel : ℕ) {start : τ} {place : σ} (matching : Matches start place) :
    follow pageFrom fuel start = follow readFrom fuel place := by
  induction fuel generalizing start place with
  | zero => rfl
  | succ fuel ih =>
    obtain ⟨⟨rows, next⟩, ⟨others, nextPlace⟩, paged, read, same, led⟩ := agree start place matching
    obtain rfl : rows = others := same
    simp only [follow, paged, read, Option.bind_some]
    cases led with
    | none => rfl
    | some led => exact congrArg (Option.map (rows ++ ·)) (ih led)

variable {π : Type} [LinearOrder π] (position mark : ρ → π) (limit : ℕ)

def behind (rows : List ρ) (start : WithTop π) : List ρ :=
  rows.filter fun row => (position row : WithTop π) < start

/-- The page behind a mark.  One row more tells whether there is a next one. -/
def keyset (rows : List ρ) (start : WithTop π) : Page ρ (WithTop π) :=
  let found := behind position rows start
  { rows := found.take limit
    next := if limit < found.length then found[limit - 1]?.map fun last => (mark last : WithTop π)
      else none }

/-- The first row of a page is behind the mark of the last row before it. -/
def Clear (rows : List ρ) : Prop :=
  ∀ page last first, rows[(page + 1) * limit - 1]? = some last →
    rows[(page + 1) * limit]? = some first → position first < mark last

abbrev Descending (rows : List ρ) : Prop :=
  rows.Pairwise fun earlier later => position later < position earlier

variable {position mark limit} {rows : List ρ}

theorem behind_top : behind position rows ⊤ = rows := by
  simp [behind]

theorem behind_suffix (descending : Descending position rows) (start : WithTop π) :
    behind position rows start <:+ rows := by
  induction rows with
  | nil => exact List.suffix_rfl
  | cons row rows ih =>
    obtain ⟨first, rest⟩ := List.pairwise_cons.mp descending
    by_cases here : (position row : WithTop π) < start
    · have kept : behind position (row :: rows) start = row :: rows := by
        rw [behind, List.filter_eq_self]
        intro other member
        rcases List.mem_cons.mp member with rfl | later
        · exact decide_eq_true here
        · exact decide_eq_true ((WithTop.coe_lt_coe.mpr (first other later)).trans here)
      rw [kept]
    · rw [behind, List.filter_cons_of_neg (by simpa using here)]
      exact (ih rest).trans (List.suffix_cons row rows)

variable {start : WithTop π}

theorem behind_append_of_le {front back : List ρ} (above : ∀ row ∈ front, start ≤ position row) :
    behind position (front ++ back) start = behind position back start := by
  rw [behind, List.filter_append, List.filter_eq_nil_iff.mpr, List.nil_append, behind]
  intro row member
  simpa using above row member

theorem clear_of_length_le (short : rows.length ≤ limit) : Clear position mark limit rows := by
  intro page last first _ found
  have := (List.getElem?_eq_some_iff.mp found).1
  have : limit ≤ (page + 1) * limit := Nat.le_mul_of_pos_left limit page.succ_pos
  omega

theorem clear_append {full rest : List ρ} {last first : ρ} (exact_page : full.length = limit)
    (ends : full.getLast? = some last) (starts : rest.head? = some first) :
    Clear position mark limit (full ++ rest) ↔
      position first < mark last ∧ Clear position mark limit rest := by
  have positive : 0 < limit := by
    cases full with
    | nil => cases ends
    | cons row rows => rw [← exact_page]; exact Nat.succ_pos _
  have at_end : (full ++ rest)[limit - 1]? = some last := by
    rw [List.getElem?_append_left (by omega), ← exact_page, ← List.getLast?_eq_getElem?, ends]
  have at_start : (full ++ rest)[limit]? = some first := by
    rw [List.getElem?_append_right (by omega), exact_page, Nat.sub_self, ← List.head?_eq_getElem?,
      starts]
  have shifted (index : ℕ) (behind : limit ≤ index) :
      (full ++ rest)[index]? = rest[index - limit]? := by
    rw [List.getElem?_append_right (by omega), exact_page]
  have further (page : ℕ) :
      (full ++ rest)[(page + 1 + 1) * limit - 1]? = rest[(page + 1) * limit - 1]? ∧
        (full ++ rest)[(page + 1 + 1) * limit]? = rest[(page + 1) * limit]? := by
    have step : limit ≤ (page + 1) * limit := Nat.le_mul_of_pos_left limit page.succ_pos
    rw [Nat.add_one_mul, shifted _ (by omega), shifted _ (by omega)]
    constructor <;> congr 1 <;> omega
  constructor
  · intro clear
    refine ⟨clear 0 last first (by simpa using at_end) (by simpa using at_start), ?_⟩
    intro page before after found_before found_after
    exact clear (page + 1) before after ((further page).1.trans found_before)
      ((further page).2.trans found_after)
  · rintro ⟨boundary, clear⟩ page before after found_before found_after
    cases page with
    | zero =>
      rw [Nat.zero_add, Nat.one_mul] at found_before found_after
      obtain rfl := Option.some.inj (at_end.symm.trans found_before)
      obtain rfl := Option.some.inj (at_start.symm.trans found_after)
      exact boundary
    | succ page =>
      exact clear page before after ((further page).1.symm.trans found_before)
        ((further page).2.symm.trans found_after)

theorem behind_mark {front full rest : List ρ} {last first : ρ}
    (descending : Descending position (front ++ (full ++ rest)))
    (marked : mark last ≤ position last) (ends : full.getLast? = some last)
    (starts : rest.head? = some first) :
    behind position (front ++ (full ++ rest)) (mark last) <:+ rest ∧
      (behind position (front ++ (full ++ rest)) (mark last) = rest ↔
        position first < mark last) := by
  obtain ⟨pages, rfl⟩ : ∃ pages, full = pages ++ [last] := List.getLast?_eq_some_iff.mp ends
  obtain ⟨others, rfl⟩ : ∃ others, rest = first :: others := List.head?_eq_some_iff.mp starts
  have regroup : front ++ (pages ++ [last] ++ first :: others) =
      (front ++ pages ++ [last]) ++ first :: others := by simp
  rw [regroup] at descending ⊢
  obtain ⟨before, rest_descending, -⟩ := List.pairwise_append.mp descending
  have above : ∀ row ∈ front ++ pages ++ [last], (mark last : WithTop π) ≤ position row := by
    intro row member
    refine WithTop.coe_le_coe.mpr (marked.trans ?_)
    rcases List.mem_append.mp member with earlier | here
    · exact ((List.pairwise_append.mp before).2.2 row earlier last (List.mem_singleton.mpr rfl)).le
    · rw [List.mem_singleton.mp here]
  rw [behind_append_of_le above]
  refine ⟨behind_suffix rest_descending _, fun same => ?_, fun boundary => ?_⟩
  · have kept : first ∈ behind position (first :: others) (mark last) :=
      same.symm ▸ List.mem_cons_self
    simpa [behind] using List.of_mem_filter kept
  · rw [behind, List.filter_eq_self]
    intro row member
    refine decide_eq_true (WithTop.coe_lt_coe.mpr ?_)
    rcases List.mem_cons.mp member with rfl | later
    · exact boundary
    · exact ((List.pairwise_cons.mp rest_descending).1 row later).trans boundary

theorem follow_last (short : (behind position rows start).length ≤ limit) (fuel : ℕ) :
    follow (some ∘ keyset position mark limit rows) (fuel + 1) start =
      some (behind position rows start) := by
  simp [follow, keyset, Nat.not_lt.mpr short, List.take_of_length_le short]

theorem follow_page (more : limit < (behind position rows start).length) {last : ρ}
    (ends : (behind position rows start)[limit - 1]? = some last) (fuel : ℕ) :
    follow (some ∘ keyset position mark limit rows) (fuel + 1) start =
      (follow (some ∘ keyset position mark limit rows) fuel (mark last)).map
        ((behind position rows start).take limit ++ ·) := by
  simp [follow, keyset, more, ends]

section

variable (descending : Descending position rows) (marked : ∀ row ∈ rows, mark row ≤ position row)
  (positive : 0 < limit)

include descending marked positive

theorem follow_keyset (fuel : ℕ) (enough : (behind position rows start).length < fuel) :
    ∃ read, follow (some ∘ keyset position mark limit rows) fuel start = some read ∧
      read.Sublist (behind position rows start) ∧
      (read = behind position rows start ↔
        Clear position mark limit (behind position rows start)) := by
  induction fuel generalizing start with
  | zero => omega
  | succ fuel ih =>
    obtain ⟨front, split⟩ := behind_suffix descending start
    by_cases more : limit < (behind position rows start).length
    · obtain ⟨last, ends⟩ : ∃ last, (behind position rows start)[limit - 1]? = some last :=
        ⟨_, List.getElem?_eq_getElem (by omega)⟩
      obtain ⟨first, starts⟩ : ∃ first, (behind position rows start)[limit]? = some first :=
        ⟨_, List.getElem?_eq_getElem more⟩
      rw [follow_page more ends]
      generalize behind position rows start = found at *
      have full_length : (found.take limit).length = limit := by simp; omega
      have full_ends : (found.take limit).getLast? = some last := by
        rw [List.getLast?_eq_getElem?, full_length, List.getElem?_take_of_lt (by omega), ends]
      have rest_starts : (found.drop limit).head? = some first := by
        rw [List.head?_drop, starts]
      have last_mem : last ∈ rows := split ▸ List.mem_append_right _ (List.mem_of_getElem? ends)
      have cut := List.take_append_drop limit found
      generalize found.take limit = full at *
      generalize found.drop limit = rest at *
      subst cut split
      obtain ⟨part, all⟩ := behind_mark descending (marked last last_mem) full_ends rest_starts
      have shorter : (behind position (front ++ (full ++ rest)) (mark last)).length < fuel := by
        have := part.length_le
        rw [List.length_append] at enough
        omega
      obtain ⟨read, followed, kept, whole⟩ := ih shorter
      refine ⟨full ++ read, by rw [followed, Option.map_some],
        (List.Sublist.refl _).append (kept.trans part.sublist), ?_⟩
      rw [clear_append full_length full_ends rest_starts, List.append_cancel_left_eq, ← all]
      constructor
      · rintro rfl
        have reaches := part.sublist.antisymm kept
        exact ⟨reaches, reaches ▸ whole.mp reaches.symm⟩
      · rintro ⟨reaches, clear⟩
        exact (whole.mpr (reaches.symm ▸ clear)).trans reaches
    · have short := Nat.le_of_not_lt more
      exact ⟨_, follow_last short fuel, List.Sublist.refl _, by
        simpa using clear_of_length_le short⟩

theorem follow_keyset_iff {fuel : ℕ}
    (enough : rows.length < fuel) :
    follow (some ∘ keyset position mark limit rows) fuel ⊤ = some rows ↔
      Clear position mark limit rows := by
  have all_behind : (behind position rows ⊤).length < fuel := by rwa [behind_top]
  obtain ⟨read, followed, -, whole⟩ := follow_keyset descending marked positive fuel all_behind
  rw [behind_top] at whole
  rw [followed, Option.some.injEq, whole]

end

end Seagull.Paging
