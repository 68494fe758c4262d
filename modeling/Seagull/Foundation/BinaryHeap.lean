import Mathlib.Data.List.GetD
import Mathlib.Tactic

/-!
# Binary heaps on a list

The binary heap of Go's `container/heap`, on the list of its slots.  A loop is bounded by a count of
its rounds, which every caller sets to the most rounds the loop can run.
-/

namespace Seagull.BinaryHeap

variable {α β : Type} [Inhabited α] [LinearOrder β] (rank : α → β)

def parent (slot : ℕ) : ℕ := (slot - 1) / 2

def held (slots : List α) (slot : ℕ) : α := slots.getD slot default

def swap (slots : List α) (left right : ℕ) : List α :=
  (slots.set left (held slots right)).set right (held slots left)

def less (slots : List α) (left right : ℕ) : Bool :=
  rank (held slots left) < rank (held slots right)

def up : ℕ → List α → ℕ → List α
  | 0, slots, _ => slots
  | rounds + 1, slots, slot =>
    if parent slot = slot ∨ less rank slots slot (parent slot) = false then
      slots
    else
      up rounds (swap slots (parent slot) slot) (parent slot)

/-- The child of a slot that ranks first among the slots below `count`. -/
def firstChild (count : ℕ) (slots : List α) (slot : ℕ) : ℕ :=
  if 2 * slot + 2 < count ∧ less rank slots (2 * slot + 2) (2 * slot + 1) = true then
    2 * slot + 2
  else
    2 * slot + 1

/-- Sink a slot below `count` while a child ranks before it, to where it rests. -/
def down (count : ℕ) : ℕ → List α → ℕ → List α × ℕ
  | 0, slots, slot => (slots, slot)
  | rounds + 1, slots, slot =>
    if count ≤ 2 * slot + 1 then
      (slots, slot)
    else if less rank slots (firstChild rank count slots slot) slot = false then
      (slots, slot)
    else
      down count rounds (swap slots slot (firstChild rank count slots slot))
        (firstChild rank count slots slot)

def push (slots : List α) (value : α) : List α :=
  up rank slots.length (slots ++ [value]) slots.length

/-- Remove the root of a nonempty heap. -/
def pop (slots : List α) : List α :=
  let last := slots.length - 1
  (down rank last slots.length (swap slots 0 last) 0).1.take last

/-- Restore the order of a heap one slot of which was written. -/
def fix (slots : List α) (slot : ℕ) : List α :=
  let sunk := down rank slots.length slots.length slots slot
  if slot < sunk.2 then sunk.1 else up rank slots.length sunk.1 slot

/-- Every slot below `count` ranks no earlier than its parent. -/
def Ordered (count : ℕ) (slots : List α) : Prop :=
  ∀ slot, 0 < slot → slot < count →
    rank (held slots (parent slot)) ≤ rank (held slots slot)

/-- A heap in order but for `hole` and its parent. -/
structure UpReady (count : ℕ) (slots : List α) (hole : ℕ) : Prop where
  others : ∀ slot, 0 < slot → slot < count → slot ≠ hole →
    rank (held slots (parent slot)) ≤ rank (held slots slot)
  across : ∀ slot, 0 < slot → slot < count → parent slot = hole → 0 < hole →
    rank (held slots (parent hole)) ≤ rank (held slots slot)

/-- A heap in order but for `hole` and its children. -/
structure DownReady (count : ℕ) (slots : List α) (hole : ℕ) : Prop where
  others : ∀ slot, 0 < slot → slot < count → parent slot ≠ hole →
    rank (held slots (parent slot)) ≤ rank (held slots slot)
  across : ∀ slot, 0 < slot → slot < count → parent slot = hole → 0 < hole →
    rank (held slots (parent hole)) ≤ rank (held slots slot)

variable {slot : ℕ}

theorem parent_lt (positive : 0 < slot) : parent slot < slot := by
  unfold parent
  omega

theorem parent_eq_iff {above : ℕ} (positive : 0 < slot) :
    parent slot = above ↔ slot = 2 * above + 1 ∨ slot = 2 * above + 2 := by
  unfold parent
  omega

variable {slots : List α}

theorem held_swap {left right : ℕ} (left_lt : left < slots.length) (right_lt : right < slots.length)
    (slot : ℕ) :
    held (swap slots left right) slot =
      if slot = left then held slots right
      else if slot = right then held slots left
      else held slots slot := by
  unfold swap held
  grind

@[simp]
theorem length_swap (slots : List α) (left right : ℕ) :
    (swap slots left right).length = slots.length := by
  simp [swap]

theorem swap_perm {left right : ℕ} (left_lt : left < slots.length) (right_lt : right < slots.length)
    : (swap slots left right).Perm slots := by
  have exchanged := List.set_set_perm left_lt right_lt
  unfold swap held
  rwa [List.getD_eq_getElem _ _ left_lt, List.getD_eq_getElem _ _ right_lt]

theorem firstChild_parent (count : ℕ) (slots : List α) (slot : ℕ) :
    0 < firstChild rank count slots slot ∧ parent (firstChild rank count slots slot) = slot := by
  unfold firstChild parent
  split <;> omega

theorem firstChild_lt {count : ℕ} (slots : List α) (children : ¬ count ≤ 2 * slot + 1) :
    firstChild rank count slots slot < count := by
  unfold firstChild
  split <;> omega

section Order

variable {rank} {count : ℕ} {slots : List α} {hole : ℕ}

theorem UpReady.ordered (ready : UpReady rank count slots hole)
    (settled : 0 < hole → rank (held slots (parent hole)) ≤ rank (held slots hole)) :
    Ordered rank count slots := by
  intro slot positive slot_lt
  by_cases at_hole : slot = hole
  · subst at_hole
    exact settled positive
  · exact ready.others slot positive slot_lt at_hole

theorem UpReady.raise (ready : UpReady rank count slots hole) (positive : 0 < hole)
    (hole_lt : hole < count) (count_le : count ≤ slots.length)
    (before : rank (held slots hole) < rank (held slots (parent hole))) :
    UpReady rank count (swap slots (parent hole) hole) (parent hole) := by
  have above_lt := parent_lt positive
  have exchanged := held_swap (show parent hole < slots.length by omega)
    (show hole < slots.length by omega)
  constructor
  · intro slot slot_positive slot_lt slot_ne
    have slot_above := parent_lt slot_positive
    simp only [exchanged, if_neg slot_ne]
    by_cases at_hole : slot = hole
    · subst at_hole
      simpa using before.le
    · have in_order := ready.others slot slot_positive slot_lt at_hole
      by_cases below_above : parent slot = parent hole
      · rw [if_pos below_above, if_neg at_hole]
        rw [below_above] at in_order
        exact before.le.trans in_order
      · rw [if_neg below_above, if_neg at_hole]
        by_cases below_hole : parent slot = hole
        · rw [if_pos below_hole]
          exact ready.across slot slot_positive slot_lt below_hole positive
        · rw [if_neg below_hole]
          exact in_order
  · intro slot slot_positive slot_lt below above_positive
    have above_above := parent_lt above_positive
    have slot_above := parent_lt slot_positive
    have above_order := ready.others (parent hole) above_positive (by omega) (by omega)
    simp only [exchanged]
    rw [if_neg (by omega : parent (parent hole) ≠ parent hole),
      if_neg (by omega : parent (parent hole) ≠ hole), if_neg (by omega : slot ≠ parent hole)]
    by_cases at_hole : slot = hole
    · rw [if_pos at_hole]
      exact above_order
    · rw [if_neg at_hole]
      have in_order := ready.others slot slot_positive slot_lt at_hole
      rw [below] at in_order
      exact above_order.trans in_order

theorem up_ordered (rounds : ℕ) (enough : hole ≤ rounds) (hole_lt : hole < count)
    (count_le : count ≤ slots.length) (ready : UpReady rank count slots hole) :
    Ordered rank count (up rank rounds slots hole) := by
  induction rounds generalizing slots hole with
  | zero => exact ready.ordered fun positive => by omega
  | succ rounds ih =>
    rw [up]
    split
    · rename_i stopped
      apply ready.ordered
      intro positive
      rcases stopped with at_root | not_before
      · exact absurd at_root (Nat.ne_of_lt (parent_lt positive))
      · simpa [less] using not_before
    · rename_i moving
      simp only [less, not_or, decide_eq_false_iff_not, not_not] at moving
      have positive : 0 < hole := by
        by_contra root
        exact moving.1 (by simp [parent, Nat.eq_zero_of_not_pos root])
      have above_lt := parent_lt positive
      exact ih (by omega) (by omega) (by simpa using count_le)
        (ready.raise positive hole_lt count_le moving.2)

theorem DownReady.ordered (ready : DownReady rank count slots hole)
    (settled : ∀ slot, 0 < slot → slot < count → parent slot = hole →
      rank (held slots hole) ≤ rank (held slots slot)) : Ordered rank count slots := by
  intro slot positive slot_lt
  by_cases below : parent slot = hole
  · rw [below]
    exact settled slot positive slot_lt below
  · exact ready.others slot positive slot_lt below

theorem firstChild_le {slot : ℕ} (positive : 0 < slot) (slot_lt : slot < count)
    (below : parent slot = hole) :
    rank (held slots (firstChild rank count slots hole)) ≤ rank (held slots slot) := by
  rw [parent_eq_iff positive] at below
  unfold firstChild
  split
  · rename_i right_first
    rcases below with rfl | rfl
    · simpa [less] using (show _ < _ by simpa [less] using right_first.2).le
    · exact le_rfl
  · rename_i left_first
    rcases below with rfl | rfl
    · exact le_rfl
    · simpa [less, slot_lt] using left_first

theorem DownReady.sink (ready : DownReady rank count slots hole) (count_le : count ≤ slots.length)
    (children : ¬ count ≤ 2 * hole + 1)
    (before : rank (held slots (firstChild rank count slots hole)) < rank (held slots hole)) :
    DownReady rank count (swap slots hole (firstChild rank count slots hole))
      (firstChild rank count slots hole) := by
  obtain ⟨child_positive, child_parent⟩ := firstChild_parent rank count slots hole
  have child_lt := firstChild_lt rank slots children
  have first : ∀ slot, 0 < slot → slot < count → parent slot = hole →
      rank (held slots (firstChild rank count slots hole)) ≤ rank (held slots slot) :=
    fun slot positive slot_lt below => firstChild_le positive slot_lt below
  generalize firstChild rank count slots hole = child at *
  have hole_lt := parent_lt child_positive
  rw [child_parent] at hole_lt
  have exchanged := held_swap (show hole < slots.length by omega)
    (show child < slots.length by omega)
  constructor
  · intro slot positive slot_lt below_ne
    have slot_above := parent_lt positive
    simp only [exchanged, if_neg below_ne]
    by_cases at_hole : slot = hole
    · subst at_hole
      rw [if_neg (by omega : parent slot ≠ slot), if_pos rfl]
      exact ready.across child child_positive child_lt child_parent positive
    · rw [if_neg at_hole]
      by_cases below : parent slot = hole
      · rw [if_pos below]
        by_cases at_child : slot = child
        · rw [if_pos at_child]
          exact before.le
        · rw [if_neg at_child]
          exact first slot positive slot_lt below
      · rw [if_neg below]
        have apart : slot ≠ child := fun same => below (same ▸ child_parent)
        rw [if_neg apart]
        exact ready.others slot positive slot_lt below
  · intro slot positive slot_lt below _
    have slot_above := parent_lt positive
    rw [child_parent]
    simp only [exchanged]
    rw [if_pos True.intro, if_neg (by omega : slot ≠ hole), if_neg (by omega : slot ≠ child)]
    have in_order := ready.others slot positive slot_lt (by omega)
    rwa [below] at in_order

theorem down_ordered (rounds : ℕ) (enough : count ≤ rounds + hole)
    (count_le : count ≤ slots.length) (ready : DownReady rank count slots hole) :
    Ordered rank count (down rank count rounds slots hole).1 := by
  induction rounds generalizing slots hole with
  | zero =>
    apply ready.ordered
    intro slot positive slot_lt below
    have := parent_lt positive
    omega
  | succ rounds ih =>
    rw [down]
    split
    · rename_i childless
      apply ready.ordered
      intro slot positive slot_lt below
      rw [parent_eq_iff positive] at below
      omega
    · rename_i children
      split
      · rename_i not_before
        apply ready.ordered
        intro slot positive slot_lt below
        have settled : rank (held slots hole) ≤
            rank (held slots (firstChild rank count slots hole)) := by
          simpa [less] using not_before
        exact settled.trans (firstChild_le positive slot_lt below)
      · rename_i before
        obtain ⟨child_positive, child_parent⟩ := firstChild_parent rank count slots hole
        have hole_lt := parent_lt child_positive
        exact ih (by omega) (by simpa using count_le)
          (ready.sink count_le children (by simpa [less] using before))

theorem root_le (ordered : Ordered rank count slots) {slot : ℕ} (slot_lt : slot < count) :
    rank (held slots 0) ≤ rank (held slots slot) := by
  induction slot using Nat.strong_induction_on with
  | _ slot ih =>
    rcases Nat.eq_zero_or_pos slot with rfl | positive
    · exact le_rfl
    · have above_lt := parent_lt positive
      exact (ih (parent slot) above_lt (by omega)).trans (ordered slot positive slot_lt)

theorem root_le_of_mem {root value : α} {rest : List α}
    (ordered : Ordered rank (root :: rest).length (root :: rest)) (member : value ∈ root :: rest) :
    rank root ≤ rank value := by
  obtain ⟨slot, slot_lt, rfl⟩ := List.getElem_of_mem member
  have first := root_le ordered slot_lt
  rwa [held, held, List.getD_eq_getElem _ _ slot_lt] at first

end Order

theorem up_perm (rounds : ℕ) (slot_lt : slot < slots.length) :
    (up rank rounds slots slot).Perm slots := by
  induction rounds generalizing slots slot with
  | zero => exact List.Perm.refl _
  | succ rounds ih =>
    rw [up]
    split
    · exact List.Perm.refl _
    · have above_lt : parent slot < slots.length := by
        unfold parent
        omega
      exact (ih (by simpa using above_lt)).trans (swap_perm above_lt slot_lt)

theorem down_perm (count rounds : ℕ) (slot : ℕ) (count_le : count ≤ slots.length) :
    (down rank count rounds slots slot).1.Perm slots := by
  induction rounds generalizing slots slot with
  | zero => exact List.Perm.refl _
  | succ rounds ih =>
    rw [down]
    split
    · exact List.Perm.refl _
    · rename_i children
      split
      · exact List.Perm.refl _
      · have child_lt := firstChild_lt rank slots children
        exact (ih _ (by simpa using count_le)).trans (swap_perm (by omega) (by omega))

theorem held_down (count rounds : ℕ) (slot : ℕ) (count_le : count ≤ slots.length) {beyond : ℕ}
    (beyond_le : count ≤ beyond) :
    held (down rank count rounds slots slot).1 beyond = held slots beyond := by
  induction rounds generalizing slots slot with
  | zero => rfl
  | succ rounds ih =>
    rw [down]
    split
    · rfl
    · rename_i children
      split
      · rfl
      · have child_lt := firstChild_lt rank slots children
        rw [ih _ (by simpa using count_le), held_swap (by omega) (by omega)]
        rw [if_neg (by omega), if_neg (by omega)]

variable {rest : List α}

theorem held_append_left (slot_lt : slot < slots.length) :
    held (slots ++ rest) slot = held slots slot := by
  unfold held
  rw [List.getD_append _ _ _ _ slot_lt]

theorem push_perm (slots : List α) (value : α) : (push rank slots value).Perm (value :: slots) :=
  (up_perm rank _ (by simp)).trans (List.perm_append_singleton value slots)

theorem push_ordered (value : α) (ordered : Ordered rank slots.length slots) :
    Ordered rank (push rank slots value).length (push rank slots value) := by
  rw [(push_perm rank slots value).length_eq]
  apply up_ordered _ le_rfl (by simp) (by simp)
  constructor
  · intro slot positive slot_lt slot_ne
    have below_last : slot < slots.length := by
      simp only [List.length_cons] at slot_lt
      omega
    have above_lt := parent_lt positive
    rw [held_append_left below_last, held_append_left (by omega)]
    exact ordered slot positive below_last
  · intro slot positive slot_lt below _
    have above_lt := parent_lt positive
    simp only [List.length_cons] at slot_lt
    omega

theorem pop_spec {root : α} (ordered : Ordered rank (root :: rest).length (root :: rest)) :
    (pop rank (root :: rest)).Perm rest ∧
      Ordered rank (pop rank (root :: rest)).length (pop rank (root :: rest)) := by
  have last_eq : (root :: rest).length - 1 = rest.length := by simp
  unfold pop
  simp only [last_eq]
  set exchanged := swap (root :: rest) 0 rest.length with exchanged_eq
  have exchanged_length : exchanged.length = rest.length + 1 := by simp [exchanged_eq]
  have exchanged_held := held_swap (show 0 < (root :: rest).length by simp)
    (show rest.length < (root :: rest).length by simp)
  set sunk := (down rank rest.length (root :: rest).length exchanged 0).1 with sunk_eq
  have sunk_perm : sunk.Perm (root :: rest) :=
    (down_perm rank _ _ 0 (by omega)).trans (swap_perm (by simp) (by simp))
  have sunk_length : sunk.length = rest.length + 1 := by simp [sunk_perm.length_eq]
  have sunk_last : held sunk rest.length = root := by
    rw [sunk_eq, held_down rank _ _ 0 (by omega) le_rfl, exchanged_eq, exchanged_held]
    split
    · rename_i single
      simp [held, single]
    · simp [held]
  have sunk_split : sunk = sunk.take rest.length ++ [root] := by
    have last_lt : rest.length < sunk.length := by omega
    conv_lhs => rw [← List.take_append_drop rest.length sunk]
    rw [List.drop_eq_getElem_cons last_lt, List.drop_of_length_le (by omega)]
    rw [held, List.getD_eq_getElem _ _ last_lt] at sunk_last
    rw [sunk_last]
  have taken_length : (sunk.take rest.length).length = rest.length := by
    rw [List.length_take]
    omega
  constructor
  · have front : (root :: sunk.take rest.length).Perm (root :: rest) :=
      (List.perm_append_singleton root _).symm.trans (sunk_split ▸ sunk_perm)
    exact front.cons_inv
  · rw [taken_length]
    have sunk_ordered : Ordered rank rest.length sunk := by
      apply down_ordered _ (by simp) (by omega)
      constructor
      · intro slot positive slot_lt below_ne
        have above_lt := parent_lt positive
        rw [exchanged_eq, exchanged_held, exchanged_held, if_neg below_ne, if_neg (by omega),
          if_neg (by omega), if_neg (by omega)]
        exact ordered slot positive (by simp; omega)
      · intro slot _ _ _ impossible
        omega
    intro slot positive slot_lt
    have above_lt := parent_lt positive
    have in_order := sunk_ordered slot positive slot_lt
    rw [sunk_split, held_append_left (by omega), held_append_left (by omega)] at in_order
    exact in_order

theorem fix_root_spec {root : α} (value : α)
    (ordered : Ordered rank (root :: rest).length (root :: rest)) :
    (fix rank (value :: rest) 0).Perm (value :: rest) ∧
      Ordered rank (fix rank (value :: rest) 0).length (fix rank (value :: rest) 0) := by
  set sunk := (down rank (value :: rest).length (value :: rest).length (value :: rest) 0).1
    with sunk_eq
  have sunk_ordered : Ordered rank (value :: rest).length sunk := by
    apply down_ordered _ (by simp) le_rfl
    constructor
    · intro slot positive slot_lt below_ne
      have in_order := ordered slot positive (by simpa using slot_lt)
      obtain ⟨slot, rfl⟩ := Nat.exists_eq_succ_of_ne_zero (Nat.ne_of_gt positive)
      obtain ⟨above, above_eq⟩ := Nat.exists_eq_succ_of_ne_zero below_ne
      rw [above_eq] at in_order ⊢
      simpa [held] using in_order
    · intro slot _ _ _ impossible
      omega
  have sunk_perm : sunk.Perm (value :: rest) := down_perm rank _ _ 0 le_rfl
  rw [← sunk_perm.length_eq] at sunk_ordered
  simp only [fix]
  split
  · exact ⟨sunk_perm, sunk_ordered⟩
  · have raised : up rank (value :: rest).length sunk 0 = sunk := by
      rw [List.length_cons, up]
      simp [parent]
    rw [raised]
    exact ⟨sunk_perm, sunk_ordered⟩

end Seagull.BinaryHeap
