import Mathlib.Tactic

/-!
# The earliest assignment of items to stages

Taking for every stage the first item left that satisfies it tells all the stages whenever some
items, in their order, do.
-/

namespace Seagull.Staging

variable {α : Type} (asks : ℕ → α → Bool)

/-- The first items that satisfy the stages from the given one on, one after another. -/
def earliest (stages : ℕ) : List α → ℕ → List α
  | [], _ => []
  | item :: items, told =>
    if told = stages then []
    else if asks told item then item :: earliest stages items (told + 1)
    else earliest stages items told

/-- Items that satisfy the stages from the given one on, one after another. -/
def Tells : ℕ → List α → Prop
  | _, [] => True
  | told, item :: items => asks told item ∧ Tells (told + 1) items

variable {asks} {stages : ℕ}

theorem earliest_sublist (items : List α) (told : ℕ) :
    (earliest asks stages items told).Sublist items := by
  induction items generalizing told with
  | nil => exact List.Sublist.refl []
  | cons item items ih =>
    unfold earliest
    split_ifs
    · exact List.nil_sublist _
    · exact (ih (told + 1)).cons_cons item
    · exact (ih told).cons item

theorem earliest_tells (items : List α) (told : ℕ) :
    Tells asks told (earliest asks stages items told) := by
  induction items generalizing told with
  | nil => trivial
  | cons item items ih =>
    unfold earliest
    split_ifs with last satisfied
    · trivial
    · exact ⟨satisfied, ih (told + 1)⟩
    · exact ih told

variable {told : ℕ}

theorem earliest_length_le (items : List α) (within : told ≤ stages) :
    told + (earliest asks stages items told).length ≤ stages := by
  induction items generalizing told with
  | nil => simpa [earliest] using within
  | cons item items ih =>
    unfold earliest
    split_ifs with last
    · simpa using within
    · have rest := ih (show told + 1 ≤ stages by omega)
      simp only [List.length_cons]
      omega
    · exact ih within

variable {items : List α}

theorem earliest_complete {chosen : List α} (picked : chosen.Sublist items)
    (tells : Tells asks told chosen) (every : told + chosen.length = stages) :
    told + (earliest asks stages items told).length = stages := by
  induction items generalizing told chosen with
  | nil =>
    rw [List.sublist_nil.mp picked] at every
    exact every
  | cons item items ih =>
    unfold earliest
    split_ifs with last satisfied
    · simpa using last
    · -- Whichever item tells this stage, what tells the later ones comes after the first item.
      obtain ⟨first, rest, rfl⟩ : ∃ first rest, chosen = first :: rest := by
        cases chosen with
        | nil => exact absurd every last
        | cons first rest => exact ⟨first, rest, rfl⟩
      have later : rest.Sublist items := by
        simpa using picked.tail
      have tail := ih later tells.2 (by simp only [List.length_cons] at every; omega)
      simp only [List.length_cons]
      omega
    · cases picked with
      | cons _ later => exact ih later tells every
      | cons_cons _ later => exact absurd tells.1 satisfied

theorem earliest_length_iff (items : List α) :
    (earliest asks stages items 0).length = stages ↔
      ∃ chosen, chosen.Sublist items ∧ chosen.length = stages ∧ Tells asks 0 chosen := by
  constructor
  · intro every
    exact ⟨_, earliest_sublist items 0, every, earliest_tells items 0⟩
  · rintro ⟨chosen, picked, every, tells⟩
    have complete := earliest_complete picked tells ((Nat.zero_add _).trans every)
    omega

variable (asks) in
/-- The positions of the earliest items, from the given one. -/
def positions (stages : ℕ) : List α → ℕ → ℕ → List ℕ
  | [], _, _ => []
  | item :: items, index, told =>
    if told = stages then []
    else if asks told item then index :: positions stages items (index + 1) (told + 1)
    else positions stages items (index + 1) told

variable (asks) in
/-- Increasing positions of items that satisfy the stages from the given one on. -/
structure Placed (items : List α) (index told : ℕ) (places : List ℕ) : Prop where
  increasing : places.Pairwise (· < ·)
  holds : ∀ stage place, places[stage]? = some place →
    index ≤ place ∧ ∃ item, items[place - index]? = some item ∧ asks (told + stage) item = true

variable {index : ℕ} {places : List ℕ}

theorem Placed.tail {item : α} {place : ℕ}
    (placed : Placed asks (item :: items) index told (place :: places)) :
    Placed asks items (index + 1) (told + 1) places := by
  obtain ⟨first, increasing⟩ := List.pairwise_cons.mp placed.increasing
  refine ⟨increasing, fun stage later found => ?_⟩
  have above := (placed.holds 0 place rfl).1
  have behind := first later (List.mem_of_getElem? found)
  obtain ⟨-, other, at_later, satisfied⟩ := placed.holds (stage + 1) later found
  have shifted : later - index = later - (index + 1) + 1 := by omega
  rw [shifted, List.getElem?_cons_succ] at at_later
  exact ⟨by omega, other, at_later, by rwa [Nat.add_right_comm]⟩

theorem Placed.skip {item : α} (placed : Placed asks (item :: items) index told places)
    (fails : asks told item = false) : Placed asks items (index + 1) told places := by
  have first_above : ∀ place, places.head? = some place → index + 1 ≤ place := by
    intro place found
    rw [List.head?_eq_getElem?] at found
    obtain ⟨above, other, at_place, satisfied⟩ := placed.holds 0 place found
    rcases above.eq_or_lt with rfl | later
    · rw [Nat.sub_self, List.getElem?_cons_zero, Option.some.injEq] at at_place
      rw [← at_place, Nat.add_zero, fails] at satisfied
      cases satisfied
    · exact later
  refine ⟨placed.increasing, fun stage place found => ?_⟩
  have above : index + 1 ≤ place := by
    have member := List.mem_of_getElem? found
    cases places with
    | nil => cases member
    | cons first rest =>
      have bound := first_above first rfl
      rcases List.mem_cons.mp member with rfl | later
      · exact bound
      · exact bound.trans ((List.pairwise_cons.mp placed.increasing).1 place later).le
  obtain ⟨-, other, at_place, satisfied⟩ := placed.holds stage place found
  have shifted : place - index = place - (index + 1) + 1 := by omega
  rw [shifted, List.getElem?_cons_succ] at at_place
  exact ⟨above, other, at_place, satisfied⟩

theorem positions_placed (items : List α) (index told : ℕ) :
    Placed asks items index told (positions asks stages items index told) := by
  induction items generalizing index told with
  | nil => exact ⟨List.Pairwise.nil, fun stage place found => by cases found⟩
  | cons item items ih =>
    unfold positions
    split_ifs with last satisfied
    · exact ⟨List.Pairwise.nil, fun stage place found => by cases found⟩
    · have rest := ih (index + 1) (told + 1)
      refine ⟨List.pairwise_cons.mpr ⟨fun place member => ?_, rest.increasing⟩, ?_⟩
      · obtain ⟨stage, found⟩ := List.mem_iff_getElem?.mp member
        exact (rest.holds stage place found).1
      · rintro (_ | stage) place found
        · cases found
          exact ⟨le_rfl, item, by rw [Nat.sub_self]; rfl, satisfied⟩
        · obtain ⟨above, other, at_place, holds⟩ := rest.holds stage place found
          have shifted : place - index = place - (index + 1) + 1 := by omega
          rw [shifted, List.getElem?_cons_succ, ← Nat.add_assoc, Nat.add_right_comm]
          exact ⟨by omega, other, at_place, holds⟩
    · have rest := ih (index + 1) told
      refine ⟨rest.increasing, fun stage place found => ?_⟩
      obtain ⟨above, other, at_place, holds⟩ := rest.holds stage place found
      have shifted : place - index = place - (index + 1) + 1 := by omega
      rw [shifted, List.getElem?_cons_succ]
      exact ⟨by omega, other, at_place, holds⟩

theorem earliest_eq_positions (items : List α) (index told : ℕ) :
    (positions asks stages items index told).map (fun place => items[place - index]?) =
      (earliest asks stages items told).map some := by
  induction items generalizing index told with
  | nil => rfl
  | cons item items ih =>
    have shifted (told : ℕ) :
        (positions asks stages items (index + 1) told).map
            (fun place => (item :: items)[place - index]?) =
          (earliest asks stages items told).map some := by
      rw [← ih (index + 1) told]
      refine List.map_congr_left fun place member => ?_
      obtain ⟨stage, found⟩ := List.mem_iff_getElem?.mp member
      have above := ((positions_placed items (index + 1) told).holds stage place found).1
      rw [show place - index = place - (index + 1) + 1 by omega, List.getElem?_cons_succ]
    unfold positions earliest
    split_ifs
    · rfl
    · rw [List.map_cons, List.map_cons, shifted, Nat.sub_self, List.getElem?_cons_zero]
    · exact shifted told

theorem positions_le (placed : Placed asks items index told places) :
    (∀ stage place other : ℕ, (positions asks stages items index told)[stage]? = some place →
      places[stage]? = some other → place ≤ other) ∧
    (told + places.length ≤ stages →
      places.length ≤ (positions asks stages items index told).length) := by
  induction items generalizing index told places with
  | nil =>
    refine ⟨fun stage place other found => (by cases found), fun _ => ?_⟩
    cases places with
    | nil => exact le_rfl
    | cons place places =>
      obtain ⟨-, item, found, -⟩ := placed.holds 0 place rfl
      cases found
  | cons item items ih =>
    unfold positions
    split_ifs with last satisfied
    · exact ⟨fun stage place other found => (by cases found), fun within => (by omega)⟩
    · cases places with
      | nil => exact ⟨fun stage place other _ found => (by cases found), fun _ => Nat.zero_le _⟩
      | cons other places =>
        obtain ⟨before, longer⟩ := ih placed.tail
        refine ⟨fun stage place later found found_other => ?_, fun within => ?_⟩
        · cases stage with
          | zero =>
            cases found
            cases found_other
            exact (placed.holds 0 other rfl).1
          | succ stage => exact before stage place later found found_other
        · simp only [List.length_cons] at within ⊢
          have := longer (by omega)
          omega
    · exact ih (placed.skip (by simpa using satisfied))

theorem earliest_filter (keep : α → Bool) (items : List α) (told : ℕ) :
    earliest (fun stage item => keep item && asks stage item) stages items told =
      earliest asks stages (items.filter keep) told := by
  induction items generalizing told with
  | nil => rfl
  | cons item items ih =>
    by_cases kept : keep item
    · rw [List.filter_cons_of_pos kept]
      simp [earliest, kept, ih]
    · rw [List.filter_cons_of_neg kept]
      simp only [earliest, Bool.and_eq_true, kept, Bool.false_eq_true, false_and, if_false, ih]
      split_ifs with last
      · subst last
        cases items.filter keep <;> simp [earliest]
      · rfl

theorem sublist_iff_increasing {rank : α → ℤ} {chosen : List α}
    (increasing : items.Pairwise fun earlier later => rank earlier < rank later) :
    chosen.Sublist items ↔
      chosen.Pairwise (fun earlier later => rank earlier < rank later) ∧
        ∀ item ∈ chosen, item ∈ items := by
  constructor
  · intro picked
    exact ⟨increasing.sublist picked, fun item item_mem => picked.subset item_mem⟩
  · rintro ⟨chosen_increasing, members⟩
    have antisymm : Std.Antisymm fun earlier later : α => rank earlier < rank later :=
      ⟨fun earlier later before after => absurd before (lt_asymm after)⟩
    have distinct : chosen.Nodup := chosen_increasing.imp fun before same => by
      rw [same] at before
      exact lt_irrefl _ before
    exact List.sublist_of_subperm_of_pairwise (List.subperm_of_subset distinct members)
      chosen_increasing increasing

end Seagull.Staging
