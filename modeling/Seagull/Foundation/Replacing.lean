import Mathlib.Tactic

/-!
# Tables that keep the newest row of a key

Rows are only ever added.  Of the rows under a key, a reader sees one with the greatest version; of
several, the one added last.
-/

namespace Seagull.Replacing

variable {ρ κ α : Type} [DecidableEq κ] [LinearOrder α] (key : ρ → κ) (version : ρ → α)

def newer (seen : Option ρ) (row : ρ) : Option ρ :=
  if seen.all fun held => version held ≤ version row then some row else seen

def final (rows : List ρ) (under : κ) : Option ρ :=
  (rows.filter fun row => key row = under).foldl (newer version) none

variable {key version}

theorem foldl_newer_spec (rows : List ρ) :
    (∀ seen, rows.foldl (newer version) none = some seen →
      seen ∈ rows ∧ ∀ row ∈ rows, version row ≤ version seen) ∧
      (rows ≠ [] → (rows.foldl (newer version) none).isSome) := by
  induction rows using List.reverseRecOn with
  | nil => exact ⟨nofun, fun nonempty => absurd rfl nonempty⟩
  | append_singleton rows row ih =>
    rw [List.foldl_append, List.foldl_cons, List.foldl_nil]
    generalize rows.foldl (newer version) none = held at ih
    unfold newer
    split
    · next newest =>
        refine ⟨fun seen seen_eq => ?_, fun _ => rfl⟩
        obtain rfl := Option.some.inj seen_eq
        refine ⟨by simp, fun other member => ?_⟩
        rcases List.mem_append.mp member with earlier | itself
        · obtain ⟨before, before_eq⟩ := Option.isSome_iff_exists.mp
            (ih.2 (List.ne_nil_of_mem earlier))
          rw [before_eq, Option.all_some, decide_eq_true_eq] at newest
          exact ((ih.1 before before_eq).2 other earlier).trans newest
        · rw [List.mem_singleton.mp itself]
    · next older =>
        cases held with
        | none => exact absurd rfl older
        | some before =>
          simp only [Option.all_some, decide_eq_true_eq, not_le] at older
          refine ⟨fun seen seen_eq => ?_, fun _ => rfl⟩
          obtain rfl := Option.some.inj seen_eq
          obtain ⟨among, greatest⟩ := ih.1 before rfl
          refine ⟨by simp [among], fun other member => ?_⟩
          rcases List.mem_append.mp member with earlier | itself
          · exact greatest other earlier
          · rw [List.mem_singleton.mp itself]
            exact older.le

theorem final_spec {rows : List ρ} {under : κ} {seen : ρ}
    (seen_eq : final key version rows under = some seen) :
    seen ∈ rows ∧ key seen = under ∧ ∀ row ∈ rows, key row = under → version row ≤ version seen := by
  obtain ⟨among, greatest⟩ := (foldl_newer_spec _).1 seen seen_eq
  obtain ⟨member, same⟩ := List.mem_filter.mp among
  exact ⟨member, of_decide_eq_true same, fun row row_mem row_key =>
    greatest row (List.mem_filter.mpr ⟨row_mem, decide_eq_true row_key⟩)⟩

variable (key version) in
theorem exists_final {rows : List ρ} {row : ρ} (member : row ∈ rows) :
    ∃ seen, final key version rows (key row) = some seen := by
  have among : row ∈ rows.filter fun other => key other = key row :=
    List.mem_filter.mpr ⟨member, decide_eq_true rfl⟩
  exact Option.isSome_iff_exists.mp ((foldl_newer_spec _).2 (List.ne_nil_of_mem among))

end Seagull.Replacing
