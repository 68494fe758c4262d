import Mathlib.Tactic

/-!
# What was said last

Things are said under revisions, by several speakers and in no order.  What stands is what was said
under the highest revision, if everybody who spoke under it said the same.
-/

namespace Seagull

/-- The highest revision, and what was said under it, if it was one thing. -/
structure Settled (α : Type) where
  revision : ℕ
  stands : Option α

namespace Settled

variable {α : Type}

def hear [DecidableEq α] (held : Option (Settled α)) (revision : ℕ) (value : α) : Settled α :=
  match held with
  | none => ⟨revision, some value⟩
  | some held =>
    if revision < held.revision then held
    else if revision = held.revision ∧ held.stands ≠ some value then ⟨held.revision, none⟩
    else ⟨revision, some value⟩

/-- What stands, of what was said. -/
inductive Of (said : ℕ → α → Prop) : Option (Settled α) → Prop
  /-- Nothing was said. -/
  | silent (nothing : ∀ revision value, ¬ said revision value) : Of said none
  /-- Something was said under the highest revision, and everybody said it. -/
  | agreed (revision : ℕ) (value : α) (spoken : said revision value)
      (highest : ∀ other spoken, said other spoken → other ≤ revision)
      (one : ∀ spoken, said revision spoken → spoken = value) : Of said (some ⟨revision, some value⟩)
  /-- Two things were said under the highest revision. -/
  | split (revision : ℕ) (value other : α) (spoken : said revision value)
      (against : said revision other) (differ : other ≠ value)
      (highest : ∀ other spoken, said other spoken → other ≤ revision) :
      Of said (some ⟨revision, none⟩)

variable {said : ℕ → α → Prop}

theorem Of.unique {one other : Option (Settled α)} (one_of : Of said one) (other_of : Of said other)
    : one = other := by
  cases one_of with
  | silent nothing =>
    cases other_of with
    | silent => rfl
    | agreed _ _ spoken => exact absurd spoken (nothing _ _)
    | split _ _ _ spoken => exact absurd spoken (nothing _ _)
  | agreed revision value spoken highest same =>
    cases other_of with
    | silent nothing => exact absurd spoken (nothing _ _)
    | agreed revision' value' spoken' highest' same' =>
      obtain rfl := le_antisymm (highest' _ _ spoken) (highest _ _ spoken')
      rw [same _ spoken']
    | split revision' value' against' spoken' opposed differ highest' =>
      obtain rfl := le_antisymm (highest' _ _ spoken) (highest _ _ spoken')
      exact absurd ((same _ opposed).trans (same _ spoken').symm) differ
  | split revision value against spoken opposed differ highest =>
    cases other_of with
    | silent nothing => exact absurd spoken (nothing _ _)
    | agreed revision' value' spoken' highest' same' =>
      obtain rfl := le_antisymm (highest' _ _ spoken) (highest _ _ spoken')
      exact absurd ((same' _ opposed).trans (same' _ spoken).symm) differ
    | split revision' value' against' spoken' opposed' differ' highest' =>
      obtain rfl := le_antisymm (highest' _ _ spoken) (highest _ _ spoken')
      rfl

theorem Of.hear [DecidableEq α] {held : Option (Settled α)} (of : Of said held) (revision : ℕ)
    (value : α) :
    Of (fun other spoken => said other spoken ∨ other = revision ∧ spoken = value)
      (some (Settled.hear held revision value)) := by
  have within : ∀ {standing bound : ℕ}, (∀ other spoken, said other spoken → other ≤ standing) →
      standing ≤ bound → revision ≤ bound → ∀ other heard,
        said other heard ∨ other = revision ∧ heard = value → other ≤ bound := by
    rintro standing bound highest passed reached other heard (before | ⟨rfl, rfl⟩)
    · exact (highest _ _ before).trans passed
    · exact reached
  cases of with
  | silent nothing =>
    refine .agreed revision value (.inr ⟨rfl, rfl⟩) ?_ ?_
    · rintro other spoken (before | ⟨rfl, rfl⟩)
      · exact absurd before (nothing _ _)
      · exact le_rfl
    · rintro spoken (before | ⟨-, rfl⟩)
      · exact absurd before (nothing _ _)
      · rfl
  | agreed standing stood spoken highest same =>
    simp only [Settled.hear]
    split_ifs with lower conflict
    · refine .agreed standing stood (.inl spoken) (within highest le_rfl lower.le) ?_
      rintro heard (before | ⟨rfl, rfl⟩)
      · exact same _ before
      · exact absurd lower (lt_irrefl _)
    · obtain ⟨rfl, differ⟩ := conflict
      exact .split revision stood value (.inl spoken) (.inr ⟨rfl, rfl⟩)
        (fun equal => differ (by rw [equal])) (within highest le_rfl le_rfl)
    · refine .agreed revision value (.inr ⟨rfl, rfl⟩) (within highest (not_lt.mp lower) le_rfl) ?_
      rintro heard (before | ⟨-, rfl⟩)
      · have level : revision = standing := le_antisymm (highest _ _ before) (not_lt.mp lower)
        have stays : stood = value := by
          by_contra differ
          exact conflict ⟨level, fun equal => differ (Option.some.inj equal)⟩
        exact (same _ (level ▸ before)).trans stays
      · rfl
  | split standing stood against spoken opposed differ highest =>
    simp only [Settled.hear]
    split_ifs with lower conflict
    · exact .split standing stood against (.inl spoken) (.inl opposed) differ
        (within highest le_rfl lower.le)
    · obtain ⟨rfl, -⟩ := conflict
      exact .split revision stood against (.inl spoken) (.inl opposed) differ
        (within highest le_rfl le_rfl)
    · refine .agreed revision value (.inr ⟨rfl, rfl⟩) (within highest (not_lt.mp lower) le_rfl) ?_
      rintro heard (before | ⟨-, rfl⟩)
      · have level : revision = standing := le_antisymm (highest _ _ before) (not_lt.mp lower)
        exact absurd ⟨level, by simp⟩ conflict
      · rfl

/-- Hear things one after another. -/
def hearAll [DecidableEq α] (held : Option (Settled α)) (said : List (ℕ × α)) :
    Option (Settled α) :=
  said.foldl (fun held spoken => some (hear held spoken.1 spoken.2)) held

theorem of_hearAll [DecidableEq α] (said : List (ℕ × α)) :
    Of (fun revision value => (revision, value) ∈ said) (hearAll none said) := by
  -- The list is heard from the front, so it is taken apart from the back.
  induction said using List.reverseRecOn with
  | nil => exact .silent (by simp)
  | append_singleton said spoken ih =>
    rw [hearAll, List.foldl_append]
    have heard := ih.hear spoken.1 spoken.2
    refine cast (congrArg (fun said => Of said _) ?_) heard
    funext revision value
    simp [Prod.ext_iff]

theorem hearAll_eq_of_mem_iff [DecidableEq α] {one other : List (ℕ × α)}
    (same : ∀ spoken, spoken ∈ one ↔ spoken ∈ other) : hearAll none one = hearAll none other := by
  have one_of := of_hearAll one
  simp only [same] at one_of
  exact one_of.unique (of_hearAll other)

theorem Of.stands_iff {held : Option (Settled α)} (of : Of said held) (value : α) :
    (held.bind Settled.stands) = some value ↔
      (∃ revision spoken, said revision spoken) ∧
        ∀ revision spoken, said revision spoken →
          (∀ other heard, said other heard → other ≤ revision) → spoken = value := by
  cases of with
  | silent nothing => simp [nothing]
  | agreed revision stood spoken highest same =>
    simp only [Option.bind_some, Option.some.injEq]
    constructor
    · rintro rfl
      refine ⟨⟨revision, _, spoken⟩, fun other heard before top => ?_⟩
      obtain rfl := le_antisymm (highest _ _ before) (top _ _ spoken)
      exact same _ before
    · rintro ⟨-, all⟩
      exact all revision stood spoken highest
  | split revision stood against spoken opposed differ highest =>
    simp only [Option.bind_some, reduceCtorEq, false_iff, not_and]
    intro _ all
    exact differ ((all revision against opposed highest).trans
      (all revision stood spoken highest).symm)

end Settled
end Seagull
