import Mathlib.Tactic

/-!
# Systems that take one action after another

A system is where it can start and what an action makes of a state, if the state permits it.  What
holds at the start and is kept by every action holds at the end of every run.
-/

namespace Seagull

/-- A system of states and actions. -/
structure System (σ α : Type) where
  starts : σ → Prop
  /-- What an action makes of a state, if the state permits it. -/
  step : σ → α → Option σ

namespace System

variable {σ α : Type} (system : System σ α)

def run (state : σ) : List α → Option σ
  | [] => some state
  | action :: actions => (system.step state action).bind fun after => run after actions

/-- Every action of a run meets a condition, in the state it is taken in. -/
def Throughout (condition : σ → α → Prop) (state : σ) : List α → Prop
  | [] => True
  | action :: actions =>
    condition state action ∧
      ∀ after, system.step state action = some after → Throughout condition after actions

def Always (property : σ → Prop) (state : σ) : List α → Prop
  | [] => property state
  | action :: actions =>
    property state ∧
      ∀ after, system.step state action = some after → Always property after actions

def Reaches (state : σ) : Prop :=
  ∃ start actions, system.starts start ∧ system.run start actions = some state

def ReachesUnder (condition : σ → α → Prop) (state : σ) : Prop :=
  ∃ start actions, system.starts start ∧ system.Throughout condition start actions ∧
    system.run start actions = some state

instance decidableThroughout (condition : σ → α → Prop)
    [decidable : ∀ state action, Decidable (condition state action)] (state : σ)
    (actions : List α) : Decidable (system.Throughout condition state actions) :=
  match actions with
  | [] => .isTrue trivial
  | action :: actions =>
    match decidable state action with
    | .isFalse fails => .isFalse fun throughout => fails throughout.1
    | .isTrue holds =>
      match stepped : system.step state action with
      | none => .isTrue ⟨holds, fun _ equal => by rw [stepped] at equal; cases equal⟩
      | some after =>
        match decidableThroughout condition after actions with
        | .isTrue rest => .isTrue ⟨holds, fun other equal => by
          rw [stepped] at equal
          exact Option.some.inj equal ▸ rest⟩
        | .isFalse fails => .isFalse fun throughout => fails (throughout.2 after stepped)

variable {system}

variable {actions : List α}

theorem run_cons {before after : σ} {action : α} :
    system.run before (action :: actions) = some after ↔
      ∃ between, system.step before action = some between ∧
        system.run between actions = some after := by
  rw [run, Option.bind_eq_some_iff]

theorem throughout_true (state : σ) (actions : List α) :
    system.Throughout (fun _ _ => True) state actions := by
  induction actions generalizing state with
  | nil => trivial
  | cons action actions ih => exact ⟨trivial, fun after _ => ih after⟩

theorem throughout_of_forall {condition : α → Prop} (holds : ∀ action ∈ actions, condition action)
    (state : σ) : system.Throughout (fun _ action => condition action) state actions := by
  induction actions generalizing state with
  | nil => trivial
  | cons action actions ih =>
    exact ⟨holds action List.mem_cons_self,
      fun after _ => ih (fun other member => holds other (List.mem_cons_of_mem _ member)) after⟩

variable {condition : σ → α → Prop} {kept : σ → Prop} {state : σ}

section

variable (step_keeps : ∀ before action after, kept before → condition before action →
  system.step before action = some after → kept after)

include step_keeps

theorem run_keeps {before after : σ} {actions : List α} (held : kept before)
    (throughout : system.Throughout condition before actions)
    (ran : system.run before actions = some after) : kept after := by
  induction actions generalizing before with
  | nil =>
    rw [run, Option.some.injEq] at ran
    exact ran ▸ held
  | cons action actions ih =>
    obtain ⟨between, stepped, rest⟩ := run_cons.mp ran
    exact ih (step_keeps before action between held throughout.1 stepped)
      (throughout.2 between stepped) rest

theorem always_of_throughout (held : kept state)
    (throughout : system.Throughout condition state actions) :
    system.Always kept state actions := by
  induction actions generalizing state with
  | nil => exact held
  | cons action actions ih =>
    refine ⟨held, fun after stepped => ?_⟩
    exact ih (step_keeps state action after held throughout.1 stepped)
      (throughout.2 after stepped)

end

theorem Always.start {property : σ → Prop} (always : system.Always property state actions) :
    property state := by
  cases actions with
  | nil => exact always
  | cons action actions => exact always.1

theorem Always.imp {property weaker : σ → Prop} (imp : ∀ state, property state → weaker state)
    (always : system.Always property state actions) : system.Always weaker state actions := by
  induction actions generalizing state with
  | nil => exact imp state always
  | cons action actions ih =>
    exact ⟨imp state always.1, fun after stepped => ih (always.2 after stepped)⟩

theorem Reaches.invariant (reaches : system.Reaches state)
    (starts_keep : ∀ start, system.starts start → kept start)
    (step_keeps : ∀ before action after, kept before →
      system.step before action = some after → kept after) : kept state := by
  obtain ⟨start, actions, starts, ran⟩ := reaches
  exact run_keeps (fun before action after held _ => step_keeps before action after held)
    (starts_keep start starts) (throughout_true start actions) ran

theorem ReachesUnder.invariant (reaches : system.ReachesUnder condition state)
    (starts_keep : ∀ start, system.starts start → kept start)
    (step_keeps : ∀ before action after, kept before → condition before action →
      system.step before action = some after → kept after) : kept state := by
  obtain ⟨start, actions, starts, throughout, ran⟩ := reaches
  exact run_keeps step_keeps (starts_keep start starts) throughout ran

theorem run_relates {kept : σ → Prop} {relates : σ → σ → Prop} (refl : ∀ state, relates state state)
    (trans : ∀ {first second third}, relates first second → relates second third →
      relates first third)
    (step_keeps : ∀ before action after, kept before →
      system.step before action = some after → kept after ∧ relates before after)
    {before after : σ} {actions : List α} (held : kept before)
    (ran : system.run before actions = some after) : relates before after := by
  induction actions generalizing before with
  | nil =>
    rw [run, Option.some.injEq] at ran
    exact ran ▸ refl before
  | cons action actions ih =>
    obtain ⟨between, stepped, rest⟩ := run_cons.mp ran
    have one := step_keeps before action between held stepped
    exact trans one.2 (ih one.1 rest)

end System
end Seagull
