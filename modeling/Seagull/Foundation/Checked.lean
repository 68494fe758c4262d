import Mathlib.Tactic

/-!
# Checks in a row

A fallible operation is a row of checks that each refuse or let pass, and what is built behind them.
It succeeds exactly when every check lets pass.
-/

namespace Seagull

def refuse {ε : Type} (condition : Prop) [Decidable condition] (failure : ε) : Except ε Unit :=
  if condition then .error failure else .ok ()

variable {ε α β : Type}

@[simp]
theorem refuse_eq_ok {condition : Prop} [Decidable condition] {failure : ε} {passed : Unit} :
    refuse condition failure = .ok passed ↔ ¬ condition := by
  unfold refuse
  split <;> simp_all

theorem checked_eq_ok {first : Except ε α} {rest : α → Except ε β} {result : β} :
    (first >>= rest) = .ok result ↔ ∃ passed, first = .ok passed ∧ rest passed = .ok result := by
  cases first with
  | error failure => simp [bind, Except.bind]
  | ok passed => simp [bind, Except.bind]

theorem exists_passed {property : Unit → Prop} : (∃ passed, property passed) ↔ property () :=
  ⟨fun ⟨(), holds⟩ => holds, fun holds => ⟨(), holds⟩⟩

theorem passes_eq_ok {first : Except ε Unit} {rest : Unit → Except ε β} {result : β} :
    (first >>= rest) = .ok result ↔ first = .ok () ∧ rest () = .ok result := by
  rw [checked_eq_ok, exists_passed]

@[simp]
theorem pure_eq_ok {built result : α} :
    (pure built : Except ε α) = .ok result ↔ built = result := by
  simp [pure, Except.pure]

theorem mapped_eq_ok {first : Except ε α} {build : α → β} {result : β} :
    first.map build = .ok result ↔ ∃ built, first = .ok built ∧ build built = result := by
  cases first with
  | error failure => simp [Except.map]
  | ok built => simp [Except.map]

theorem mapM_map_eq_ok {write : α → β} {read : β → Except ε α} {values : List α}
    (reads_back : ∀ value ∈ values, read (write value) = .ok value) :
    (values.map write).mapM read = .ok values := by
  induction values with
  | nil => rfl
  | cons value values ih =>
    obtain ⟨first, later⟩ := List.forall_mem_cons.mp reads_back
    rw [List.map_cons, List.mapM_cons, first, ih later]
    rfl

end Seagull
