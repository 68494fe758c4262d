import Seagull.Foundation.Text

/-!
# Numbers of any size as their digits

The value of a row of decimal digits, without a bound, and how it compares with the order of the
rows as text.
-/

namespace Seagull.Digits

/-- The number a row of digits writes. -/
def value (letters : List Char) : ℕ := Nat.ofDigitChars 10 letters 0

/-- Digits alone, at least one of them, the first of several not a zero. -/
def Plain (letters : List Char) : Prop :=
  letters ≠ [] ∧ letters.all Text.isDigit ∧ (1 < letters.length → letters.head? ≠ some '0')

theorem toNat_bounds {letter : Char} (digit : Text.isDigit letter) :
    48 ≤ letter.toNat ∧ letter.toNat ≤ 57 := by
  simp only [Text.isDigit, Bool.and_eq_true, decide_eq_true_eq, Char.le_def,
    UInt32.le_iff_toNat_le] at digit
  exact digit

theorem value_cons (first : Char) (rest : List Char) :
    value (first :: rest) = 10 ^ rest.length * (first.toNat - 48) + value rest := by
  rw [value, Nat.ofDigitChars_cons, Nat.ofDigitChars_eq_ofDigitChars_zero, Nat.mul_zero,
    Nat.zero_add]
  rfl

theorem value_lt {letters : List Char} (digits : letters.all Text.isDigit) :
    value letters < 10 ^ letters.length := by
  induction letters with
  | nil => simp [value]
  | cons first rest ih =>
    rw [List.all_cons, Bool.and_eq_true] at digits
    have first_le := (toNat_bounds digits.1).2
    have rest_lt := ih digits.2
    have scaled : 10 ^ rest.length * (first.toNat - 48) ≤ 10 ^ rest.length * 9 :=
      Nat.mul_le_mul_left _ (by omega)
    rw [value_cons, List.length_cons, pow_succ]
    omega

theorem pow_le_value {first : Char} {rest : List Char} (digit : Text.isDigit first)
    (leads : first ≠ '0') : 10 ^ rest.length ≤ value (first :: rest) := by
  have first_pos : 1 ≤ first.toNat - 48 := by
    have nonzero : first.toNat ≠ 48 := fun zero => leads (Char.toNat_inj.mp zero)
    have := (toNat_bounds digit).1
    omega
  rw [value_cons]
  exact le_trans (Nat.le_mul_of_pos_right _ first_pos) (Nat.le_add_right _ _)

theorem value_lt_of_length_lt {left right : List Char} (left_plain : Plain left)
    (right_plain : Plain right) (shorter : left.length < right.length) :
    value left < value right := by
  obtain ⟨left_some, left_digits, -⟩ := left_plain
  obtain ⟨-, right_digits, right_leads⟩ := right_plain
  have left_pos := List.length_pos_iff.mpr left_some
  cases right with
  | nil => simp at shorter
  | cons first rest =>
    rw [List.length_cons] at shorter
    have leads : first ≠ '0' := by
      simpa using right_leads (by rw [List.length_cons]; omega)
    rw [List.all_cons, Bool.and_eq_true] at right_digits
    calc
      value left < 10 ^ left.length := value_lt left_digits
      _ ≤ 10 ^ rest.length := Nat.pow_le_pow_right (by omega) (by omega)
      _ ≤ value (first :: rest) := pow_le_value right_digits.1 leads

theorem value_lt_iff {left right : List Char} (left_digits : left.all Text.isDigit)
    (right_digits : right.all Text.isDigit) (same : left.length = right.length) :
    value left < value right ↔ left < right := by
  induction left generalizing right with
  | nil =>
    rw [List.length_nil, eq_comm, List.length_eq_zero_iff] at same
    subst same
    simp [value]
  | cons first rest ih =>
    cases right with
    | nil => simp at same
    | cons start others =>
      rw [List.all_cons, Bool.and_eq_true] at left_digits right_digits
      rw [List.length_cons, List.length_cons, Nat.add_right_cancel_iff] at same
      have rest_lt := value_lt left_digits.2
      have others_lt := value_lt right_digits.2
      have first_bounds := toNat_bounds left_digits.1
      have start_bounds := toNat_bounds right_digits.1
      rw [List.cons_lt_cons_iff, value_cons, value_cons, ← ih left_digits.2 right_digits.2 same,
        same]
      rw [same] at rest_lt
      -- The first digits decide unless they are one digit.
      rcases lt_trichotomy first.toNat start.toNat with less | equal | more
      · have first_lt : first < start := less
        have scaled : 10 ^ others.length * (first.toNat - 48 + 1) ≤
            10 ^ others.length * (start.toNat - 48) := Nat.mul_le_mul_left _ (by omega)
        rw [Nat.mul_add] at scaled
        simp only [first_lt, true_or, iff_true]
        omega
      · obtain rfl : first = start := Char.toNat_inj.mp equal
        simp
      · have start_lt : start < first := more
        have scaled : 10 ^ others.length * (start.toNat - 48 + 1) ≤
            10 ^ others.length * (first.toNat - 48) := Nat.mul_le_mul_left _ (by omega)
        rw [Nat.mul_add] at scaled
        simp only [not_lt_of_gt start_lt, ne_of_gt start_lt, false_and, or_self, iff_false]
        omega

theorem value_injective {left right : List Char} (left_plain : Plain left)
    (right_plain : Plain right) (same : value left = value right) : left = right := by
  rcases lt_trichotomy left.length right.length with shorter | equal | longer
  · exact absurd same (value_lt_of_length_lt left_plain right_plain shorter).ne
  · have not_less := (value_lt_iff left_plain.2.1 right_plain.2.1 equal).not.mp same.not_lt
    have not_more := (value_lt_iff right_plain.2.1 left_plain.2.1 equal.symm).not.mp same.not_gt
    exact le_antisymm (not_lt.mp not_more) (not_lt.mp not_less)
  · exact absurd same (value_lt_of_length_lt right_plain left_plain longer).ne'

end Seagull.Digits
