import Seagull.Foundation.Bytes

/-!
# Framed text

A text written behind its own length in bytes, so that what follows it cannot be read as part of it.
-/

namespace Seagull

/-- A text behind its length: `%d:%s`. -/
def framed (value : String) : String := toString value.utf8ByteSize ++ ":" ++ value

/-- Texts one behind another, each behind its length. -/
def framedAll (values : List String) : String := String.join (values.map framed)

/-- `slices.Compact`: without the elements that stand behind an equal one. -/
def compact {α : Type} [DecidableEq α] : List α → List α
  | first :: second :: rest =>
    if first = second then compact (second :: rest) else first :: compact (second :: rest)
  | items => items

/-- Bytes as two hexadecimal digits each. -/
def hexEncode (bytes : List UInt8) : String :=
  String.ofList (bytes.flatMap fun byte =>
    [Nat.digitChar (byte.toNat / 16), Nat.digitChar (byte.toNat % 16)])

theorem digitChar_injective {one other : ℕ} (one_small : one < 16) (other_small : other < 16)
    (same : Nat.digitChar one = Nat.digitChar other) : one = other := by
  have told : ∀ first < 16, ∀ second < 16, Nat.digitChar first = Nat.digitChar second →
      first = second := by decide
  exact told one one_small other other_small same

theorem hexEncode_injective {bytes others : List UInt8} (same : hexEncode bytes = hexEncode others) :
    bytes = others := by
  have same_letters := String.ofList_injective same
  clear same
  induction bytes generalizing others with
  | nil =>
    cases others with
    | nil => rfl
    | cons other others => cases same_letters
  | cons byte bytes ih =>
    cases others with
    | nil => cases same_letters
    | cons other others =>
      simp only [List.flatMap_cons, List.cons_append, List.nil_append, List.cons.injEq]
        at same_letters
      obtain ⟨high, low, rest⟩ := same_letters
      have small := byte.toNat_lt
      have other_small := other.toNat_lt
      have same_high := digitChar_injective (by omega) (by omega) high
      have same_low := digitChar_injective (by omega) (by omega) low
      have same_byte : byte = other := UInt8.toNat_inj.mp (by omega)
      rw [same_byte, ih rest]

theorem append_mark_inj {α : Type} {mark : α} {front back other behind : List α}
    (unmarked : mark ∉ front) (other_unmarked : mark ∉ other)
    (same : front ++ mark :: back = other ++ mark :: behind) : front = other ∧ back = behind := by
  induction front generalizing other with
  | nil =>
    cases other with
    | nil => exact ⟨rfl, (List.cons.inj same).2⟩
    | cons first other =>
      exact absurd (List.cons.inj same).1 (List.ne_and_not_mem_of_not_mem_cons other_unmarked).1
  | cons first front ih =>
    cases other with
    | nil =>
      exact absurd (List.cons.inj same).1.symm (List.ne_and_not_mem_of_not_mem_cons unmarked).1
    | cons second other =>
      obtain ⟨rfl, same_rest⟩ := List.cons.inj same
      obtain ⟨rfl, same_back⟩ := ih (List.not_mem_of_not_mem_cons unmarked)
        (List.not_mem_of_not_mem_cons other_unmarked) same_rest
      exact ⟨rfl, same_back⟩

theorem framed_append_inj {one other rest others : String}
    (same : framed one ++ rest = framed other ++ others) : one = other ∧ rest = others := by
  have parts : ∀ value tail : String, (framed value ++ tail).toList =
      Nat.toDigits 10 value.utf8ByteSize ++ ':' :: (value ++ tail).toList := by
    intro value tail
    simp [framed, Nat.repr]
  have no_mark : ∀ number : ℕ, ':' ∉ Nat.toDigits 10 number := fun number member =>
    absurd (Nat.isDigit_of_mem_toDigits (by decide) (by decide) member) (by decide)
  have letters := congrArg String.toList same
  rw [parts, parts] at letters
  obtain ⟨digits, behind⟩ := append_mark_inj (no_mark _) (no_mark _) letters
  have same_length : one.utf8ByteSize = other.utf8ByteSize := by
    rw [← Nat.ofDigitChars_toDigits (by decide) (by decide) (b := 10) (n := one.utf8ByteSize), digits,
      Nat.ofDigitChars_toDigits (by decide) (by decide)]
  have same_bytes := congrArg Text.bytes (String.toList_injective behind)
  rw [Text.bytes_append, Text.bytes_append] at same_bytes
  obtain ⟨same_value, same_rest⟩ := List.append_inj same_bytes (by
    rw [Text.length_bytes, Text.length_bytes, same_length])
  exact ⟨Text.bytes_injective same_value, Text.bytes_injective same_rest⟩

theorem framedAll_cons (value : String) (values : List String) :
    framedAll (value :: values) = framed value ++ framedAll values := by
  simp [framedAll]

theorem framed_ne_empty (value : String) : framed value ≠ "" := by
  intro empty
  have letters := congrArg String.toList empty
  simp [framed] at letters

theorem framedAll_injective {values others : List String}
    (same : framedAll values = framedAll others) : values = others := by
  induction values generalizing others with
  | nil =>
    cases others with
    | nil => rfl
    | cons other others =>
      rw [framedAll_cons] at same
      have empty := String.append_eq_empty_iff.mp same.symm
      exact absurd empty.1 (framed_ne_empty other)
  | cons value values ih =>
    cases others with
    | nil =>
      rw [framedAll_cons] at same
      have empty := String.append_eq_empty_iff.mp same
      exact absurd empty.1 (framed_ne_empty value)
    | cons other others =>
      rw [framedAll_cons, framedAll_cons] at same
      obtain ⟨rfl, same_rest⟩ := framed_append_inj same
      rw [ih same_rest]

theorem framedAll_append (values others : List String) :
    framedAll (values ++ others) = framedAll values ++ framedAll others := by
  simp [framedAll]

/-- A number in eight bytes, the greatest first. -/
def bigEndian (number : ℕ) : List UInt8 :=
  [number / 2 ^ 56, number / 2 ^ 48, number / 2 ^ 40, number / 2 ^ 32, number / 2 ^ 24,
    number / 2 ^ 16, number / 2 ^ 8, number].map UInt8.ofNat

theorem bigEndian_injective {one other : ℕ} (one_fits : one < 2 ^ 64) (other_fits : other < 2 ^ 64)
    (same : bigEndian one = bigEndian other) : one = other := by
  simp only [bigEndian, List.map_cons, List.map_nil, List.cons.injEq, ← UInt8.toNat_inj,
    UInt8.toNat_ofNat', and_true] at same
  omega

def sized (text : String) : List UInt8 := bigEndian text.utf8ByteSize ++ Text.bytes text

theorem flatMap_sized_injective {texts others : List String}
    (texts_fit : ∀ text ∈ texts, text.utf8ByteSize < 2 ^ 64)
    (others_fit : ∀ text ∈ others, text.utf8ByteSize < 2 ^ 64)
    (same : texts.flatMap sized = others.flatMap sized) : texts = others := by
  induction texts generalizing others with
  | nil =>
    cases others with
    | nil => rfl
    | cons other others => simp [sized, bigEndian] at same
  | cons text texts ih =>
    cases others with
    | nil => simp [sized, bigEndian] at same
    | cons other others =>
      rw [List.flatMap_cons, List.flatMap_cons, sized, sized, List.append_assoc,
        List.append_assoc] at same
      obtain ⟨same_size, same_rest⟩ := List.append_inj same rfl
      have same_length := bigEndian_injective (texts_fit text List.mem_cons_self)
        (others_fit other List.mem_cons_self) same_size
      obtain ⟨same_text, same_behind⟩ := List.append_inj same_rest (by
        rw [Text.length_bytes, Text.length_bytes, same_length])
      rw [Text.bytes_injective same_text, ih
        (fun later member => texts_fit later (List.mem_cons_of_mem _ member))
        (fun later member => others_fit later (List.mem_cons_of_mem _ member)) same_behind]

end Seagull
