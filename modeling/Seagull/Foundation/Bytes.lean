import Seagull.Foundation.Text

/-!
# Texts as bytes, numbers as texts

A Go string is its bytes in UTF-8, and a number is read from a string byte by byte.
-/

namespace Seagull

namespace Text

def bytes (text : String) : List UInt8 := text.toList.flatMap String.utf8EncodeChar

def ofBytes (bytes : List UInt8) : Option String := String.fromUTF8? bytes.toByteArray

theorem bytes_append (front back : String) : bytes (front ++ back) = bytes front ++ bytes back := by
  simp [bytes]

theorem ofBytes_bytes (text : String) : ofBytes (bytes text) = some text := by
  have same : (bytes text).toByteArray = text.toByteArray := String.utf8Encode_toList
  rw [ofBytes, same, String.fromUTF8?, dif_pos text.isValidUTF8]
  rfl

theorem bytes_ne_nil {text : String} (solid : text ≠ "") : bytes text ≠ [] := by
  intro no_bytes
  have back := ofBytes_bytes text
  rw [no_bytes, show ([] : List UInt8) = bytes "" from rfl, ofBytes_bytes] at back
  exact solid (Option.some.inj back).symm

theorem length_bytes (text : String) : (bytes text).length = text.utf8ByteSize := by
  have same : (bytes text).toByteArray = text.toByteArray := String.utf8Encode_toList
  rw [← String.size_toByteArray, ← same, List.size_toByteArray]

theorem bytes_injective {one other : String} (same : bytes one = bytes other) : one = other := by
  have back := ofBytes_bytes one
  rw [same, ofBytes_bytes] at back
  exact (Option.some.inj back).symm

theorem bytes_ofList {letters : List Char} (ascii : ∀ letter ∈ letters, letter.toNat < 128) :
    bytes (String.ofList letters) = letters.map fun letter => UInt8.ofNat letter.toNat := by
  rw [bytes, String.toList_ofList]
  induction letters with
  | nil => rfl
  | cons letter letters ih =>
    have short : letter.utf8Size = 1 := by
      have small := ascii letter List.mem_cons_self
      rw [Char.utf8Size, if_pos]
      exact UInt32.le_iff_toNat_le.mpr (Nat.le_of_lt_succ small)
    rw [List.flatMap_cons, String.utf8EncodeChar_eq_singleton short,
      ih fun other member => ascii other (List.mem_cons_of_mem _ member)]
    rfl

end Text

namespace Decimal

/-- The letters of a number: `strconv.FormatInt` in base ten. -/
def letters (number : ℤ) : List Char :=
  if number < 0 then '-' :: Nat.toDigits 10 number.natAbs else Nat.toDigits 10 number.natAbs

/-- `strconv.FormatInt` in base ten. -/
def format (number : ℤ) : String := String.ofList (letters number)

/-- `strconv.ParseUint` in base ten and 64 bits. -/
def parseUint (letters : List Char) : Option ℕ :=
  if letters ≠ [] ∧ letters.all Char.isDigit ∧ Nat.ofDigitChars 10 letters 0 < 2 ^ 64 then
    some (Nat.ofDigitChars 10 letters 0)
  else none

/-- `strconv.ParseInt` in base ten and 64 bits. -/
def parseInt : List Char → Option ℤ
  | '-' :: digits =>
    (parseUint digits).bind fun number => if number ≤ 2 ^ 63 then some (-number) else none
  | '+' :: digits =>
    (parseUint digits).bind fun number => if number < 2 ^ 63 then some number else none
  | digits =>
    (parseUint digits).bind fun number => if number < 2 ^ 63 then some number else none

theorem parseUint_toDigits {number : ℕ} (small : number < 2 ^ 64) :
    parseUint (Nat.toDigits 10 number) = some number := by
  have digits : (Nat.toDigits 10 number).all Char.isDigit :=
    List.all_eq_true.mpr fun letter member =>
      Nat.isDigit_of_mem_toDigits (by decide) (by decide) member
  simp only [parseUint, Nat.ofDigitChars_ten_toDigits]
  exact if_pos ⟨Nat.toDigits_ne_nil, digits, small⟩

theorem parseInt_of_digit {digits : List Char} (all_digits : ∀ letter ∈ digits, letter.isDigit) :
    parseInt digits =
      (parseUint digits).bind fun number => if number < 2 ^ 63 then some (number : ℤ) else none := by
  fun_cases parseInt digits with
  | case1 digits => exact absurd (all_digits '-' List.mem_cons_self) (by decide)
  | case2 digits => exact absurd (all_digits '+' List.mem_cons_self) (by decide)
  | case3 => rfl

theorem parseInt_letters {number : ℤ} (lower : -2 ^ 63 ≤ number) (upper : number < 2 ^ 63) :
    parseInt (letters number) = some number := by
  have small : number.natAbs < 2 ^ 64 := by omega
  by_cases negative : number < 0
  · have fits : number.natAbs ≤ 2 ^ 63 := by omega
    rw [letters, if_pos negative, parseInt, parseUint_toDigits small, Option.bind_some,
      if_pos fits]
    congr 1
    omega
  · have fits : number.natAbs < 2 ^ 63 := by omega
    rw [letters, if_neg negative, parseInt_of_digit fun letter member =>
      Nat.isDigit_of_mem_toDigits (by decide) (by decide) member, parseUint_toDigits small,
      Option.bind_some, if_pos fits]
    congr 1
    omega

theorem of_mem_letters {number : ℤ} {letter : Char} (written : letter ∈ letters number) :
    letter = '-' ∨ letter.isDigit := by
  unfold letters at written
  split at written
  · rcases List.mem_cons.mp written with sign | digit
    · exact .inl sign
    · exact .inr (Nat.isDigit_of_mem_toDigits (by decide) (by decide) digit)
  · exact .inr (Nat.isDigit_of_mem_toDigits (by decide) (by decide) written)

theorem format_injective {one other : ℤ} (same : format one = format other) : one = other := by
  have same_letters : letters one = letters other := String.ofList_injective same
  have value : ∀ number : ℤ, Nat.ofDigitChars 10 (Nat.toDigits 10 number.natAbs) 0 =
      number.natAbs := fun number => Nat.ofDigitChars_toDigits (by decide) (by decide)
  have unsigned : ∀ number : ℕ, '-' ∉ Nat.toDigits 10 number := fun number member =>
    absurd (Nat.isDigit_of_mem_toDigits (by decide) (by decide) member) (by decide)
  have same_digits : ∀ {first second : ℤ},
      Nat.toDigits 10 first.natAbs = Nat.toDigits 10 second.natAbs →
        first.natAbs = second.natAbs := by
    intro first second same
    rw [← value first, ← value second, same]
  unfold letters at same_letters
  split at same_letters <;> split at same_letters
  · have := same_digits (List.cons.inj same_letters).2
    omega
  · exact absurd (same_letters ▸ List.mem_cons_self) (unsigned other.natAbs)
  · exact absurd (same_letters ▸ List.mem_cons_self) (unsigned one.natAbs)
  · have := same_digits same_letters
    omega

theorem toString_injective {one other : ℕ} (same : toString one = toString other) : one = other := by
  have letters := congrArg (fun text : String => Nat.ofDigitChars 10 text.toList 0) same
  simpa [Nat.repr] using letters

theorem toString_eq_format (number : ℤ) : toString number = format number := by
  cases number with
  | ofNat number =>
    have nonneg : ¬ (number : ℤ) < 0 := by omega
    simp [format, letters, toString, Int.repr, Nat.repr_eq_ofList_toDigits, nonneg]
  | negSucc number =>
    simp [format, letters, toString, Int.repr, Nat.repr_eq_ofList_toDigits, Int.negSucc_lt_zero]

end Decimal
end Seagull
