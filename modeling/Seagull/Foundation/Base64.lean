import Mathlib.Tactic

/-!
# Base64

Go's `base64.RawURLEncoding`: three bytes as four letters of the URL alphabet, and no padding.  The
decoder passes over line breaks, and over the bits of the last letter that no byte is made of.
-/

namespace Seagull.Base64

/-- The letters, in the order of the values they stand for. -/
def alphabet : List Char :=
  "ABCDEFGHIJKLMNOPQRSTUVWXYZabcdefghijklmnopqrstuvwxyz0123456789-_".toList

def letter (value : ℕ) : Char := alphabet.getD value 'A'

def valueOf (letter : Char) : Option ℕ := alphabet.findIdx? (· == letter)

/-- Bytes, six bits at a time. -/
def pack : List UInt8 → List ℕ
  | [] => []
  | [a] => [a.toNat / 4, a.toNat % 4 * 16]
  | [a, b] => [a.toNat / 4, a.toNat % 4 * 16 + b.toNat / 16, b.toNat % 16 * 4]
  | a :: b :: c :: rest =>
    [a.toNat / 4, a.toNat % 4 * 16 + b.toNat / 16, b.toNat % 16 * 4 + c.toNat / 64,
      c.toNat % 64] ++ pack rest

/-- The bytes that values of six bits make; one value alone makes none. -/
def unpack : List ℕ → Option (List UInt8)
  | [] => some []
  | [_] => none
  | [p, q] => some [UInt8.ofNat (p * 4 + q / 16)]
  | [p, q, r] => some [UInt8.ofNat (p * 4 + q / 16), UInt8.ofNat (q % 16 * 16 + r / 4)]
  | p :: q :: r :: s :: rest =>
    (unpack rest).map fun bytes =>
      UInt8.ofNat (p * 4 + q / 16) :: UInt8.ofNat (q % 16 * 16 + r / 4) ::
        UInt8.ofNat (r % 4 * 64 + s) :: bytes

/-- `Encoding.EncodeToString`. -/
def encode (bytes : List UInt8) : String := String.ofList ((pack bytes).map letter)

/-- Whether a letter is passed over. -/
def isBreak (letter : Char) : Bool := letter == '\r' || letter == '\n'

/-- `Encoding.DecodeString`. -/
def decode (text : String) : Option (List UInt8) :=
  ((text.toList.filter fun letter => !isBreak letter).mapM valueOf).bind unpack

theorem valueOf_letter : ∀ value < 64, valueOf (letter value) = some value := by
  decide +kernel

theorem isBreak_letter : ∀ value < 64, isBreak (letter value) = false := by
  decide +kernel

theorem pack_lt (bytes : List UInt8) : ∀ value ∈ pack bytes, value < 64 := by
  fun_induction pack bytes with
  | case1 => simp
  | case2 a =>
    have := a.toNat_lt
    simp only [List.mem_cons, List.not_mem_nil, or_false]
    omega
  | case3 a b =>
    have := a.toNat_lt
    have := b.toNat_lt
    simp only [List.mem_cons, List.not_mem_nil, or_false]
    omega
  | case4 a b c rest ih =>
    have := a.toNat_lt
    have := b.toNat_lt
    have := c.toNat_lt
    intro value member
    rcases List.mem_append.mp member with here | later
    · simp only [List.mem_cons, List.not_mem_nil, or_false] at here
      omega
    · exact ih value later

private theorem byte_of_bits {byte : UInt8} {number : ℕ} (same : number = byte.toNat) :
    UInt8.ofNat number = byte := by
  rw [same, UInt8.ofNat_toNat]

theorem unpack_pack (bytes : List UInt8) : unpack (pack bytes) = some bytes := by
  fun_induction pack bytes with
  | case1 => rfl
  | case2 a =>
    have := a.toNat_lt
    simp only [unpack, Option.some.injEq, List.cons.injEq, and_true]
    exact byte_of_bits (by omega)
  | case3 a b =>
    have := a.toNat_lt
    have := b.toNat_lt
    simp only [unpack, Option.some.injEq, List.cons.injEq, and_true]
    exact ⟨byte_of_bits (by omega), byte_of_bits (by omega)⟩
  | case4 a b c rest ih =>
    have := a.toNat_lt
    have := b.toNat_lt
    have := c.toNat_lt
    simp only [List.cons_append, List.nil_append, unpack, ih, Option.map_some, Option.some.injEq, List.cons.injEq, and_true]
    exact ⟨byte_of_bits (by omega), byte_of_bits (by omega), byte_of_bits (by omega)⟩

theorem mapM_valueOf_letter {values : List ℕ} (small : ∀ value ∈ values, value < 64) :
    (values.map letter).mapM valueOf = some values := by
  induction values with
  | nil => rfl
  | cons value values ih =>
    have head := valueOf_letter value (small value List.mem_cons_self)
    have tail := ih fun other member => small other (List.mem_cons_of_mem _ member)
    simp [head, tail]

theorem decode_encode (bytes : List UInt8) : decode (encode bytes) = some bytes := by
  have unbroken : ((pack bytes).map letter).filter (fun letter => !isBreak letter) =
      (pack bytes).map letter := by
    rw [List.filter_eq_self]
    intro written member
    obtain ⟨value, packed, rfl⟩ := List.mem_map.mp member
    rw [isBreak_letter value (pack_lt bytes value packed), Bool.not_false]
  rw [decode, encode, String.toList_ofList, unbroken, mapM_valueOf_letter (pack_lt bytes),
    Option.bind_some, unpack_pack]

theorem encode_ne_empty {bytes : List UInt8} (some_byte : bytes ≠ []) : encode bytes ≠ "" := by
  intro empty
  have back := decode_encode bytes
  rw [empty] at back
  exact some_byte (Option.some.inj back).symm

end Seagull.Base64
