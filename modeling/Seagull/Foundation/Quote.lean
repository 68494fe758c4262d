import Mathlib.Tactic

/-!
# Quoted text

`strconv.Quote`: text between double quotes, with the characters that are not printable written as
escapes.  Which characters are printable is a table of the standard library, and a parameter here.
-/

namespace Seagull.Quote

/-- The lowest hexadecimal digits of a number, most significant first. -/
def hex : ℕ → ℕ → List Char
  | 0, _ => []
  | width + 1, number => hex width (number / 16) ++ [Nat.digitChar (number % 16)]

/-- One character as it is written between quotes. -/
def escape (isPrint : Char → Bool) (letter : Char) : List Char :=
  if letter = '"' ∨ letter = '\\' then ['\\', letter]
  else if isPrint letter then [letter]
  else if letter = '\x07' then ['\\', 'a']
  else if letter = '\x08' then ['\\', 'b']
  else if letter = '\x0c' then ['\\', 'f']
  else if letter = '\n' then ['\\', 'n']
  else if letter = '\r' then ['\\', 'r']
  else if letter = '\t' then ['\\', 't']
  else if letter = '\x0b' then ['\\', 'v']
  else if letter.toNat < 32 ∨ letter.toNat = 127 then '\\' :: 'x' :: hex 2 letter.toNat
  else if letter.toNat < 0x10000 then '\\' :: 'u' :: hex 4 letter.toNat
  else '\\' :: 'U' :: hex 8 letter.toNat

/-- Text as it is written between quotes. -/
def body (isPrint : Char → Bool) (text : List Char) : List Char := text.flatMap (escape isPrint)

/-- `strconv.Quote`. -/
def quote (isPrint : Char → Bool) (text : String) : String :=
  String.ofList ('"' :: body isPrint text.toList ++ ['"'])

/-- Where the reading of quoted text stands. -/
inductive Mode where
  | plain
  | escape
  /-- In the digits of a character: how many follow the next one, and what was read of it. -/
  | digits (left read : ℕ)

/-- The value of a hexadecimal digit. -/
def digit (letter : Char) : Option ℕ :=
  if 48 ≤ letter.toNat ∧ letter.toNat ≤ 57 then some (letter.toNat - 48)
  else if 97 ≤ letter.toNat ∧ letter.toNat ≤ 102 then some (letter.toNat - 87)
  else if 65 ≤ letter.toNat ∧ letter.toNat ≤ 70 then some (letter.toNat - 55)
  else none

/-- What a letter stands for behind a backslash. -/
def escaped (letter : Char) : Option Char :=
  [('"', '"'), ('\\', '\\'), ('a', '\x07'), ('b', '\x08'), ('f', '\x0c'), ('n', '\n'),
    ('r', '\r'), ('t', '\t'), ('v', '\x0b')].lookup letter

/-- The text between quotes up to the closing one. -/
def unescape : Mode → List Char → Option (List Char)
  | _, [] => none
  | .plain, letter :: rest =>
    if letter = '"' then if rest = [] then some [] else none
    else if letter = '\\' then unescape .escape rest
    else (unescape .plain rest).map (letter :: ·)
  | .escape, letter :: rest =>
    if letter = 'x' then unescape (.digits 1 0) rest
    else if letter = 'u' then unescape (.digits 3 0) rest
    else if letter = 'U' then unescape (.digits 7 0) rest
    else (escaped letter).bind fun meant => (unescape .plain rest).map (meant :: ·)
  | .digits left read, letter :: rest =>
    (digit letter).bind fun value =>
      match left with
      | 0 => (unescape .plain rest).map (Char.ofNat (read * 16 + value) :: ·)
      | left + 1 => unescape (.digits left (read * 16 + value)) rest

/-- The text a quoted text is read as. -/
def unquote (quoted : String) : Option String :=
  match quoted.toList with
  | '"' :: rest => (unescape .plain rest).map String.ofList
  | _ => none

theorem digit_digitChar {value : ℕ} (small : value < 16) :
    digit (Nat.digitChar value) = some value := by
  revert small
  revert value
  decide

theorem unescape_hex (width number read left : ℕ) (rest : List Char) (small : number < 16 ^ width) :
    unescape (.digits (width + left) read) (hex width number ++ rest) =
      unescape (.digits left (read * 16 ^ width + number)) rest := by
  induction width generalizing number left rest with
  | zero =>
    obtain rfl : number = 0 := by simpa using small
    simp [hex]
  | succ width ih =>
    have shorter : number / 16 < 16 ^ width := Nat.div_lt_of_lt_mul (by rwa [← pow_succ'])
    have bounded : number % 16 < 16 := Nat.mod_lt _ (by decide)
    rw [hex, List.append_assoc, Nat.add_right_comm, Nat.add_assoc, ih _ _ _ shorter,
      List.singleton_append, unescape, digit_digitChar bounded, Option.bind_some]
    have value_eq : (read * 16 ^ width + number / 16) * 16 + number % 16 =
        read * 16 ^ (width + 1) + number := by
      rw [pow_succ, Nat.add_mul, Nat.mul_assoc]
      omega
    simp only [value_eq]

theorem unescape_code (width : ℕ) (letter : Char) (rest : List Char)
    (small : letter.toNat < 16 ^ (width + 1)) :
    unescape (.digits width 0) (hex (width + 1) letter.toNat ++ rest) =
      (unescape .plain rest).map (letter :: ·) := by
  have shorter : letter.toNat / 16 < 16 ^ width := Nat.div_lt_of_lt_mul (by rwa [← pow_succ'])
  have bounded : letter.toNat % 16 < 16 := Nat.mod_lt _ (by decide)
  have read := unescape_hex width (letter.toNat / 16) 0 0
    (Nat.digitChar (letter.toNat % 16) :: rest) shorter
  rw [hex, List.append_assoc, List.singleton_append]
  rw [Nat.add_zero, Nat.zero_mul, Nat.zero_add] at read
  rw [read, unescape, digit_digitChar bounded, Option.bind_some, Nat.mul_comm, Nat.div_add_mod,
    Char.ofNat_toNat]

theorem escape_cases (isPrint : Char → Bool) (letter : Char) :
    escape isPrint letter = [letter] ∧ letter ≠ '"' ∧ letter ≠ '\\' ∨
      (∃ mark, escape isPrint letter = ['\\', mark] ∧ escaped mark = some letter ∧
        mark ≠ 'x' ∧ mark ≠ 'u' ∧ mark ≠ 'U') ∨
      ∃ mark width, escape isPrint letter = '\\' :: mark :: hex (width + 1) letter.toNat ∧
        (mark, width) ∈ [('x', 1), ('u', 3), ('U', 7)] ∧ letter.toNat < 16 ^ (width + 1) := by
  by_cases marked : letter = '"' ∨ letter = '\\'
  · refine .inr (.inl ⟨letter, if_pos marked, ?_⟩)
    rcases marked with rfl | rfl <;> decide
  by_cases prints : isPrint letter
  · exact .inl ⟨(if_neg marked).trans (if_pos prints), not_or.mp marked⟩
  by_cases named : letter = '\x07' ∨ letter = '\x08' ∨ letter = '\x0c' ∨ letter = '\n' ∨
      letter = '\r' ∨ letter = '\t' ∨ letter = '\x0b'
  · rw [escape, if_neg marked, if_neg prints]
    rcases named with rfl | rfl | rfl | rfl | rfl | rfl | rfl <;>
      exact .inr (.inl ⟨_, rfl, by decide⟩)
  simp only [not_or] at named
  rw [escape, if_neg marked, if_neg prints, if_neg named.1, if_neg named.2.1, if_neg named.2.2.1,
    if_neg named.2.2.2.1, if_neg named.2.2.2.2.1, if_neg named.2.2.2.2.2.1,
    if_neg named.2.2.2.2.2.2]
  right
  right
  by_cases control : letter.toNat < 32 ∨ letter.toNat = 127
  · exact ⟨'x', 1, if_pos control, by decide, by omega⟩
  by_cases wide : letter.toNat < 0x10000
  · exact ⟨'u', 3, (if_neg control).trans (if_pos wide), by decide, by omega⟩
  have valid : letter.toNat < 0x110000 := by
    rcases letter.valid with low | high
    · exact low.trans (by decide)
    · exact high.2
  exact ⟨'U', 7, (if_neg control).trans (if_neg wide), by decide, valid.trans (by norm_num)⟩

theorem unescape_escape (isPrint : Char → Bool) (letter : Char) (rest : List Char) :
    unescape .plain (escape isPrint letter ++ rest) =
      (unescape .plain rest).map (letter :: ·) := by
  rcases escape_cases isPrint letter with
    ⟨written, not_quote, not_slash⟩ | ⟨mark, written, means, not_x, not_u, not_U⟩ |
      ⟨mark, width, written, marks, small⟩
  · rw [written, List.singleton_append, unescape, if_neg not_quote, if_neg not_slash]
  · rw [written, List.cons_append, List.singleton_append, unescape, if_neg (by decide), if_pos rfl,
      unescape, if_neg not_x, if_neg not_u, if_neg not_U, means, Option.bind_some]
  · rw [written, List.cons_append, List.cons_append, unescape, if_neg (by decide), if_pos rfl,
      ← unescape_code width letter rest small]
    simp only [List.mem_cons, Prod.mk.injEq, List.not_mem_nil, or_false] at marks
    rcases marks with ⟨rfl, rfl⟩ | ⟨rfl, rfl⟩ | ⟨rfl, rfl⟩ <;> rw [unescape] <;> simp

theorem unquote_quote (isPrint : Char → Bool) (text : String) :
    unquote (quote isPrint text) = some text := by
  have read : ∀ letters : List Char,
      unescape .plain (body isPrint letters ++ ['"']) = some letters := by
    intro letters
    induction letters with
    | nil => rfl
    | cons letter letters ih =>
      rw [body, List.flatMap_cons, List.append_assoc, unescape_escape, ← body, ih]
      rfl
  simp [unquote, quote, read]

end Seagull.Quote
