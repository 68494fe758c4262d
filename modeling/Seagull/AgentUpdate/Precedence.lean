import Seagull.AgentUpdate.Progress
import Seagull.Foundation.Digits

/-!
# The order of versions against semantic version precedence

A prerelease identifier of digits is a number of any size to semantic versioning, and a number only
below 2^64 to the platform, which orders a greater one as a text.  The order stays an order, and is
precedence unless two prereleases first differ where such a text is misplaced.
-/

namespace Seagull.AgentUpdate

open Contract

/-! ## Semantic versions -/

/-- A prerelease identifier, as semantic versioning reads it. -/
inductive Identifier where
  | number (value : ℕ)
  | word (letters : String)

/-- Numbers by value, words by their letters, and a number before any word. -/
def Identifier.compare : Identifier → Identifier → Ordering
  | .number left, .number right => Ord.compare left right
  | .number _, .word _ => .lt
  | .word _, .number _ => .gt
  | .word left, .word right => Ord.compare left right

/-- What a version says of its precedence. -/
structure SemanticVersion where
  major : ℕ
  minor : ℕ
  patch : ℕ
  prerelease : List Identifier

/-- The precedence of two rows of prerelease identifiers, where a prerelease comes before its
release. -/
def precedenceOfRows : List Identifier → List Identifier → Ordering
  | [], [] => .eq
  | [], _ :: _ => .gt
  | _ :: _, [] => .lt
  | first :: rest, start :: others =>
    (first :: rest).compareLex Identifier.compare (start :: others)

/-- By the three numbers, then by the prerelease identifiers. -/
def SemanticVersion.precedence (version other : SemanticVersion) : Ordering :=
  (Ord.compare version.major other.major).then <|
    (Ord.compare version.minor other.minor).then <|
      (Ord.compare version.patch other.patch).then <|
        precedenceOfRows version.prerelease other.prerelease

def identifierOf (letters : List Char) : Identifier :=
  if letters.all Text.isDigit then .number (Digits.value letters)
  else .word (String.ofList letters)

/-- What a version that was read says of its precedence. -/
def Version.meaning (version : Version) : SemanticVersion :=
  ⟨version.major, version.minor, version.patch, version.prerelease.map identifierOf⟩

/-- A text spells a semantic version: `v`, the three numbers, the identifiers behind a dash if there
are any, and build metadata behind a plus if there is any. -/
def Spells (text : String) (version : SemanticVersion) : Prop :=
  ∃ (major minor patch : List Char) (prerelease : List (List Char)) (build : List Char),
    text.toList = 'v' :: (major ++ '.' :: minor ++ '.' :: patch ++
      (if prerelease = [] then [] else '-' :: ['.'].intercalate prerelease) ++ build) ∧
    (Digits.Plain major ∧ Digits.value major = version.major) ∧
    (Digits.Plain minor ∧ Digits.value minor = version.minor) ∧
    (Digits.Plain patch ∧ Digits.value patch = version.patch) ∧
    prerelease.map identifierOf = version.prerelease ∧ (build = [] ∨ build.head? = some '+')

/-! ## What is read of a version -/

/-- What an identifier is that a version was read with: not empty, and without a leading zero if it
is all digits. -/
def Accepted (letters : List Char) : Prop :=
  letters ≠ [] ∧ (letters.all Text.isDigit → Digits.Plain letters)

theorem numeric_eq_some {part : List Char} {number : ℕ} :
    numeric part = some number ↔
      Digits.Plain part ∧ Digits.value part = number ∧ number < 2 ^ 64 := by
  have value_eq : part.foldl (fun number digit => 10 * number + (digit.toNat - '0'.toNat)) 0 =
      Digits.value part := rfl
  unfold numeric Digits.Plain
  rw [value_eq]
  grind

theorem numeric_of_word {part : List Char} (word : ¬ part.all Text.isDigit) :
    numeric part = none := by
  simp [numeric, word]

variable {letters : List Char}

theorem accepted_of_identifiers {dotted : List Char} (valid : identifiers dotted true)
    (among : letters ∈ dotted.splitOn '.') : Accepted letters := by
  unfold identifiers at valid
  have valid_letters := List.all_eq_true.mp valid letters among
  unfold Accepted Digits.Plain
  grind

theorem cut_eq (separator : Char) (letters : List Char) :
    letters = (cut separator letters).1 ++
      ((cut separator letters).2.map (separator :: ·)).getD [] := by
  unfold cut
  have parts := List.takeWhile_append_dropWhile (p := (· ≠ separator)) (l := letters)
  split
  · simp
  · rename_i first behind dropped
    have stops : first = separator := by
      have := List.head?_dropWhile_not (fun letter => decide (letter ≠ separator)) letters
      rw [dropped] at this
      simpa using this
    rw [dropped, stops] at parts
    simpa using parts.symm

variable {text : String} {version : Version}

section

variable (parsed : parseVersion text = some version)

include parsed

theorem parseVersion_eq_some :
    ∃ (major minor patch : List Char) (build : Option (List Char))
        (prerelease : Option (List Char)),
      text.toList = 'v' :: (major ++ '.' :: minor ++ '.' :: patch ++
        (prerelease.map ('-' :: ·)).getD [] ++ (build.map ('+' :: ·)).getD []) ∧
      numeric major = some version.major ∧ numeric minor = some version.minor ∧
      numeric patch = some version.patch ∧ version.text = text ∧
      version.prerelease = (prerelease.map (·.splitOn '.')).getD [] ∧
      ∀ named, prerelease = some named → identifiers named true := by
  unfold parseVersion at parsed
  split at parsed
  · cases parsed
  · split at parsed
    · rename_i letters letters_eq
      simp only at parsed
      have rest_eq := cut_eq '+' letters
      have core_eq := cut_eq '-' (cut '+' letters).1
      split at parsed
      · cases parsed
      · rename_i valid
        split at parsed
        · rename_i major minor patch numbers
          have parts_eq : ['.'].intercalate ((cut '-' (cut '+' letters).1).1.splitOn '.') =
              (cut '-' (cut '+' letters).1).1 := List.intercalate_splitOn '.'
          match parts : (cut '-' (cut '+' letters).1).1.splitOn '.' with
          | [one, two, three] =>
            rw [parts] at numbers parts_eq
            simp only [List.map_cons, List.map_nil, List.cons.injEq, and_true] at numbers
            obtain ⟨one_eq, two_eq, three_eq⟩ := numbers
            obtain rfl := Option.some.inj parsed
            refine ⟨one, two, three, (cut '+' letters).2, (cut '-' (cut '+' letters).1).2, ?_,
              one_eq, two_eq, three_eq, rfl, rfl, ?_⟩
            · rw [letters_eq]
              conv_lhs => rw [rest_eq, core_eq, ← parts_eq]
              simp [List.intercalate, List.intersperse]
            · intro named named_eq
              simp only [Bool.or_eq_true, not_or, named_eq, Option.any_some, Bool.not_eq_true,
                Bool.not_eq_false'] at valid
              exact valid.2
          | [] => simp [parts] at numbers
          | [_] => simp [parts] at numbers
          | [_, _] => simp [parts] at numbers
          | _ :: _ :: _ :: _ :: _ => simp [parts] at numbers
        · cases parsed
    · cases parsed

theorem accepted_of_parse :
    ∀ letters ∈ version.prerelease, Accepted letters := by
  obtain ⟨-, -, -, -, prerelease, -, -, -, -, -, prerelease_eq, valid⟩ :=
    parseVersion_eq_some parsed
  intro letters among
  rw [prerelease_eq] at among
  cases prerelease with
  | none => simp at among
  | some named => exact accepted_of_identifiers (valid named rfl) among

theorem parseVersion_spells :
    Spells text version.meaning := by
  obtain ⟨major, minor, patch, build, prerelease, text_eq, major_eq, minor_eq, patch_eq, -,
    prerelease_eq, -⟩ := parseVersion_eq_some parsed
  have plain : ∀ {part : List Char} {number : ℕ}, numeric part = some number →
      Digits.Plain part ∧ Digits.value part = number :=
    fun number_eq => ⟨(numeric_eq_some.mp number_eq).1, (numeric_eq_some.mp number_eq).2.1⟩
  refine ⟨major, minor, patch, version.prerelease, (build.map ('+' :: ·)).getD [], ?_,
    plain major_eq, plain minor_eq, plain patch_eq, rfl, ?_⟩
  · rw [text_eq, prerelease_eq]
    cases prerelease with
    | none => simp
    | some named => simp [List.intercalate_splitOn]
  · cases build <;> simp

end

/-! ## Where the platform's order is precedence -/

/-- A number the platform reads as a text. -/
def Overflows (letters : List Char) : Prop :=
  letters.all Text.isDigit ∧ 2 ^ 64 ≤ Digits.value letters

/-- An overflowing number stands behind a longer one, or behind a word, as a text. -/
def Misplaced (left right : List Char) : Prop :=
  Overflows left ∧ (Overflows right ∧ left.length < right.length ∨ ¬ right.all Text.isDigit) ∧
    String.ofList right < String.ofList left

def firstDifference : List (List Char) → List (List Char) → Option (List Char × List Char)
  | left :: lefts, right :: rights =>
    if left = right then firstDifference lefts rights else some (left, right)
  | _, _ => none

/-- Two prereleases first differ where an overflowing number is misplaced. -/
def Misread (version other : Version) : Prop :=
  version.major = other.major ∧ version.minor = other.minor ∧ version.patch = other.patch ∧
    ∃ left right, firstDifference version.prerelease other.prerelease = some (left, right) ∧
      (Misplaced left right ∨ Misplaced right left)

theorem Accepted.cases (accepted : Accepted letters) :
    (numeric letters = some (Digits.value letters) ∧ Digits.value letters < 2 ^ 64 ∧
        Digits.Plain letters) ∨
      (numeric letters = none ∧ Overflows letters ∧ Digits.Plain letters) ∨
        (numeric letters = none ∧ ¬ letters.all Text.isDigit) := by
  by_cases digits : letters.all Text.isDigit
  · have plain := accepted.2 digits
    rcases lt_or_ge (Digits.value letters) (2 ^ 64) with small | large
    · exact Or.inl ⟨numeric_eq_some.mpr ⟨plain, rfl, small⟩, small, plain⟩
    · refine Or.inr (Or.inl ⟨?_, ⟨digits, large⟩, plain⟩)
      refine Option.eq_none_iff_forall_ne_some.mpr fun number number_eq => ?_
      obtain ⟨-, rfl, small⟩ := numeric_eq_some.mp number_eq
      omega
  · exact Or.inr (Or.inr ⟨numeric_of_word digits, digits⟩)

theorem identifierOf_digits (plain : Digits.Plain letters) :
    identifierOf letters = .number (Digits.value letters) := if_pos plain.2.1

theorem identifierOf_word (word : ¬ letters.all Text.isDigit) :
    identifierOf letters = .word (String.ofList letters) := if_neg word

variable {left right : List Char}

theorem compare_text_iff (left_plain : Digits.Plain left) (right_plain : Digits.Plain right) :
    compare (String.ofList left) (String.ofList right) =
        compare (Digits.value left) (Digits.value right) ↔
      ¬ (left.length < right.length ∧ String.ofList right < String.ofList left ∨
        right.length < left.length ∧ String.ofList left < String.ofList right) := by
  have differ : left.length ≠ right.length → String.ofList left ≠ String.ofList right :=
    fun differ same => differ (congrArg List.length (String.ofList_injective same))
  rcases lt_trichotomy left.length right.length with shorter | equal | longer
  · have less := Digits.value_lt_of_length_lt left_plain right_plain shorter
    rw [compare_lt_iff_lt.mpr less, compare_lt_iff_lt]
    simp only [shorter, true_and, shorter.not_gt, false_and, or_false, not_lt]
    exact ⟨le_of_lt, fun le => lt_of_le_of_ne le (differ shorter.ne)⟩
  · simp only [equal, lt_self_iff_false, false_and, or_self, not_false_eq_true, iff_true]
    have less_iff := Digits.value_lt_iff left_plain.2.1 right_plain.2.1 equal
    have more_iff := Digits.value_lt_iff right_plain.2.1 left_plain.2.1 equal.symm
    rcases lt_trichotomy (Digits.value left) (Digits.value right) with less | same | more
    · rw [compare_lt_iff_lt.mpr less, compare_lt_iff_lt, String.lt_iff]
      simpa using less_iff.mp less
    · rw [Digits.value_injective left_plain right_plain same]
      simp
    · rw [compare_gt_iff_gt.mpr more, compare_gt_iff_gt, String.lt_iff]
      simpa using more_iff.mp more
  · have more := Digits.value_lt_of_length_lt right_plain left_plain longer
    rw [compare_gt_iff_gt.mpr more, compare_gt_iff_gt]
    simp only [longer, true_and, longer.not_gt, false_and, false_or, not_lt]
    exact ⟨le_of_lt, fun le => lt_of_le_of_ne le (differ longer.ne').symm⟩

theorem compare_word_iff {number word : List Char} (plain : Digits.Plain number)
    (is_word : ¬ word.all Text.isDigit) :
    (compare (String.ofList number) (String.ofList word) = .lt ↔
        ¬ String.ofList word < String.ofList number) ∧
      (compare (String.ofList word) (String.ofList number) = .gt ↔
        ¬ String.ofList word < String.ofList number) := by
  have differ : String.ofList number ≠ String.ofList word := by
    intro same
    rw [String.ofList_inj] at same
    exact is_word (same ▸ plain.2.1)
  rw [compare_lt_iff_lt, compare_gt_iff_gt, not_lt]
  have less_iff : String.ofList number < String.ofList word ↔
      String.ofList number ≤ String.ofList word := ⟨le_of_lt, fun le => lt_of_le_of_ne le differ⟩
  exact ⟨less_iff, less_iff⟩

theorem compareIdentifiers_iff (left_accepted : Accepted left) (right_accepted : Accepted right) :
    compareIdentifiers left right = (identifierOf left).compare (identifierOf right) ↔
      ¬ (Misplaced left right ∨ Misplaced right left) := by
  have small_fits : ∀ {letters : List Char}, Digits.value letters < 2 ^ 64 → ¬ Overflows letters :=
    fun small overflows => small.not_ge overflows.2
  have word_fits : ∀ {letters : List Char}, ¬ letters.all Text.isDigit → ¬ Overflows letters :=
    fun word overflows => word overflows.1
  unfold compareIdentifiers Misplaced
  rcases left_accepted.cases with ⟨left_eq, left_small, left_plain⟩ |
      ⟨left_eq, left_over, left_plain⟩ | ⟨left_eq, left_word⟩ <;>
    rcases right_accepted.cases with ⟨right_eq, right_small, right_plain⟩ |
      ⟨right_eq, right_over, right_plain⟩ | ⟨right_eq, right_word⟩ <;>
    simp only [identifierOf_digits, identifierOf_word, Identifier.compare, Bool.false_eq_true,
      not_false_eq_true, *]
  · simp
  · simp [compare_lt_iff_lt.mpr (left_small.trans_le right_over.2), left_plain.2.1]
  · simp
  · simp [compare_gt_iff_gt.mpr (right_small.trans_le left_over.2), right_plain.2.1]
  · simp [compare_text_iff left_plain right_plain, left_plain.2.1, right_plain.2.1]
  · simp [(compare_word_iff left_plain right_word).1]
  · simp
  · simp [(compare_word_iff right_plain left_word).2]
  · simp

theorem compareIdentifiers_eq_iff : compareIdentifiers left right = .eq ↔ left = right := by
  unfold compareIdentifiers
  cases left_eq : numeric left with
  | none =>
    cases right_eq : numeric right with
    | none => rw [compare_eq_iff_eq, String.ofList_inj]
    | some other => exact iff_of_false nofun (by rintro rfl; simp [left_eq] at right_eq)
  | some number =>
    cases right_eq : numeric right with
    | none => exact iff_of_false nofun (by rintro rfl; simp [left_eq] at right_eq)
    | some other =>
      obtain ⟨left_plain, rfl, -⟩ := numeric_eq_some.mp left_eq
      obtain ⟨right_plain, rfl, -⟩ := numeric_eq_some.mp right_eq
      exact compare_eq_iff_eq.trans
        ⟨Digits.value_injective left_plain right_plain, congrArg Digits.value⟩

theorem identifierOf_compare_eq_iff (left_accepted : Accepted left)
    (right_accepted : Accepted right) :
    (identifierOf left).compare (identifierOf right) = .eq ↔ left = right := by
  by_cases left_digits : left.all Text.isDigit <;> by_cases right_digits : right.all Text.isDigit
  · have left_plain := left_accepted.2 left_digits
    have right_plain := right_accepted.2 right_digits
    rw [identifierOf_digits left_plain, identifierOf_digits right_plain, Identifier.compare,
      compare_eq_iff_eq]
    exact ⟨Digits.value_injective left_plain right_plain, fun same => same ▸ rfl⟩
  · rw [identifierOf_digits (left_accepted.2 left_digits), identifierOf_word right_digits]
    exact iff_of_false (by simp [Identifier.compare])
      (fun same => right_digits (same ▸ left_digits))
  · rw [identifierOf_word left_digits, identifierOf_digits (right_accepted.2 right_digits)]
    exact iff_of_false (by simp [Identifier.compare])
      (fun same => left_digits (same ▸ right_digits))
  · rw [identifierOf_word left_digits, identifierOf_word right_digits, Identifier.compare,
      compare_eq_iff_eq, String.ofList_inj]

theorem comparePrereleases_eq (lefts rights : List (List Char)) :
    comparePrereleases lefts rights = lefts.compareLex compareIdentifiers rights := by
  induction lefts generalizing rights with
  | nil => cases rights <;> rfl
  | cons left rest ih =>
    cases rights with
    | nil => rfl
    | cons right others => rw [comparePrereleases, List.compareLex_cons_cons, ih]

variable {lefts rights : List (List Char)}

theorem comparePrereleases_iff (left_accepted : ∀ left ∈ lefts, Accepted left)
    (right_accepted : ∀ right ∈ rights, Accepted right) :
    comparePrereleases lefts rights =
        (lefts.map identifierOf).compareLex Identifier.compare (rights.map identifierOf) ↔
      ∀ left right, firstDifference lefts rights = some (left, right) →
        ¬ (Misplaced left right ∨ Misplaced right left) := by
  induction lefts generalizing rights with
  | nil => cases rights <;> simp [comparePrereleases, firstDifference, List.compareLex]
  | cons left rest ih =>
    cases rights with
    | nil => simp [comparePrereleases, firstDifference, List.compareLex]
    | cons right others =>
      rw [List.forall_mem_cons] at left_accepted right_accepted
      rw [comparePrereleases, List.map_cons, List.map_cons, List.compareLex_cons_cons]
      by_cases same : left = right
      · have read_eq := compareIdentifiers_eq_iff.mpr same
        have meant_eq :=
          (identifierOf_compare_eq_iff left_accepted.1 right_accepted.1).mpr same
        rw [read_eq, meant_eq, firstDifference, if_pos same]
        exact ih left_accepted.2 right_accepted.2
      · have read_ne := compareIdentifiers_eq_iff.not.mpr same
        have meant_ne :=
          (identifierOf_compare_eq_iff left_accepted.1 right_accepted.1).not.mpr same
        have decided : ∀ {first rest : Ordering}, first ≠ .eq → first.then rest = first := by
          intro first rest differs
          cases first <;> simp_all
        rw [decided read_ne, decided meant_ne, firstDifference, if_neg same,
          compareIdentifiers_iff left_accepted.1 right_accepted.1]
        simp

/-- The order of two versions with the same numbers. -/
def compareRows : List (List Char) → List (List Char) → Ordering
  | [], [] => .eq
  | [], _ => .gt
  | _, [] => .lt
  | prerelease, others => comparePrereleases prerelease others

theorem Version.compare_eq (version other : Version) :
    version.compare other = (Ord.compare version.major other.major).then
      ((Ord.compare version.minor other.minor).then
        ((Ord.compare version.patch other.patch).then
          (compareRows version.prerelease other.prerelease))) := rfl

theorem compareRows_iff (left_accepted : ∀ left ∈ lefts, Accepted left)
    (right_accepted : ∀ right ∈ rights, Accepted right) :
    compareRows lefts rights =
        precedenceOfRows (lefts.map identifierOf) (rights.map identifierOf) ↔
      ∀ left right, firstDifference lefts rights = some (left, right) →
        ¬ (Misplaced left right ∨ Misplaced right left) := by
  cases lefts with
  | nil => cases rights <;> simp [compareRows, precedenceOfRows, firstDifference]
  | cons left rest =>
    cases rights with
    | nil => simp [compareRows, precedenceOfRows, firstDifference]
    | cons right others => exact comparePrereleases_iff left_accepted right_accepted

theorem then_eq_then_iff {first rest other : Ordering} :
    first.then rest = first.then other ↔ (first = .eq → rest = other) := by
  cases first <;> simp

theorem Version.compare_iff {other : Version}
    (version_accepted : ∀ letters ∈ version.prerelease, Accepted letters)
    (other_accepted : ∀ letters ∈ other.prerelease, Accepted letters) :
    version.compare other = version.meaning.precedence other.meaning ↔
      ¬ Misread version other := by
  rw [Version.compare_eq, SemanticVersion.precedence]
  simp only [Version.meaning]
  rw [then_eq_then_iff, then_eq_then_iff, then_eq_then_iff,
    compareRows_iff version_accepted other_accepted, compare_eq_iff_eq, compare_eq_iff_eq,
    compare_eq_iff_eq]
  unfold Misread
  push Not
  rfl

/-! ## The platform's order is an order -/

theorem compare_true_false : compare true false = .gt := rfl

theorem compare_false_true : compare false true = .lt := rfl

instance : Std.TransCmp compareIdentifiers := by
  have lex_eq : compareIdentifiers = compareLex (compareOn fun letters => (numeric letters).isNone)
      (compareLex (compareOn fun letters => (numeric letters).getD 0)
        (compareOn fun letters =>
          if (numeric letters).isNone then String.ofList letters else "")) := by
    funext left right
    unfold compareIdentifiers compareLex compareOn
    cases left_eq : numeric left <;> cases right_eq : numeric right <;>
      simp [left_eq, right_eq, compare_true_false, compare_false_true]
  rw [lex_eq]
  infer_instance

/-- The platform's order is transitive, and turns around with its arguments. -/
instance : Std.TransCmp Version.compare := by
  have lex_eq : Version.compare = compareLex (compareOn Version.major)
      (compareLex (compareOn Version.minor) (compareLex (compareOn Version.patch)
        (compareLex (compareOn fun version => version.prerelease.isEmpty)
          fun version other =>
            version.prerelease.compareLex compareIdentifiers other.prerelease))) := by
    funext version other
    rw [Version.compare_eq]
    unfold compareLex compareOn
    congr 3
    cases row_eq : version.prerelease <;> cases other_eq : other.prerelease <;>
      simp [compareRows, comparePrereleases_eq, List.compareLex, row_eq, other_eq,
        compare_true_false, compare_false_true]
  rw [lex_eq]
  have rows : Std.TransCmp fun version other : Version =>
      version.prerelease.compareLex compareIdentifiers other.prerelease :=
    { eq_swap := Std.OrientedCmp.eq_swap
      isLE_trans := Std.TransCmp.isLE_trans }
  infer_instance

theorem compareLex_map_eq_iff (left_accepted : ∀ left ∈ lefts, Accepted left)
    (right_accepted : ∀ right ∈ rights, Accepted right) :
    (lefts.map identifierOf).compareLex Identifier.compare (rights.map identifierOf) = .eq ↔
      lefts = rights := by
  induction lefts generalizing rights with
  | nil => cases rights <;> simp [List.compareLex]
  | cons left rest ih =>
    cases rights with
    | nil => simp [List.compareLex]
    | cons right others =>
      rw [List.forall_mem_cons] at left_accepted right_accepted
      rw [List.map_cons, List.map_cons, List.compareLex_cons_cons, Ordering.then_eq_eq,
        identifierOf_compare_eq_iff left_accepted.1 right_accepted.1,
        ih left_accepted.2 right_accepted.2, List.cons.injEq]

instance : Std.LawfulEqCmp compareIdentifiers where
  compare_self := compareIdentifiers_eq_iff.mpr rfl
  eq_of_compare := compareIdentifiers_eq_iff.mp

theorem Version.compare_eq_iff {other : Version}
    (version_accepted : ∀ letters ∈ version.prerelease, Accepted letters)
    (other_accepted : ∀ letters ∈ other.prerelease, Accepted letters) :
    version.compare other = .eq ↔ version.meaning.precedence other.meaning = .eq := by
  have rows_iff : compareRows version.prerelease other.prerelease = .eq ↔
      precedenceOfRows (version.prerelease.map identifierOf)
        (other.prerelease.map identifierOf) = .eq := by
    revert version_accepted other_accepted
    cases version.prerelease with
    | nil => cases other.prerelease <;> simp [compareRows, precedenceOfRows]
    | cons left rest =>
      cases other.prerelease with
      | nil => simp [compareRows, precedenceOfRows]
      | cons right others =>
        intro left_accepted right_accepted
        have meant_iff := compareLex_map_eq_iff left_accepted right_accepted
        have read_eq : compareRows (left :: rest) (right :: others) =
            (left :: rest).compareLex compareIdentifiers (right :: others) :=
          comparePrereleases_eq _ _
        rw [read_eq, Std.LawfulEqCmp.compare_eq_iff_eq]
        exact meant_iff.symm
  rw [Version.compare_eq, SemanticVersion.precedence]
  simp only [Version.meaning, Ordering.then_eq_eq, rows_iff]

/-! ## The versions a release names -/

def maxReplaced : ℕ := 16

/-- Why the versions a release names are refused. -/
inductive VersionsRefusal where
  /-- The release is not a semantic version with a leading `v`. -/
  | notAVersion (named : String)
  | minimumNotAVersion
  | minimumLater (minimum : String)
  | tooManyReplaced (count : ℕ)
  | replacedNotAVersion (named : String)
  | replacedNotLater (named : String)
  | replacedTwice (named : String)

/-- What is asked of the versions a release replaces. -/
def validateReplaced (version : Version) (before : List String) :
    List String → Except VersionsRefusal Unit
  | [] => .ok ()
  | named :: rest =>
    match parseVersion named with
    | none => .error (.replacedNotAVersion named)
    | some later =>
      if later.compare version ≠ .gt then .error (.replacedNotLater named)
      else if named ∈ before then .error (.replacedTwice named)
      else validateReplaced version (before ++ [named]) rest

/-- What is asked of the oldest version a release may be installed over. -/
def validateMinimum (version : Version) (minimum : String) : Except VersionsRefusal Unit :=
  if minimum = "" then .ok ()
  else
    match parseVersion minimum with
    | none => .error .minimumNotAVersion
    | some oldest =>
      if oldest.compare version = .gt then .error (.minimumLater minimum) else .ok ()

/-- What `validateRelease` asks of the versions a release names. -/
def validateVersions (release : Release) : Except VersionsRefusal Unit :=
  match parseVersion release.version with
  | none => .error (.notAVersion release.version)
  | some version => do
      validateMinimum version release.minimumVersion
      refuse (maxReplaced < release.replaces.length) (.tooManyReplaced release.replaces.length)
      validateReplaced version [] release.replaces

theorem validateReplaced_later {before replaced : List String}
    (valid : validateReplaced version before replaced = .ok ()) {named : String}
    (among : named ∈ replaced) :
    ∃ later, parseVersion named = some later ∧ version.compare later = .lt := by
  induction replaced generalizing before with
  | nil => simp at among
  | cons first rest ih =>
    unfold validateReplaced at valid
    split at valid
    · cases valid
    · rename_i later later_eq
      split at valid
      · cases valid
      · rename_i is_later
        split at valid
        · cases valid
        · rcases List.mem_cons.mp among with rfl | behind
          · refine ⟨later, later_eq, ?_⟩
            have swap : version.compare later = (later.compare version).swap :=
              Std.OrientedCmp.eq_swap
            rw [swap, not_not.mp is_later]
            rfl
          · exact ih valid behind

theorem validateMinimum_le {oldest : Version} {minimum : String} (named : minimum ≠ "")
    (valid : validateMinimum version minimum = .ok ())
    (oldest_eq : parseVersion minimum = some oldest) : (oldest.compare version).isLE := by
  rw [validateMinimum, if_neg named, oldest_eq] at valid
  simp only at valid
  split at valid
  · cases valid
  · rename_i not_later
    cases order : oldest.compare version <;> simp_all

theorem validateVersions_ordered {release : Release}
    (parsed : parseVersion release.version = some version)
    (valid : validateVersions release = .ok ()) {named : String} (among : named ∈ release.replaces) :
    ∃ later, parseVersion named = some later ∧ version.compare later = .lt ∧
      ∀ oldest, release.minimumVersion ≠ "" →
        parseVersion release.minimumVersion = some oldest → oldest.compare later = .lt := by
  rw [validateVersions, parsed] at valid
  simp only [passes_eq_ok] at valid
  obtain ⟨minimum_valid, -, replaced_valid⟩ := valid
  obtain ⟨later, later_eq, version_lt⟩ := validateReplaced_later replaced_valid among
  refine ⟨later, later_eq, version_lt, fun oldest stated oldest_eq => ?_⟩
  exact Std.TransCmp.lt_of_isLE_of_lt (validateMinimum_le stated minimum_valid oldest_eq) version_lt

/-- Versions that were read are ordered by semantic version precedence exactly when their
prereleases do not first differ at a misplaced number.  They stand equal exactly when they have
equal precedence, the order is total and transitive, and a release stands before every version it
replaces as does its minimum version. -/
theorem compare_eq_precedence_iff {text other : String} {version against : Version}
    (parsed : parseVersion text = some version) (parsed_other : parseVersion other = some against) :
    Spells text version.meaning ∧ Spells other against.meaning ∧
      (version.compare against = version.meaning.precedence against.meaning ↔
        ¬ Misread version against) ∧
      (version.compare against = .eq ↔
        version.meaning.precedence against.meaning = .eq) ∧
      version.compare version = .eq ∧
      against.compare version = (version.compare against).swap ∧
      (∀ third : Version, (version.compare against).isLE → (against.compare third).isLE →
        (version.compare third).isLE) ∧
      ∀ release : Release, release.version = text → validateVersions release = .ok () →
        ∀ named ∈ release.replaces, ∃ later, parseVersion named = some later ∧
          version.compare later = .lt ∧
            ∀ oldest, release.minimumVersion ≠ "" →
              parseVersion release.minimumVersion = some oldest → oldest.compare later = .lt := by
  have accepted := accepted_of_parse parsed
  have other_accepted := accepted_of_parse parsed_other
  refine ⟨parseVersion_spells parsed, parseVersion_spells parsed_other,
    Version.compare_iff accepted other_accepted, Version.compare_eq_iff accepted other_accepted,
    Std.ReflCmp.compare_self, Std.OrientedCmp.eq_swap, fun third => Std.TransCmp.isLE_trans, ?_⟩
  rintro release rfl valid named among
  exact validateVersions_ordered parsed valid among

/-- A prerelease numbered beyond 64 bits. -/
def farPrerelease : Version :=
  ⟨1, 0, 0, ["99999999999999999999".toList], "v1.0.0-99999999999999999999"⟩

def fartherPrerelease : Version :=
  ⟨1, 0, 0, ["100000000000000000000".toList], "v1.0.0-100000000000000000000"⟩

theorem compare_eq_precedence_iff_release :
    parseVersion "v1.0.0-rc.1" = some ⟨1, 0, 0, [['r', 'c'], ['1']], "v1.0.0-rc.1"⟩ ∧
      parseVersion "v1.0.0" = some ⟨1, 0, 0, [], "v1.0.0"⟩ ∧
        (Version.compare ⟨1, 0, 0, [['r', 'c'], ['1']], "v1.0.0-rc.1"⟩ ⟨1, 0, 0, [], "v1.0.0"⟩ =
            (Version.meaning ⟨1, 0, 0, [['r', 'c'], ['1']], "v1.0.0-rc.1"⟩).precedence
              (Version.meaning ⟨1, 0, 0, [], "v1.0.0"⟩) ↔
          ¬ Misread ⟨1, 0, 0, [['r', 'c'], ['1']], "v1.0.0-rc.1"⟩ ⟨1, 0, 0, [], "v1.0.0"⟩) := by
  have candidate : parseVersion "v1.0.0-rc.1" =
      some ⟨1, 0, 0, [['r', 'c'], ['1']], "v1.0.0-rc.1"⟩ := by decide +kernel
  have release : parseVersion "v1.0.0" = some ⟨1, 0, 0, [], "v1.0.0"⟩ := by decide +kernel
  exact ⟨candidate, release, (compare_eq_precedence_iff candidate release).2.2.1⟩

/-- The platform takes the second of two prereleases for the earlier one. -/
theorem compare_farPrerelease :
    parseVersion "v1.0.0-99999999999999999999" = some farPrerelease ∧
      parseVersion "v1.0.0-100000000000000000000" = some fartherPrerelease ∧
        farPrerelease.compare fartherPrerelease = .gt ∧
          farPrerelease.meaning.precedence fartherPrerelease.meaning = .lt := by
  decide +kernel

end Seagull.AgentUpdate
