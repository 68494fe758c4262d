import Seagull.Hunt.Meaning

/-!
# A literal and what it writes

A number from half the range of an unsigned column on is read as a `float64`, which keeps its
fifty-three highest bits.  An instant is compared by the millisecond it falls in, whichever way it
is compared, and a list of instants is asked for the number of that millisecond.
-/

namespace Seagull.Hunt

open Contract
open Sql (Scalar)

/-- The operators that compare a column with one literal. -/
def comparing : List Operator := [.equals, .above, .atLeast, .below, .atMost]

/-- The relation a comparing operator asks for. -/
def Operator.Relates {α : Type*} [Preorder α] : Operator → α → α → Prop
  | .equals, stored, written => stored = written
  | .above, stored, written => written < stored
  | .atLeast, stored, written => written ≤ stored
  | .below, stored, written => stored < written
  | .atMost, stored, written => stored ≤ written
  | _, _, _ => False

/-- The `float64` closest to a number below `2 ^ 1024`, ties to even. -/
def nearest (number : ℕ) : ℕ :=
  let unit := 2 ^ (number.log2 - 52)
  if 2 * (number % unit) < unit ∨ 2 * (number % unit) = unit ∧ number / unit % 2 = 0 then
    number / unit * unit
  else (number / unit + 1) * unit

/-- The milliseconds from the epoch to an instant. -/
def millisOf (moment : ℚ) : ℚ := (moment - Timestamp.epoch * Duration.second) / 1000000

/-- What the readers of the standard library are documented to do with numbers and instants. -/
structure Platform.Reads (platform : Platform) (decimal instant : String → Option ℚ) : Prop where
  /-- `strconv.ParseInt` reads the number that is written. -/
  whole : ∀ {text : String} {number : ℤ} {written : ℚ},
    Decimal.parseInt text.toList = some number → decimal text = some written → written = number
  /-- `strconv.ParseFloat` reads the nearest number there is. -/
  rounded : ∀ {text : String} {number : ℕ}, decimal text = some (number : ℚ) → number < 2 ^ 64 →
    ∃ bits, platform.parseFloat text = some bits ∧ numberOf bits = .finite (nearest number)
  /-- `time.Parse` drops what is below a nanosecond. -/
  truncated : ∀ {text : String} {moment : ℚ}, instant text = some moment →
    platform.parseInstant text = some ⌊moment⌋
  /-- A year is written with four digits. -/
  dated : ∀ {text : String} {moment : ℚ}, instant text = some moment →
    |moment| ≤ 10000 * 366 * 86400 * 10 ^ 9

theorem nearest_eq_iff (number : ℕ) :
    nearest number = number ↔ 2 ^ (number.log2 - 52) ∣ number := by
  have split := Nat.div_add_mod' number (2 ^ (number.log2 - 52))
  have below := Nat.mod_lt number (Nat.two_pow_pos (number.log2 - 52))
  rw [Nat.dvd_iff_mod_eq_zero]
  unfold nearest
  dsimp only
  split_ifs
  · omega
  · rw [Nat.add_mul, one_mul]
    omega

theorem mem_comparing {operator : Operator} : operator ∈ comparing ↔ operator = .equals ∨
    operator = .above ∨ operator = .atLeast ∨ operator = .below ∨ operator = .atMost := by
  simp [comparing]

section Relations

variable {operator : Operator} (compares : operator ∈ comparing)

include compares

theorem holds_number_iff (stored written : ℕ) :
    operator.holds (.number (.finite stored)) (.number (.finite written)) = true ↔
      operator.Relates stored written := by
  rcases mem_comparing.mp compares with rfl | rfl | rfl | rfl | rfl <;>
    simp [Operator.holds, Operator.Relates, same, under, Scalar.equal, Scalar.less,
      Sql.Number.equal, Sql.Number.less, le_iff_lt_or_eq, @eq_comm _ stored]

theorem holds_instant_iff (stored written : ℤ) :
    operator.holds (.instant stored) (.instant written) = true ↔
      operator.Relates stored written := by
  rcases mem_comparing.mp compares with rfl | rfl | rfl | rfl | rfl <;>
    simp [Operator.holds, Operator.Relates, same, under, Scalar.equal, Scalar.less,
      le_iff_lt_or_eq, @eq_comm _ stored]

theorem relates_other_iff {number other : ℕ} (small : number < 2 ^ 64) :
    (∀ stored : ℕ, stored < 2 ^ 64 →
        (operator.Relates stored other ↔ operator.Relates stored number)) ↔
      other = number ∨ number = 2 ^ 64 - 1 ∧ number < other ∧ operator ∈ [.above, .atMost] := by
  constructor
  · intro agrees
    have here := agrees number small
    have there := agrees other
    have behind := agrees (number + 1)
    rcases mem_comparing.mp compares with rfl | rfl | rfl | rfl | rfl <;>
      simp only [Operator.Relates, lt_irrefl, le_refl, iff_true, iff_false, true_iff,
        false_iff] at here there behind <;>
      simp only [List.mem_cons, reduceCtorEq, List.not_mem_nil, or_self, or_true, and_true,
        and_false, or_false] <;> omega
  · rintro (rfl | ⟨rfl, above, last⟩) stored stored_small
    · rfl
    · simp only [List.mem_cons, List.not_mem_nil, or_false] at last
      rcases last with rfl | rfl <;> simp only [Operator.Relates] <;> omega

theorem relates_floor_iff (written : ℚ) :
    (∀ stored : ℤ, operator.Relates stored ⌊written⌋ ↔ operator.Relates (stored : ℚ) written) ↔
      written = ⌊written⌋ ∨ operator ∈ [.above, .atMost] := by
  have below := Int.floor_le written
  constructor
  · intro agrees
    have here := agrees ⌊written⌋
    rcases mem_comparing.mp compares with rfl | rfl | rfl | rfl | rfl <;>
      simp only [Operator.Relates, lt_irrefl, le_refl, true_iff, false_iff] at here
    · exact .inl here.symm
    · exact .inr (by decide)
    · exact .inl (le_antisymm here below)
    · exact .inl (le_antisymm (not_lt.mp here) below)
    · exact .inr (by decide)
  · rintro (whole | last) stored
    · rw [whole, Int.floor_intCast]
      rcases mem_comparing.mp compares with rfl | rfl | rfl | rfl | rfl <;> simp [Operator.Relates]
    · simp only [List.mem_cons, List.not_mem_nil, or_false] at last
      rcases last with rfl | rfl
      · exact Int.floor_lt
      · exact Int.le_floor

end Relations

section Literals

variable {platform : Platform} {decimal instant : String → Option ℚ}
variable (reads : platform.Reads decimal instant) {held : Held} {text : String}
variable (short : text.utf8ByteSize ≤ maxValueBytes)

include reads short

theorem literal_number (kind : held.kind = .number) {number : ℕ}
    (written : decimal text = some (number : ℚ)) (small : number < 2 ^ 64) :
    ∃ value, literal platform held text = .ok value ∧ meant value = .number (.finite
      (if (Decimal.parseInt text.toList).isSome then number else nearest number : ℕ)) := by
  unfold literal
  rw [if_neg (not_lt.mpr short), kind]
  cases parsed : Decimal.parseInt text.toList with
  | some whole =>
    refine ⟨.whole whole, rfl, ?_⟩
    simp [meant, bindOne, reads.whole parsed written]
  | none =>
    obtain ⟨bits, read, closest⟩ := reads.rounded written small
    refine ⟨.float bits, by simp [read], ?_⟩
    simp [meant, bindOne, closest]

theorem literal_instant (kind : held.kind = .instant) {moment : ℚ}
    (written : instant text = some moment) :
    literal platform held text = .ok (.instant ⌊moment⌋) ∧
      unixMilli ⌊moment⌋ = ⌊millisOf moment⌋ := by
  refine ⟨by simp [literal, not_lt.mpr short, kind, reads.truncated written], ?_⟩
  have floored : Alerts.unixMilli ⌊moment⌋ = ⌊millisOf moment⌋ := by
    have shifted : (⌊moment⌋ - Timestamp.epoch * Duration.second : ℤ) =
        ⌊moment - (Timestamp.epoch * Duration.second : ℤ)⌋ := (Int.floor_sub_intCast ..).symm
    rw [Alerts.unixMilli, shifted, millisOf, Int.cast_mul]
    exact (Int.floor_div_natCast _ 1000000).symm
  have ⟨lower, upper⟩ := abs_le.mp (reads.dated written)
  rw [unixMilli, floored]
  apply Int.bmod_eq_of_le
  · rw [Int.le_floor, millisOf, le_div_iff₀ (by norm_num)]
    norm_num [Timestamp.epoch, Duration.second]
    linarith
  · rw [Int.floor_lt, millisOf, div_lt_iff₀ (by norm_num)]
    norm_num [Timestamp.epoch, Duration.second]
    linarith

end Literals

section Columns

variable {vocabulary : Vocabulary} {dataset : Dataset} {column : String} {held : Held}

/-- The answer of the store when a predicate is asked of a row. -/
def Answered (row : StoredRow vocabulary dataset) (asked : Predicate) (answer : Bool) : Prop :=
  ∃ clause, asksOf vocabulary dataset asked = .ok clause ∧
    Sql.holds (contextOf row) clause.text clause.arguments = some answer

theorem holds_carries (row : StoredRow vocabulary dataset) {asked : Predicate} {value : Value}
    (mapped : columnOf dataset asked.field = some column) (only : asked.values = [value]) :
    Sql.holds (contextOf row) (carries column asked).text (carries column asked).arguments =
      ((row.column column).bind fun kept =>
          row.functions.call "has" [kept, .one (bindOne value)]).bind
        Sql.Value.asTruth := by
  have named : ∀ name ∈ fixedNames dataset,
      Sql.Writes (fixedNames dataset) fixedValues name [] [.name name] :=
    fun name fixed => .name (isColumn_of_mem_fixedNames name fixed) fixed
  have comma : Sql.Separates (fixedNames dataset) fixedValues ", " [.comma] := .of_signs (by decide)
  have listed := (named column (columnOf_mem_fixedNames mapped)).join comma (by decide)
    (.mark (bindOne value))
  have called := (named "has" (function_mem_fixedNames (by decide))).append
    (by simp [Sql.isDelimiter]) listed.parenthesized
  have written : carries column asked =
      ⟨"(" ++ ("has" ++ ("(" ++ (column ++ ", " ++ "?") ++ ")")) ++ ")", [bindOne value]⟩ := by
    simp [carries, only, bind, ← String.toList_inj]
  have items := (Sql.Parses.column column).whole.cons
    (Sql.Parses.value (bindOne value)).whole.single
  have parsed := (Sql.Parses.group (Sql.Parses.call "has" items).whole.single).whole
  rw [written]
  refine (called.parenthesized.holds parsed).trans ?_
  cases kept : row.column column <;> simp [Sql.Expr.eval, Sql.Expr.evalAll, contextOf, kept]

theorem answered_iff (row : StoredRow vocabulary dataset) {platform : Platform} {asked : Predicate}
    (accepted : asked.Accepted platform vocabulary dataset held)
    (mapped : columnOf dataset asked.field = some column) (compares : asked.operator ∈ comparing) :
    Answered row asked (asked.holds row) ↔
      (held.repeated = true → held.kind = .instant → row.column column = some (.list [])) := by
  have reads : asked.operator ≠ .present := by
    rintro presence
    simp [presence, comparing] at compares
  by_cases instants : held.repeated = true ∧ held.kind = .instant
  · obtain ⟨several, kind⟩ := instants
    obtain ⟨value, only⟩ := accepted.values_eq_singleton reads
      (by rintro one; simp [one, comparing] at compares)
    obtain ⟨moment, rfl⟩ : ∃ moment, value = .instant moment := by
      have value_kind := (accepted.kind_eq value (by simp [only])).trans kind
      cases value <;> first | exact ⟨_, rfl⟩ | cases value_kind
    have carried : asksOf vocabulary dataset asked = .ok (carries column asked) := by
      simp [asksOf, mapped, accepted.declared, several, reads]
    obtain ⟨kept, stored, fits⟩ := row.keeps asked.field held column accepted.declared mapped
    have answers := holds_carries row mapped only
    simp only [several, kind, stored, forall_const, Option.some.injEq]
    rw [stored] at answers
    rcases kept with scalar | (_ | ⟨item, items⟩) | items
    · exact absurd (fits.1.symm.trans several) Bool.false_ne_true
    · refine iff_of_true ⟨_, carried, answers.trans ?_⟩ rfl
      simp [Predicate.holds, mapped, stored, reads, only, Operator.answers, row.functions.has,
        Scalar.among, Sql.Value.truth, Sql.Value.asTruth]
    · refine iff_of_false ?_ (by simp)
      rintro ⟨clause, written, answered⟩
      obtain rfl := Except.ok.inj (carried.symm.trans written)
      have item_kind := fits.2 item List.mem_cons_self
      rw [kind] at item_kind
      cases item with
      | instant millis =>
        rw [Option.bind_some, row.functions.has] at answers
        cases answers.symm.trans answered
      | _ => cases item_kind
    · exact absurd fits id
  · refine iff_of_true ?_ fun several kind => absurd ⟨several, kind⟩ instants
    obtain ⟨clause, written, means⟩ : ∃ clause, asksOf vocabulary dataset asked = .ok clause ∧
        Reads row .comparison clause (.truth (asked.holds row)) :=
      reads_predicate accepted mapped fun several kind => absurd ⟨several, kind⟩ instants
    exact ⟨clause, written,
      (Sql.Means.alone (by decide) (.alone (by decide) (.alone (by decide) means))).holds⟩

end Columns

/-- Readers of a number past the signed range and of half a millisecond. -/
def halfPlatform : Platform :=
  { plainPlatform with
    parseFloat := fun text =>
      if text = "18446744073709551615" then some 4895412794951729152 else none
    parseInstant := fun text =>
      if text = "2026-08-26T12:00:00.0005Z" then some 63923342400000500000 else none }

def lastDecimal (text : String) : Option ℚ :=
  if text = "18446744073709551615" then some 18446744073709551615 else none

def halfInstant (text : String) : Option ℚ :=
  if text = "2026-08-26T12:00:00.0005Z" then some 63923342400000500000 else none

theorem halfPlatform_reads : halfPlatform.Reads lastDecimal halfInstant where
  whole := by
    intro text number written parsed spelled
    simp only [lastDecimal, Option.ite_none_right_eq_some] at spelled
    obtain ⟨rfl, -⟩ := spelled
    cases parsed
  rounded := by
    intro text number spelled small
    simp only [lastDecimal, Option.ite_none_right_eq_some, Option.some.injEq] at spelled
    obtain ⟨rfl, last⟩ := spelled
    obtain rfl : 18446744073709551615 = number := by exact_mod_cast last
    exact ⟨4895412794951729152, by rfl, by decide +kernel⟩
  truncated := by
    intro text moment spelled
    simp only [halfInstant, Option.ite_none_right_eq_some, Option.some.injEq] at spelled
    obtain ⟨rfl, rfl⟩ := spelled
    rfl
  dated := by
    intro text moment spelled
    simp only [halfInstant, Option.ite_none_right_eq_some, Option.some.injEq] at spelled
    obtain ⟨rfl, rfl⟩ := spelled
    norm_num

/-- A comparison with one literal is answered as it is meant, but for a list of instants that holds
one.  It means what the literal writes, of a number, exactly where it is read as a signed one, or
has no bit below its fifty-three highest, or is the last there is and what is above it or not is
asked for; of an instant, exactly where it is a whole millisecond, or what is above it or not is
asked for. -/
theorem literal_relates_iff {platform : Platform} {decimal instant : String → Option ℚ}
    (reads : platform.Reads decimal instant) (vocabulary : Vocabulary) (dataset : Dataset)
    {held : Held} {operator : Operator} (compares : operator ∈ comparing) {text : String}
    (short : text.utf8ByteSize ≤ maxValueBytes) :
    (∀ (row : StoredRow vocabulary dataset) (asked : Predicate) (column : String),
      asked.Accepted platform vocabulary dataset held → asked.operator = operator →
      columnOf dataset asked.field = some column →
      (Answered row asked (asked.holds row) ↔
        (held.repeated = true → held.kind = .instant → row.column column = some (.list [])))) ∧
    (∀ number : ℕ, held.kind = .number → decimal text = some (number : ℚ) → number < 2 ^ 64 →
      ∃ value, literal platform held text = .ok value ∧
        ((∀ stored : ℕ, stored < 2 ^ 64 →
          (operator.holds (.number (.finite stored)) (meant value) = true ↔
            operator.Relates stored number)) ↔
          (Decimal.parseInt text.toList).isSome = true ∨ 2 ^ (number.log2 - 52) ∣ number ∨
            number = 2 ^ 64 - 1 ∧ operator ∈ [.above, .atMost])) ∧
    (∀ moment : ℚ, held.kind = .instant → instant text = some moment →
      ∃ value, literal platform held text = .ok value ∧
        ((∀ stored : ℤ, operator.holds (.instant stored) (meant value) = true ↔
            operator.Relates (stored : ℚ) (millisOf moment)) ↔
          millisOf moment = ⌊millisOf moment⌋ ∨ operator ∈ [.above, .atMost])) := by
  refine ⟨?_, ?_, ?_⟩
  · rintro row asked column accepted rfl mapped
    exact answered_iff row accepted mapped compares
  · intro number kind written small
    obtain ⟨value, read, stands⟩ := literal_number reads short kind written small
    refine ⟨value, read, ?_⟩
    simp only [stands, holds_number_iff compares]
    by_cases signed : (Decimal.parseInt text.toList).isSome = true
    · simp [signed]
    · have last : number = 2 ^ 64 - 1 → number < nearest number := by
        rintro rfl
        decide
      rw [if_neg signed, relates_other_iff compares small, nearest_eq_iff]
      tauto
  · intro moment kind written
    obtain ⟨read, millis⟩ := literal_instant reads short kind written
    refine ⟨_, read, ?_⟩
    rw [← relates_floor_iff compares]
    simp only [meant, millis, holds_instant_iff compares]

theorem literal_relates_iff_half : ∃ value,
    literal halfPlatform ⟨.instant, false, []⟩ "2026-08-26T12:00:00.0005Z" = .ok value ∧
      ¬ ∀ stored : ℤ, Operator.below.holds (.instant stored) (meant value) = true ↔
        Operator.below.Relates (stored : ℚ) (millisOf 63923342400000500000) := by
  obtain ⟨value, read, agrees⟩ := (@literal_relates_iff _ _ _ halfPlatform_reads plainVocabulary
    .events ⟨.instant, false, []⟩ .below (by decide) "2026-08-26T12:00:00.0005Z"
      (by decide)).2.2 63923342400000500000 rfl (by rfl)
  exact ⟨value, read, fun holds => absurd (agrees.mp holds) (by decide +kernel)⟩

/-- Half a millisecond after a row, the row is not below the instant; and the last number a column
holds is not equal to itself. -/
theorem half_millisecond_dropped :
    (literal halfPlatform (plainHeld "time.event_time") "2026-08-26T12:00:00.0005Z" =
        .ok (.instant 63923342400000500000) ∧
      Answered plainRow ⟨"time.event_time", .below, [.instant 63923342400000500000]⟩ false ∧
      Operator.below.Relates (plainRow.instant : ℚ) (millisOf 63923342400000500000)) ∧
    literal halfPlatform (plainHeld "collection.sequence") "18446744073709551615" =
        .ok (.float 4895412794951729152) ∧
      Operator.equals.holds (.number (.finite 18446744073709551615))
        (meant (.float 4895412794951729152)) = false := by
  refine ⟨⟨by rfl, ⟨_, rfl, by rfl⟩, ?_⟩, by rfl,
    by decide +kernel⟩
  norm_num [Operator.Relates, millisOf, plainRow, Timestamp.epoch, Duration.second]

end Seagull.Hunt
