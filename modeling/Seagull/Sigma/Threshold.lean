import Seagull.Sigma.Parsing

/-!
# What a translated rule counts

The translator multiplies a window and adds to a threshold in 64 bits, and the range a rule's count
is held to is looked at behind that.  A threshold that wrapped is out of the range; a window that
wrapped may be in it.
-/

namespace Seagull.Sigma

open Detection Text

variable {platform : Platform} {parseFloat : String → Option Float64}

/-- The number some digits write, however large. -/
def digitsWritten (letters : List Char) : Option ℕ :=
  if letters ≠ [] ∧ letters.all Char.isDigit then some (Nat.ofDigitChars 10 letters 0) else none

def numberWritten : List Char → Option ℤ
  | '-' :: digits => (digitsWritten digits).map fun number => -(number : ℤ)
  | '+' :: digits => (digitsWritten digits).map fun number => (number : ℤ)
  | digits => (digitsWritten digits).map fun number => (number : ℤ)

def WindowSays (text : String) (quantity unit : ℤ) : Prop :=
  ∃ digits letter, trimmed text.toList = digits ++ [letter] ∧
    numberWritten digits = some quantity ∧ units.lookup letter.toLower = some unit

def detectionEntries (body : Yaml) : Option Mapping := do
  let held ← (fieldsOf body).toOption
  let node ← held.take "detection"
  (fieldsOf node).toOption

def timeframeText (entries : Mapping) : Option String :=
  match entries.take "timeframe" with
  | some (.scalar _ value _) => some value
  | _ => none

def behindCondition (platform : Platform) (parseFloat : String → Option Float64)
    (entries : Mapping) : Option (List String) := do
  let condition ← (entries.words "detection.condition" "condition").toOption
  let selections ← (selectionsOf platform parseFloat
    (entries.filter fun entry => entry.1 ∉ ["condition", "timeframe"])).toOption
  let (_, reading) ← (expression platform selections 0 ⟨tokensOf condition, []⟩).toOption
  return reading.tokens

def Satisfies (comparison : String) (threshold : ℤ) (count : ℕ) : Prop :=
  comparison = ">" ∧ threshold < count ∨ comparison = ">=" ∧ threshold ≤ count

/-- A rule counts what its document says: the window as written, and the smallest count that
satisfies the comparison. -/
def CountsAsWritten (platform : Platform) (parseFloat : String → Option Float64)
    (entries : Mapping) (quantity unit : ℤ) (count : Count) : Prop :=
  count.within = quantity * unit ∧
    ∀ front comparison number threshold,
      behindCondition platform parseFloat entries = some (front ++ [comparison, number]) →
      numberWritten number.toList = some threshold →
      ∃ least : ℕ, IsLeast {count | Satisfies comparison threshold count} least ∧
        count.atLeast = least

variable {letters : List Char}

theorem digitsWritten_of_fit {fits : ℕ → Prop} [DecidablePred fits] {signed : ℕ → ℤ} {number : ℤ}
    (parsed : (Decimal.parseUint letters).bind
      (fun whole => if fits whole then some (signed whole) else none) = some number) :
    ∃ whole, digitsWritten letters = some whole ∧ fits whole ∧ signed whole = number := by
  obtain ⟨whole, whole_eq, small⟩ := Option.bind_eq_some_iff.mp parsed
  split_ifs at small with fit
  rw [Decimal.parseUint] at whole_eq
  split_ifs at whole_eq with digits
  exact ⟨whole, (if_pos ⟨digits.1, digits.2.1⟩).trans whole_eq, fit, Option.some.inj small⟩

theorem numberWritten_of_parseInt {number : ℤ} (parsed : Decimal.parseInt letters = some number) :
    numberWritten letters = some number ∧ -2 ^ 63 ≤ number ∧ number < 2 ^ 63 := by
  unfold Decimal.parseInt at parsed
  split at parsed
  · obtain ⟨whole, whole_eq, fit, rfl⟩ := digitsWritten_of_fit parsed
    exact ⟨by rw [numberWritten, whole_eq]; rfl, by omega, by omega⟩
  · obtain ⟨whole, whole_eq, fit, rfl⟩ := digitsWritten_of_fit parsed
    exact ⟨by rw [numberWritten, whole_eq]; rfl, by omega, by omega⟩
  · rename_i minus plus
    obtain ⟨whole, whole_eq, fit, rfl⟩ := digitsWritten_of_fit parsed
    exact ⟨by rw [numberWritten.eq_3 letters minus plus, whole_eq]; rfl, by omega, by omega⟩

theorem unit_pos {letter : Char} {unit : ℤ} (known : units.lookup letter = some unit) :
    0 < unit := by
  obtain ⟨front, back, split, -⟩ := List.lookup_eq_some_iff.mp known
  have among : (letter, unit) ∈ units := by
    rw [split]
    simp
  exact (by decide : ∀ entry ∈ units, 0 < entry.2) _ among

variable {within : ℤ}

theorem window_eq_some {text : String} {quantity unit : ℤ} (read : window text = some within)
    (written : WindowSays text quantity unit) :
    0 < quantity * unit ∧ within = (quantity * unit).bmod (2 ^ 64) := by
  obtain ⟨digits, letter, split, number_eq, unit_eq⟩ := written
  simp only [window, split, List.getLast?_concat, List.dropLast_concat, Option.bind_eq_bind,
    Option.bind_some, unit_eq] at read
  obtain ⟨parsed, parsed_eq, within_eq⟩ := Option.bind_eq_some_iff.mp read
  split_ifs at within_eq with positive
  cases within_eq
  obtain rfl : parsed = quantity := by
    rw [(numberWritten_of_parseInt parsed_eq).1] at number_eq
    exact Option.some.inj number_eq
  exact ⟨mul_pos (not_le.mp positive) (unit_pos unit_eq), rfl⟩

theorem window_of_timeframe {entries : Mapping} {text : String}
    (framed : timeframeText entries = some text) (read_eq : timeframe platform entries = .ok within)
    : window text = some within := by
  rw [timeframeText] at framed
  split at framed
  · rename_i tag value truth taken
    obtain rfl := Option.some.inj framed
    simp only [timeframe, taken] at read_eq
    cases found : window value with
    | none => simp [found] at read_eq
    | some read =>
      rw [found] at read_eq
      exact congrArg some (Except.ok.inj read_eq)
  · cases framed

theorem bmod_eq_self_iff {product : ℤ} (positive : 0 < product) :
    product.bmod (2 ^ 64) = product ↔ product < 2 ^ 63 := by
  constructor
  · intro kept
    have := @Int.bmod_lt product (2 ^ 64) (by decide)
    omega
  · intro small
    exact Int.bmod_eq_of_le (by omega) (by omega)

theorem ne_empty_of_mem_flush {built : List Char} {tokens : List String}
    (solid : ∀ token ∈ tokens, token ≠ "") : ∀ token ∈ flush built tokens, token ≠ "" := by
  unfold flush
  split_ifs with empty
  · exact solid
  · intro token among
    rcases List.mem_cons.mp among with rfl | later
    · simpa [← String.toList_inj] using empty
    · exact solid token later

theorem ne_empty_of_mem_tokensFrom {built : List Char} :
    ∀ token ∈ tokensFrom built letters, token ≠ "" := by
  have mark (letters : List Char) (nonempty : letters ≠ []) : String.ofList letters ≠ "" := by
    simpa [← String.toList_inj] using nonempty
  fun_induction tokensFrom built letters with
  | case1 built => exact ne_empty_of_mem_flush (List.forall_mem_nil _)
  | case2 built letter rest blank ih => exact ne_empty_of_mem_flush ih
  | case3 _ _ _ _ _ ih | case4 _ _ _ _ _ _ ih | case5 _ _ _ _ _ _ _ ih =>
    exact ne_empty_of_mem_flush (List.forall_mem_cons.mpr ⟨mark _ (by simp), ih⟩)
  | case6 built letter rest blank bracket compares ih => exact ih

theorem Reading.next_suffix (reading : Reading) : reading.next.tokens <:+ reading.tokens :=
  List.tail_suffix _

variable {reading : Reading}

theorem groupedBy_suffix {behind : Reading} {fields : List Field}
    (read_eq : groupedBy platform reading = .ok (fields, behind)) :
    behind.tokens <:+ reading.tokens := by
  rw [groupedBy] at read_eq
  split_ifs at read_eq with groups
  · obtain ⟨grouping, -, built⟩ := checked_eq_ok.mp read_eq
    cases built
    exact (Reading.next_suffix _).trans (Reading.next_suffix _)
  · cases read_eq
    exact List.suffix_rfl

variable {count : Count}

theorem aggregation_eq_ok (solid : ∀ token ∈ reading.tokens, token ≠ "")
    (read_eq : aggregation platform reading = .ok count) :
    ∃ front comparison number threshold, reading.tokens = front ++ [comparison, number] ∧
      Decimal.parseInt number.toList = some threshold ∧
      atLeastOf comparison threshold = .ok count.atLeast := by
  simp only [aggregation, passes_eq_ok, refuse_eq_ok, not_not] at read_eq
  obtain ⟨-, -, -, -, rest_eq⟩ := read_eq
  obtain ⟨⟨fields, behind⟩, grouped_eq, compared_eq⟩ := checked_eq_ok.mp rest_eq
  have suffix : behind.tokens <:+ reading.tokens :=
    (groupedBy_suffix grouped_eq).trans <| (Reading.next_suffix _).trans <|
      (Reading.next_suffix _).trans <| (Reading.next_suffix _).trans (Reading.next_suffix _)
  cases parsed : Decimal.parseInt behind.next.peek.toList with
  | none => simp [parsed] at compared_eq
  | some threshold =>
    simp only [parsed, checked_eq_ok, exists_passed, refuse_eq_ok, not_not] at compared_eq
    obtain ⟨atLeast, atLeast_eq, last, built⟩ := compared_eq
    cases built
    obtain ⟨front, tokens_eq⟩ := suffix
    -- a number is there, so a comparison is in front of it, and nothing is behind it
    rcases behind_eq : behind.tokens with _ | ⟨comparison, _ | ⟨number, _ | ⟨extra, more⟩⟩⟩
    · simp [Reading.next, Reading.peek, behind_eq, Decimal.parseInt, Decimal.parseUint] at parsed
    · simp [Reading.next, Reading.peek, behind_eq, Decimal.parseInt, Decimal.parseUint] at parsed
    · simp only [Reading.next, Reading.peek, behind_eq, List.tail_cons, List.headD_cons]
        at parsed atLeast_eq
      exact ⟨front, comparison, number, threshold, by rw [← tokens_eq, behind_eq], parsed,
        atLeast_eq⟩
    · simp only [Reading.next, Reading.peek, behind_eq, List.tail_cons, List.headD_cons] at last
      refine absurd last (solid extra ?_)
      rw [← tokens_eq, behind_eq]
      simp

theorem atLeastOf_least {comparison : String} {threshold atLeast : ℤ}
    (lower : -2 ^ 63 ≤ threshold) (upper : threshold < 2 ^ 63) (positive : 0 < atLeast)
    (read_eq : atLeastOf comparison threshold = .ok atLeast) :
    ∃ least : ℕ, IsLeast {count | Satisfies comparison threshold count} least ∧
      atLeast = least := by
  rw [atLeastOf] at read_eq
  split_ifs at read_eq with more enough
  · obtain rfl := Except.ok.inj read_eq
    -- the largest threshold is the one that wraps, and it wraps to a negative number
    have unwrapped : (threshold + 1).bmod (2 ^ 64) = threshold + 1 := by
      rcases (by omega : threshold = 2 ^ 63 - 1 ∨ threshold + 1 < 2 ^ 63) with rfl | below
      · exact absurd positive (by decide)
      · exact Int.bmod_eq_of_le (by omega) (by omega)
    rw [unwrapped] at positive ⊢
    refine ⟨(threshold + 1).toNat, ⟨.inl ⟨more, by omega⟩, ?_⟩, by omega⟩
    rintro count (⟨-, above⟩ | ⟨loose, -⟩)
    · omega
    · exact absurd (more.symm.trans loose) (by decide)
  · obtain rfl := Except.ok.inj read_eq
    refine ⟨threshold.toNat, ⟨.inr ⟨enough, by omega⟩, ?_⟩, by omega⟩
    rintro count (⟨strict, -⟩ | ⟨-, reached⟩)
    · exact absurd strict more
    · omega

theorem threshold_eq_ok (read_eq : threshold platform reading within = .ok count) :
    within = 0 ∧ count = .none ∨
      within ≠ 0 ∧ ∃ counted, aggregation platform reading = .ok counted ∧
        count = { counted with within := within } := by
  rw [threshold] at read_eq
  split_ifs at read_eq with ended framed unframed
  · exact .inl ⟨not_not.mp framed, (Except.ok.inj read_eq).symm⟩
  · obtain ⟨counted, -, refused⟩ := checked_eq_ok.mp read_eq
    cases refused
  · obtain ⟨counted, counted_eq, built⟩ := checked_eq_ok.mp read_eq
    exact .inr ⟨unframed, counted, counted_eq, (pure_eq_ok.mp built).symm⟩

theorem detectionOf_count {entries : Mapping} {asks : Expression}
    (read_eq : detectionOf platform parseFloat entries = .ok (asks, count)) :
    ∃ (reading : Reading) (within : ℤ), timeframe platform entries = .ok within ∧
      behindCondition platform parseFloat entries = some reading.tokens ∧
      (∀ token ∈ reading.tokens, token ≠ "") ∧ threshold platform reading within = .ok count := by
  obtain ⟨condition, condition_eq, rest_eq⟩ := checked_eq_ok.mp read_eq
  obtain ⟨-, rest_eq⟩ := passes_eq_ok.mp rest_eq
  obtain ⟨within, within_eq, rest_eq⟩ := checked_eq_ok.mp rest_eq
  obtain ⟨selections, selections_eq, rest_eq⟩ := checked_eq_ok.mp rest_eq
  obtain ⟨-, rest_eq⟩ := passes_eq_ok.mp rest_eq
  obtain ⟨⟨built, reading⟩, expression_eq, rest_eq⟩ := checked_eq_ok.mp rest_eq
  obtain ⟨counted, threshold_eq, rest_eq⟩ := checked_eq_ok.mp rest_eq
  obtain ⟨-, built_eq⟩ := passes_eq_ok.mp rest_eq
  cases built_eq
  refine ⟨reading, within, within_eq, ?_, fun token among => ?_, threshold_eq⟩
  · simp only [behindCondition, condition_eq, selections_eq, expression_eq, Except.toOption,
      Option.bind_eq_bind, Option.bind_some]
    rfl
  · obtain ⟨taken, tokens_eq, -⟩ := expression_takes 0 _ _ _ expression_eq
    have cut : token ∈ tokensFrom [] condition.toList :=
      (show tokensFrom [] condition.toList = taken ++ reading.tokens from tokens_eq) ▸
        List.mem_append_right taken among
    exact ne_empty_of_mem_tokensFrom token cut

theorem translateTitled_detection {held : Mapping} {title : String} {rule : Rule}
    (read_eq : translateTitled platform parseFloat held title = .ok rule) :
    detection platform parseFloat held = .ok (rule.asks, rule.count) := by
  obtain ⟨id, -, rest_eq⟩ := checked_eq_ok.mp read_eq
  obtain ⟨description, -, rest_eq⟩ := checked_eq_ok.mp rest_eq
  obtain ⟨severity, -, rest_eq⟩ := checked_eq_ok.mp rest_eq
  obtain ⟨source, -, rest_eq⟩ := checked_eq_ok.mp rest_eq
  obtain ⟨falsePositives, -, rest_eq⟩ := checked_eq_ok.mp rest_eq
  obtain ⟨tags, -, rest_eq⟩ := checked_eq_ok.mp rest_eq
  obtain ⟨references, -, rest_eq⟩ := checked_eq_ok.mp rest_eq
  obtain ⟨eventClass, -, rest_eq⟩ := checked_eq_ok.mp rest_eq
  obtain ⟨⟨asks, count⟩, detection_eq, rest_eq⟩ := checked_eq_ok.mp rest_eq
  obtain ⟨-, built⟩ := passes_eq_ok.mp rest_eq
  cases built
  exact detection_eq

theorem translate_eq_ok {body : Yaml} {rule : Rule}
    (accepted : Translate platform parseFloat body = .ok rule) :
    ∃ entries, detectionEntries body = some entries ∧
      detectionOf platform parseFloat entries = .ok (rule.asks, rule.count) ∧
      rule.Accepted platform := by
  rw [Translate] at accepted
  split at accepted
  · cases accepted
  · rename_i held held_eq
    split at accepted
    · cases accepted
    · rename_i title title_eq
      split_ifs at accepted with untitled
      split at accepted
      · cases accepted
      · rename_i translated titled
        split at accepted
        · cases accepted
        · rename_i program compiled
          cases accepted
          have detected := translateTitled_detection titled
          rw [detection] at detected
          split at detected
          · cases detected
          · rename_i node taken
            split at detected
            · cases detected
            · rename_i entries entries_eq
              refine ⟨entries, ?_, detected, (Rule.compile_eq_ok_iff.mp compiled).accepted⟩
              simp [detectionEntries, held_eq, taken, entries_eq, Except.toOption]

/-- A translated rule counts as its document says exactly where the window it writes is shorter than
`2 ^ 63` nanoseconds. -/
theorem translate_counts_iff (platform : Platform) (parseFloat : String → Option Float64)
    {body : Yaml} {rule : Rule} (accepted : Translate platform parseFloat body = .ok rule)
    {entries : Mapping} (detects : detectionEntries body = some entries) {text : String}
    (framed : timeframeText entries = some text) {quantity unit : ℤ}
    (written : WindowSays text quantity unit) :
    CountsAsWritten platform parseFloat entries quantity unit rule.count ↔
      quantity * unit < 2 ^ 63 := by
  obtain ⟨found, found_eq, detected, runs⟩ := translate_eq_ok accepted
  obtain rfl : found = entries := Option.some.inj (found_eq.symm.trans detects)
  obtain ⟨reading, within, within_eq, behind_eq, solid, threshold_eq⟩ := detectionOf_count detected
  have window_eq : window text = some within := window_of_timeframe framed within_eq
  obtain ⟨positive, wrapped⟩ := window_eq_some window_eq written
  obtain ⟨rfl, uncounted⟩ | ⟨framed_by, counted, counted_eq, count_eq⟩ := threshold_eq_ok threshold_eq
  · -- a window that wraps to nothing is none at all, and one that does not refuses the rule
    have kept := bmod_eq_self_iff positive
    rw [← wrapped] at kept
    rw [← kept, CountsAsWritten, uncounted]
    exact ⟨fun counts => counts.1, fun zero => absurd zero.symm positive.ne'⟩
  · rw [← bmod_eq_self_iff positive, ← wrapped, count_eq]
    refine ⟨fun counts => counts.1, fun kept => ⟨kept, ?_⟩⟩
    intro front comparison number threshold ends number_eq
    obtain ⟨start, compared, compared_to, reached, tokens_eq, parsed, atLeast_eq⟩ :=
      aggregation_eq_ok solid counted_eq
    have same : start ++ [compared, compared_to] = front ++ [comparison, number] := by
      rw [← tokens_eq]
      exact Option.some.inj (behind_eq.symm.trans ends)
    obtain ⟨-, last⟩ := List.append_inj' same rfl
    obtain ⟨rfl, rfl⟩ : compared = comparison ∧ compared_to = number := by simpa using last
    obtain ⟨reached_eq, lower, upper⟩ := numberWritten_of_parseInt parsed
    obtain rfl : reached = threshold := Option.some.inj (reached_eq.symm.trans number_eq)
    have counts : rule.count.counts = true := by
      simp [count_eq, Count.counts, framed_by]
    have enough := (runs.count counts).atLeast_ge
    rw [count_eq] at enough
    exact atLeastOf_least lower upper (lt_of_lt_of_le (by decide) enough) atLeast_eq

/-- A detection that counts failed authentications in a window. -/
def failuresWithin (timeframe : String) : Mapping :=
  [("selection", .mapping [("Outcome", .text "failure")]), ("timeframe", .text timeframe),
    ("condition", .text "selection | count() > 4")]

def countingWithin (timeframe : String) : Yaml :=
  .mapping [("title", .text "Failed logons"), ("description", .text "Authentications failed."),
    ("level", .text "low"),
    ("logsource", .mapping [("product", .text "linux"), ("service", .text "sshd")]),
    ("detection", .mapping (failuresWithin timeframe))]

theorem translate_counts_quarter :
    ∃ rule, Translate .plain (fun _ => none) (countingWithin "15m") = .ok rule ∧
      CountsAsWritten .plain (fun _ => none) (failuresWithin "15m") 15 (60 * Duration.second)
        rule.count := by
  have translated : (Translate .plain (fun _ => none) (countingWithin "15m")).toOption.isSome := by
    decide +kernel
  obtain ⟨rule, rule_eq⟩ := Option.isSome_iff_exists.mp translated
  have accepted : Translate .plain (fun _ => none) (countingWithin "15m") = .ok rule := by
    cases found : Translate .plain (fun _ => none) (countingWithin "15m") with
    | error refused => simp [found, Except.toOption] at rule_eq
    | ok other => simpa [found, Except.toOption] using rule_eq
  exact ⟨rule, accepted, (translate_counts_iff .plain (fun _ => none) accepted rfl rfl
    ⟨['1', '5'], 'm', by decide, by decide, by decide⟩).mpr (by decide)⟩

/-- A window of over a billion years is taken for one of a second. -/
theorem translate_wrapped :
    WindowSays "36028797018963969s" 36028797018963969 Duration.second ∧
      (Translate .plain (fun _ => none)
        (countingWithin "36028797018963969s")).toOption.map Rule.count =
        some ⟨5, Duration.second, []⟩ :=
  ⟨⟨"36028797018963969".toList, 's', by decide, by decide, by decide⟩, by decide +kernel⟩

end Seagull.Sigma
