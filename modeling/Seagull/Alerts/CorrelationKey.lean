import Seagull.Alerts.Candidate
import Seagull.Detection.Detected
import Seagull.Detection.Sufficiency
import Seagull.DetectionState.KeyFor

/-!
# The key alerts fold on

A key names the tenant of a detection and, for each part a fold declares, the part and what the
detection holds of it.  What it does not hold is written as a text of its own, which is also a text
an event can carry.
-/

namespace Seagull.Alerts

open Contract DetectionV1 Detection

variable (sha256 : String → List UInt8) (unquote : String → Option String)

/-- `carried`: what evidence says an event carried.  Text is in quotes. -/
def carried (field : Field) (held : String) : String :=
  if kindOf field = some .text then (unquote held).getD held else held

/-- `find`: what a detection says of a field, and whether it was absent. -/
def find (made : DetectionV1.Detection) (field : Field) : Option (String × Bool) :=
  match made.evidence.find? fun seen => seen.field = field with
  | some seen => some (carried unquote field seen.held, seen.absent)
  | none =>
    (((made.aggregation.map Aggregation.group).getD [] ++
      (made.correlation.map Correlation.group).getD []).find? fun bound => bound.field = field).map
        fun bound => (bound.value, bound.absent)

def heldIn (made : DetectionV1.Detection) (field : Field) : Option String :=
  (find unquote made field).bind fun (held, absent) => if absent then none else some held

/-- `EvidencePrefix`. -/
def evidencePrefix : String := "evidence:"

/-- `Part.Field`: the field a part names, if it names one. -/
def partField (part : String) : Option Field :=
  if evidencePrefix.toList.isPrefixOf part.toList && part != evidencePrefix then
    some (String.ofList (part.toList.drop 9))
  else none

/-- `Part.Of`: what a detection holds of a part. -/
def partOf (made : DetectionV1.Detection) (part : String) : Option String :=
  let said := fun text : String => if text = "" then none else some text
  match partField part with
  | some field => heldIn unquote made field
  | none =>
    match part with
    | "rule" => said ((made.rule.map DetectionV1.Rule.id).getD "")
    | "agent" => said ((made.origin.map Origin.agentId).getD "")
    | "class" => said (eventClassName made.eventClass)
    | "severity" => said (severityName made.severity)
    | _ => none

/-- What is written of a part a detection does not hold. -/
def absence : String := "\x00absent"

def distinct (keyed : List String) : List String := compact (keyed.insertionSort (· ≤ ·))

/-- What the digest of a key is taken of. -/
def keyTexts (keyed : List String) (made : DetectionV1.Detection) : List String :=
  tenantOf made :: (distinct keyed).flatMap fun part =>
    [part, (partOf unquote made part).getD absence]

def correlationKey (keyed : List String) (made : DetectionV1.Detection) : String :=
  hexEncode ((sha256 (framedAll (keyTexts unquote keyed made))).take 16)

theorem mem_compact {α : Type} [DecidableEq α] (items : List α) (item : α) :
    item ∈ compact items ↔ item ∈ items := by
  fun_induction compact items with
  | case1 second rest ih => simpa using ih
  | case2 first second rest differ ih => simp [ih]
  | case3 items => rfl

theorem pairwise_compact {items : List String} (sorted : items.Pairwise (· ≤ ·)) :
    (compact items).Pairwise (· < ·) := by
  fun_induction compact items with
  | case1 second rest ih => exact ih sorted.of_cons
  | case2 first second rest differ ih =>
    obtain ⟨least, rest_sorted⟩ := List.pairwise_cons.mp sorted
    refine List.pairwise_cons.mpr ⟨fun item member => ?_, ih rest_sorted⟩
    have above : second ≤ item := by
      rcases List.mem_cons.mp ((mem_compact _ item).mp member) with rfl | behind
      · exact le_rfl
      · exact (List.pairwise_cons.mp rest_sorted).1 item behind
    exact lt_of_lt_of_le (lt_of_le_of_ne (least second List.mem_cons_self) differ) above
  | case3 items short =>
    match items, short with
    | [], _ => exact .nil
    | [item], _ => exact List.pairwise_singleton _ _
    | first :: second :: rest, short => exact absurd rfl (short first second rest)

theorem mem_distinct {keyed : List String} {part : String} :
    part ∈ distinct keyed ↔ part ∈ keyed := by
  rw [distinct, mem_compact, List.mem_insertionSort]

theorem distinct_congr {keyed others : List String} (same : ∀ part, part ∈ keyed ↔ part ∈ others) :
    distinct keyed = distinct others := by
  have sorted : ∀ parts : List String, (distinct parts).Pairwise (· < ·) := fun parts =>
    pairwise_compact (List.pairwise_insertionSort _ _)
  refine List.Perm.eq_of_pairwise (fun _ _ _ _ below above => absurd above (lt_asymm below))
    (sorted keyed) (sorted others) ?_
  rw [List.perm_ext_iff_of_nodup (sorted keyed).nodup (sorted others).nodup]
  intro part
  rw [mem_distinct, mem_distinct, same]

variable {unquote} {one other : DetectionV1.Detection} {keyed : List String}

theorem keyTexts_eq_iff : keyTexts unquote keyed one = keyTexts unquote keyed other ↔
    tenantOf one = tenantOf other ∧ ∀ part ∈ keyed,
      (partOf unquote one part).getD absence = (partOf unquote other part).getD absence := by
  simp only [keyTexts, List.cons.injEq, ← @mem_distinct keyed]
  refine and_congr_right fun _ => ?_
  induction distinct keyed with
  | nil => simp
  | cons part parts ih => simp [ih]

/-- One detection does not hold a part, and the other holds the text for that. -/
def Mistaken (unquote : String → Option String) (one other : DetectionV1.Detection)
    (part : String) : Prop :=
  partOf unquote one part = none ∧ partOf unquote other part = some absence ∨
    partOf unquote one part = some absence ∧ partOf unquote other part = none

theorem getD_absence_eq_iff {part : String} :
    (partOf unquote one part).getD absence = (partOf unquote other part).getD absence ↔
      partOf unquote one part = partOf unquote other part ∨ Mistaken unquote one other part := by
  unfold Mistaken
  cases partOf unquote one part <;> cases partOf unquote other part <;> simp [eq_comm]

/-- What a match says of the fields it names is what an event holds in them. -/
structure SaysOf (platform : Detection.Platform) (record : Event) (found : Match) : Prop where
  evidence : ∀ entry ∈ found.evidence, entry.Written platform record
  groups : ∀ binding ∈ found.counted.group ++ found.correlated.group, ∃ leaf,
    pathOf binding.field = some leaf ∧ binding.absent = (read record leaf).isNone ∧
      binding.value = ((read record leaf).map (plain platform leaf)).getD ""

theorem carried_wrote {platform : Detection.Platform}
    (inverse : ∀ text, unquote (Quote.quote platform.isPrint text) = some text) {field : Field}
    {leaf : Leaf} (path : pathOf field = some leaf) (value : Detection.Scalar) :
    carried unquote field (wrote platform leaf value) = plain platform leaf value := by
  have kind : kindOf field = some leaf.kind := by rw [kindOf, path]; rfl
  unfold carried wrote plain
  rw [kind, Leaf.kind]
  cases leaf.type <;> simp [inverse]

theorem heldIn_detected {platform : Detection.Platform} {record : Event} {found : Match}
    (saysOf : SaysOf platform record found)
    (inverse : ∀ text, unquote (Quote.quote platform.isPrint text) = some text) {ruleset : String}
    {instant : ℤ} {field : Field} {leaf : Leaf} (path : pathOf field = some leaf)
    (spoken : find unquote (found.detected platform ruleset record instant) field ≠ none) :
    heldIn unquote (found.detected platform ruleset record instant) field =
      (read record leaf).map (plain platform leaf) := by
  have grouped : ∀ bound, bound ∈
      (((aggregated found.rule.count found.counted).map Aggregation.group).getD [] ++
        ((toldOf found.rule.sequence found.correlated).map Correlation.group).getD []) →
      ∃ binding ∈ found.counted.group ++ found.correlated.group,
        (⟨binding.field, binding.value, binding.absent⟩ : DetectionV1.Grouping) = bound := by
    intro bound among
    unfold aggregated toldOf at among
    split_ifs at among <;> simp [bindings] at among ⊢ <;> grind
  unfold heldIn
  unfold find at spoken ⊢
  simp only [Match.detected] at spoken ⊢
  cases seen : (gathered found.evidence).find? fun seen => seen.field = field with
  | some first =>
    obtain ⟨entry, member, rfl⟩ := List.mem_map.mp (List.mem_of_find?_eq_some seen)
    have named : entry.field = field := by simpa using List.find?_some seen
    obtain ⟨leaf', path', absent, held⟩ := saysOf.evidence entry member
    obtain rfl : leaf = leaf' := Option.some.inj (path.symm.trans (named ▸ path'))
    cases value : read record leaf with
    | none => simp [absent, value]
    | some value' => simp [absent, held, value, carried_wrote inverse path]
  | none =>
    simp only [seen, ne_eq, Option.map_eq_none_iff] at spoken ⊢
    obtain ⟨bound, first⟩ := Option.ne_none_iff_exists'.mp spoken
    obtain ⟨binding, member, rfl⟩ := grouped bound (List.mem_of_find?_eq_some first)
    have named : binding.field = field := by simpa using List.find?_some first
    obtain ⟨leaf', path', absent, held⟩ := saysOf.groups binding member
    obtain rfl : leaf = leaf' := Option.some.inj (path.symm.trans (named ▸ path'))
    rw [first]
    cases value : read record leaf with
    | none => simp [absent, value]
    | some value' => simp [absent, held, value]

/-- A rule that asks for anyone but one user. -/
def notRoot : Detection.Rule :=
  { Detection.Rule.failedLogons with
    asks := .not (.predicate "authentication.user.name" .equals [.text "root"])
    count := .none }

def notRootProgram : Program :=
  ⟨notRoot, some (.negation (.comparison ⟨"authentication.user.name", .userName, .equals,
    [.text "root"]⟩)), [], ["authentication.user.name"], []⟩

def logon (user : Option User) : Event :=
  ⟨"logon", 1, .authentication, none, some ⟨"acme", "sensor-1", none⟩, none, none,
    some ⟨1, 2, "", "", user, none, none, ""⟩⟩

/-- What the rule makes of a logon. -/
def sighted (user : Option User) : Option DetectionV1.Detection :=
  (notRootProgram.decide .plain (logon user)).map fun found =>
    found.detected .plain "" (logon user) 0

def unquoteAbsence (text : String) : Option String :=
  if text = Quote.quote Platform.plain.isPrint absence then some absence else none

/-- The key does not depend on the order or repetition of the parts.  The keys of two detections are
equal exactly when their tenants are and both hold the same of every part, unless all that tells
them apart is a part the one does not hold and of which the other holds the text for that.  What a
detection of the engine holds of a field it speaks of is what the event held. -/
theorem correlationKey_eq_iff {sha256 : String → List UInt8} {unquote : String → Option String}
    {keyed : List String} {one other : DetectionV1.Detection}
    (collision_free : (sha256 (framedAll (keyTexts unquote keyed one))).take 16 =
        (sha256 (framedAll (keyTexts unquote keyed other))).take 16 →
      framedAll (keyTexts unquote keyed one) = framedAll (keyTexts unquote keyed other)) :
    (∀ others : List String, (∀ part, part ∈ keyed ↔ part ∈ others) →
      correlationKey sha256 unquote keyed one = correlationKey sha256 unquote others one) ∧
    ((correlationKey sha256 unquote keyed one = correlationKey sha256 unquote keyed other ↔
        tenantOf one = tenantOf other ∧
          ∀ part ∈ keyed, partOf unquote one part = partOf unquote other part) ↔
      ((∃ part ∈ keyed, Mistaken unquote one other part) → tenantOf one ≠ tenantOf other ∨
        ∃ part ∈ keyed, partOf unquote one part ≠ partOf unquote other part ∧
          ¬ Mistaken unquote one other part)) ∧
    ∀ (platform : Detection.Platform) (record : Event) (found : Match) (ruleset : String)
      (instant : ℤ) (field : Field) (leaf : Leaf), SaysOf platform record found →
      (∀ text, unquote (Quote.quote platform.isPrint text) = some text) →
      pathOf field = some leaf →
      find unquote (found.detected platform ruleset record instant) field ≠ none →
      heldIn unquote (found.detected platform ruleset record instant) field =
        (read record leaf).map (plain platform leaf) := by
  refine ⟨fun others same => ?_, ?_, fun platform record found ruleset instant field leaf saysOf
    inverse path spoken => heldIn_detected saysOf inverse path spoken⟩
  · rw [correlationKey, correlationKey, keyTexts, keyTexts, distinct_congr same]
  · have keys : correlationKey sha256 unquote keyed one = correlationKey sha256 unquote keyed other ↔
        tenantOf one = tenantOf other ∧ ∀ part ∈ keyed,
          partOf unquote one part = partOf unquote other part ∨ Mistaken unquote one other part := by
      simp only [← getD_absence_eq_iff, ← keyTexts_eq_iff]
      exact ⟨fun same => framedAll_injective (collision_free (hexEncode_injective same)),
        fun same => by rw [correlationKey, same, correlationKey]⟩
    have differ : ∀ part, Mistaken unquote one other part →
        partOf unquote one part ≠ partOf unquote other part := by
      rintro part (⟨left, right⟩ | ⟨left, right⟩) <;> simp [left, right]
    rw [keys]
    constructor
    · rintro agrees ⟨part, member, mistaken⟩
      by_contra alone
      simp only [not_or, not_not, not_exists, not_and] at alone
      have same := agrees.mp ⟨alone.1, fun part member => or_iff_not_imp_left.mpr
        (alone.2 part member)⟩
      exact differ part mistaken (same.2 part member)
    · intro apart
      refine and_congr_right fun tenants => ⟨fun each part member => ?_,
        fun same part member => .inl (same part member)⟩
      refine (each part member).resolve_right fun mistaken => ?_
      obtain apart | ⟨further, among, apart, unmistaken⟩ := apart ⟨part, member, mistaken⟩
      · exact apart tenants
      · exact (each further among).elim apart unmistaken

theorem correlationKey_eq_iff_turned :
    correlationKey Platform.plain.sha256 some ["rule", "agent"]
        ((Match.of notRoot []).detected .plain "" (logon none) 0) =
      correlationKey Platform.plain.sha256 some ["agent", "rule", "agent"]
        ((Match.of notRoot []).detected .plain "" (logon none) 0) :=
  (correlationKey_eq_iff fun _ => rfl).1 _ fun part => by simp; tauto

/-- The user whose name is the text for no name, and no user. -/
theorem correlationKey_absence : notRoot.compile .plain = .ok notRootProgram ∧
    ∃ one other, sighted (some ⟨absence, "", ""⟩) = some one ∧ sighted none = some other ∧
      partOf unquoteAbsence one "evidence:authentication.user.name" = some absence ∧
      partOf unquoteAbsence other "evidence:authentication.user.name" = none ∧
      ∀ sha256, correlationKey sha256 unquoteAbsence ["evidence:authentication.user.name"] one =
        correlationKey sha256 unquoteAbsence ["evidence:authentication.user.name"] other := by
  refine ⟨Rule.compile_eq_ok_iff.mpr ?_, _, _, rfl, rfl, by rfl, by rfl,
    fun sha256 => ?_⟩
  · exact {
      accepted := validate_eq_none_iff.mp (by rfl)
      rule_eq := rfl
      matching := by rfl
      fields_eq := by rfl
      grouped := by rfl
      light := by decide +kernel }
  · refine congrArg (fun texts => hexEncode ((sha256 (framedAll texts)).take 16)) ?_
    rfl

end Seagull.Alerts
