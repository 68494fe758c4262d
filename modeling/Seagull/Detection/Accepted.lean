import Seagull.Detection.Validate

/-!
# What an accepted rule is

The checks of a rule in their own order say which refusal an author reads first.  What they come to
is stated here without the order: a rule is accepted exactly when each of its parts is in order.
-/

namespace Seagull.Detection

open Contract Text

section Checks

variable {rule : Rule} {part reason : String}

@[simp]
theorem Rule.refuse_eq_none {wrong : Prop} [Decidable wrong] :
    rule.refuse wrong part reason = none ↔ ¬ wrong := by
  simp [Rule.refuse]

@[simp]
theorem Rule.text_eq_none {value : String} {ceiling : ℕ} {required : Bool} :
    rule.text part value ceiling required = none ↔
      (required = true → isBlank value = false) ∧ value.utf8ByteSize ≤ ceiling := by
  unfold Rule.text
  split_ifs with missing
  · simp [missing]
  · simp only [Rule.refuse_eq_none, not_lt, iff_and_self]
    intro _ needed
    simpa [needed] using missing

end Checks

/-- A text that is there and within a ceiling. -/
def Written (ceiling : ℕ) (value : String) : Prop :=
  isBlank value = false ∧ value.utf8ByteSize ≤ ceiling

def Identified (value : String) : Prop :=
  isIdentifier value = true ∧ value.utf8ByteSize ≤ maxIDLength

/-- The fields a rule may group by. -/
structure Groups (eventClass : EventClass) (fields : List Field) : Prop where
  distinct : fields.Nodup
  named : ∀ field ∈ fields, field ≠ classField ∧ field ≠ tenantField ∧ field ≠ identityField
  declared : ∀ field ∈ fields, (kindOf field).isSome
  addressable : ∀ field ∈ fields, addressableBy field eventClass = true

/-- A question about one field that the field can answer. -/
structure WellAsked (platform : Platform) (eventClass : EventClass) (field : Field)
    (operator : Operator) (values : List Value) (kind : Kind) : Prop where
  declared : kindOf field = some kind
  addressable : addressableBy field eventClass = true
  known : operator.known = true
  asks : operator.asks kind = true
  enough : operator.takes.1 ≤ values.length
  few : 0 < operator.takes.2 → values.length ≤ operator.takes.2
  bounded : values.length ≤ maxValues
  fit : ∀ value ∈ values, value.fits kind = true
  solid : ∀ value ∈ values, value.fits .text = true → isBlank value.textOf = false
  chosen : ∀ value ∈ values, kind = .choice → value.textOf ∈ choicesOf platform field

/-- An expression the language can ask, at a depth. -/
inductive WellFormed (platform : Platform) (eventClass : EventClass) : Expression → ℕ → Prop
  | predicate {field : Field} {operator : Operator} {values : List Value} {depth : ℕ}
      (shallow : depth ≤ maxDepth) (kind : Kind)
      (asked : WellAsked platform eventClass field operator values kind) :
      WellFormed platform eventClass (.predicate field operator values) depth
  | not {term : Expression} {depth : ℕ} (shallow : depth ≤ maxDepth)
      (inner : WellFormed platform eventClass term (depth + 1)) :
      WellFormed platform eventClass (.not term) depth
  | all {terms : List Expression} {depth : ℕ} (shallow : depth ≤ maxDepth) (nonempty : terms ≠ [])
      (each : ∀ term ∈ terms, WellFormed platform eventClass term (depth + 1)) :
      WellFormed platform eventClass (.all terms) depth
  | any {terms : List Expression} {depth : ℕ} (shallow : depth ≤ maxDepth) (nonempty : terms ≠ [])
      (each : ∀ term ∈ terms, WellFormed platform eventClass term (depth + 1)) :
      WellFormed platform eventClass (.any terms) depth

/-- A count that can be answered. -/
structure Count.Accepted (eventClass : EventClass) (count : Count) : Prop where
  atLeast_ge : minCount ≤ count.atLeast
  atLeast_le : count.atLeast ≤ maxCount
  within_pos : 0 < count.within
  within_le : count.within ≤ maxWithin
  groups_le : count.groupBy.length ≤ maxGroupBy
  groups : Groups eventClass count.groupBy

/-- A sequence that can be answered. -/
structure Sequence.Accepted (platform : Platform) (eventClass : EventClass)
    (sequence : Sequence) : Prop where
  stages_ge : minStages ≤ sequence.stages.length
  stages_le : sequence.stages.length ≤ maxStages
  within_pos : 0 < sequence.within
  within_le : sequence.within ≤ maxWithin
  groups_le : sequence.groupBy.length ≤ maxGroupBy
  named : ∀ stage ∈ sequence.stages, Written maxStageLength stage.name
  distinct : (sequence.stages.map Stage.name).Nodup
  asked : ∀ stage ∈ sequence.stages, WellFormed platform eventClass stage.asks 0
  groups : Groups eventClass sequence.groupBy

/-- A rule the platform can run. -/
structure Rule.Accepted (platform : Platform) (rule : Rule) : Prop where
  id : Identified rule.id
  unversioned : isVersioned rule.id = false
  revision_ge : 1 ≤ rule.revision
  revision_lt : rule.revision < 2 ^ 32
  name : Written maxNameLength rule.name
  description : Written maxDescriptionLength rule.description
  falsePositives : rule.falsePositives.utf8ByteSize ≤ maxGuidanceLength
  response : rule.response.utf8ByteSize ≤ maxGuidanceLength
  severity : declaresSeverity rule.severity = true
  status : declaresStatus rule.status = true
  technique : rule.technique.empty = false →
    (rule.technique.tactic ≠ "" ∧ rule.technique.id ≠ "" ∧ rule.technique.name ≠ "") ∧
      rule.technique.tactic ∈ tactics ∧ isTechnique rule.technique.id = true ∧
        Written maxNameLength rule.technique.name
  source : rule.source.empty = false →
    (rule.source.catalogue ≠ "" ∧ rule.source.identifier ≠ "") ∧
      Identified rule.source.catalogue ∧ Written maxNameLength rule.source.identifier
  tags_le : rule.tags.length ≤ maxTags
  tags : rule.tags.Nodup ∧ ∀ tag ∈ rule.tags, Identified tag
  references_le : rule.references.length ≤ maxReferences
  references : rule.references.Nodup ∧ ∀ reference ∈ rule.references,
    reference.utf8ByteSize ≤ maxReferenceLength ∧ platform.reachable reference = true
  eventClass : rule.eventClass ≠ .unspecified ∧ declaresClass rule.eventClass = true
  count : rule.count.counts = true → rule.count.Accepted rule.eventClass
  alone : rule.sequence.correlates = true → rule.asks = .absent ∧ rule.count.counts = false
  sequence : rule.sequence.correlates = true →
    rule.sequence.Accepted platform rule.eventClass
  asked : rule.sequence.correlates = false → WellFormed platform rule.eventClass rule.asks 0

section Lists

variable {platform : Platform} {rule : Rule}

theorem nodup_of_walk {α : Type} {first : α} {rest carried : List α} :
    (first ∉ carried ∧ rest.Nodup ∧ ∀ one ∈ rest, one ∉ first :: carried) ↔
      (first :: rest).Nodup ∧ ∀ one ∈ first :: rest, one ∉ carried := by
  simp only [List.nodup_cons, List.mem_cons, not_or, forall_eq_or_imp]
  constructor
  · rintro ⟨new, distinct, later⟩
    exact ⟨⟨fun again => (later first again).1 rfl, distinct⟩, new,
      fun one one_mem => (later one one_mem).2⟩
  · rintro ⟨⟨unrepeated, distinct⟩, new, later⟩
    refine ⟨new, distinct, fun one one_mem => ⟨?_, later one one_mem⟩⟩
    rintro rfl
    exact unrepeated one_mem

theorem validateTagsFrom_eq_none {tags carried : List String} {index : ℕ} :
    rule.validateTagsFrom platform tags carried index = none ↔
      (∀ tag ∈ tags, Identified tag) ∧ tags.Nodup ∧ ∀ tag ∈ tags, tag ∉ carried := by
  induction tags generalizing carried index with
  | nil => simp [Rule.validateTagsFrom]
  | cons tag tags ih =>
    rw [← nodup_of_walk, Rule.validateTagsFrom]
    simp only [Option.orElse_eq_none, Rule.refuse_eq_none, ih, List.forall_mem_cons, Identified,
      not_or, Bool.not_eq_false, not_lt]
    tauto

theorem validateReferencesFrom_eq_none {references carried : List String} {index : ℕ} :
    rule.validateReferencesFrom platform references carried index = none ↔
      (∀ reference ∈ references, reference.utf8ByteSize ≤ maxReferenceLength ∧
        platform.reachable reference = true) ∧
      references.Nodup ∧ ∀ reference ∈ references, reference ∉ carried := by
  induction references generalizing carried index with
  | nil => simp [Rule.validateReferencesFrom]
  | cons reference references ih =>
    rw [← nodup_of_walk, Rule.validateReferencesFrom]
    simp only [Option.orElse_eq_none, Rule.refuse_eq_none, ih, List.forall_mem_cons,
      Bool.not_eq_false, not_lt]
    tauto

theorem validateGrouped_eq_none {place : String} {fields grouped : List Field} {index : ℕ} :
    rule.validateGrouped platform place fields grouped index = none ↔
      Groups rule.eventClass fields ∧ ∀ field ∈ fields, field ∉ grouped := by
  have spelled : Groups rule.eventClass fields ∧ (∀ field ∈ fields, field ∉ grouped) ↔
      (∀ field ∈ fields, (field ≠ classField ∧ field ≠ tenantField ∧ field ≠ identityField) ∧
        (kindOf field).isSome ∧ addressableBy field rule.eventClass = true) ∧
      fields.Nodup ∧ ∀ field ∈ fields, field ∉ grouped := by
    constructor
    · rintro ⟨⟨distinct, named, declared, addressable⟩, new⟩
      exact ⟨fun field field_mem => ⟨named field field_mem, declared field field_mem,
        addressable field field_mem⟩, distinct, new⟩
    · rintro ⟨each, distinct, new⟩
      exact ⟨⟨distinct, fun field field_mem => (each field field_mem).1,
        fun field field_mem => (each field field_mem).2.1,
        fun field field_mem => (each field field_mem).2.2⟩, new⟩
  rw [spelled]
  clear spelled
  induction fields generalizing grouped index with
  | nil => simp [Rule.validateGrouped]
  | cons field fields ih =>
    rw [← nodup_of_walk, Rule.validateGrouped]
    simp only [Option.orElse_eq_none, Rule.refuse_eq_none, ih, List.forall_mem_cons,
      Bool.not_eq_false, Bool.not_eq_true, Option.isNone_eq_false_iff, ne_eq]
    tauto

theorem validateLiterals_eq_none {place : String} {field : Field} {kind : Kind}
    {values : List Value} :
    rule.validateLiterals platform place field kind values = none ↔
      ∀ value ∈ values, value.fits kind = true ∧
        (value.fits .text = true → isBlank value.textOf = false) ∧
        (kind = .choice → value.textOf ∈ choicesOf platform field) := by
  induction values with
  | nil => simp [Rule.validateLiterals]
  | cons value values ih =>
    rw [Rule.validateLiterals]
    simp only [Option.orElse_eq_none, Rule.refuse_eq_none, ih, List.forall_mem_cons,
      Bool.not_eq_false, not_and, not_not, Bool.not_eq_true]
    tauto

end Lists

section Expressions

variable {platform : Platform} {rule : Rule}

theorem validatePredicate_eq_none {part : String} {field : Field} {operator : Operator}
    {values : List Value} :
    rule.validatePredicate platform part field operator values = none ↔
      ∃ kind, WellAsked platform rule.eventClass field operator values kind := by
  rw [Rule.validatePredicate]
  cases declared : kindOf field with
  | none =>
    simp only [reduceCtorEq, false_iff, not_exists]
    intro kind asked
    have := asked.declared
    rw [declared] at this
    cases this
  | some kind =>
    simp only [Option.orElse_eq_none, Rule.refuse_eq_none, Rule.validateValues,
      validateLiterals_eq_none, Bool.not_eq_false, not_lt, not_and]
    constructor
    · rintro ⟨addressable, known, asks, enough, few, bounded, fit⟩
      exact ⟨kind, declared, addressable, known, asks, enough, few, bounded,
        fun value value_mem => (fit value value_mem).1,
        fun value value_mem => (fit value value_mem).2.1,
        fun value value_mem => (fit value value_mem).2.2⟩
    · rintro ⟨other, asked⟩
      obtain rfl : kind = other := Option.some.inj (declared.symm.trans asked.declared)
      exact ⟨asked.addressable, asked.known, asked.asks, asked.enough, asked.few, asked.bounded,
        fun value value_mem => ⟨asked.fit value value_mem, asked.solid value value_mem,
          asked.chosen value value_mem⟩⟩

mutual

theorem validateExpression_eq_none (part : String) :
    ∀ (expression : Expression) (depth : ℕ),
      rule.validateExpression platform part expression depth = none ↔
        WellFormed platform rule.eventClass expression depth
  | .absent, depth => by
    simp only [Rule.validateExpression, reduceCtorEq, false_iff]
    rintro ⟨⟩
  | .predicate field operator values, depth => by
    simp only [Rule.validateExpression, Option.orElse_eq_none, Rule.refuse_eq_none, not_lt,
      validatePredicate_eq_none]
    exact ⟨fun ⟨shallow, kind, asked⟩ => .predicate shallow kind asked,
      fun | .predicate shallow kind asked => ⟨shallow, kind, asked⟩⟩
  | .not term, depth => by
    simp only [Rule.validateExpression, Option.orElse_eq_none, Rule.refuse_eq_none, not_lt,
      validateExpression_eq_none _ term]
    exact ⟨fun ⟨shallow, inner⟩ => .not shallow inner,
      fun | .not shallow inner => ⟨shallow, inner⟩⟩
  | .all terms, depth => by
    simp only [Rule.validateExpression, Option.orElse_eq_none, Rule.refuse_eq_none, not_lt,
      validateTerms_eq_none _ terms, List.isEmpty_iff]
    exact ⟨fun ⟨shallow, nonempty, each⟩ => .all shallow nonempty each,
      fun | .all shallow nonempty each => ⟨shallow, nonempty, each⟩⟩
  | .any terms, depth => by
    simp only [Rule.validateExpression, Option.orElse_eq_none, Rule.refuse_eq_none, not_lt,
      validateTerms_eq_none _ terms, List.isEmpty_iff]
    exact ⟨fun ⟨shallow, nonempty, each⟩ => .any shallow nonempty each,
      fun | .any shallow nonempty each => ⟨shallow, nonempty, each⟩⟩

theorem validateTerms_eq_none (part : String) :
    ∀ (terms : List Expression) (index depth : ℕ),
      rule.validateTerms platform part terms index depth = none ↔
        ∀ term ∈ terms, WellFormed platform rule.eventClass term depth
  | [], _, _ => by simp [Rule.validateTerms]
  | term :: terms, index, depth => by
    simp only [Rule.validateTerms, Option.orElse_eq_none, validateExpression_eq_none _ term,
      validateTerms_eq_none _ terms, List.forall_mem_cons]

end

end Expressions

section Parts

variable {platform : Platform} {rule : Rule}

theorem validateTechnique_eq_none :
    rule.validateTechnique platform = none ↔ (rule.technique.empty = false →
      (rule.technique.tactic ≠ "" ∧ rule.technique.id ≠ "" ∧ rule.technique.name ≠ "") ∧
        rule.technique.tactic ∈ tactics ∧ isTechnique rule.technique.id = true ∧
          Written maxNameLength rule.technique.name) := by
  rw [Rule.validateTechnique]
  split_ifs with empty
  · simp [empty]
  · simp only [Option.orElse_eq_none, Rule.refuse_eq_none, Rule.text_eq_none, not_or, not_not,
      Bool.not_eq_false, forall_const, Written, Bool.not_eq_true] at empty ⊢
    simp only [empty, forall_const, ne_eq]

theorem validateSource_eq_none :
    rule.validateSource platform = none ↔ (rule.source.empty = false →
      (rule.source.catalogue ≠ "" ∧ rule.source.identifier ≠ "") ∧
        Identified rule.source.catalogue ∧ Written maxNameLength rule.source.identifier) := by
  rw [Rule.validateSource]
  split_ifs with empty
  · simp [empty]
  · simp only [Option.orElse_eq_none, Rule.refuse_eq_none, Rule.text_eq_none, not_or, not_lt,
      Bool.not_eq_false, forall_const, Written, Identified, Bool.not_eq_true] at empty ⊢
    simp only [empty, forall_const, ne_eq]

theorem validateCount_eq_none :
    rule.validateCount platform = none ↔
      (rule.count.counts = true → rule.count.Accepted rule.eventClass) := by
  rw [Rule.validateCount]
  split_ifs with counts
  · simp [counts]
  · rw [Bool.not_eq_false] at counts
    simp only [counts, Option.orElse_eq_none, Rule.refuse_eq_none, validateGrouped_eq_none, not_lt,
      not_le, forall_const, List.not_mem_nil, not_false_eq_true, implies_true, and_true]
    exact ⟨fun ⟨ge, le, pos, within, few, groups⟩ => ⟨ge, le, pos, within, few, groups⟩,
      fun ⟨ge, le, pos, within, few, groups⟩ => ⟨ge, le, pos, within, few, groups⟩⟩

theorem validateStages_eq_none {stages : List Stage} {named : List String} {index : ℕ} :
    rule.validateStages platform stages named index = none ↔
      (∀ stage ∈ stages, Written maxStageLength stage.name ∧
        WellFormed platform rule.eventClass stage.asks 0) ∧
      (stages.map Stage.name).Nodup ∧ ∀ name ∈ stages.map Stage.name, name ∉ named := by
  induction stages generalizing named index with
  | nil => simp [Rule.validateStages]
  | cons stage stages ih =>
    rw [List.map_cons, ← nodup_of_walk, Rule.validateStages]
    simp only [Option.orElse_eq_none, Rule.refuse_eq_none, Rule.text_eq_none, ih,
      validateExpression_eq_none, List.forall_mem_cons, Written, forall_const]
    tauto

theorem asksBeside_eq_false {expression : Expression} :
    Rule.asksBeside expression = false ↔ expression = .absent := by
  cases expression <;> simp [Rule.asksBeside]

theorem validateSequence_eq_none :
    rule.validateSequence platform = none ↔
      (rule.sequence.correlates = true →
        (rule.asks = .absent ∧ rule.count.counts = false) ∧
          rule.sequence.Accepted platform rule.eventClass) := by
  rw [Rule.validateSequence]
  split_ifs with correlates
  · simp [correlates]
  · rw [Bool.not_eq_false] at correlates
    simp only [correlates, Option.orElse_eq_none, Rule.refuse_eq_none, validateGrouped_eq_none,
      validateStages_eq_none, not_lt, not_le, forall_const, List.not_mem_nil, not_false_eq_true,
      implies_true, and_true, Bool.not_eq_true, asksBeside_eq_false]
    constructor
    · rintro ⟨absent, alone, ge, le, pos, within, few, ⟨each, distinct⟩, groups⟩
      exact ⟨⟨absent, alone⟩, ge, le, pos, within, few, fun stage member => (each stage member).1,
        distinct, fun stage member => (each stage member).2, groups⟩
    · rintro ⟨⟨absent, alone⟩, accepted⟩
      exact ⟨absent, alone, accepted.stages_ge, accepted.stages_le, accepted.within_pos,
        accepted.within_le, accepted.groups_le,
        ⟨fun stage member => ⟨accepted.named stage member, accepted.asked stage member⟩,
          accepted.distinct⟩, accepted.groups⟩

theorem validate_eq_none_iff : rule.validate platform = none ↔ rule.Accepted platform := by
  have matching : (if rule.sequence.correlates then none
      else rule.validateExpression platform "match" rule.asks 0) = none ↔
      (rule.sequence.correlates = false →
        WellFormed platform rule.eventClass rule.asks 0) := by
    split_ifs with correlates
    · simp [correlates]
    · simp [correlates, validateExpression_eq_none]
  simp only [Rule.validate, Option.orElse_eq_none, Rule.refuse_eq_none, Rule.text_eq_none,
    validateTechnique_eq_none, validateSource_eq_none, Rule.validateTags,
    validateTagsFrom_eq_none, Rule.validateReferences, validateReferencesFrom_eq_none,
    Rule.validateClass, validateCount_eq_none, validateSequence_eq_none, matching, not_or, not_lt,
    not_le, Bool.not_eq_false, Bool.not_eq_true, forall_const, List.not_mem_nil,
    not_false_eq_true, implies_true, and_true, Bool.false_eq_true, IsEmpty.forall_iff, true_and]
  constructor
  · rintro ⟨id, unversioned, revision_ge, revision_lt, name, description, falsePositives, response,
      severity, status, technique, source, ⟨tags_le, tags⟩, ⟨references_le, references⟩,
      eventClass, count, sequence, asked⟩
    exact {
      id, unversioned, revision_ge, revision_lt, name, description, falsePositives, response,
      severity, status, technique, source, tags_le, references_le, eventClass, count, asked
      tags := tags.symm
      references := references.symm
      alone := fun correlates => (sequence correlates).1
      sequence := fun correlates => (sequence correlates).2 }
  · intro accepted
    exact ⟨accepted.id, accepted.unversioned, accepted.revision_ge, accepted.revision_lt,
      accepted.name, accepted.description, accepted.falsePositives, accepted.response,
      accepted.severity, accepted.status, accepted.technique, accepted.source,
      ⟨accepted.tags_le, accepted.tags.symm⟩, ⟨accepted.references_le, accepted.references.symm⟩,
      accepted.eventClass, accepted.count,
      fun correlates => ⟨accepted.alone correlates, accepted.sequence correlates⟩, accepted.asked⟩

end Parts

end Seagull.Detection
