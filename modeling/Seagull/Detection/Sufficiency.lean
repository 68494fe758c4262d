import Seagull.Detection.Resolved

/-!
# Evidence is sufficient

What the evidence of a match says is what the event holds, and it is enough: another event of the
class that holds the same in those fields is matched too.  A disjunction drops what the terms before
the first that holds saw, so what carries through the tree is that the value follows from what is
kept.
-/

namespace Seagull.Detection

open Contract

variable {platform : Platform} {record other : Event}

/-- A text states a value: text in quotes, a number in decimal, and a choice by its declared name,
or in decimal where none is. -/
def States (platform : Platform) (leaf : Leaf) (held : String) : Scalar → Prop
  | .text text => Quote.unquote held = some text
  | .number number => held = toString number
  | .choice number => ∃ enumeration, leaf.type = .enum enumeration ∧
      ((held, number) ∈ (enumeration platform).values ∨
        number ∉ (enumeration platform).values.map Prod.snd ∧ held = toString number)

/-- An entry says what an event holds in its field, or that it does not carry it. -/
def Evidence.Truthful (platform : Platform) (record : Event) (entry : Evidence) : Prop :=
  ∃ leaf, pathOf entry.field = some leaf ∧ entry.absent = (read record leaf).isNone ∧
    ∀ value, read record leaf = some value → States platform leaf entry.held value

/-- An entry holds what is written of its field. -/
def Evidence.Written (platform : Platform) (record : Event) (entry : Evidence) : Prop :=
  ∃ leaf, pathOf entry.field = some leaf ∧ entry.absent = (read record leaf).isNone ∧
    entry.held = ((read record leaf).map (wrote platform leaf)).getD ""

/-- A value is of the type of its leaf. -/
def LeafType.Holds : LeafType → Scalar → Prop
  | .string, .text _ | .uint32, .number _ | .uint64, .number _ | .enum _, .choice _ => True
  | _, _ => False

theorem read_holds {leaf : Leaf} {value : Scalar} (found : read record leaf = some value) :
    leaf.type.Holds value := by
  cases leaf <;>
    simp only [read, read.host, read.body, read.network, carriedText, carriedNumber, carriedChoice,
      Option.bind_eq_some_iff, Option.ite_none_left_eq_some, Option.some.injEq] at found <;>
    grind [LeafType.Holds, Leaf.type]

theorem wrote_states {leaf : Leaf} {value : Scalar} (holds : leaf.type.Holds value) :
    States platform leaf (wrote platform leaf value) value := by
  unfold wrote plain
  cases value with
  | text text =>
    cases type : leaf.type with
    | string => exact Quote.unquote_quote platform.isPrint text
    | uint32 | uint64 | enum _ =>
      rw [type] at holds
      exact holds.elim
  | number number =>
    cases type : leaf.type with
    | uint32 | uint64 => rfl
    | string | enum _ =>
      rw [type] at holds
      exact holds.elim
  | choice number =>
    cases type : leaf.type with
    | string | uint32 | uint64 =>
      rw [type] at holds
      exact holds.elim
    | enum enumeration =>
      refine ⟨enumeration, type, ?_⟩
      simp only [Enumeration.nameOf]
      cases declared : (enumeration platform).values.find? fun value => value.2 == number with
      | none =>
        refine .inr ⟨fun among => ?_, rfl⟩
        obtain ⟨value, value_mem, rfl⟩ := List.mem_map.mp among
        simpa using List.find?_eq_none.mp declared value value_mem
      | some value =>
        obtain rfl : value.2 = number := by simpa using List.find?_some declared
        exact .inl (List.mem_of_find?_eq_some declared)

theorem Evidence.Written.truthful {entry : Evidence} (written : entry.Written platform record) :
    entry.Truthful platform record := by
  obtain ⟨leaf, path, absent, held⟩ := written
  refine ⟨leaf, path, absent, fun value found => ?_⟩
  rw [held, found]
  exact wrote_states (read_holds found)

/-- Two events agree, in presence and value, on the fields some evidence names. -/
def Agree (record other : Event) (found : List Evidence) : Prop :=
  ∀ entry ∈ found, ∀ leaf, pathOf entry.field = some leaf → read other leaf = read record leaf

theorem Agree.mono {found more : List Evidence} (agree : Agree record other more)
    (kept : found ⊆ more) : Agree record other found :=
  fun entry among => agree entry (kept among)

theorem mem_gather {seen entry : Evidence} {into : List Evidence} :
    entry ∈ gather seen into ↔ entry = seen ∨ entry ∈ into := by
  unfold gather
  split_ifs with already
  · exact ⟨.inr, fun among => among.elim (fun same => same ▸ already) id⟩
  · rw [List.mem_append, List.mem_singleton, or_comm]

/-- Evidence that keeps what was gathered, adds what is true, and decides the value. -/
structure Sufficient (platform : Platform) (record : Event) (seen found : List Evidence)
    (value : (Comparison → Bool) → Bool) : Prop where
  keeps : seen ⊆ found
  written : ∀ entry ∈ found, entry ∈ seen ∨ entry.Written platform record
  follows : ∀ other, Agree record other found →
    value (answerOf other) = value (answerOf record)

mutual

theorem Node.holds_sufficient (platform : Platform) (record : Event) : (node : Node) →
    (∀ compare ∈ node.comparisons, compare.Resolved platform) → ∀ negated seen,
    ∃ found, (node.holds platform record negated (some seen)).2 = some found ∧
      Sufficient platform record seen found node.value
  | .comparison compare => fun resolved negated seen => by
    have leaf_eq := (resolved compare List.mem_cons_self).leaf_eq
    refine ⟨_, rfl, ?_, ?_, ?_⟩
    · exact fun entry among => mem_gather.mpr (.inr among)
    · intro entry among
      rcases mem_gather.mp among with rfl | earlier
      · exact .inr ⟨compare.leaf, leaf_eq, rfl, rfl⟩
      · exact .inl earlier
    · intro other agree
      have same := agree _ (mem_gather.mpr (.inl rfl)) compare.leaf leaf_eq
      rw [Node.value, Node.value, answerOf, answerOf, same]
  | .conjunction terms => fun resolved negated seen => by
    rw [Node.holds]
    exact Node.holdsAll_sufficient platform record terms resolved negated seen
  | .disjunction terms => fun resolved negated seen => by
    rw [Node.holds]
    obtain ⟨found, found_eq, keeps, written, follows, -⟩ :=
      Node.holdsAny_sufficient platform record terms resolved negated seen seen
        (List.Subset.refl seen)
    exact ⟨found, found_eq, keeps, written, follows⟩
  | .negation term => fun resolved negated seen => by
    obtain ⟨found, found_eq, sufficient⟩ :=
      Node.holds_sufficient platform record term resolved (!negated) seen
    refine ⟨found, found_eq, sufficient.keeps, sufficient.written, fun other agree => ?_⟩
    rw [Node.value, Node.value, sufficient.follows other agree]

theorem Node.holdsAll_sufficient (platform : Platform) (record : Event) : (terms : List Node) →
    (∀ compare ∈ Node.comparisonsAll terms, compare.Resolved platform) → ∀ negated seen,
    ∃ found, (Node.holdsAll platform record terms negated (some seen)).2 = some found ∧
      Sufficient platform record seen found (Node.valueAll · terms)
  | [] => fun resolved negated seen =>
    ⟨seen, rfl, List.Subset.refl seen, fun _ among => .inl among, fun _ _ => rfl⟩
  | term :: terms => fun resolved negated seen => by
    rw [Node.comparisonsAll, List.forall_mem_append] at resolved
    obtain ⟨first, first_eq, sufficient⟩ :=
      Node.holds_sufficient platform record term resolved.1 negated seen
    rw [Node.holdsAll, Node.holds_fst, first_eq]
    split_ifs with held
    · obtain ⟨found, found_eq, rest⟩ :=
        Node.holdsAll_sufficient platform record terms resolved.2 negated first
      refine ⟨found, found_eq, List.Subset.trans sufficient.keeps rest.keeps, ?_, ?_⟩
      · intro entry among
        exact (rest.written entry among).elim (sufficient.written entry) .inr
      · intro other agree
        simp only [Node.valueAll, rest.follows other agree,
          sufficient.follows other (agree.mono rest.keeps)]
    · refine ⟨first, rfl, sufficient.keeps, sufficient.written, fun other agree => ?_⟩
      simp only [Node.valueAll, sufficient.follows other agree, eq_false_of_ne_true held,
        Bool.false_and]

theorem Node.holdsAny_sufficient (platform : Platform) (record : Event) : (terms : List Node) →
    (∀ compare ∈ Node.comparisonsAll terms, compare.Resolved platform) →
    ∀ negated mark seen, mark ⊆ seen →
    ∃ found, (Node.holdsAny platform record terms negated (some mark) (some seen)).2 =
        some found ∧ mark ⊆ found ∧
      (∀ entry ∈ found, entry ∈ seen ∨ entry.Written platform record) ∧
      (∀ other, Agree record other found →
        Node.valueAny (answerOf other) terms = Node.valueAny (answerOf record) terms) ∧
      (Node.valueAny (answerOf record) terms = false → seen ⊆ found)
  | [] => fun resolved negated mark seen marked =>
    ⟨seen, rfl, marked, fun _ among => .inl among, fun _ _ => rfl,
      fun _ => List.Subset.refl seen⟩
  | term :: terms => fun resolved negated mark seen marked => by
    rw [Node.comparisonsAll, List.forall_mem_append] at resolved
    obtain ⟨tried, tried_eq, trial⟩ :=
      Node.holds_sufficient platform record term resolved.1 negated seen
    rw [Node.holdsAny, Node.holds_fst, tried_eq]
    split_ifs with held
    · obtain ⟨found, found_eq, again⟩ :=
        Node.holds_sufficient platform record term resolved.1 negated mark
      refine ⟨found, found_eq, again.keeps, ?_, ?_, ?_⟩
      · intro entry among
        exact (again.written entry among).imp_left fun earlier => marked earlier
      · intro other agree
        simp only [Node.valueAny, again.follows other agree, held, Bool.true_or]
      · simp [Node.valueAny, held]
    · have failed := eq_false_of_ne_true held
      obtain ⟨found, found_eq, keeps, written, follows, all_kept⟩ :=
        Node.holdsAny_sufficient platform record terms resolved.2 negated mark tried
          (List.Subset.trans marked trial.keeps)
      refine ⟨found, found_eq, keeps, ?_, ?_, ?_⟩
      · intro entry among
        exact (written entry among).elim (trial.written entry) .inr
      · intro other agree
        simp only [Node.valueAny, follows other agree, failed, Bool.false_or]
        cases rest : Node.valueAny (answerOf record) terms with
        | true => simp
        | false =>
          rw [trial.follows other (agree.mono (all_kept rest)), failed, Bool.false_or]
      · intro none_held
        rw [Node.valueAny, failed, Bool.false_or] at none_held
        exact List.Subset.trans trial.keeps (all_kept none_held)

end

namespace Stages

theorem has_add (stages : Stages) (added stage : ℕ) :
    (stages.add added).has stage = true ↔ stages.has stage = true ∨ stage < 8 ∧ stage = added := by
  rw [has_eq, has_eq, add, BitVec.getLsbD_or, BitVec.getLsbD_shiftLeft, BitVec.getLsbD_one]
  simp only [Bool.or_eq_true, Bool.and_eq_true, decide_eq_true_eq, Bool.not_eq_true']
  refine or_congr_right ⟨fun set => ⟨set.1.1, by simp at set; omega⟩, ?_⟩
  rintro ⟨small, rfl⟩
  simp [small]

end Stages

namespace Program

theorem has_reaches {record : Event} {stages : List Staged} {index : ℕ}
    {reached : Stages} {place : ℕ} :
    (reaches platform record index reached stages).has place = true ↔
      reached.has place = true ∨ place < 8 ∧ ∃ stage, (stage, place) ∈ stages.zipIdx index ∧
        stage.root.value (answerOf record) = true := by
  induction stages generalizing index reached with
  | nil => simp [reaches]
  | cons stage stages ih =>
    rw [reaches, ih, Node.holds_fst, List.zipIdx_cons]
    simp only [List.mem_cons, Prod.mk.injEq]
    split_ifs with holds
    · rw [Stages.has_add]
      grind
    · grind

theorem gathers_sufficient {record : Event} {reached : Stages} {stages : List Staged}
    (resolved : ∀ stage ∈ stages, ∀ compare ∈ stage.root.comparisons, compare.Resolved platform)
    (index : ℕ) (seen : List Evidence) :
    seen ⊆ gathers platform record reached index seen stages ∧
      (∀ entry ∈ gathers platform record reached index seen stages,
        entry ∈ seen ∨ entry.Written platform record) ∧
      ∀ stage place, (stage, place) ∈ stages.zipIdx index → reached.has place = true →
        ∀ other, Agree record other (gathers platform record reached index seen stages) →
          stage.root.value (answerOf other) = stage.root.value (answerOf record) := by
  induction stages generalizing index seen with
  | nil => exact ⟨List.Subset.refl seen, fun _ among => .inl among, by simp⟩
  | cons stage stages ih =>
    obtain ⟨first, later⟩ := List.forall_mem_cons.mp resolved
    obtain ⟨found, found_eq, sufficient⟩ :=
      Node.holds_sufficient platform record stage.root first false seen
    rw [gathers, found_eq, Option.getD_some]
    split_ifs with held
    · obtain ⟨keeps, written, follows⟩ := ih later (index + 1) found
      refine ⟨List.Subset.trans sufficient.keeps keeps, fun entry among => ?_, ?_⟩
      · exact (written entry among).elim (sufficient.written entry) .inr
      · intro staged place among reaches_place other agree
        rcases List.mem_cons.mp (List.zipIdx_cons ▸ among) with same | behind
        · cases same
          exact sufficient.follows other (agree.mono keeps)
        · exact follows staged place behind reaches_place other agree
    · obtain ⟨keeps, written, follows⟩ := ih later (index + 1) seen
      refine ⟨keeps, written, fun staged place among reaches_place => ?_⟩
      rcases List.mem_cons.mp (List.zipIdx_cons ▸ among) with same | behind
      · cases same
        exact absurd reaches_place held
      · exact follows staged place behind reaches_place

theorem decide_eq_some_iff {program : Program} (alone : program.correlates = false)
    {record : Event} {found : Match} :
    program.decide platform record = some found ↔ record.eventClass = program.rule.eventClass ∧
      ∃ root ∈ program.root, root.value (answerOf record) = true ∧
        found = .of program.rule (((root.holds platform record false (some [])).2).getD []) := by
  unfold Program.decide
  rw [if_neg (by simp [alone] : ¬ program.correlates = true)]
  split_ifs with elsewhere
  · simp [elsewhere]
  · cases program.root with
    | none => simp
    | some root =>
      simp only [Node.holds_fst]
      simp [not_not.mp elsewhere, @eq_comm _ found]

theorem satisfied_fst {program : Program} {record : Event}
    (same_class : record.eventClass = program.rule.eventClass) :
    (program.satisfied platform record).1 = reaches platform record 0 0#8 program.stages := by
  rw [satisfied, if_neg (not_not.mpr same_class)]
  simp only
  split_ifs with some_reached
  · rfl
  · rw [Stages.any, bne_iff_ne, not_not] at some_reached
    exact some_reached.symm

theorem satisfied_cases {program : Program} {record : Event} :
    program.satisfied platform record = (0#8, []) ∨
      program.satisfied platform record = (reaches platform record 0 0#8 program.stages,
        gathers platform record (reaches platform record 0 0#8 program.stages) 0 []
          program.stages) := by
  simp only [satisfied]
  split_ifs
  · exact .inl rfl
  · exact .inr rfl
  · exact .inl rfl

end Program

/-- What is reported of a match is true, and enough: an event of the class that holds the same in
the fields it names is matched, or satisfies the same stages. -/
theorem evidence_sufficient {rule : Rule} {program : Program}
    (compiled : rule.compile platform = .ok program) (record : Event) :
    (program.correlates = false → ∀ found, program.decide platform record = some found →
      (∀ entry ∈ found.evidence, entry.Truthful platform record) ∧
        ∀ other : Event, other.eventClass = rule.eventClass → Agree record other found.evidence →
          (program.decide platform other).isSome = true) ∧
    (program.correlates = true → ∀ reached evidence,
      program.satisfied platform record = (reached, evidence) →
        (∀ entry ∈ evidence, entry.Truthful platform record) ∧
          ∀ other : Event, other.eventClass = rule.eventClass → Agree record other evidence →
            ∀ stage, reached.has stage = true →
              (program.satisfied platform other).1.has stage = true) := by
  have compiles := Rule.compile_eq_ok_iff.mp compiled
  obtain ⟨root_resolved, stages_resolved⟩ := compiles.resolved
  refine ⟨fun alone found decided => ?_, fun _ reached evidence satisfied => ?_⟩
  · obtain ⟨-, root, is_root, holds, rfl⟩ := (Program.decide_eq_some_iff alone).mp decided
    obtain ⟨found, found_eq, sufficient⟩ :=
      Node.holds_sufficient platform record root (root_resolved root is_root) false []
    rw [found_eq, Option.getD_some, Match.of]
    refine ⟨fun entry among =>
      ((sufficient.written entry among).resolve_left List.not_mem_nil).truthful, ?_⟩
    intro other same_class agree
    rw [← compiles.rule_eq] at same_class
    refine Option.isSome_iff_exists.mpr ⟨_, (Program.decide_eq_some_iff alone).mpr
      ⟨same_class, root, is_root, ?_, rfl⟩⟩
    rw [sufficient.follows other agree, holds]
  · rcases @Program.satisfied_cases platform program record with unreached | gathered
    · obtain ⟨rfl, rfl⟩ := Prod.mk.inj (satisfied.symm.trans unreached)
      exact ⟨List.forall_mem_nil _, fun _ _ _ stage held => by simp [Stages.has_eq] at held⟩
    · obtain ⟨rfl, rfl⟩ := Prod.mk.inj (satisfied.symm.trans gathered)
      obtain ⟨-, written, follows⟩ := Program.gathers_sufficient stages_resolved 0 []
      refine ⟨fun entry among =>
        ((written entry among).resolve_left List.not_mem_nil).truthful, ?_⟩
      intro other same_class agree place reached
      rw [← compiles.rule_eq] at same_class
      obtain none_before | ⟨small, stage, numbered, holds⟩ := Program.has_reaches.mp reached
      · simp [Stages.has_eq] at none_before
      · rw [Program.satisfied_fst same_class]
        refine Program.has_reaches.mpr (.inr ⟨small, stage, numbered, ?_⟩)
        rw [follows stage place numbered reached other agree, holds]

def failedAuthentication : Event :=
  ⟨"failed", 1, .authentication, none, none, none, none,
    some ⟨1, 2, "", "", none, none, none, ""⟩⟩

theorem compile_guessedLogon : Rule.guessedLogon.compile .plain = .ok .guessedLogon :=
  Rule.compile_eq_ok_iff.mpr {
    accepted := validate_eq_none_iff.mp (by rfl)
    rule_eq := rfl
    matching := by rfl
    fields_eq := by rfl
    grouped := by rfl
    light := by decide +kernel }

/-- One event is matched by the counting rule, and is the first stage of the story. -/
theorem evidence_sufficient_failedAuthentication :
    (∃ found, Program.failedLogons.decide .plain failedAuthentication = some found ∧
      found.evidence.length = 1 ∧
      (∀ entry ∈ found.evidence, entry.Truthful .plain failedAuthentication) ∧
      ∀ other : Event, other.eventClass = .authentication →
        Agree failedAuthentication other found.evidence →
          (Program.failedLogons.decide .plain other).isSome = true) ∧
    ∃ reached evidence,
      Program.guessedLogon.satisfied .plain failedAuthentication = (reached, evidence) ∧
      reached.has 0 = true ∧ ∀ other : Event, other.eventClass = .authentication →
        Agree failedAuthentication other evidence →
          (Program.guessedLogon.satisfied .plain other).1.has 0 = true :=
  ⟨⟨_, rfl, rfl, (evidence_sufficient compile_failedLogons failedAuthentication).1 rfl _ rfl⟩,
    _, _, rfl, rfl, fun other same_class agree =>
      ((evidence_sufficient compile_guessedLogon failedAuthentication).2 rfl _ _ rfl).2
        other same_class agree 0 rfl⟩

end Seagull.Detection
