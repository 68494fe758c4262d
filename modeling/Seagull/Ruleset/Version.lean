import Seagull.Ruleset.Encoding
import Seagull.Ruleset.Identity

/-!
# Published rulesets

A ruleset that has been published: the compiled rules, their cases, and who published it when.  It
travels as a message that is compiled again where it is read, and held to the name it carries.
-/

namespace Seagull.Ruleset

open Contract Detection

/-- A ruleset that has been published. -/
structure Version where
  snapshot : Snapshot
  /-- The cases of each rule, by its identifier. -/
  cases : FiniteMap String (List Case)
  publishedBy : String
  publishedAt : ℤ
  note : String
  named : publishedBy ≠ ""
  dated : publishedAt ≠ Instant.zero

/-- `NewVersion`. -/
def newVersion (platform : Platform) (programs : List Program)
    (cases : FiniteMap String (List Case)) (publishedBy : String) (publishedAt : ℤ)
    (note : String) : Except String Version :=
  if anonymous : publishedBy = "" then .error "a published ruleset names who published it"
  else if undated : publishedAt = Instant.zero then
    .error "a published ruleset says when it was published"
  else match Snapshot.compose programs with
    | .error twice =>
      .error ("a ruleset holds one rule per id and " ++ Quote.quote platform.isPrint twice ++
        " arrives twice")
    | .ok snapshot => .ok ⟨snapshot, cases, publishedBy, publishedAt, note, anonymous, undated⟩

namespace Version

/-- The name of a published ruleset. -/
def id (platform : Platform) (version : Version) : String := version.snapshot.id platform

def casesOf (version : Version) (rule : String) : List Case := (version.cases.lookup rule).getD []

def encode (platform : Platform) (version : Version) : RulesetV1.Version where
  id := version.id platform
  publishedBy := version.publishedBy
  publishedAt := some (Timestamp.new version.publishedAt)
  note := version.note
  rules := version.snapshot.programs.map fun program =>
    some (encodeRule program.rule (version.casesOf program.rule.id))

def record (platform : Platform) (version : Version) : RulesetV1.Record :=
  .version (some (version.encode platform))

end Version

def keepCases (cases : FiniteMap String (List Case)) (rule : String) (written : List Case) :
    FiniteMap String (List Case) :=
  if written.isEmpty then cases else cases.insert rule written

/-- The rules of a message, each compiled again, and their cases. -/
def decodeRules (platform : Platform) : List (Option RulesetV1.Rule) →
    FiniteMap String (List Case) → Except String (List Program × FiniteMap String (List Case))
  | [], cases => .ok ([], cases)
  | held :: rest, cases =>
    match decodeRule platform held with
    | .error refused => .error refused
    | .ok (rule, written) =>
      match rule.compile platform with
      | .error violation =>
        .error ("rule " ++ Quote.quote platform.isPrint rule.id ++ ": " ++
          violation.written platform)
      | .ok program =>
        (decodeRules platform rest (keepCases cases rule.id written)).map fun read =>
          (program :: read.1, read.2)

def decodeVersion (platform : Platform) : Option RulesetV1.Version → Except String Version
  | none => .error "a published ruleset record carries nothing"
  | some encoded =>
    if encoded.id = "" then .error "a published ruleset carries the id it was named by"
    else do
      let (programs, cases) ← decodeRules platform encoded.rules FiniteMap.empty
      let version ← newVersion platform programs cases encoded.publishedBy
        (encoded.publishedAt.getD Timestamp.unset).asTime encoded.note
      if version.id platform = encoded.id then .ok version
      else .error ("a ruleset is named by what is in it: this record says " ++ encoded.id ++
        " and holds " ++ version.id platform)

section RoundTrip

variable {platform : Platform}

theorem Snapshot.compose_programs (snapshot : Snapshot) :
    Snapshot.compose snapshot.programs = .ok snapshot := by
  have in_order : snapshot.programs.mergeSort (fun one other => idOf one ≤ idOf other) =
      snapshot.programs :=
    List.mergeSort_of_pairwise (snapshot.sorted.imp fun before => decide_eq_true before.le)
  simp only [compose, in_order, dif_pos snapshot.sorted]

theorem Snapshot.compose_perm {programs : List Program} {snapshot : Snapshot}
    (composed : Snapshot.compose programs = .ok snapshot) : snapshot.programs.Perm programs := by
  unfold compose at composed
  simp only at composed
  split at composed
  · cases composed
    exact List.mergeSort_perm ..
  · cases composed

theorem newVersion_eq_ok {programs : List Program} {cases : FiniteMap String (List Case)}
    {publishedBy : String} {publishedAt : ℤ} {note : String} {version : Version} :
    newVersion platform programs cases publishedBy publishedAt note = .ok version ↔
      Snapshot.compose programs = .ok version.snapshot ∧ version.cases = cases ∧
        version.publishedBy = publishedBy ∧ version.publishedAt = publishedAt ∧
        version.note = note := by
  constructor
  · intro made
    unfold newVersion at made
    split at made
    · cases made
    · split at made
      · cases made
      · split at made
        · cases made
        · rename_i snapshot composed
          cases made
          exact ⟨composed, rfl, rfl, rfl, rfl⟩
  · rintro ⟨composed, rfl, rfl, rfl, rfl⟩
    rw [newVersion, dif_neg version.named, dif_neg version.dated, composed]

theorem decodeRules_encodeRule (casesOf : String → List Case) {programs : List Program}
    (compiled : ∀ program ∈ programs, program.rule.compile platform = .ok program)
    (accepted : ∀ program ∈ programs, ∀ subject ∈ casesOf program.rule.id,
      ∃ part, program.rule.accepts platform part subject = none)
    (cases : FiniteMap String (List Case)) :
    decodeRules platform
        (programs.map fun program =>
          some (encodeRule program.rule (casesOf program.rule.id))) cases =
      .ok (programs, programs.foldl (fun held program =>
        keepCases held program.rule.id (casesOf program.rule.id)) cases) := by
  induction programs generalizing cases with
  | nil => rfl
  | cons program programs ih =>
    obtain ⟨first, later⟩ := List.forall_mem_cons.mp compiled
    obtain ⟨first_cases, later_cases⟩ := List.forall_mem_cons.mp accepted
    have rule_accepted := (Rule.compile_eq_ok_iff.mp first).accepted
    rw [List.map_cons, decodeRules, decodeRule_encodeRule rule_accepted first_cases]
    simp only [first, ih later later_cases]
    rfl

theorem lookup_keepCases (cases : FiniteMap String (List Case)) (kept : String)
    (written : List Case) (rule : String) :
    ((keepCases cases kept written).lookup rule).getD [] =
      if rule = kept ∧ written ≠ [] then written else (cases.lookup rule).getD [] := by
  unfold keepCases
  cases written with
  | nil => simp
  | cons subject written =>
    rw [List.isEmpty_cons, if_neg Bool.false_ne_true, FiniteMap.lookup_insert]
    by_cases same : rule = kept
    · simp [same]
    · simp [same]

theorem lookup_keepCases_foldl (casesOf : String → List Case) (programs : List Program)
    (cases : FiniteMap String (List Case)) (rule : String) :
    ((programs.foldl (fun held program =>
        keepCases held program.rule.id (casesOf program.rule.id)) cases).lookup rule).getD [] =
      if rule ∈ programs.map idOf ∧ casesOf rule ≠ [] then casesOf rule
      else (cases.lookup rule).getD [] := by
  induction programs generalizing cases with
  | nil => simp
  | cons program programs ih =>
    rw [List.foldl_cons, ih, lookup_keepCases]
    by_cases same : rule = program.rule.id
    · subst same
      by_cases none_written : casesOf program.rule.id = []
      · simp [none_written]
      · simp [idOf, none_written]
    · simp [idOf, same]

/-- What a rule file holds: rules that compile, and cases they accept. -/
structure Version.Written (platform : Platform) (version : Version) : Prop where
  compiled : ∀ program ∈ version.snapshot.programs, program.rule.compile platform = .ok program
  owned : ∀ rule ∈ version.cases.keys, ∃ program ∈ version.snapshot.programs, program.rule.id = rule
  accepted : ∀ program ∈ version.snapshot.programs, ∀ subject ∈ version.casesOf program.rule.id,
    ∃ part, program.rule.accepts platform part subject = none

theorem Version.Written.read_back {version : Version} (written : version.Written platform) :
    ∃ read, decodeVersion platform (some (version.encode platform)) =
        .ok { version with cases := read } ∧
      ∀ rule, (read.lookup rule).getD [] = version.casesOf rule := by
  have rules_back := decodeRules_encodeRule version.casesOf written.compiled written.accepted
    FiniteMap.empty
  generalize cases_eq : version.snapshot.programs.foldl (fun held program =>
    keepCases held program.rule.id (version.casesOf program.rule.id)) FiniteMap.empty =
      read at rules_back
  let decoded : Version := { version with cases := read }
  have version_back : newVersion platform version.snapshot.programs read version.publishedBy
      version.publishedAt version.note = .ok decoded :=
    newVersion_eq_ok.mpr ⟨version.snapshot.compose_programs, rfl, rfl, rfl, rfl⟩
  have same_id : decoded.id platform = version.id platform := rfl
  refine ⟨read, ?_, fun rule => ?_⟩
  · have has_id : version.id platform ≠ "" := version.snapshot.id_ne_empty platform
    simp only [decodeVersion, Version.encode, if_neg has_id, rules_back, Option.getD_some,
      Timestamp.asTime_new]
    exact checked_eq_ok.mpr ⟨_, rfl, checked_eq_ok.mpr ⟨decoded, version_back, if_pos same_id⟩⟩
  · have read_back := lookup_keepCases_foldl version.casesOf version.snapshot.programs
      FiniteMap.empty rule
    rw [cases_eq] at read_back
    refine read_back.trans ?_
    split
    · rfl
    · rename_i left_out
      symm
      by_contra some_case
      refine left_out ⟨?_, some_case⟩
      obtain ⟨held, found⟩ : ∃ held, version.cases.lookup rule = some held := by
        cases found : version.cases.lookup rule with
        | none => exact absurd (by rw [Version.casesOf, found]; rfl) some_case
        | some held => exact ⟨held, rfl⟩
      obtain ⟨program, member, rfl⟩ := written.owned rule
        ((FiniteMap.mem_keys ..).mpr ⟨held, found⟩)
      exact List.mem_map_of_mem member

/-- A published ruleset is read back from the message it travels as: under its name, as it was
published, with its rules and their cases. -/
theorem decodeVersion_encode {programs : List Program} {cases : FiniteMap String (List Case)}
    {publishedBy : String} {publishedAt : ℤ} {note : String} {version : Version}
    (compiled : ∀ program ∈ programs, program.rule.compile platform = .ok program)
    (owned : ∀ rule ∈ cases.keys, ∃ program ∈ programs, program.rule.id = rule)
    (accepted : ∀ program ∈ programs, ∀ subject ∈ (cases.lookup program.rule.id).getD [],
      ∃ part, program.rule.accepts platform part subject = none)
    (made : newVersion platform programs cases publishedBy publishedAt note = .ok version) :
    ∃ decoded, decodeVersion platform (some (version.encode platform)) = .ok decoded ∧
      decoded.id platform = version.id platform ∧
      decoded.publishedBy = publishedBy ∧ decoded.publishedAt = publishedAt ∧
      decoded.note = note ∧ decoded.snapshot = version.snapshot ∧
      ∀ rule, decoded.casesOf rule = version.casesOf rule := by
  obtain ⟨composed, rfl, rfl, rfl, rfl⟩ := newVersion_eq_ok.mp made
  have members : ∀ {program}, program ∈ version.snapshot.programs ↔ program ∈ programs :=
    (Snapshot.compose_perm composed).mem_iff
  have written : version.Written platform := {
    compiled := fun program member => compiled program (members.mp member)
    owned := fun rule kept => by
      obtain ⟨program, member, same⟩ := owned rule kept
      exact ⟨program, members.mpr member, same⟩
    accepted := fun program member => accepted program (members.mp member) }
  obtain ⟨read, decodes, same_cases⟩ := written.read_back
  exact ⟨_, decodes, rfl, rfl, rfl, rfl, rfl, same_cases⟩

end RoundTrip

def failedLogon : Case where
  name := "A failed logon"
  description := ""
  expect := .matching
  event := FiniteMap.empty.insert "authentication.outcome" (.text "failure")
  evidence := ["authentication.outcome"]
  severity := .low

def logons : Version where
  snapshot := ⟨[.failedLogons], List.pairwise_singleton _ _⟩
  cases := FiniteMap.empty.insert "failed_logons" [failedLogon]
  publishedBy := "analyst"
  publishedAt := Duration.second
  note := "Counts failed logons."
  named := by decide
  dated := by decide

theorem decodeVersion_encode_logons :
    ∃ decoded, decodeVersion .plain (some (logons.encode .plain)) = .ok decoded ∧
      decoded.snapshot = logons.snapshot ∧ decoded.casesOf "failed_logons" = [failedLogon] := by
  have compiled : ∀ program ∈ [Program.failedLogons],
      program.rule.compile .plain = .ok program := by
    rintro program (_ | ⟨_, ⟨⟩⟩)
    exact compile_failedLogons
  have owned : ∀ rule ∈ logons.cases.keys,
      ∃ program ∈ [Program.failedLogons], program.rule.id = rule := by
    rintro rule (_ | ⟨_, ⟨⟩⟩)
    exact ⟨.failedLogons, List.mem_singleton.mpr rfl, rfl⟩
  have accepted : ∀ program ∈ [Program.failedLogons],
      ∀ subject ∈ (logons.cases.lookup program.rule.id).getD [],
        ∃ part, program.rule.accepts .plain part subject = none := by
    rintro program (_ | ⟨_, ⟨⟩⟩) subject (_ | ⟨_, ⟨⟩⟩)
    exact ⟨"cases[0]", by decide +kernel⟩
  have made : newVersion .plain [.failedLogons] logons.cases "analyst" Duration.second
      "Counts failed logons." = .ok logons :=
    newVersion_eq_ok.mpr ⟨logons.snapshot.compose_programs, rfl, rfl, rfl, rfl⟩
  obtain ⟨decoded, reads, -, -, -, -, same, cases⟩ :=
    decodeVersion_encode compiled owned accepted made
  exact ⟨decoded, reads, same, cases _⟩

end Seagull.Ruleset
