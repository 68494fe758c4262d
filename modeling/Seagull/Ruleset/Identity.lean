import Seagull.Detection.Written
import Seagull.Foundation.Framing
import Seagull.Ruleset.Snapshot

/-!
# What a ruleset is named by

Everything a rule carries that a detection could name or that changes what the rule does, each part
behind its length and each list behind its count.  The compiled form stands in for the expression.
-/

namespace Seagull.Ruleset

open Detection

def counted (values : List String) : List String := Decimal.format values.length :: values

def descriptionParts (platform : Platform) (program : Program) : List String :=
  [program.rule.id,
    Decimal.format program.rule.revision,
    Decimal.format program.rule.eventClass.number,
    program.rule.severity.written,
    program.rule.status.written,
    program.rule.technique.tactic,
    program.rule.technique.id,
    program.rule.technique.name,
    program.rule.source.catalogue,
    program.rule.source.identifier,
    program.rule.name,
    program.rule.description,
    program.rule.falsePositives,
    program.rule.response,
    program.written platform,
    Decimal.format program.rule.count.atLeast,
    Duration.written program.rule.count.within] ++
  counted program.rule.count.groupBy ++
  [Duration.written program.rule.sequence.within] ++
  counted program.rule.sequence.groupBy ++
  counted (program.rule.tags.insertionSort (· ≤ ·)) ++
  counted program.rule.references

/-- One rule's share of what a ruleset is named by. -/
def describe (platform : Platform) (program : Program) : String :=
  framedAll (descriptionParts platform program)

/-- The first sixteen bytes of a digest, written out. -/
def shortDigest (platform : Platform) (text : String) : String :=
  hexEncode ((platform.sha256 text).take 16)

/-- The text a ruleset is named by. -/
def described (platform : Platform) (programs : List Program) : String :=
  String.join (programs.map (describe platform))

/-- The name of a ruleset. -/
def identify (platform : Platform) (programs : List Program) : String :=
  shortDigest platform (described platform programs)

/-- What tells two rules of one identifier and revision apart. -/
def fingerprint (platform : Platform) (program : Program) : String :=
  shortDigest platform (describe platform program)

def Snapshot.id (platform : Platform) (snapshot : Snapshot) : String :=
  identify platform snapshot.programs

theorem Snapshot.id_ne_empty (platform : Platform) (snapshot : Snapshot) :
    snapshot.id platform ≠ "" := by
  rw [id, identify, shortDigest]
  generalize digest_eq : (platform.sha256 _).take 16 = digest
  have long : digest.length = 16 := by
    rw [← digest_eq, List.length_take, platform.sha256_length]
    rfl
  cases digest with
  | nil => cases long
  | cons byte bytes =>
    intro empty
    have letters := congrArg String.toList empty
    simp [hexEncode] at letters

theorem counted_append_inj {values others rest behind : List String}
    (same : counted values ++ rest = counted others ++ behind) : values = others ∧ rest = behind := by
  obtain ⟨same_count, same_rest⟩ := List.cons.inj same
  have same_length := Decimal.format_injective same_count
  exact List.append_inj same_rest (by omega)

theorem descriptionParts_append_inj {platform : Platform} {program other : Program}
    {rest behind : List String}
    (same : descriptionParts platform program ++ rest = descriptionParts platform other ++ behind) :
    descriptionParts platform program = descriptionParts platform other ∧ rest = behind := by
  simp only [descriptionParts, List.append_assoc, List.cons_append, List.nil_append,
    List.cons.injEq] at same
  obtain ⟨id, revision, eventClass, severity, status, tactic, technique, named, catalogue, source,
    name, description, positives, response, written, atLeast, within, counts⟩ := same
  obtain ⟨group, sequence⟩ := counted_append_inj counts
  obtain ⟨sequence_within, sequence_rest⟩ := List.cons.inj sequence
  obtain ⟨sequence_group, lists⟩ := counted_append_inj sequence_rest
  obtain ⟨tags, references_rest⟩ := counted_append_inj lists
  obtain ⟨references, same_rest⟩ := counted_append_inj references_rest
  refine ⟨?_, same_rest⟩
  simp only [descriptionParts, id, revision, eventClass, severity, status, tactic, technique, named,
    catalogue, source, name, description, positives, response, written, atLeast, within, group,
    sequence_within, sequence_group, tags, references]

theorem described_eq (platform : Platform) (programs : List Program) :
    described platform programs = framedAll (programs.flatMap (descriptionParts platform)) := by
  induction programs with
  | nil => rfl
  | cons program programs ih =>
    rw [List.flatMap_cons, framedAll_append, ← ih]
    simp [described, describe]

theorem descriptionParts_of_described {platform : Platform} {programs others : List Program}
    (same : described platform programs = described platform others) :
    programs.map (descriptionParts platform) = others.map (descriptionParts platform) := by
  rw [described_eq, described_eq] at same
  have same_parts := framedAll_injective same
  clear same
  induction programs generalizing others with
  | nil =>
    cases others with
    | nil => rfl
    | cons other others => cases same_parts
  | cons program programs ih =>
    cases others with
    | nil => cases same_parts
    | cons other others =>
      rw [List.flatMap_cons, List.flatMap_cons] at same_parts
      obtain ⟨same_program, same_rest⟩ := descriptionParts_append_inj same_parts
      rw [List.map_cons, List.map_cons, same_program, ih same_rest]

end Seagull.Ruleset
