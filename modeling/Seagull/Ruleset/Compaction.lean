import Seagull.Ruleset.Catalogue

/-!
# Reading a compacted log

The log of published rulesets is compacted by key.  What is left of it is read as the whole log
exactly if the order of the records cannot change what is kept.
-/

namespace Seagull.Ruleset

open Admission CompactedLog Contract Detection

variable {platform : Platform} {rfc3339Nano : ℤ → String}

/-- The names and keys of a log tell its records apart.  Both are the first half of a SHA-256. -/
structure Told (rfc3339Nano : ℤ → String) (log : List (Entry platform)) : Prop where
  versions : ∀ one one_written other other_written,
    Entry.version one one_written ∈ log → Entry.version other other_written ∈ log →
      one.id platform = other.id platform →
        described platform one.snapshot.programs = described platform other.snapshot.programs
  lines : ∀ one one_names other other_names,
    Entry.trail one one_names ∈ log → Entry.trail other other_names ∈ log →
      activationKey platform rfc3339Nano one = activationKey platform rfc3339Nano other → one = other

def Entry.naming (entry : Entry platform) : Option Naming :=
  entry.versionOf.map (Version.naming platform)

def Entry.lineKey (rfc3339Nano : ℤ → String) (entry : Entry platform) : Option String :=
  entry.lineOf.map (activationKey platform rfc3339Nano)

theorem hexEncode_ne (bytes : List UInt8) {letter : Char}
    (foreign : ∀ digit < 16, Nat.digitChar digit ≠ letter) : letter ∉ (hexEncode bytes).toList := by
  intro member
  simp only [hexEncode, String.toList_ofList, List.mem_flatMap, List.mem_cons, List.not_mem_nil,
    or_false] at member
  obtain ⟨byte, -, high | low⟩ := member
  · exact foreign _ (by have := byte.toNat_lt; omega) high.symm
  · exact foreign _ (by omega) low.symm

theorem id_ne_of_mem (version : Version) {text : String} (marked : 't' ∈ text.toList) :
    version.id platform ≠ text := by
  rintro rfl
  exact hexEncode_ne _ (by decide) marked

theorem id_ne_activationKey (version : Version) (active : RulesetV1.Active) :
    version.id platform ≠ activationKey platform rfc3339Nano active :=
  id_ne_of_mem version (by simp [activationKey])

theorem id_ne_activeKey (version : Version) : version.id platform ≠ activeKey :=
  id_ne_of_mem version (by decide)

theorem Entry.naming_version (published : Version) (written : published.Written platform) :
    Entry.naming (.version published written) = some (published.naming platform) := by
  obtain ⟨version, reads, -, same⟩ := Entry.versionOf_version written
  rw [naming, reads, Option.map_some, Version.naming, Version.naming, Version.id, Version.id, same]

theorem map_eq_of_map_eq {α β γ : Type} {told : α → β} {decided : α → γ}
    {items others : List α} (same : items.map told = others.map told)
    (decides : ∀ one ∈ items, ∀ other ∈ others, told one = told other →
      decided one = decided other) : items.map decided = others.map decided := by
  induction items generalizing others with
  | nil =>
    cases others with
    | nil => rfl
    | cons other others => cases same
  | cons item items ih =>
    cases others with
    | nil => cases same
    | cons other others =>
      obtain ⟨same_first, same_rest⟩ := List.cons.inj same
      rw [List.map_cons, List.map_cons,
        decides item List.mem_cons_self other List.mem_cons_self same_first,
        ih same_rest fun one one_mem another another_mem => decides one
          (List.mem_cons_of_mem _ one_mem) another (List.mem_cons_of_mem _ another_mem)]

theorem naming_eq_of_described {one other : Version}
    (same : described platform one.snapshot.programs = described platform other.snapshot.programs) :
    one.naming platform = other.naming platform := by
  have same_revisions : (one.naming platform).revisions = (other.naming platform).revisions := by
    refine map_eq_of_map_eq (descriptionParts_of_described same)
      fun program _ another _ same_parts => ?_
    have same_described : describe platform program = describe platform another :=
      congrArg framedAll same_parts
    have same_id := (List.cons.inj same_parts).1
    have same_revision := Decimal.format_injective (List.cons.inj (List.cons.inj same_parts).2).1
    rw [same_id, same_revision, fingerprint, fingerprint, same_described]
  have same_id : one.id platform = other.id platform := congrArg (shortDigest platform) same
  exact Naming.ext same_id same_revisions

variable {log : List (Entry platform)}

theorem Told.keyed_naming (told : Told rfc3339Nano log) :
    Keyed (Entry.key rfc3339Nano) Entry.naming log := by
  intro one one_mem other other_mem carried carries
  cases one with
  | trail active names => cases carries
  | pointer active names => cases carries
  | version published written =>
    rw [Entry.naming_version, Option.some.injEq] at carries
    subst carries
    cases other with
    | trail active names =>
      exact ⟨nofun,
        fun same => absurd same.symm (id_ne_activationKey published active)⟩
    | pointer active names =>
      exact ⟨nofun, fun same => absurd same.symm (id_ne_activeKey published)⟩
    | version again again_written =>
      rw [Entry.naming_version, Option.some.injEq]
      constructor
      · exact fun same => congrArg Naming.id same
      · intro same
        exact naming_eq_of_described
          (told.versions _ again_written _ written other_mem one_mem same)

theorem keyed_lineKey (log : List (Entry platform)) :
    Keyed (Entry.key rfc3339Nano) (Entry.lineKey rfc3339Nano) log := by
  intro one one_mem other other_mem carried carries
  cases one with
  | version published written => cases carries
  | pointer active names => cases carries
  | trail active names =>
    cases carries
    cases other with
    | version published written =>
      exact ⟨nofun,
        fun same => absurd same (id_ne_activationKey published active)⟩
    | pointer another another_names =>
      exact ⟨nofun,
        fun same => absurd same.symm (activationKey_ne_activeKey active)⟩
    | trail another another_names => exact Option.some_inj

theorem lastPointer_eq (rfc3339Nano : ℤ → String) (log : List (Entry platform)) :
    lastPointer log =
      (lastUnder (Entry.key rfc3339Nano) log activeKey).bind Entry.pointerOf := by
  induction log using List.reverseRecOn with
  | nil => rfl
  | append_singleton log entry ih =>
    rw [Catalogue.lastPointer_concat, lastUnder_concat, ih]
    cases entry with
    | version published written => simp [Entry.key, Entry.pointerOf, id_ne_activeKey]
    | trail active names => simp [Entry.key, Entry.pointerOf, activationKey_ne_activeKey]
    | pointer active names => rfl

variable {kept : List (Entry platform)}

theorem lastPointer_compacts (compacts : Compacts (Entry.key rfc3339Nano) kept log) :
    lastPointer kept = lastPointer log := by
  rw [lastPointer_eq rfc3339Nano, compacts.lastUnder_eq, ← lastPointer_eq]

theorem published_replay_iff (log : List (Entry platform)) (id : String) :
    (Catalogue.replay rfc3339Nano log).published id ↔
      ∃ naming ∈ settle Naming.Blocks (log.map Entry.naming), naming.id = id := by
  have carried : settle Naming.Blocks (log.map Entry.naming) =
      (settle (Version.Blocks platform) (log.map Entry.versionOf)).map (Version.naming platform) := by
    refine Eq.trans ?_ (@settle_map _ Naming.Blocks _ _ (Version.naming platform) _)
    rw [List.map_map]
    rfl
  rw [(Catalogue.replay_holds log).published_iff, carried]
  simp only [List.mem_map, exists_exists_and_eq_and]
  rfl

theorem Told.naming_eq (told : Told rfc3339Nano log) {one other : Naming}
    (one_mem : some one ∈ log.map Entry.naming) (other_mem : some other ∈ log.map Entry.naming)
    (same : one.id = other.id) : one = other := by
  obtain ⟨first, first_mem, first_eq⟩ := List.mem_map.mp one_mem
  obtain ⟨second, second_mem, second_eq⟩ := List.mem_map.mp other_mem
  have key_of : ∀ (entry : Entry platform) naming, entry.naming = some naming →
      entry.key rfc3339Nano = naming.id := by
    intro entry naming carries
    cases entry with
    | trail active names => cases carries
    | pointer active names => cases carries
    | version published written =>
      rw [Entry.naming_version, Option.some.injEq] at carries
      exact carries ▸ rfl
  have carried := (told.keyed_naming second second_mem first first_mem other second_eq).mpr
    ((key_of first one first_eq).trans (same.trans (key_of second other second_eq).symm))
  exact Option.some.inj (first_eq.symm.trans carried)

theorem published_compacts_iff (told : Told rfc3339Nano log) (within : kept.Sublist log) :
    (∀ id, (Catalogue.replay rfc3339Nano kept).published id ↔
        (Catalogue.replay rfc3339Nano log).published id) ↔
      ∀ naming, naming ∈ settle Naming.Blocks (kept.map Entry.naming) ↔
        naming ∈ settle Naming.Blocks (log.map Entry.naming) := by
  have listed : ∀ part : List (Entry platform), part.Sublist log → ∀ naming,
      naming ∈ settle Naming.Blocks (part.map Entry.naming) → some naming ∈ log.map Entry.naming :=
    fun part part_of naming settled => (part_of.map _).subset (mem_of_mem_settle settled)
  have by_name : ∀ part : List (Entry platform), part.Sublist log → ∀ naming,
      some naming ∈ log.map Entry.naming →
        (naming ∈ settle Naming.Blocks (part.map Entry.naming) ↔
          (Catalogue.replay rfc3339Nano part).published naming.id) := by
    intro part part_of naming naming_mem
    rw [published_replay_iff]
    constructor
    · exact fun settled => ⟨naming, settled, rfl⟩
    · rintro ⟨same, settled, same_id⟩
      exact told.naming_eq (listed part part_of same settled) naming_mem same_id ▸ settled
  constructor
  · intro same naming
    by_cases naming_mem : some naming ∈ log.map Entry.naming
    · rw [by_name kept within naming naming_mem, by_name log (.refl log) naming naming_mem, same]
    · exact ⟨fun settled => absurd (listed kept within naming settled) naming_mem,
        fun settled => absurd (listed log (.refl log) naming settled) naming_mem⟩
  · intro same id
    rw [published_replay_iff, published_replay_iff]
    exact exists_congr fun naming => and_congr_left' (same naming)

theorem activated_compacts_iff (told : Told rfc3339Nano log) (within : kept.Sublist log) :
    (Catalogue.replay rfc3339Nano kept).activated = (Catalogue.replay rfc3339Nano log).activated ↔
      settle Eq (kept.map (Entry.lineKey rfc3339Nano)) =
        settle Eq (log.map (Entry.lineKey rfc3339Nano)) := by
  have lines : ∀ part : List (Entry platform), settle Eq (part.map (Entry.lineKey rfc3339Nano)) =
      (Catalogue.replay rfc3339Nano part).activated.map (activationKey platform rfc3339Nano) := by
    intro part
    rw [(Catalogue.replay_trails part).activated]
    refine Eq.trans ?_ (settle_map (activationKey platform rfc3339Nano) (part.map Entry.lineOf))
    rw [List.map_map]
    rfl
  rw [lines, lines]
  constructor
  · exact fun same => congrArg _ same
  · intro same
    have line_of : ∀ part : List (Entry platform), part.Sublist log → ∀ line,
        line ∈ (Catalogue.replay rfc3339Nano part).activated →
          ∃ names, Entry.trail line names ∈ log := by
      intro part part_of line kept_line
      rw [(Catalogue.replay_trails part).activated] at kept_line
      obtain ⟨entry, entry_mem, entry_eq⟩ := List.mem_map.mp (mem_of_mem_settle kept_line)
      cases entry with
      | version published written => cases entry_eq
      | pointer active names => cases entry_eq
      | trail active names =>
        cases entry_eq
        exact ⟨names, part_of.subset entry_mem⟩
    rw [← List.map_id (Catalogue.replay rfc3339Nano kept).activated,
      ← List.map_id (Catalogue.replay rfc3339Nano log).activated]
    refine map_eq_of_map_eq same fun one one_mem other other_mem same_key => ?_
    obtain ⟨one_names, one_in⟩ := line_of kept within one one_mem
    obtain ⟨other_names, other_in⟩ := line_of log (.refl log) other other_mem
    exact told.lines one one_names other other_names one_in other_in same_key

def referencedRule : Rule :=
  { Rule.failedLogons with references := ["https://example.test/runbooks/ssh"] }

def referencedProgram : Program := { Program.failedLogons with rule := referencedRule }

def referencedLogons : Version :=
  { logons with
    snapshot := ⟨[referencedProgram], List.pairwise_singleton _ _⟩
    cases := FiniteMap.empty }

theorem heaviest_referencedProgram :
    referencedProgram.heaviest .plain = Program.failedLogons.heaviest .plain := rfl

theorem compile_referencedRule : referencedRule.compile .plain = .ok referencedProgram :=
  Rule.compile_eq_ok_iff.mpr {
    accepted := validate_eq_none_iff.mp (by rfl)
    rule_eq := rfl
    matching := by rfl
    fields_eq := by rfl
    grouped := by rfl
    light := by
      rw [heaviest_referencedProgram]
      exact (Rule.compile_eq_ok_iff.mp compile_failedLogons).light }

theorem written_logons : logons.Written .plain where
  compiled := by
    rintro program (_ | ⟨_, ⟨⟩⟩)
    exact compile_failedLogons
  owned := by
    rintro rule (_ | ⟨_, ⟨⟩⟩)
    exact ⟨.failedLogons, List.mem_singleton.mpr rfl, rfl⟩
  accepted := by
    rintro program (_ | ⟨_, ⟨⟩⟩) subject (_ | ⟨_, ⟨⟩⟩)
    exact ⟨"cases[0]", by rfl⟩

theorem written_referencedLogons : referencedLogons.Written .plain where
  compiled := by
    rintro program (_ | ⟨_, ⟨⟩⟩)
    exact compile_referencedRule
  owned := by rintro rule ⟨⟩
  accepted := by rintro program (_ | ⟨_, ⟨⟩⟩) subject ⟨⟩

theorem shortDigest_plain_append (front back : String) (long : 16 ≤ back.toList.length) :
    shortDigest .plain (front ++ back) = shortDigest .plain back := by
  have short : ∀ text : String, 16 ≤ text.toList.length → (Platform.plain.sha256 text).take 16 =
      (text.toList.reverse.take 16).map fun letter => UInt8.ofNat letter.toNat := by
    intro text enough
    rw [Platform.plain, List.take_append_of_le_length (by simp; omega), List.take_take, ← List.map_take]
    rfl
  have longer : 16 ≤ (front ++ back).toList.length := by
    rw [String.toList_append, List.length_append]
    omega
  rw [shortDigest, shortDigest, short _ long, short _ longer, String.toList_append,
    List.reverse_append, List.take_append_of_le_length (by rwa [List.length_reverse])]

def describedLists (program : Program) : List String :=
  counted program.rule.count.groupBy ++ ([Duration.written program.rule.sequence.within] ++
    (counted program.rule.sequence.groupBy ++
      (counted (program.rule.tags.insertionSort (· ≤ ·)) ++ counted program.rule.references)))

theorem shortDigest_describe_plain {program : Program}
    (long : 16 ≤ (framedAll (describedLists program)).toList.length) :
    shortDigest .plain (describe .plain program) =
      shortDigest .plain (framedAll (describedLists program)) := by
  rw [describe, descriptionParts]
  simp only [List.append_assoc]
  rw [framedAll_append]
  exact shortDigest_plain_append _ _ long

theorem fingerprint_referencedProgram :
    fingerprint .plain referencedProgram ≠ fingerprint .plain .failedLogons := by
  rw [fingerprint, fingerprint, shortDigest_describe_plain (by decide),
    shortDigest_describe_plain (by rfl)]
  decide

theorem id_referencedLogons : referencedLogons.id .plain ≠ logons.id .plain :=
  fun same => fingerprint_referencedProgram (by simpa [referencedLogons, logons, Version.id,
    Snapshot.id, identify, described, fingerprint] using same)

/-- A version stands again behind one that gives its rule another meaning. -/
def republished : List (Entry .plain) :=
  [.version logons written_logons, .version referencedLogons written_referencedLogons,
    .version logons written_logons]

theorem naming_clash : (referencedLogons.naming .plain).Blocks (logons.naming .plain) :=
  .inr ⟨_, List.mem_singleton.mpr rfl, _, List.mem_singleton.mpr rfl, rfl,
    fingerprint_referencedProgram⟩

/-- Whatever is left of a log is read as the whole log, exactly if the log decides which versions
are kept, however often and in which order they stand in what is left of it, and if no two lines of
its trail each stand before the other. -/
theorem replay_compacts_iff {log : List (Entry platform)} (told : Told rfc3339Nano log) :
    (∀ kept, Compacts (Entry.key rfc3339Nano) kept log →
      (∀ id, (Catalogue.replay rfc3339Nano kept).published id ↔
          (Catalogue.replay rfc3339Nano log).published id) ∧
        (Catalogue.replay rfc3339Nano kept).active = (Catalogue.replay rfc3339Nano log).active ∧
        (Catalogue.replay rfc3339Nano kept).activated =
          (Catalogue.replay rfc3339Nano log).activated) ↔
      (∃ admitted, Decided Naming.Blocks (log.map Entry.naming) admitted) ∧
        ∀ one other, Before (log.map (Entry.lineKey rfc3339Nano)) one other →
          Before (log.map (Entry.lineKey rfc3339Nano)) other one → one = other := by
  rw [← settle_steady_iff told.keyed_naming Naming.Blocks.symm,
    ← settle_eq_steady_iff (keyed_lineKey log)]
  constructor
  · intro same
    refine ⟨fun kept compacts => ?_, fun kept compacts => ?_⟩
    · exact (published_compacts_iff told compacts.1).mp (same kept compacts).1
    · exact (activated_compacts_iff told compacts.1).mp (same kept compacts).2.2
  · rintro ⟨same_versions, same_lines⟩ kept compacts
    refine ⟨(published_compacts_iff told compacts.1).mpr (same_versions kept compacts), ?_,
      (activated_compacts_iff told compacts.1).mpr (same_lines kept compacts)⟩
    rw [Catalogue.replay_active, Catalogue.replay_active, lastPointer_compacts compacts]

def promoted : RulesetV1.Active := ⟨"logons", "analyst", some (Timestamp.new Duration.second), ""⟩

/-- A log in which a version is published, activated and published again. -/
def announced : List (Entry .plain) :=
  [.version logons written_logons, .trail promoted (by decide), .pointer promoted (by decide),
    .version logons written_logons]

theorem replay_compacts_announced :
    Told Decimal.format announced ∧ ∀ kept, Compacts (Entry.key Decimal.format) kept announced →
      (∀ id, (Catalogue.replay Decimal.format kept).published id ↔
          (Catalogue.replay Decimal.format announced).published id) ∧
        (Catalogue.replay Decimal.format kept).active =
          (Catalogue.replay Decimal.format announced).active ∧
        (Catalogue.replay Decimal.format kept).activated =
          (Catalogue.replay Decimal.format announced).activated := by
  have told : Told Decimal.format announced := {
    versions := by
      intro one one_written other other_written one_mem other_mem _
      simp only [announced, List.mem_cons, Entry.version.injEq, reduceCtorEq, false_or, or_self,
        List.not_mem_nil, or_false] at one_mem other_mem
      rw [one_mem, other_mem]
    lines := by
      intro one one_names other other_names one_mem other_mem _
      simp only [announced, List.mem_cons, Entry.trail.injEq, reduceCtorEq, false_or, or_false,
        List.not_mem_nil] at one_mem other_mem
      rw [one_mem, other_mem] }
  have namings : announced.map Entry.naming =
      [some (logons.naming .plain), none, none, some (logons.naming .plain)] := by
    simp only [announced, List.map_cons, List.map_nil, Entry.naming_version]
    rfl
  have lines : announced.map (Entry.lineKey Decimal.format) =
      [none, some (activationKey .plain Decimal.format promoted), none, none] := rfl
  refine ⟨told, (replay_compacts_iff told).mpr ⟨⟨{logons.naming .plain}, ?_, ?_, ?_⟩, ?_⟩⟩
  · rintro naming rfl
    simp [namings]
  · rintro one rfl other rfl _
    rfl
  · intro naming listed refused
    rw [namings] at listed
    simp only [List.mem_cons, Option.some.injEq, reduceCtorEq, false_or, List.not_mem_nil, or_false,
      or_self] at listed
    exact absurd listed refused
  · intro one other before behind
    have one_mem := mem_left_of_before before
    have other_mem := mem_left_of_before behind
    rw [lines] at one_mem other_mem
    simp only [List.mem_cons, Option.some.injEq, reduceCtorEq, false_or, List.not_mem_nil, or_false]
      at one_mem other_mem
    rw [one_mem, other_mem]

/-- Of two records of a version, compaction leaves the one behind a version that the first kept out:
a reader of the whole log holds the one, a reader of what is left the other. -/
theorem compaction_swaps_versions :
    ∃ kept, Compacts (Entry.key Decimal.format) kept republished ∧
      (Catalogue.replay Decimal.format republished).published (logons.id .plain) ∧
      ¬ (Catalogue.replay Decimal.format kept).published (logons.id .plain) ∧
      (Catalogue.replay Decimal.format kept).published (referencedLogons.id .plain) := by
  have whole : settle Naming.Blocks (republished.map Entry.naming) = [logons.naming .plain] := by
    simp [republished, Entry.naming_version, settle, consider, accept, naming_clash.symm,
      Naming.Blocks.refl]
  have left : settle Naming.Blocks (republished.tail.map Entry.naming) =
      [referencedLogons.naming .plain] := by
    simp [republished, Entry.naming_version, settle, consider, accept, naming_clash]
  refine ⟨republished.tail, compacts_tail ⟨.version logons written_logons, ?_, rfl⟩, ?_, ?_, ?_⟩
  · exact List.mem_cons_of_mem _ (List.mem_singleton.mpr rfl)
  · rw [published_replay_iff, whole]
    exact ⟨logons.naming .plain, List.mem_singleton_self _, rfl⟩
  · rw [published_replay_iff, left]
    rintro ⟨naming, member, same⟩
    rw [List.mem_singleton.mp member] at same
    exact id_referencedLogons same
  · rw [published_replay_iff, left]
    exact ⟨referencedLogons.naming .plain, List.mem_singleton_self _, rfl⟩

end Seagull.Ruleset
