import Seagull.Foundation.Admission
import Seagull.Ruleset.Version

/-!
# The catalogue

What has been published and which of it is meant to be running, built by applying the records of the
log in order.  A version is kept the first time it is read; one that gives a rule and revision
another meaning is refused.  An activation is written twice: as a line of the trail, and as the
pointer.
-/

namespace Seagull.Ruleset

open Admission Contract Detection

/-- A rule published twice under one revision, with two meanings. -/
structure Conflict where
  rule : String
  revision : ℤ

/-- `Conflict.Error`. -/
def Conflict.written (platform : Platform) (conflict : Conflict) : String :=
  "rule " ++ Quote.quote platform.isPrint conflict.rule ++ " was already published at revision " ++
    Decimal.format conflict.revision ++
    " asking something else; a rule that changes takes the next revision"

def activeKey : String := "active"

/-- What a line of the trail is named by. -/
def activationParts (rfc3339Nano : ℤ → String) (active : RulesetV1.Active) : List String :=
  [active.rulesetId, active.activatedBy,
    rfc3339Nano (active.activatedAt.getD Timestamp.unset).asTime, active.note]

def activationKey (platform : Platform) (rfc3339Nano : ℤ → String) (active : RulesetV1.Active) :
    String :=
  "activated." ++ shortDigest platform (framedAll (activationParts rfc3339Nano active))

/-- What has been published, and which of it is meant to be running. -/
structure Catalogue where
  /-- The published versions, by their names. -/
  versions : FiniteMap String Version
  order : List String
  active : Option RulesetV1.Active
  activated : List RulesetV1.Active
  recorded : FiniteMap String Unit
  revisions : FiniteMap (String × ℤ) String

namespace Catalogue

/-- `NewCatalogue`. -/
def new : Catalogue := ⟨FiniteMap.empty, [], none, [], FiniteMap.empty, FiniteMap.empty⟩

/-- The first rule of a version published with another meaning. -/
def conflicting (platform : Platform) (catalogue : Catalogue) (version : Version) :
    Option Conflict :=
  version.snapshot.programs.findSome? fun program =>
    match catalogue.revisions.lookup (program.rule.id, program.rule.revision) with
    | none => none
    | some held =>
      if held ≠ fingerprint platform program then
        some ⟨program.rule.id, program.rule.revision⟩
      else none

def published (catalogue : Catalogue) (id : String) : Bool := (catalogue.versions.lookup id).isSome

def keep (platform : Platform) (catalogue : Catalogue) (version : Version) : Catalogue :=
  { catalogue with
    versions := catalogue.versions.insert (version.id platform) version
    order := catalogue.order ++ [version.id platform]
    revisions := version.snapshot.programs.foldl (fun held program =>
      held.insert (program.rule.id, program.rule.revision) (fingerprint platform program))
        catalogue.revisions }

def apply (platform : Platform) (catalogue : Catalogue) :
    RulesetV1.Record → Except String Catalogue
  | .version held =>
    match decodeVersion platform held with
    | .error refused => .error refused
    | .ok version =>
      if catalogue.published (version.id platform) then .ok catalogue
      else match catalogue.conflicting platform version with
        | some conflict => .error (conflict.written platform)
        | none => .ok (catalogue.keep platform version)
  | .active active =>
    if active.rulesetId = "" then .error "an activation names the ruleset it activates"
    else .ok { catalogue with active := some active }
  | .unset => .error "a ruleset record carries nothing this build can read"

def trailed (platform : Platform) (rfc3339Nano : ℤ → String) (catalogue : Catalogue)
    (active : RulesetV1.Active) : Except String Catalogue :=
  if active.rulesetId = "" then .error "an activation names the ruleset it activates"
  else
    let key := activationKey platform rfc3339Nano active
    if (catalogue.recorded.lookup key).isSome then .ok catalogue
    else .ok { catalogue with
      recorded := catalogue.recorded.insert key ()
      activated := catalogue.activated ++ [active] }

/-- What a catalogue is after it answered: a refusal changes nothing. -/
def after (catalogue : Catalogue) : Except String Catalogue → Catalogue
  | .ok changed => changed
  | .error _ => catalogue

/-- A record read off the log: the pointer, or a line of the trail. -/
def read (platform : Platform) (rfc3339Nano : ℤ → String) (catalogue : Catalogue)
    (record : RulesetV1.Record) (desired : Bool) : Except String Catalogue :=
  match record, desired with
  | .active active, false => catalogue.trailed platform rfc3339Nano active
  | record, _ => catalogue.apply platform record

end Catalogue

/-- What decides whether a version is kept: its name, and its rules and revisions. -/
@[ext]
structure Naming where
  id : String
  revisions : List ((String × ℤ) × String)
  deriving DecidableEq

namespace Naming

/-- Two versions give a rule and revision two meanings. -/
def Clashes (one other : Naming) : Prop :=
  ∃ held ∈ one.revisions, ∃ given ∈ other.revisions, held.1 = given.1 ∧ held.2 ≠ given.2

/-- A version that is held keeps another out. -/
def Blocks (one other : Naming) : Prop := one.id = other.id ∨ one.Clashes other

instance : DecidableRel Clashes := fun _ _ => inferInstanceAs (Decidable (∃ _ ∈ _, _))

instance : DecidableRel Blocks := fun _ _ => inferInstanceAs (Decidable (_ ∨ _))

theorem Blocks.refl (naming : Naming) : naming.Blocks naming := .inl rfl

theorem Blocks.symm {one other : Naming} : one.Blocks other → other.Blocks one := by
  rintro (same | ⟨held, held_mem, given, given_mem, same, differs⟩)
  · exact .inl same.symm
  · exact .inr ⟨given, given_mem, held, held_mem, same.symm, differs.symm⟩

end Naming

section Holds

variable {platform : Platform}

/-- What decides whether a version is kept. -/
def Version.naming (platform : Platform) (version : Version) : Naming where
  id := version.id platform
  revisions := version.snapshot.programs.map fun program =>
    ((program.rule.id, program.rule.revision), fingerprint platform program)

/-- A version that is held keeps another out. -/
def Version.Blocks (platform : Platform) (one other : Version) : Prop :=
  (one.naming platform).Blocks (other.naming platform)

instance : DecidableRel (Version.Blocks platform) := fun _ _ => inferInstanceAs (Decidable (_ ∨ _))

theorem Version.Blocks.refl (version : Version) : version.Blocks platform version :=
  Naming.Blocks.refl _

theorem Version.Blocks.symm {one other : Version} (blocks : one.Blocks platform other) :
    other.Blocks platform one :=
  Naming.Blocks.symm blocks

theorem Version.naming_nodup (platform : Platform) (version : Version) :
    ((version.naming platform).revisions.map Prod.fst).Nodup := by
  simp only [naming, List.map_map]
  refine List.pairwise_map.mpr (version.snapshot.sorted.imp fun before same => before.ne ?_)
  exact congrArg Prod.fst same

/-- A catalogue holds versions, in the order they were kept. -/
structure Catalogue.Holds (platform : Platform) (catalogue : Catalogue) (held : List Version) :
    Prop where
  versions : ∀ id version, catalogue.versions.lookup id = some version ↔
    version ∈ held ∧ version.id platform = id
  order : catalogue.order = held.map (Version.id platform)
  revisions : ∀ revised told, catalogue.revisions.lookup revised = some told ↔
    ∃ version ∈ held, (revised, told) ∈ (version.naming platform).revisions

namespace Catalogue.Holds

variable {catalogue : Catalogue} {held : List Version}

theorem new : Catalogue.new.Holds platform [] where
  versions id version := by simp [Catalogue.new]
  order := rfl
  revisions revised told := by simp [Catalogue.new]

section

variable (holds : catalogue.Holds platform held)

include holds

theorem of_same {other : Catalogue}
    (versions : other.versions = catalogue.versions) (order : other.order = catalogue.order)
    (revisions : other.revisions = catalogue.revisions) : other.Holds platform held where
  versions := versions ▸ holds.versions
  order := order ▸ holds.order
  revisions := revisions ▸ holds.revisions

theorem told_once {one other : Version} {revised : String × ℤ}
    {told given : String} (one_held : one ∈ held) (other_held : other ∈ held)
    (tells : (revised, told) ∈ (one.naming platform).revisions)
    (gives : (revised, given) ∈ (other.naming platform).revisions) : told = given := by
  have found := (holds.revisions revised told).mpr ⟨one, one_held, tells⟩
  have again := (holds.revisions revised given).mpr ⟨other, other_held, gives⟩
  exact Option.some.inj (found.symm.trans again)

theorem published_iff (id : String) :
    catalogue.published id ↔ ∃ version ∈ held, version.id platform = id := by
  simp only [published, Option.isSome_iff_exists, holds.versions]

theorem conflicting_eq_none_iff (version : Version) :
    catalogue.conflicting platform version = none ↔
      ∀ one ∈ held, ¬ (one.naming platform).Clashes (version.naming platform) := by
  simp only [conflicting, List.findSome?_eq_none_iff]
  constructor
  · rintro agrees one one_held ⟨⟨revised, told⟩, tells, ⟨_, given⟩, gives, rfl, differs⟩
    obtain ⟨program, program_mem, same⟩ := List.mem_map.mp gives
    rw [Prod.mk.injEq] at same
    obtain ⟨rfl, rfl⟩ := same
    have settled := agrees program program_mem
    rw [(holds.revisions _ told).mpr ⟨one, one_held, tells⟩] at settled
    simp [differs] at settled
  · intro free program program_mem
    split
    · rfl
    · rename_i told found
      refine if_neg (not_not.mpr ?_)
      obtain ⟨one, one_held, tells⟩ := (holds.revisions _ told).mp found
      by_contra differs
      refine free one one_held ⟨_, tells, _, List.mem_map_of_mem program_mem, rfl, differs⟩

theorem keep {version : Version} (free : ∀ one ∈ held, ¬ one.Blocks platform version) :
    (catalogue.keep platform version).Holds platform (held ++ [version]) where
  versions id other := by
    simp only [Catalogue.keep, FiniteMap.lookup_insert, List.mem_append, List.mem_singleton]
    by_cases same : id = version.id platform
    · have unheld : ¬ (other ∈ held ∧ other.id platform = id) := fun ⟨member, other_id⟩ =>
        free other member (.inl (other_id.trans same))
      rw [if_pos same, Option.some.injEq]
      constructor
      · rintro rfl
        exact ⟨.inr rfl, same.symm⟩
      · rintro ⟨member | itself, other_id⟩
        · exact absurd ⟨member, other_id⟩ unheld
        · exact itself.symm
    · rw [if_neg same, holds.versions]
      constructor
      · rintro ⟨member, other_id⟩
        exact ⟨.inl member, other_id⟩
      · rintro ⟨member | rfl, other_id⟩
        · exact ⟨member, other_id⟩
        · exact absurd other_id.symm same
  order := by rw [Catalogue.keep, holds.order, List.map_append, List.map_singleton]
  revisions revised told := by
    have folded := FiniteMap.lookup_foldl_insert (version.naming_nodup platform)
      catalogue.revisions revised told
    simp only [Version.naming, List.foldl_map] at folded
    refine folded.trans ?_
    simp only [List.mem_append, List.mem_singleton, or_and_right, exists_or, exists_eq_left]
    rw [← holds.revisions]
    constructor
    · rintro (given | ⟨-, found⟩)
      · exact .inr given
      · exact .inl found
    · rintro (found | given)
      · by_cases named : revised ∈ ((version.naming platform).revisions).map Prod.fst
        · obtain ⟨⟨_, given⟩, given_mem, rfl⟩ := List.mem_map.mp named
          obtain ⟨one, one_held, tells⟩ := (holds.revisions _ told).mp found
          have agrees : told = given := by
            by_contra differs
            exact free one one_held (.inr ⟨_, tells, _, given_mem, rfl, differs⟩)
          exact .inl (agrees ▸ given_mem)
        · exact .inr ⟨named, found⟩
      · exact .inl given

theorem apply_version {encoded : Option RulesetV1.Version} {version : Version}
    (decodes : decodeVersion platform encoded = .ok version) :
    (catalogue.after (catalogue.apply platform (.version encoded))).Holds platform
      (accept (Version.Blocks platform) held version) := by
  by_cases blocked : ∃ one ∈ held, one.Blocks platform version
  · rw [accept, if_pos blocked, Catalogue.apply, decodes]
    obtain ⟨one, one_held, same_id | clashes⟩ := blocked
    · have published : catalogue.published (version.id platform) :=
        (holds.published_iff _).mpr ⟨one, one_held, same_id⟩
      simp only [published, if_true]
      exact holds
    · have conflicts : catalogue.conflicting platform version ≠ none := fun none_found =>
        (holds.conflicting_eq_none_iff version).mp none_found one one_held clashes
      obtain ⟨conflict, found⟩ := Option.ne_none_iff_exists'.mp conflicts
      simp only [found]
      split
      · exact holds
      · exact holds
  · rw [accept, if_neg blocked]
    push Not at blocked
    have unpublished : ¬ catalogue.published (version.id platform) := fun published => by
      obtain ⟨one, one_held, same_id⟩ := (holds.published_iff _).mp published
      exact blocked one one_held (.inl same_id)
    have agrees := (holds.conflicting_eq_none_iff version).mpr fun one one_held clashes =>
      blocked one one_held (.inr clashes)
    simp only [Catalogue.apply, decodes, agrees, if_neg unpublished]
    exact holds.keep blocked

end


end Catalogue.Holds

end Holds

section Trail

variable {platform : Platform} {rfc3339Nano : ℤ → String}

def SameLine (platform : Platform) (rfc3339Nano : ℤ → String) (one other : RulesetV1.Active) : Prop :=
  activationKey platform rfc3339Nano one = activationKey platform rfc3339Nano other

instance : DecidableRel (SameLine platform rfc3339Nano) := fun _ _ =>
  inferInstanceAs (Decidable (_ = _))

/-- A catalogue holds the lines of a trail. -/
structure Catalogue.Trails (platform : Platform) (rfc3339Nano : ℤ → String) (catalogue : Catalogue)
    (lines : List RulesetV1.Active) : Prop where
  activated : catalogue.activated = lines
  recorded : ∀ key, (catalogue.recorded.lookup key).isSome ↔
    ∃ line ∈ lines, activationKey platform rfc3339Nano line = key

namespace Catalogue.Trails

variable {catalogue : Catalogue} {lines : List RulesetV1.Active}

theorem new : Catalogue.new.Trails platform rfc3339Nano [] where
  activated := rfl
  recorded key := by simp [Catalogue.new]

theorem of_same {other : Catalogue} (trails : catalogue.Trails platform rfc3339Nano lines)
    (activated : other.activated = catalogue.activated)
    (recorded : other.recorded = catalogue.recorded) :
    other.Trails platform rfc3339Nano lines where
  activated := activated.trans trails.activated
  recorded := recorded ▸ trails.recorded

theorem trailed (trails : catalogue.Trails platform rfc3339Nano lines) {active : RulesetV1.Active}
    (names : active.rulesetId ≠ "") :
    (catalogue.after (catalogue.trailed platform rfc3339Nano active)).Trails platform
      rfc3339Nano (accept (SameLine platform rfc3339Nano) lines active) := by
  simp only [Catalogue.trailed, if_neg names]
  by_cases known : ∃ line ∈ lines, SameLine platform rfc3339Nano line active
  · have recorded := (trails.recorded (activationKey platform rfc3339Nano active)).mpr known
    rw [accept, if_pos known, if_pos recorded]
    exact trails
  · have unrecorded : ¬ (catalogue.recorded.lookup
        (activationKey platform rfc3339Nano active)).isSome :=
      fun recorded => known ((trails.recorded _).mp recorded)
    rw [accept, if_neg known, if_neg unrecorded]
    refine ⟨congrArg (· ++ [active]) trails.activated, fun key => ?_⟩
    simp only [Catalogue.after, FiniteMap.lookup_insert, List.mem_append, List.mem_singleton,
      or_and_right, exists_or, exists_eq_left]
    rw [← trails.recorded]
    by_cases same : key = activationKey platform rfc3339Nano active
    · simp [same]
    · simp [same, Ne.symm same]

end Catalogue.Trails
end Trail

/-- A record of the ruleset log, as it is written: a version, a line of the trail, or the pointer.
-/
inductive Entry (platform : Platform) where
  | version (published : Version) (written : published.Written platform)
  | trail (active : RulesetV1.Active) (names : active.rulesetId ≠ "")
  | pointer (active : RulesetV1.Active) (names : active.rulesetId ≠ "")

section Log

variable {platform : Platform} (rfc3339Nano : ℤ → String)

namespace Entry

def key : Entry platform → String
  | .version published _ => published.id platform
  | .trail active _ => activationKey platform rfc3339Nano active
  | .pointer _ _ => activeKey

def record : Entry platform → RulesetV1.Record
  | .version published _ => published.record platform
  | .trail active _ | .pointer active _ => .active active

def versionOf : Entry platform → Option Version
  | .version published _ => (decodeVersion platform (some (published.encode platform))).toOption
  | _ => none

def lineOf : Entry platform → Option RulesetV1.Active
  | .trail active _ => some active
  | _ => none

def pointerOf : Entry platform → Option RulesetV1.Active
  | .pointer active _ => some active
  | _ => none

end Entry

/-- A reader applies a record, and steps over one it cannot read. -/
def Catalogue.follow (catalogue : Catalogue) (entry : Entry platform) : Catalogue :=
  catalogue.after (catalogue.read platform rfc3339Nano entry.record
    (entry.key rfc3339Nano = activeKey))

def Catalogue.replay (log : List (Entry platform)) : Catalogue :=
  log.foldl (Catalogue.follow rfc3339Nano) Catalogue.new

def lastPointer (log : List (Entry platform)) : Option RulesetV1.Active :=
  (log.filterMap Entry.pointerOf).getLast?

variable {rfc3339Nano}

theorem activationKey_ne_activeKey (active : RulesetV1.Active) :
    activationKey platform rfc3339Nano active ≠ activeKey := by
  intro same
  have sixth := congrArg (fun text : String => text.toList[6]?) same
  simp [activationKey, activeKey] at sixth

theorem Entry.versionOf_version {published : Version} (written : published.Written platform) :
    ∃ version, Entry.versionOf (.version published written) = some version ∧
      decodeVersion platform (some (published.encode platform)) = .ok version ∧
      version.snapshot = published.snapshot := by
  obtain ⟨read, decodes, -⟩ := written.read_back
  exact ⟨_, by rw [versionOf, decodes]; rfl, decodes, rfl⟩

namespace Catalogue

variable {catalogue : Catalogue}

theorem follow_trail (active : RulesetV1.Active) (names : active.rulesetId ≠ "") :
    catalogue.follow rfc3339Nano (.trail active names : Entry platform) =
      catalogue.after (catalogue.trailed platform rfc3339Nano active) := by
  simp [follow, Entry.key, Entry.record, activationKey_ne_activeKey, read]

theorem follow_pointer (active : RulesetV1.Active) (names : active.rulesetId ≠ "") :
    catalogue.follow rfc3339Nano (.pointer active names : Entry platform) =
      { catalogue with active := some active } := by
  simp [follow, Entry.key, Entry.record, read, apply, names, after]

theorem follow_version (published : Version) (written : published.Written platform) :
    catalogue.follow rfc3339Nano (.version published written) =
      catalogue.after (catalogue.apply platform (.version (some (published.encode platform)))) :=
  rfl

theorem apply_version_frame (catalogue : Catalogue) (encoded : Option RulesetV1.Version) :
    (catalogue.after (catalogue.apply platform (.version encoded))).active =
        catalogue.active ∧
      (catalogue.after (catalogue.apply platform (.version encoded))).activated =
        catalogue.activated ∧
      (catalogue.after (catalogue.apply platform (.version encoded))).recorded =
        catalogue.recorded := by
  rw [apply]
  split
  · exact ⟨rfl, rfl, rfl⟩
  · split
    · exact ⟨rfl, rfl, rfl⟩
    · split
      · exact ⟨rfl, rfl, rfl⟩
      · exact ⟨rfl, rfl, rfl⟩

theorem trailed_frame (catalogue : Catalogue) (active : RulesetV1.Active) :
    (catalogue.after (catalogue.trailed platform rfc3339Nano active)).versions =
        catalogue.versions ∧
      (catalogue.after (catalogue.trailed platform rfc3339Nano active)).order =
        catalogue.order ∧
      (catalogue.after (catalogue.trailed platform rfc3339Nano active)).revisions =
        catalogue.revisions ∧
      (catalogue.after (catalogue.trailed platform rfc3339Nano active)).active =
        catalogue.active := by
  rw [trailed]
  split
  · exact ⟨rfl, rfl, rfl, rfl⟩
  · simp only
    split
    · exact ⟨rfl, rfl, rfl, rfl⟩
    · exact ⟨rfl, rfl, rfl, rfl⟩

theorem Holds.follow {held : List Version} (holds : catalogue.Holds platform held)
    (entry : Entry platform) :
    (catalogue.follow rfc3339Nano entry).Holds platform
      (consider (Version.Blocks platform) held entry.versionOf) := by
  cases entry with
  | version published written =>
    obtain ⟨version, reads, decodes, -⟩ := Entry.versionOf_version written
    rw [follow_version, reads]
    exact holds.apply_version decodes
  | trail active names =>
    rw [follow_trail]
    obtain ⟨versions, order, revisions, -⟩ := trailed_frame catalogue active
    exact holds.of_same versions order revisions
  | pointer active names =>
    rw [follow_pointer]
    exact holds.of_same rfl rfl rfl

theorem Trails.follow {lines : List RulesetV1.Active}
    (trails : catalogue.Trails platform rfc3339Nano lines) (entry : Entry platform) :
    (catalogue.follow rfc3339Nano entry).Trails platform rfc3339Nano
      (consider (SameLine platform rfc3339Nano) lines entry.lineOf) := by
  cases entry with
  | version published written =>
    rw [follow_version]
    obtain ⟨-, activated, recorded⟩ :=
      apply_version_frame catalogue (some (published.encode platform))
    exact trails.of_same activated recorded
  | trail active names =>
    rw [follow_trail]
    exact trails.trailed names
  | pointer active names =>
    rw [follow_pointer]
    exact trails.of_same rfl rfl

theorem follow_active (entry : Entry platform) :
    (catalogue.follow rfc3339Nano entry).active = entry.pointerOf.or catalogue.active := by
  cases entry with
  | version published written => exact (apply_version_frame catalogue _).1
  | trail active names =>
    rw [follow_trail]
    exact (trailed_frame catalogue active).2.2.2
  | pointer active names =>
    rw [follow_pointer]
    rfl

section

variable (log : List (Entry platform))

include log

theorem replay_concat (entry : Entry platform) :
    replay rfc3339Nano (log ++ [entry]) = (replay rfc3339Nano log).follow rfc3339Nano entry := by
  rw [replay, List.foldl_append]
  rfl

theorem replay_holds :
    (replay rfc3339Nano log).Holds platform
      (settle (Version.Blocks platform) (log.map Entry.versionOf)) := by
  induction log using List.reverseRecOn with
  | nil => exact Holds.new
  | append_singleton log entry ih =>
    rw [replay_concat, List.map_append, List.map_singleton, settle_concat]
    exact ih.follow entry

theorem replay_trails :
    (replay rfc3339Nano log).Trails platform rfc3339Nano
      (settle (SameLine platform rfc3339Nano) (log.map Entry.lineOf)) := by
  induction log using List.reverseRecOn with
  | nil => exact Trails.new
  | append_singleton log entry ih =>
    rw [replay_concat, List.map_append, List.map_singleton, settle_concat]
    exact ih.follow entry

theorem lastPointer_concat (entry : Entry platform) :
    lastPointer (log ++ [entry]) = entry.pointerOf.or (lastPointer log) := by
  rw [lastPointer, List.filterMap_append, lastPointer]
  cases pointed : entry.pointerOf with
  | none => simp [pointed]
  | some active => simp [pointed]

theorem replay_active :
    (replay rfc3339Nano log).active = lastPointer log := by
  induction log using List.reverseRecOn with
  | nil => rfl
  | append_singleton log entry ih => rw [replay_concat, follow_active, ih, lastPointer_concat]

end


end Catalogue
end Log
end Seagull.Ruleset
