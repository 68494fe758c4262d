import Seagull.Foundation.Transition
import Seagull.Ruleset.Catalogue

/-!
# Publishing and activating

Any number of processes follow the ruleset log, and a control plane also applies what it appends to
its own catalogue, beside its follower.  If none applies a record of its own too early or too late,
every process that has read the whole log holds what a replay of it holds.
-/

namespace Seagull.Ruleset

open Admission Contract Detection

variable {platform : Platform} {ι : Type}

/-- A process that follows the ruleset log. -/
structure Process where
  catalogue : Catalogue
  /-- How many records of the log its follower has applied. -/
  applied : ℕ

/-- How far a request has come. -/
inductive Stage (platform : Platform) where
  | admitted (published : Version) (written : published.Written platform)
  | appended (published : Version) (written : published.Written platform) (offset : ℕ)
  | accepted (active : RulesetV1.Active) (names : active.rulesetId ≠ "")
  /-- The line of the trail was appended. -/
  | lined (active : RulesetV1.Active) (names : active.rulesetId ≠ "")
  /-- The pointer was appended at an offset. -/
  | pointed (active : RulesetV1.Active) (names : active.rulesetId ≠ "") (offset : ℕ)
  /-- The line was kept by the catalogue of the control plane itself. -/
  | kept (active : RulesetV1.Active) (names : active.rulesetId ≠ "") (offset : ℕ)

/-- A request a control plane has not answered yet. -/
structure Request (platform : Platform) (ι : Type) where
  owner : ι
  stage : Stage platform

/-- The log, the processes and their requests. -/
structure Estate (platform : Platform) (ι : Type) where
  log : List (Entry platform)
  process : ι → Process
  requests : List (Request platform ι)

/-- What happens to an estate. -/
inductive Event (platform : Platform) (ι : Type) where
  | publish (owner : ι) (published : Version) (written : published.Written platform)
  | activate (owner : ι) (active : RulesetV1.Active) (names : active.rulesetId ≠ "")
  /-- A request takes its next step. -/
  | proceed (request : ℕ)
  /-- A request fails between two steps. -/
  | abandon (request : ℕ)
  /-- A follower applies the next record of the log. -/
  | follow (process : ι)
  | restart (process : ι)

variable (rfc3339Nano : ℤ → String) (fits : RulesetV1.Record → Bool) [DecidableEq ι]

namespace Estate

def append (estate : Estate platform ι) (entry : Entry platform) : Estate platform ι :=
  { estate with log := estate.log ++ [entry] }

def change (estate : Estate platform ι) (owner : ι)
    (answer : Catalogue → Except String Catalogue) : Estate platform ι :=
  { estate with
    process := Function.update estate.process owner
      { estate.process owner with
        catalogue := (estate.process owner).catalogue.after
          (answer (estate.process owner).catalogue) } }

def reach (estate : Estate platform ι) (request : ℕ) (owner : ι) (stage : Stage platform) :
    Estate platform ι :=
  { estate with requests := estate.requests.set request ⟨owner, stage⟩ }

def finish (estate : Estate platform ι) (request : ℕ) : Estate platform ι :=
  { estate with requests := estate.requests.eraseIdx request }

def proceed (estate : Estate platform ι) (request : ℕ) (owner : ι) :
    Stage platform → Estate platform ι
  | .admitted published written =>
    (estate.append (.version published written)).reach request owner
      (.appended published written estate.log.length)
  | .appended published _ _ =>
    (estate.change owner fun catalogue =>
      catalogue.apply platform (published.record platform)).finish request
  | .accepted active names =>
    (estate.append (.trail active names)).reach request owner (.lined active names)
  | .lined active names =>
    (estate.append (.pointer active names)).reach request owner
      (.pointed active names estate.log.length)
  | .pointed active names offset =>
    (estate.change owner fun catalogue =>
      catalogue.trailed platform rfc3339Nano active).reach request owner
        (.kept active names offset)
  | .kept active _ _ =>
    (estate.change owner fun catalogue => catalogue.apply platform (.active active)).finish request

/-- What an event makes of an estate.  What conflicts, is too large or was not published is refused.
-/
def step (estate : Estate platform ι) : Event platform ι → Option (Estate platform ι)
  | .publish owner published written =>
    if ((estate.process owner).catalogue.conflicting platform published).isNone ∧
        fits (published.record platform) then
      some { estate with requests := estate.requests ++ [⟨owner, .admitted published written⟩] }
    else none
  | .activate owner active names =>
    if (estate.process owner).catalogue.published active.rulesetId then
      some { estate with requests := estate.requests ++ [⟨owner, .accepted active names⟩] }
    else none
  | .proceed request =>
    estate.requests[request]?.map fun held =>
      estate.proceed rfc3339Nano request held.owner held.stage
  | .abandon request => some (estate.finish request)
  | .follow process =>
    estate.log[(estate.process process).applied]?.map fun entry =>
      { estate with
        process := Function.update estate.process process
          ⟨(estate.process process).catalogue.follow rfc3339Nano entry,
            (estate.process process).applied + 1⟩ }
  | .restart process =>
    some { estate with
      process := Function.update estate.process process ⟨Catalogue.new, 0⟩
      requests := estate.requests.filter fun held => held.owner ≠ process }

end Estate

/-- Processes that follow an empty log. -/
def publishing : System (Estate platform ι) (Event platform ι) where
  starts estate := estate = ⟨[], fun _ => ⟨Catalogue.new, 0⟩, []⟩
  step := Estate.step rfc3339Nano fits

def Entry.KeepsOut (entry : Entry platform) (published : Version) : Prop :=
  match entry with
  | .version other _ => (other.naming platform).Blocks (published.naming platform)
  | _ => False

instance (entry : Entry platform) (published : Version) : Decidable (entry.KeepsOut published) :=
  match entry with
  | .version _ _ => inferInstanceAs (Decidable (_ ∨ _))
  | .trail _ _ | .pointer _ _ => inferInstanceAs (Decidable False)

/-- A control plane applies a version of its own when no record still to apply before it keeps it
out, and a pointer when its follower applied no later one. -/
def Stage.Timely (log : List (Entry platform)) (applied : ℕ) : Stage platform → Prop
  | .appended published _ offset =>
    ∀ entry ∈ (log.take offset).drop applied, ¬ entry.KeepsOut published
  | .kept _ _ offset => ∀ entry ∈ (log.take applied).drop (offset + 1), entry.pointerOf = none
  | _ => True

instance (log : List (Entry platform)) (applied : ℕ) (stage : Stage platform) :
    Decidable (stage.Timely log applied) :=
  match stage with
  | .appended .. | .kept .. => inferInstanceAs (Decidable (∀ _ ∈ _, _))
  | .admitted .. | .accepted .. | .lined .. | .pointed .. => inferInstanceAs (Decidable True)

def Prompt (estate : Estate platform ι) : Event platform ι → Prop
  | .proceed request => ∀ held ∈ estate.requests[request]?,
      held.stage.Timely estate.log (estate.process held.owner).applied
  | _ => True

instance (estate : Estate platform ι) (event : Event platform ι) :
    Decidable (Prompt estate event) :=
  match event with
  | .proceed _ => inferInstanceAs (Decidable (∀ _ ∈ _, _))
  | .publish .. | .activate .. | .abandon .. | .follow .. | .restart .. =>
    inferInstanceAs (Decidable True)

/-- What a process holds of a log it follows: what the log admits up to its place, some further
versions nothing in between keeps out, and the last pointer, if none is left to apply. -/
structure Reads (log : List (Entry platform)) (process : Process) : Prop where
  within : process.applied ≤ log.length
  versions : ∃ held early, process.catalogue.Holds platform held ∧
    Ahead (Version.Blocks platform) (log.map Entry.versionOf) process.applied held early
  pointer : (∀ entry ∈ log.drop process.applied, entry.pointerOf = none) →
    process.catalogue.active = lastPointer log

/-- What a request wrote stands where it was appended. -/
def Stage.Placed (log : List (Entry platform)) : Stage platform → Prop
  | .appended published written offset => log[offset]? = some (.version published written)
  | .pointed active names offset | .kept active names offset =>
    log[offset]? = some (.pointer active names)
  | _ => True

variable {log : List (Entry platform)}

theorem Stage.Placed.append {stage : Stage platform} (placed : stage.Placed log)
    (entry : Entry platform) : stage.Placed (log ++ [entry]) := by
  have still : ∀ {offset : ℕ} {found : Entry platform}, log[offset]? = some found →
      (log ++ [entry])[offset]? = some found := fun at_offset =>
    (List.getElem?_append_left (List.getElem?_eq_some_iff.mp at_offset).1).trans at_offset
  cases stage with
  | appended published written offset => exact still placed
  | pointed active names offset => exact still placed
  | kept active names offset => exact still placed
  | _ => trivial

theorem lastPointer_take {count : ℕ} (none_left : ∀ entry ∈ log.drop count, entry.pointerOf = none)
    :
    lastPointer log = lastPointer (log.take count) := by
  rw [lastPointer, lastPointer, ← List.take_append_drop count log, List.filterMap_append,
    List.filterMap_eq_nil_iff.mpr none_left, List.append_nil, List.take_append_drop]

theorem lastPointer_of_last {offset : ℕ} {entry : Entry platform}
    (found : log[offset]? = some entry)
    (none_left : ∀ later ∈ log.drop (offset + 1), later.pointerOf = none) :
    lastPointer log = entry.pointerOf.or (lastPointer (log.take offset)) := by
  rw [lastPointer_take none_left, List.take_add_one, found, Option.toList_some,
    Catalogue.lastPointer_concat]

namespace Reads

variable {log : List (Entry platform)} {process : Process}

theorem new (log : List (Entry platform)) : Reads log ⟨Catalogue.new, 0⟩ where
  within := Nat.zero_le _
  versions := ⟨[], ∅, Catalogue.Holds.new, Ahead.start _⟩
  pointer none_left := by
    rw [lastPointer_take none_left]
    rfl

theorem append (reads : Reads log process) (entry : Entry platform) :
    Reads (log ++ [entry]) process where
  within := by
    rw [List.length_append]
    exact reads.within.trans (Nat.le_add_right _ _)
  versions := by
    obtain ⟨held, early, holds, ahead⟩ := reads.versions
    refine ⟨held, early, holds, ?_⟩
    rw [List.map_append, List.map_singleton]
    exact ahead.append (by rw [List.length_map]; exact reads.within) _
  pointer none_left := by
    rw [List.drop_append_of_le_length reads.within] at none_left
    have not_pointer := none_left entry (List.mem_append_right _ List.mem_cons_self)
    rw [Catalogue.lastPointer_concat, not_pointer, Option.none_or]
    exact reads.pointer fun other member => none_left other (List.mem_append_left _ member)

theorem follow (rfc3339Nano : ℤ → String) (reads : Reads log process) {entry : Entry platform}
    (found : log[process.applied]? = some entry) :
    Reads log ⟨process.catalogue.follow rfc3339Nano entry, process.applied + 1⟩ where
  within := (List.getElem?_eq_some_iff.mp found).1
  versions := by
    obtain ⟨held, early, holds, ahead⟩ := reads.versions
    refine ⟨_, _, holds.follow entry, ahead.follow Version.Blocks.symm ?_⟩
    rw [List.getElem?_map, found, Option.map_some]
  pointer none_left := by
    rw [Catalogue.follow_active, lastPointer_of_last found none_left]
    cases pointed : entry.pointerOf with
    | some active => rfl
    | none =>
      have before := lastPointer_of_last found none_left
      rw [pointed, Option.none_or] at before
      rw [Option.none_or, Option.none_or, ← before]
      refine reads.pointer fun other member => ?_
      rw [List.drop_eq_getElem_cons (List.getElem?_eq_some_iff.mp found).1] at member
      rcases List.mem_cons.mp member with rfl | later
      · rw [(List.getElem?_eq_some_iff.mp found).2]
        exact pointed
      · exact none_left other later

theorem apply_version (reads : Reads log process) {published : Version}
    {written : published.Written platform} {offset : ℕ}
    (placed : log[offset]? = some (.version published written))
    (timely : ∀ entry ∈ (log.take offset).drop process.applied, ¬ entry.KeepsOut published) :
    Reads log ⟨process.catalogue.after
      (process.catalogue.apply platform (published.record platform)), process.applied⟩ where
  within := reads.within
  versions := by
    obtain ⟨held, early, holds, ahead⟩ := reads.versions
    obtain ⟨version, read_as, decodes, same⟩ := Entry.versionOf_version written
    have same_naming : version.naming platform = published.naming platform := by
      rw [Version.naming, Version.naming, Version.id, Version.id, same]
    have found : (log.map Entry.versionOf)[offset]? = some (some version) := by
      rw [List.getElem?_map, placed, Option.map_some, read_as]
    obtain ⟨further, still_ahead⟩ := ahead.jump Version.Blocks.refl found
      fun between other after before other_found => by
        rw [List.getElem?_map, Option.map_eq_some_iff] at other_found
        obtain ⟨entry, at_between, carries⟩ := other_found
        have in_between : entry ∈ (log.take offset).drop process.applied := by
          refine List.mem_of_getElem? (i := between - process.applied) ?_
          rw [List.getElem?_drop, Nat.add_sub_cancel' after, List.getElem?_take_of_lt before,
            at_between]
        have free := timely entry in_between
        cases entry with
        | trail active names => cases carries
        | pointer active names => cases carries
        | version another another_written =>
          obtain ⟨read, read_eq, -, same_other⟩ := Entry.versionOf_version another_written
          have other_naming : other.naming platform = another.naming platform := by
            rw [read_eq, Option.some.injEq] at carries
            rw [← carries, Version.naming, Version.naming, Version.id, Version.id, same_other]
          rw [Version.Blocks, same_naming, other_naming]
          exact free
    exact ⟨_, further, holds.apply_version decodes, still_ahead⟩
  pointer none_left := by
    rw [← reads.pointer none_left]
    exact (Catalogue.apply_version_frame _ _).1

theorem trailed (rfc3339Nano : ℤ → String) (reads : Reads log process) (active : RulesetV1.Active) :
    Reads log ⟨process.catalogue.after
      (process.catalogue.trailed platform rfc3339Nano active), process.applied⟩ := by
  obtain ⟨held, early, holds, ahead⟩ := reads.versions
  refine ⟨reads.within, ⟨held, early, ?_, ahead⟩, fun none_left => ?_⟩
  · obtain ⟨versions, order, revisions, -⟩ := Catalogue.trailed_frame process.catalogue active
    exact holds.of_same versions order revisions
  · rw [← reads.pointer none_left]
    exact (Catalogue.trailed_frame process.catalogue active).2.2.2

theorem apply_pointer (reads : Reads log process) {active : RulesetV1.Active}
    {names : active.rulesetId ≠ ""} {offset : ℕ}
    (placed : log[offset]? = some (.pointer active names))
    (timely : ∀ entry ∈ (log.take process.applied).drop (offset + 1), entry.pointerOf = none) :
    Reads log ⟨process.catalogue.after
      (process.catalogue.apply platform (.active active)), process.applied⟩ := by
  have applied : process.catalogue.after (process.catalogue.apply platform (.active active)) =
      { process.catalogue with active := some active } := by
    rw [Catalogue.apply, if_neg names, Catalogue.after]
  rw [applied]
  obtain ⟨held, early, holds, ahead⟩ := reads.versions
  refine ⟨reads.within, ⟨held, early, holds.of_same rfl rfl rfl, ahead⟩, fun none_left => ?_⟩
  have none_later : ∀ entry ∈ log.drop (offset + 1), entry.pointerOf = none := by
    intro entry member
    rw [← List.take_append_drop process.applied log, List.drop_append] at member
    rcases List.mem_append.mp member with passed | left
    · exact timely entry passed
    · exact none_left entry (List.mem_of_mem_drop left)
  rw [lastPointer_of_last placed none_later]
  rfl

end Reads

/-- Every process reads the log, and every request has written what it says. -/
structure Estate.Sound (estate : Estate platform ι) : Prop where
  reads : ∀ process, Reads estate.log (estate.process process)
  placed : ∀ held ∈ estate.requests, held.stage.Placed estate.log

namespace Estate.Sound

variable {estate : Estate platform ι} (sound : estate.Sound)

include sound

omit [DecidableEq ι] in
theorem append (entry : Entry platform) : (estate.append entry).Sound where
  reads process := (sound.reads process).append entry
  placed held member := (sound.placed held member).append entry

omit [DecidableEq ι] in
theorem reach {stage : Stage platform} (placed : stage.Placed estate.log) (request : ℕ) (owner : ι) :
    (estate.reach request owner stage).Sound where
  reads := sound.reads
  placed held member := by
    rcases List.mem_or_eq_of_mem_set member with before | rfl
    · exact sound.placed held before
    · exact placed

omit [DecidableEq ι] in
theorem finish (request : ℕ) : (estate.finish request).Sound where
  reads := sound.reads
  placed held member := sound.placed held (List.mem_of_mem_eraseIdx member)

omit [DecidableEq ι] in
theorem open_request {held : Request platform ι} (placed : held.stage.Placed estate.log) :
    Sound { estate with requests := estate.requests ++ [held] } where
  reads := sound.reads
  placed other member := by
    rcases List.mem_append.mp member with before | itself
    · exact sound.placed other before
    · exact List.mem_singleton.mp itself ▸ placed

theorem set_process {owner : ι} {process : Process} (reads : Reads estate.log process)
    {requests : List (Request platform ι)} (fewer : ∀ held ∈ requests, held ∈ estate.requests) :
    Sound ⟨estate.log, Function.update estate.process owner process, requests⟩ where
  reads other := by
    by_cases same : other = owner
    · subst same
      simpa using reads
    · simpa [Function.update_of_ne same] using sound.reads other
  placed held member := sound.placed held (fewer held member)

theorem change {owner : ι} {answer : Catalogue → Except String Catalogue}
    (reads : Reads estate.log ⟨(estate.process owner).catalogue.after
      (answer (estate.process owner).catalogue), (estate.process owner).applied⟩) :
    (estate.change owner answer).Sound :=
  sound.set_process reads fun _ => id

theorem proceed (rfc3339Nano : ℤ → String) {held : Request platform ι} {request : ℕ}
    (member : held ∈ estate.requests)
    (timely : held.stage.Timely estate.log (estate.process held.owner).applied) :
    (estate.proceed rfc3339Nano request held.owner held.stage).Sound := by
  have placed := sound.placed held member
  have reads := sound.reads held.owner
  obtain ⟨owner, stage⟩ := held
  cases stage with
  | admitted published written =>
    refine (sound.append _).reach ?_ request owner
    exact List.getElem?_concat_length ..
  | appended published written offset =>
    exact (sound.change (reads.apply_version placed timely)).finish request
  | accepted active names =>
    refine (sound.append _).reach ?_ request owner
    trivial
  | lined active names =>
    refine (sound.append _).reach ?_ request owner
    exact List.getElem?_concat_length ..
  | pointed active names offset =>
    have changed : (estate.change owner fun catalogue =>
        catalogue.trailed platform rfc3339Nano active).Sound :=
      sound.change (reads.trailed rfc3339Nano active)
    have still : (Stage.kept active names offset).Placed estate.log := placed
    exact changed.reach still request owner
  | kept active names offset =>
    exact (sound.change (reads.apply_pointer placed timely)).finish request

theorem step {rfc3339Nano : ℤ → String} {fits : RulesetV1.Record → Bool} {event : Event platform ι}
    {next : Estate platform ι} (prompt : Prompt estate event)
    (stepped : estate.step rfc3339Nano fits event = some next) : next.Sound := by
  cases event with
  | publish | activate =>
    rw [Estate.step, Option.ite_none_right_eq_some, Option.some.injEq] at stepped
    exact stepped.2 ▸ sound.open_request trivial
  | proceed request =>
    obtain ⟨held, found, rfl⟩ := Option.map_eq_some_iff.mp stepped
    exact sound.proceed rfc3339Nano (List.mem_of_getElem? found) (prompt held found)
  | abandon request =>
    cases stepped
    exact sound.finish request
  | follow process =>
    obtain ⟨entry, found, rfl⟩ := Option.map_eq_some_iff.mp stepped
    exact sound.set_process ((sound.reads process).follow rfc3339Nano found) fun _ => id
  | restart process =>
    cases stepped
    exact sound.set_process (Reads.new estate.log) fun _ => List.mem_of_mem_filter

end Estate.Sound

def noRules : Version where
  snapshot := ⟨[], List.Pairwise.nil⟩
  cases := FiniteMap.empty
  publishedBy := "analyst"
  publishedAt := Duration.second
  note := ""
  named := logons.named
  dated := logons.dated

theorem written_noRules : noRules.Written .plain where
  compiled := by rintro program ⟨⟩
  owned := by rintro rule ⟨⟩
  accepted := by rintro program ⟨⟩

def activation (by_whom : String) : RulesetV1.Active where
  rulesetId := noRules.id .plain
  activatedBy := by_whom
  activatedAt := some (Timestamp.new Duration.second)
  note := ""

theorem activation_names (by_whom : String) : (activation by_whom).rulesetId ≠ "" :=
  noRules.snapshot.id_ne_empty .plain

def twoPlanes : Estate .plain Bool := ⟨[], fun _ => ⟨Catalogue.new, 0⟩, []⟩

/-- Each control plane activates a ruleset and applies its own pointer. -/
def timelyActivation : List (Event .plain Bool) :=
  [.publish false noRules written_noRules, .proceed 0, .proceed 0, .follow true,
    .activate false (activation "first") (activation_names _), .proceed 0, .proceed 0, .proceed 0,
    .proceed 0, .activate true (activation "second") (activation_names _), .proceed 0, .proceed 0,
    .proceed 0, .proceed 0, .follow false, .follow false, .follow false, .follow false,
    .follow false, .follow true, .follow true, .follow true, .follow true]

/-- The follower of the first control plane applies both pointers before the first applies its own,
the earlier. -/
def lateActivation : List (Event .plain Bool) :=
  [.publish false noRules written_noRules, .proceed 0, .proceed 0, .follow true,
    .activate false (activation "first") (activation_names _), .proceed 0, .proceed 0, .proceed 0,
    .activate true (activation "second") (activation_names _), .proceed 1, .proceed 1, .proceed 1,
    .proceed 1, .follow false, .follow false, .follow false, .follow false, .follow false,
    .proceed 0, .follow true, .follow true, .follow true, .follow true]

/-- When every request was answered and every follower has applied the whole log, each process holds
the pointer and the versions of a replay of the log, and no rule and revision with two meanings, if
every control plane applied what it wrote in time. -/
theorem catalogues_agree_of_prompt {rfc3339Nano : ℤ → String} {fits : RulesetV1.Record → Bool}
    {estate : Estate platform ι}
    (reached : (publishing rfc3339Nano fits).ReachesUnder Prompt estate)
    (caught_up : ∀ process, estate.log.length ≤ (estate.process process).applied) (process : ι) :
    (estate.process process).catalogue.active = (Catalogue.replay rfc3339Nano estate.log).active ∧
      (∀ id, (estate.process process).catalogue.versions.lookup id =
        (Catalogue.replay rfc3339Nano estate.log).versions.lookup id) ∧
      ∀ id one another other, (estate.process process).catalogue.versions.lookup id = some one →
        (estate.process process).catalogue.versions.lookup another = some other →
        ∀ program ∈ one.snapshot.programs, ∀ again ∈ other.snapshot.programs,
          program.rule.id = again.rule.id → program.rule.revision = again.rule.revision →
            fingerprint platform program = fingerprint platform again := by
  have sound : estate.Sound := reached.invariant
    (fun start starts => by
      cases starts
      exact ⟨fun _ => Reads.new [], nofun⟩)
    fun before event after held prompt stepped => held.step prompt stepped
  have reads := sound.reads process
  obtain ⟨held, early, holds, ahead⟩ := reads.versions
  have replayed : (Catalogue.replay rfc3339Nano estate.log).Holds platform _ :=
    Catalogue.replay_holds estate.log
  refine ⟨?_, fun id => ?_, ?_⟩
  · rw [Catalogue.replay_active, reads.pointer]
    rw [List.drop_eq_nil_of_le (caught_up process)]
    nofun
  · have done : (estate.log.map Entry.versionOf).length ≤ (estate.process process).applied := by
      rw [List.length_map]
      exact caught_up process
    refine Option.ext fun version => ?_
    rw [holds.versions, replayed.versions, ahead.mem_iff_of_done done]
  · intro id one another other one_found other_found program program_mem again again_mem same_id
      same_revision
    refine holds.told_once ((holds.versions _ _).mp one_found).1 ((holds.versions _ _).mp other_found).1
      (List.mem_map_of_mem program_mem) ?_
    rw [same_id, same_revision]
    exact List.mem_map.mpr ⟨again, again_mem, rfl⟩

theorem catalogues_agree_of_timelyActivation :
    ∃ estate : Estate .plain Bool,
      (publishing Decimal.format fun _ => true).ReachesUnder Prompt estate ∧
      (∀ process, (estate.process process).catalogue.active = some (activation "second")) ∧
      ∀ process id, (estate.process process).catalogue.versions.lookup id =
        (Catalogue.replay Decimal.format estate.log).versions.lookup id := by
  have prompt : (publishing Decimal.format fun _ => true).Throughout Prompt twoPlanes
      timelyActivation := by
    decide +kernel
  have ran : ((publishing Decimal.format fun _ => true).run twoPlanes timelyActivation).any
      (fun estate => decide ((∀ process, estate.log.length ≤ (estate.process process).applied) ∧
        (Catalogue.replay Decimal.format estate.log).active = some (activation "second"))) := by
    decide +kernel
  obtain ⟨estate, reached, found⟩ := (Option.any_eq_true _ _).mp ran
  obtain ⟨caught_up, replayed⟩ := of_decide_eq_true found
  have under : (publishing Decimal.format fun _ => true).ReachesUnder Prompt estate :=
    ⟨twoPlanes, timelyActivation, rfl, prompt, reached⟩
  refine ⟨estate, under, fun process => ?_, fun process => ?_⟩
  · exact (catalogues_agree_of_prompt under caught_up process).1.trans replayed
  · exact (catalogues_agree_of_prompt under caught_up process).2.1

/-- The first control plane is left with its own pointer, and a replay of the log with the other. -/
theorem pointer_left_behind :
    ∃ estate : Estate .plain Bool,
      (publishing Decimal.format fun _ => true).Reaches estate ∧ estate.requests = [] ∧
      (∀ process, estate.log.length ≤ (estate.process process).applied) ∧
      (estate.process false).catalogue.active = some (activation "first") ∧
      (estate.process true).catalogue.active = some (activation "second") ∧
      (Catalogue.replay Decimal.format estate.log).active = some (activation "second") := by
  have ran : ((publishing Decimal.format fun _ => true).run twoPlanes lateActivation).any
      (fun estate => decide (estate.requests.isEmpty ∧
        (∀ process, estate.log.length ≤ (estate.process process).applied) ∧
        (estate.process false).catalogue.active = some (activation "first") ∧
        (estate.process true).catalogue.active = some (activation "second") ∧
        (Catalogue.replay Decimal.format estate.log).active = some (activation "second"))) := by
    decide +kernel
  obtain ⟨estate, reached, found⟩ := (Option.any_eq_true _ _).mp ran
  obtain ⟨answered, rest⟩ := of_decide_eq_true found
  exact ⟨estate, ⟨twoPlanes, lateActivation, rfl, reached⟩, List.isEmpty_iff.mp answered, rest⟩

end Seagull.Ruleset
