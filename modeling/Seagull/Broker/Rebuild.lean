import Seagull.Broker.Recovery
import Seagull.Foundation.Checked
import Seagull.Foundation.FiniteMap

/-!
# What a reader is placed at when it is handed partitions

A reader that is handed partitions asks the backbone where each starts, when its last committed
record was produced, and which record is the first of the window before it.  A missing answer stops
the reader, and a window the topic no longer holds is reported, except that the last listing is read
for the partitions it answers and no other.
-/

namespace Seagull.Broker

/-- Where a reader is to start in a partition. -/
structure Offset where
  offset : ℤ
  epoch : ℤ

/-- What the backbone lists of a partition. -/
structure Listed (ε : Type) where
  offset : ℤ
  err : Option ε

/-- Why a window is not read back whole. -/
inductive CutReason where
  /-- `undecided_records_gone` -/
  | undecidedRecordsGone
  /-- `last_committed_record_gone` -/
  | lastCommittedRecordGone

/-- A partition whose window is reported as cut. -/
structure Cut where
  partition : Int32
  position : ℤ
  reason : CutReason

/-- Why a reader is stopped. -/
inductive RebuildRefusal (ε : Type) where
  /-- The rules that run cannot be answered for. -/
  | recovery (failure : ε)
  | startsUnread (failure : ε)
  | startUnread (partition : Int32) (failure : ε)
  | startUnsaid (partition : Int32)
  | lastUnread (failure : ε)
  | windowUnread (failure : ε)

/-- What the backbone answers while partitions are handed over. -/
structure Backbone (ε : Type) where
  listStartOffsets : Except ε (FiniteMap Int32 (Listed ε))
  /-- When the record before each position was produced, for those that are still held. -/
  lastRecordTimes : List (Int32 × ℤ) → Except ε (FiniteMap Int32 ℤ)
  /-- The first record at or after a millisecond in each partition. -/
  listOffsetsAfter : List (Int32 × ℤ) → Except ε (FiniteMap Int32 (Listed ε))

/-- Where a reader is to start, by topic and partition. -/
abbrev Offsets := FiniteMap String (FiniteMap Int32 Offset)

def Offsets.ofTopic (offsets : Offsets) (topic : String) : FiniteMap Int32 Offset :=
  (offsets.lookup topic).getD .empty

/-- A partition whose window the backbone is asked about. -/
structure Asked where
  partition : Int32
  position : ℤ
  /-- The millisecond the window starts at. -/
  since : ℤ

namespace Consumer

variable {ε : Type}

/-- The partitions that committed something, with their positions. -/
def committedOf (assigned : FiniteMap Int32 Offset) : List (Int32 × ℤ) :=
  (assigned.entries.map fun entry => (entry.1, entry.2.offset)).filter fun entry => 0 < entry.2

/-- Why a reader is stopped at where a partition starts, if it is. -/
def startRefusal (starts : FiniteMap Int32 (Listed ε)) (entry : Int32 × ℤ) :
    Option (RebuildRefusal ε) :=
  match starts.lookup entry.1 with
  | none => some (.startUnsaid entry.1)
  | some ⟨_, some failure⟩ => some (.startUnread entry.1 failure)
  | some ⟨start, none⟩ => if start < 0 then some (.startUnsaid entry.1) else none

def startOf (starts : FiniteMap Int32 (Listed ε)) (partition : Int32) : ℤ :=
  ((starts.lookup partition).map Listed.offset).getD 0

/-- What is reported of a partition that starts behind its last committed record. -/
def cutAtStart (starts : FiniteMap Int32 (Listed ε)) (entry : Int32 × ℤ) : Option Cut :=
  if entry.2 < startOf starts entry.1 then some ⟨entry.1, entry.2, .undecidedRecordsGone⟩
  else if entry.2 - 1 < startOf starts entry.1 then
    some ⟨entry.1, entry.2, .lastCommittedRecordGone⟩
  else none

/-- The partitions that still hold the record they committed last. -/
def heldOf (starts : FiniteMap Int32 (Listed ε)) (committed : List (Int32 × ℤ)) :
    List (Int32 × ℤ) :=
  committed.filter fun entry => (cutAtStart starts entry).isNone

/-- What is reported of a partition whose last committed record was not found. -/
def cutAtTime (times : FiniteMap Int32 ℤ) (entry : Int32 × ℤ) : Option Cut :=
  match times.lookup entry.1 with
  | none => some ⟨entry.1, entry.2, .lastCommittedRecordGone⟩
  | some _ => none

/-- What the backbone is asked about a partition. -/
def askOf (times : FiniteMap Int32 ℤ) (window : ℤ) (entry : Int32 × ℤ) : Option Asked :=
  match times.lookup entry.1 with
  | none => none
  | some last => some ⟨entry.1, entry.2, (last - window) / millisecond⟩

def request (asked : List Asked) : List (Int32 × ℤ) :=
  asked.map fun one => (one.partition, one.since)

/-- Where a partition is moved back to, if before its position. -/
def movedBack (listed : FiniteMap Int32 (Listed ε)) (asked : Asked) : Option (Int32 × Offset) :=
  match listed.lookup asked.partition with
  | none => none
  | some ⟨_, some _⟩ => none
  | some ⟨earliest, none⟩ =>
    if earliest < 0 ∨ asked.position ≤ earliest then none
    else some (asked.partition, ⟨earliest, -1⟩)

/-- What is to be read of a topic once some partitions are moved back. -/
def place (assigned : FiniteMap Int32 Offset) (moved : List (Int32 × Offset)) :
    FiniteMap Int32 Offset :=
  moved.foldl (fun held entry => held.insert entry.1 entry.2) assigned

/-- Move the partitions of a topic back by a window, and report those that cannot be. -/
def rewind (backbone : Backbone ε) (topic : String) (offsets : Offsets) (window : ℤ) :
    Except (RebuildRefusal ε) (Offsets × List Cut) :=
  let committed := committedOf (offsets.ofTopic topic)
  if committed = [] then .ok (offsets, [])
  else
    match backbone.listStartOffsets with
    | .error failure => .error (.startsUnread failure)
    | .ok starts =>
      match committed.findSome? (startRefusal starts) with
      | some refusal => .error refusal
      | none =>
        let cuts := committed.filterMap (cutAtStart starts)
        let held := heldOf starts committed
        if held = [] then .ok (offsets, cuts)
        else
          match backbone.lastRecordTimes held with
          | .error failure => .error (.lastUnread failure)
          | .ok times =>
            let cuts := cuts ++ held.filterMap (cutAtTime times)
            let asked := held.filterMap (askOf times window)
            if asked = [] then .ok (offsets, cuts)
            else
              match backbone.listOffsetsAfter (request asked) with
              | .error failure => .error (.windowUnread failure)
              | .ok listed =>
                .ok (offsets.insert topic
                  (place (offsets.ofTopic topic) (asked.filterMap (movedBack listed))), cuts)

/-- What a reader is to start at, given what the group hands it. -/
def rebuild (backbone : Backbone ε) (recovery : Option (Int32 → Except ε ℤ)) (holding : Int32)
    (topic : String) (offsets : Offsets) : Except (RebuildRefusal ε) (Offsets × List Cut) :=
  match recovery with
  | none => .ok (offsets, [])
  | some recovery =>
    match recovery holding with
    | .error failure => .error (.recovery failure)
    | .ok window =>
      if window ≤ 0 ∨ (offsets.ofTopic topic).entries = [] then .ok (offsets, [])
      else rewind backbone topic offsets window

/-! ## What is said of a partition -/

def Reported (cuts : List Cut) (partition : Int32) : Prop :=
  ∃ cut ∈ cuts, cut.partition = partition

/-- The backbone says enough of a partition for the reader to ask where its window starts. -/
def AskedOf (backbone : Backbone ε) (committed : List (Int32 × ℤ)) (partition : Int32)
    (position last : ℤ) : Prop :=
  ∃ starts start times, backbone.listStartOffsets = .ok starts ∧
    starts.lookup partition = some ⟨start, none⟩ ∧ 0 ≤ start ∧ start ≤ position - 1 ∧
      backbone.lastRecordTimes (heldOf starts committed) = .ok times ∧
        times.lookup partition = some last

def Answered (backbone : Backbone ε) (committed : List (Int32 × ℤ)) (window : ℤ)
    (partition : Int32) (earliest : ℤ) : Prop :=
  ∃ starts times listed, backbone.listStartOffsets = .ok starts ∧
    backbone.lastRecordTimes (heldOf starts committed) = .ok times ∧
      backbone.listOffsetsAfter
          (request ((heldOf starts committed).filterMap (askOf times window))) = .ok listed ∧
        listed.lookup partition = some ⟨earliest, none⟩ ∧ 0 ≤ earliest

/-! ## The rows of partitions -/

theorem map_filterMap_sublist {α β κ : Type} {make : α → Option β} {key : α → κ} {madeKey : β → κ}
    (keeps : ∀ one made, make one = some made → madeKey made = key one) (entries : List α) :
    ((entries.filterMap make).map madeKey).Sublist (entries.map key) := by
  induction entries with
  | nil => simp
  | cons entry rest ih =>
    cases made_eq : make entry with
    | none =>
      rw [List.filterMap_cons_none made_eq, List.map_cons]
      exact ih.cons _
    | some made =>
      rw [List.filterMap_cons_some made_eq, List.map_cons, List.map_cons, keeps entry made made_eq]
      exact ih.cons_cons _

theorem committedOf_nodup (assigned : FiniteMap Int32 Offset) :
    ((committedOf assigned).map Prod.fst).Nodup := by
  refine List.Nodup.sublist (List.Sublist.map _ List.filter_sublist) ?_
  rw [List.map_map]
  exact assigned.keys_nodup

variable {partition : Int32}

theorem mem_committedOf {assigned : FiniteMap Int32 Offset} {position : ℤ} :
    (partition, position) ∈ committedOf assigned ↔
      ∃ before, assigned.lookup partition = some before ∧ before.offset = position ∧
        0 < position := by
  simp only [committedOf, List.mem_filter, List.mem_map, Prod.mk.injEq, Prod.exists,
    FiniteMap.mem_entries_iff, decide_eq_true_eq]
  constructor
  · rintro ⟨⟨key, before, found, rfl, rfl⟩, positive⟩
    exact ⟨before, found, rfl, positive⟩
  · rintro ⟨before, found, rfl, positive⟩
    exact ⟨⟨partition, before, found, rfl, rfl⟩, positive⟩

variable {starts : FiniteMap Int32 (Listed ε)} {entry : Int32 × ℤ}

theorem cutAtStart_partition {cut : Cut} (cut_eq : cutAtStart starts entry = some cut) :
    cut.partition = entry.1 := by
  unfold cutAtStart at cut_eq
  split_ifs at cut_eq <;> obtain rfl := Option.some.inj cut_eq <;> rfl

theorem cutAtStart_eq_none :
    cutAtStart starts entry = none ↔ startOf starts entry.1 ≤ entry.2 - 1 := by
  unfold cutAtStart
  split_ifs <;> simp <;> omega

theorem mem_heldOf {committed : List (Int32 × ℤ)} :
    entry ∈ heldOf starts committed ↔
      entry ∈ committed ∧ startOf starts entry.1 ≤ entry.2 - 1 := by
  rw [heldOf, List.mem_filter, Option.isNone_iff_eq_none, cutAtStart_eq_none]

variable {times : FiniteMap Int32 ℤ} {window : ℤ}

theorem askOf_eq_some {asked : Asked} :
    askOf times window entry = some asked ↔
      ∃ last, times.lookup entry.1 = some last ∧
        asked = ⟨entry.1, entry.2, (last - window) / millisecond⟩ := by
  unfold askOf
  split
  · rename_i unknown
    simp [unknown]
  · rename_i last known
    simp [known, eq_comm]

theorem cutAtTime_eq_some {cut : Cut} :
    cutAtTime times entry = some cut ↔
      times.lookup entry.1 = none ∧ cut = ⟨entry.1, entry.2, .lastCommittedRecordGone⟩ := by
  unfold cutAtTime
  split
  · rename_i unknown
    simp [unknown, eq_comm]
  · rename_i last known
    simp [known]

variable {listed : FiniteMap Int32 (Listed ε)}

theorem movedBack_eq_some {asked : Asked} {moved : Int32 × Offset} :
    movedBack listed asked = some moved ↔
      ∃ earliest, listed.lookup asked.partition = some ⟨earliest, none⟩ ∧ 0 ≤ earliest ∧
        earliest < asked.position ∧ moved = (asked.partition, ⟨earliest, -1⟩) := by
  unfold movedBack
  split
  · rename_i unlisted
    simp [unlisted]
  · rename_i failed
    simp [failed]
  · rename_i earliest found
    rw [found]
    split_ifs with stays
    · simp only [false_iff]
      rintro ⟨_, same, nonneg, before, -⟩
      obtain rfl := (Listed.mk.inj (Option.some.inj same)).1
      omega
    · rw [not_or, not_lt, not_le] at stays
      constructor
      · intro moved_eq
        exact ⟨earliest, rfl, stays.1, stays.2, (Option.some.inj moved_eq).symm⟩
      · rintro ⟨_, same, -, -, rfl⟩
        obtain rfl := (Listed.mk.inj (Option.some.inj same)).1
        rfl

/-- Where a partition ends up. -/
def landing (listed : FiniteMap Int32 (Listed ε)) (asked : Asked) (before : Offset) : Offset :=
  ((movedBack listed asked).map Prod.snd).getD before

variable {before : Offset}

theorem landing_of_listed {asked : Asked} {earliest : ℤ}
    (found : listed.lookup asked.partition = some ⟨earliest, none⟩) (nonneg : 0 ≤ earliest)
    (position_eq : asked.position = before.offset) :
    (landing listed asked before).offset = min earliest before.offset := by
  unfold landing
  cases moved_eq : movedBack listed asked with
  | none =>
    have stays : ¬ earliest < asked.position := fun before_position =>
      absurd (movedBack_eq_some.mpr ⟨earliest, found, nonneg, before_position, rfl⟩)
        (by rw [moved_eq]; simp)
    rw [Option.map_none, Option.getD_none]
    omega
  | some moved =>
    obtain ⟨other, other_found, -, before_position, rfl⟩ := movedBack_eq_some.mp moved_eq
    rw [found] at other_found
    obtain rfl := (Listed.mk.inj (Option.some.inj other_found)).1
    rw [Option.map_some, Option.getD_some]
    change earliest = _
    omega

/-! ## What a rewind comes to -/

variable {backbone : Backbone ε} {topic : String} {offsets rebuilt : Offsets} {cuts : List Cut}

theorem rewind_eq_ok (succeeded : rewind backbone topic offsets window = .ok (rebuilt, cuts)) :
    let committed := committedOf (offsets.ofTopic topic)
    (committed = [] ∧ rebuilt = offsets ∧ cuts = []) ∨
      ∃ starts, backbone.listStartOffsets = .ok starts ∧
        (∀ entry ∈ committed, startRefusal starts entry = none) ∧
        ((heldOf starts committed = [] ∧ rebuilt = offsets ∧
            cuts = committed.filterMap (cutAtStart starts)) ∨
          ∃ times, backbone.lastRecordTimes (heldOf starts committed) = .ok times ∧
            cuts = committed.filterMap (cutAtStart starts) ++
              (heldOf starts committed).filterMap (cutAtTime times) ∧
            (((heldOf starts committed).filterMap (askOf times window) = [] ∧ rebuilt = offsets) ∨
              ∃ listed, backbone.listOffsetsAfter
                  (request ((heldOf starts committed).filterMap (askOf times window))) =
                    .ok listed ∧
                rebuilt = offsets.insert topic (place (offsets.ofTopic topic)
                  (((heldOf starts committed).filterMap (askOf times window)).filterMap
                    (movedBack listed))))) := by
  unfold rewind at succeeded
  simp only at succeeded ⊢
  split at succeeded
  · rename_i none_committed
    obtain ⟨rfl, rfl⟩ := Prod.mk.inj (Except.ok.inj succeeded)
    exact Or.inl ⟨none_committed, rfl, rfl⟩
  · split at succeeded
    · cases succeeded
    · rename_i starts starts_eq
      split at succeeded
      · cases succeeded
      · rename_i unrefused
        refine Or.inr ⟨starts, starts_eq, List.findSome?_eq_none_iff.mp unrefused, ?_⟩
        split at succeeded
        · rename_i none_held
          obtain ⟨rfl, rfl⟩ := Prod.mk.inj (Except.ok.inj succeeded)
          exact Or.inl ⟨none_held, rfl, rfl⟩
        · split at succeeded
          · cases succeeded
          · rename_i times times_eq
            refine Or.inr ⟨times, times_eq, ?_⟩
            split at succeeded
            · rename_i none_asked
              obtain ⟨rfl, rfl⟩ := Prod.mk.inj (Except.ok.inj succeeded)
              exact ⟨rfl, Or.inl ⟨none_asked, rfl⟩⟩
            · split at succeeded
              · cases succeeded
              · rename_i listed listed_eq
                obtain ⟨rfl, rfl⟩ := Prod.mk.inj (Except.ok.inj succeeded)
                exact ⟨rfl, Or.inr ⟨listed, listed_eq, rfl⟩⟩

theorem startRefusal_eq_none (unrefused : startRefusal starts entry = none) :
    starts.lookup entry.1 = some ⟨startOf starts entry.1, none⟩ ∧ 0 ≤ startOf starts entry.1 := by
  unfold startRefusal at unrefused
  unfold startOf
  split at unrefused
  · cases unrefused
  · cases unrefused
  · rename_i start found
    rw [found]
    split_ifs at unrefused with negative
    exact ⟨rfl, not_lt.mp negative⟩

theorem ofTopic_insert (offsets : Offsets) (topic : String) (assigned : FiniteMap Int32 Offset) :
    Offsets.ofTopic (offsets.insert topic assigned) topic = assigned := by
  rw [Offsets.ofTopic, FiniteMap.lookup_insert_self, Option.getD_some]

theorem asked_nodup {committed : List (Int32 × ℤ)} (distinct : (committed.map Prod.fst).Nodup) :
    (((heldOf starts committed).filterMap (askOf times window)).map Asked.partition).Nodup := by
  have held_nodup : ((heldOf starts committed).map Prod.fst).Nodup :=
    distinct.sublist (List.filter_sublist.map _)
  refine held_nodup.sublist (map_filterMap_sublist (fun entry asked asked_eq => ?_) _)
  obtain ⟨last, -, rfl⟩ := askOf_eq_some.mp asked_eq
  rfl

theorem moved_nodup {asked : List Asked} (distinct : (asked.map Asked.partition).Nodup) :
    ((asked.filterMap (movedBack listed)).map Prod.fst).Nodup := by
  refine distinct.sublist (map_filterMap_sublist (fun one moved moved_eq => ?_) _)
  obtain ⟨earliest, -, -, -, rfl⟩ := movedBack_eq_some.mp moved_eq
  rfl

theorem lookup_place {assigned : FiniteMap Int32 Offset} {asked : List Asked} {one : Asked}
    (distinct : (asked.map Asked.partition).Nodup) (among : one ∈ asked)
    (found : assigned.lookup one.partition = some before) :
    (place assigned (asked.filterMap (movedBack listed))).lookup one.partition =
      some (landing listed one before) := by
  rw [place, FiniteMap.lookup_foldl_insert (moved_nodup distinct), landing]
  cases moved_eq : movedBack listed one with
  | none =>
    right
    refine ⟨fun moved_mem => ?_, found⟩
    obtain ⟨moved, among_moved, same⟩ := List.mem_map.mp moved_mem
    obtain ⟨other, other_mem, other_eq⟩ := List.mem_filterMap.mp among_moved
    obtain ⟨earliest, -, -, -, rfl⟩ := movedBack_eq_some.mp other_eq
    obtain rfl := List.inj_on_of_nodup_map distinct other_mem among same
    rw [moved_eq] at other_eq
    cases other_eq
  | some moved =>
    left
    obtain ⟨earliest, -, -, -, rfl⟩ := movedBack_eq_some.mp moved_eq
    exact List.mem_filterMap.mpr ⟨one, among, moved_eq⟩

theorem settled_of_rewind (succeeded : rewind backbone topic offsets window = .ok (rebuilt, cuts))
    (found : (offsets.ofTopic topic).lookup partition = some before) (positive : 0 < before.offset) :
    let committed := committedOf (offsets.ofTopic topic)
    (Reported cuts partition ∧
        ∀ last, ¬ AskedOf backbone committed partition before.offset last) ∨
      ∃ starts times listed last, AskedOf backbone committed partition before.offset last ∧
        backbone.listStartOffsets = .ok starts ∧
        backbone.lastRecordTimes (heldOf starts committed) = .ok times ∧
        backbone.listOffsetsAfter
          (request ((heldOf starts committed).filterMap (askOf times window))) = .ok listed ∧
        ¬ Reported cuts partition ∧
        (rebuilt.ofTopic topic).lookup partition = some (landing listed
          ⟨partition, before.offset, (last - window) / millisecond⟩ before) := by
  intro committed
  have entry_mem : (partition, before.offset) ∈ committed :=
    mem_committedOf.mpr ⟨before, found, rfl, positive⟩
  have distinct := committedOf_nodup (offsets.ofTopic topic)
  -- A partition stands once among those that committed something.
  have alone : ∀ {entry : Int32 × ℤ}, entry ∈ committed → entry.1 = partition →
      entry = (partition, before.offset) := fun other_mem same =>
    List.inj_on_of_nodup_map distinct other_mem entry_mem same
  rcases rewind_eq_ok succeeded with ⟨none_committed, -, -⟩ | ⟨starts, starts_eq, unrefused, told⟩
  · exact absurd none_committed (List.ne_nil_of_mem entry_mem)
  obtain ⟨start_found, start_nonneg⟩ : starts.lookup partition =
      some ⟨startOf starts partition, none⟩ ∧ 0 ≤ startOf starts partition :=
    startRefusal_eq_none (unrefused _ entry_mem)
  rcases lt_or_ge (before.offset - 1) (startOf starts partition) with behind | held
  · -- The topic starts behind the last record, so that the partition is reported at once.
    left
    obtain ⟨cut, cut_eq⟩ : ∃ cut, cutAtStart starts (partition, before.offset) = some cut := by
      refine Option.ne_none_iff_exists'.mp fun uncut => ?_
      exact absurd (cutAtStart_eq_none.mp uncut) (not_le.mpr behind)
    have cut_mem : cut ∈ committed.filterMap (cutAtStart starts) :=
      List.mem_filterMap.mpr ⟨_, entry_mem, cut_eq⟩
    refine ⟨⟨cut, ?_, cutAtStart_partition cut_eq⟩, ?_⟩
    · rcases told with ⟨-, -, rfl⟩ | ⟨times, -, rfl, -⟩
      · exact cut_mem
      · exact List.mem_append_left _ cut_mem
    · rintro last ⟨other, start, times, other_eq, other_found, -, start_le, -⟩
      obtain rfl := Except.ok.inj (starts_eq.symm.trans other_eq)
      rw [start_found] at other_found
      have := (Listed.mk.inj (Option.some.inj other_found)).1
      omega
  have held_mem : (partition, before.offset) ∈ heldOf starts committed :=
    mem_heldOf.mpr ⟨entry_mem, held⟩
  rcases told with ⟨none_held, -, -⟩ | ⟨times, times_eq, rfl, told⟩
  · exact absurd none_held (List.ne_nil_of_mem held_mem)
  cases known : times.lookup partition with
  | none =>
    left
    refine ⟨⟨⟨partition, before.offset, .lastCommittedRecordGone⟩, List.mem_append_right _
      (List.mem_filterMap.mpr ⟨_, held_mem, cutAtTime_eq_some.mpr ⟨known, rfl⟩⟩), rfl⟩, ?_⟩
    rintro last ⟨other, start, others, other_eq, -, -, -, others_eq, other_known⟩
    obtain rfl := Except.ok.inj (starts_eq.symm.trans other_eq)
    obtain rfl := Except.ok.inj (times_eq.symm.trans others_eq)
    rw [known] at other_known
    cases other_known
  | some last =>
    right
    have asked_mem : (⟨partition, before.offset, (last - window) / millisecond⟩ : Asked) ∈
        (heldOf starts committed).filterMap (askOf times window) :=
      List.mem_filterMap.mpr ⟨_, held_mem, askOf_eq_some.mpr ⟨last, known, rfl⟩⟩
    rcases told with ⟨none_asked, -⟩ | ⟨listed, listed_eq, rfl⟩
    · exact absurd none_asked (List.ne_nil_of_mem asked_mem)
    refine ⟨starts, times, listed, last,
      ⟨starts, _, times, starts_eq, start_found, start_nonneg, held, times_eq, known⟩,
      starts_eq, times_eq, listed_eq, ?_, ?_⟩
    · rintro ⟨cut, cut_mem, same⟩
      rcases List.mem_append.mp cut_mem with at_start | at_time
      · obtain ⟨entry, among, cut_eq⟩ := List.mem_filterMap.mp at_start
        obtain rfl := alone among ((cutAtStart_partition cut_eq).symm.trans same)
        rw [cutAtStart_eq_none.mpr held] at cut_eq
        cases cut_eq
      · obtain ⟨entry, among, cut_eq⟩ := List.mem_filterMap.mp at_time
        obtain ⟨unknown, rfl⟩ := cutAtTime_eq_some.mp cut_eq
        obtain rfl := alone (mem_heldOf.mp among).1 same
        rw [known] at unknown
        cases unknown
    · rw [ofTopic_insert]
      exact lookup_place (asked_nodup distinct) asked_mem found

theorem rewind_backward (succeeded : rewind backbone topic offsets window = .ok (rebuilt, cuts)) :
    (∀ partition after, (rebuilt.ofTopic topic).lookup partition = some after →
        ∃ before, (offsets.ofTopic topic).lookup partition = some before ∧
          after.offset ≤ before.offset) ∧
      ∀ other, other ≠ topic → rebuilt.lookup other = offsets.lookup other := by
  by_cases same : rebuilt = offsets
  · subst same
    exact ⟨fun partition after found => ⟨after, found, le_rfl⟩, fun other _ => rfl⟩
  rcases rewind_eq_ok succeeded with
    ⟨-, kept, -⟩ | ⟨starts, -, -, ⟨-, kept, -⟩ | ⟨times, -, -, ⟨-, kept⟩ | ⟨listed, -, rfl⟩⟩⟩
  · exact absurd kept same
  · exact absurd kept same
  · exact absurd kept same
  · refine ⟨fun partition after found => ?_, fun other differs => ?_⟩
    · rw [ofTopic_insert, place, FiniteMap.lookup_foldl_insert
        (moved_nodup (asked_nodup (committedOf_nodup _)))] at found
      rcases found with moved | ⟨-, kept⟩
      · obtain ⟨asked, asked_mem, moved_eq⟩ := List.mem_filterMap.mp moved
        obtain ⟨earliest, -, -, before_position, same⟩ := movedBack_eq_some.mp moved_eq
        obtain ⟨rfl, rfl⟩ := Prod.mk.inj same
        obtain ⟨entry, held_mem, asked_eq⟩ := List.mem_filterMap.mp asked_mem
        obtain ⟨last, -, rfl⟩ := askOf_eq_some.mp asked_eq
        obtain ⟨before, before_found, before_eq, -⟩ :=
          mem_committedOf.mp (mem_heldOf.mp held_mem).1
        exact ⟨before, before_found, before_eq ▸ le_of_lt before_position⟩
      · exact ⟨after, kept, le_rfl⟩
    · rw [FiniteMap.lookup_insert, if_neg differs]

/-- What becomes of every partition that committed something: it is reported, or placed at the first
record of the window before its last one, or left where it was when that is no earlier.  This holds
exactly when the last listing answers, without a failure, for every partition it is asked about.  In
any case no partition is moved forward. -/
theorem rebuild_settles_iff {backbone : Backbone ε} {recovery : Int32 → Except ε ℤ}
    {holding : Int32} {topic : String} {offsets rebuilt : Offsets} {window : ℤ} {cuts : List Cut}
    (recovers : recovery holding = .ok window) (positive : 0 < window)
    (succeeded : rebuild backbone (some recovery) holding topic offsets = .ok (rebuilt, cuts)) :
    ((∀ partition before, (offsets.ofTopic topic).lookup partition = some before →
        0 < before.offset →
          Reported cuts partition ∨
            ∃ last earliest after,
              AskedOf backbone (committedOf (offsets.ofTopic topic)) partition before.offset last ∧
              Answered backbone (committedOf (offsets.ofTopic topic)) window partition earliest ∧
              (rebuilt.ofTopic topic).lookup partition = some after ∧
              after.offset = min earliest before.offset) ↔
      ∀ partition before last, (offsets.ofTopic topic).lookup partition = some before →
        0 < before.offset →
          AskedOf backbone (committedOf (offsets.ofTopic topic)) partition before.offset last →
            ∃ earliest,
              Answered backbone (committedOf (offsets.ofTopic topic)) window partition
                earliest) ∧
    (∀ partition after, (rebuilt.ofTopic topic).lookup partition = some after →
        ∃ before, (offsets.ofTopic topic).lookup partition = some before ∧
          after.offset ≤ before.offset) ∧
      ∀ other, other ≠ topic → rebuilt.lookup other = offsets.lookup other := by
  simp only [rebuild, recovers] at succeeded
  split_ifs at succeeded with idle
  · -- Nothing is assigned of the topic.
    have none_assigned : (offsets.ofTopic topic).entries = [] := idle.resolve_left (by omega)
    obtain ⟨rfl, rfl⟩ := Prod.mk.inj (Except.ok.inj succeeded)
    have unassigned : ∀ partition before,
        (offsets.ofTopic topic).lookup partition ≠ some before := by
      intro partition before found
      have member := (FiniteMap.mem_entries_iff _ partition before).mpr found
      rw [none_assigned] at member
      cases member
    refine ⟨iff_of_true ?_ ?_, fun partition after found => ⟨after, found, le_rfl⟩,
      fun other _ => rfl⟩
    · exact fun partition before found => absurd found (unassigned partition before)
    · exact fun partition before last found => absurd found (unassigned partition before)
  · refine ⟨⟨fun settles partition before last found above asked => ?_,
      fun answers partition before found above => ?_⟩, rewind_backward succeeded⟩
    · rcases settled_of_rewind succeeded found above with
        ⟨-, unasked⟩ | ⟨-, -, -, -, -, -, -, -, unreported, -⟩
      · exact absurd asked (unasked last)
      · obtain ⟨-, earliest, -, -, answered, -⟩ :=
          (settles partition before found above).resolve_left unreported
        exact ⟨earliest, answered⟩
    · rcases settled_of_rewind succeeded found above with
        ⟨reported, -⟩ | ⟨starts, times, listed, last, asked, starts_eq, times_eq, listed_eq, -, lands⟩
      · exact Or.inl reported
      · obtain ⟨earliest, answered⟩ := answers partition before last found above asked
        refine Or.inr ⟨last, earliest, _, asked, answered, lands, ?_⟩
        obtain ⟨others, other_times, other_listed, others_eq, other_times_eq, other_listed_eq,
          earliest_found, nonneg⟩ := answered
        obtain rfl := Except.ok.inj (starts_eq.symm.trans others_eq)
        obtain rfl := Except.ok.inj (times_eq.symm.trans other_times_eq)
        obtain rfl := Except.ok.inj (listed_eq.symm.trans other_listed_eq)
        exact landing_of_listed earliest_found nonneg rfl

/-- One partition that committed the first eight hundred records. -/
def handed : Offsets := FiniteMap.empty.insert "events" (FiniteMap.empty.insert 0 ⟨800, 3⟩)

/-- A backbone that answers the last listing as it is told to. -/
def answering (answer : Listed String) : Backbone String where
  listStartOffsets := .ok (FiniteMap.empty.insert 0 ⟨0, none⟩)
  lastRecordTimes _ := .ok (FiniteMap.empty.insert 0 7200000000000)
  listOffsetsAfter _ := .ok (FiniteMap.empty.insert 0 answer)

theorem rebuild_settles_iff_answered :
    rebuild (answering ⟨500, none⟩) (some fun _ => .ok 3600000000000) 1 "events" handed =
        .ok (handed.insert "events" ((FiniteMap.empty.insert 0 ⟨800, 3⟩).insert 0 ⟨500, -1⟩), []) ∧
      ∀ after, (Offsets.ofTopic (handed.insert "events"
          ((FiniteMap.empty.insert 0 ⟨800, 3⟩).insert 0 ⟨500, -1⟩)) "events").lookup 0 = some after →
        ∃ before, (handed.ofTopic "events").lookup 0 = some before ∧
          after.offset ≤ before.offset := by
  have succeeded : rebuild (answering ⟨500, none⟩) (some fun _ => .ok 3600000000000) 1 "events"
      handed = .ok (handed.insert "events"
        ((FiniteMap.empty.insert 0 ⟨800, 3⟩).insert 0 ⟨500, -1⟩), []) := rfl
  exact ⟨succeeded, (rebuild_settles_iff rfl (by decide) succeeded).2.1 0⟩

/-- The backbone fails to say where the window starts, and the reader starts where it stopped
without a word. -/
theorem rebuild_unanswered :
    rebuild (answering ⟨-1, some "not leader for partition"⟩) (some fun _ => .ok 3600000000000) 1
        "events" handed = .ok (handed.insert "events" (FiniteMap.empty.insert 0 ⟨800, 3⟩), []) ∧
      (Offsets.ofTopic (handed.insert "events" (FiniteMap.empty.insert 0 ⟨800, 3⟩))
        "events").lookup 0 = some ⟨800, 3⟩ ∧
      ¬ Reported [] 0 ∧
      ∀ earliest, ¬ Answered (answering ⟨-1, some "not leader for partition"⟩)
        (committedOf (handed.ofTopic "events")) 3600000000000 0 earliest := by
  refine ⟨rfl, rfl, fun ⟨_, reported, _⟩ => absurd reported List.not_mem_nil, ?_⟩
  rintro earliest ⟨starts, times, listed, -, -, listed_eq, found, -⟩
  obtain rfl := Except.ok.inj listed_eq
  rw [FiniteMap.lookup_insert_self] at found
  cases found

/-! ## The log behind the answers -/

/-- The backbone answers for a partition by a log it holds whole. -/
structure Honest {α : Type} (backbone : Backbone ε) (committed : List (Int32 × ℤ)) (window : ℤ)
    (partition : Int32) (position : ℕ) (log : Log α) : Prop where
  starts : ∃ starts, backbone.listStartOffsets = .ok starts ∧
    starts.lookup partition = some ⟨0, none⟩
  times : ∀ starts times, backbone.listStartOffsets = .ok starts →
    backbone.lastRecordTimes (heldOf starts committed) = .ok times →
      times.lookup partition = log.records[position - 1]?.map Logged.instant
  listed : ∀ asked listed since, ⟨partition, position, since⟩ ∈ asked →
    backbone.listOffsetsAfter (request asked) = .ok listed →
      listed.lookup partition = some
        ⟨((log.records.findIdx? fun logged => since ≤ logged.stamp).map Int.ofNat).getD (-1), none⟩

/-- A reader that is told the truth starts where the log says it does. -/
theorem rebuild_eq_rewind {α : Type} {recovery : Int32 → Except ε ℤ} {holding : Int32}
    (recovers : recovery holding = .ok window) (positive : 0 < window)
    (succeeded : rebuild backbone (some recovery) holding topic offsets = .ok (rebuilt, cuts))
    {position : ℕ} {epoch : ℤ} {log : Log α}
    (found : (offsets.ofTopic topic).lookup partition = some ⟨position, epoch⟩)
    (committed : 0 < position) (written : position ≤ log.records.length)
    (honest : Honest backbone (committedOf (offsets.ofTopic topic)) window partition position log) :
    ∃ after, (rebuilt.ofTopic topic).lookup partition = some after ∧
      after.offset = Broker.rewind log window position := by
  have positive_offset : 0 < (⟨position, epoch⟩ : Offset).offset := by
    change (0 : ℤ) < position
    omega
  simp only [rebuild, recovers] at succeeded
  split_ifs at succeeded with idle
  · have member := (FiniteMap.mem_entries_iff _ partition _).mpr found
    rw [idle.resolve_left (by omega)] at member
    cases member
  obtain ⟨last, last_eq⟩ : ∃ last, log.records[position - 1]? = some last :=
    ⟨_, List.getElem?_eq_getElem (by omega)⟩
  obtain ⟨starts, starts_eq, start_found⟩ := honest.starts
  -- The partition starts at zero, so that it is held and asked about.
  have held_mem : (partition, (position : ℤ)) ∈
      heldOf starts (committedOf (offsets.ofTopic topic)) := by
    refine mem_heldOf.mpr ⟨mem_committedOf.mpr ⟨_, found, rfl, positive_offset⟩, ?_⟩
    simp only [startOf, start_found, Option.map_some, Option.getD_some]
    omega
  rcases settled_of_rewind succeeded found positive_offset with
    ⟨-, unasked⟩ | ⟨others, times, listed, instant, asked, others_eq, times_eq, listed_eq, -, lands⟩
  · exfalso
    rcases rewind_eq_ok succeeded with ⟨none_committed, -, -⟩ | ⟨told, told_eq, -, asks⟩
    · simp [none_committed, heldOf] at held_mem
    · obtain rfl := Except.ok.inj (starts_eq.symm.trans told_eq)
      rcases asks with ⟨none_held, -, -⟩ | ⟨times, times_eq, -, -⟩
      · simp [none_held] at held_mem
      · refine unasked last.instant ⟨starts, 0, times, starts_eq, start_found, le_rfl, ?_, times_eq, ?_⟩
        · change (0 : ℤ) ≤ position - 1
          omega
        · rw [honest.times starts times starts_eq times_eq, last_eq, Option.map_some]
  · obtain rfl := Except.ok.inj (starts_eq.symm.trans others_eq)
    refine ⟨_, lands, ?_⟩
    obtain ⟨other_starts, start, other_times, other_eq, -, -, -, other_times_eq, instant_eq⟩ := asked
    obtain rfl := Except.ok.inj (starts_eq.symm.trans other_eq)
    obtain rfl := Except.ok.inj (times_eq.symm.trans other_times_eq)
    have known := honest.times starts times starts_eq times_eq
    rw [instant_eq, last_eq, Option.map_some, Option.some.injEq] at known
    subst known
    have asked_mem : (⟨partition, position, (last.instant - window) / millisecond⟩ : Asked) ∈
        (heldOf starts (committedOf (offsets.ofTopic topic))).filterMap (askOf times window) :=
      List.mem_filterMap.mpr ⟨_, held_mem, askOf_eq_some.mpr ⟨last.instant, instant_eq, rfl⟩⟩
    have told := honest.listed _ listed _ asked_mem listed_eq
    rw [landing, movedBack, told, Broker.rewind, if_neg (by omega), last_eq]
    simp only
    cases first : log.records.findIdx? fun logged =>
        (last.instant - window) / millisecond ≤ logged.stamp with
    | none => simp
    | some earliest =>
      simp only [Option.map_some, Option.getD_some, Int.ofNat_eq_natCast, Nat.cast_le]
      have nonneg : ¬ (earliest : ℤ) < 0 := by omega
      by_cases past : position ≤ earliest
      · simp [past]
      · simp [past, nonneg]

def twoRecords : Log Unit := ⟨[⟨(), 0⟩, ⟨(), 7200000⟩], by decide⟩

/-- A backbone that answers about one partition by its two records. -/
def truthful : Backbone String :=
  { answering ⟨0, none⟩ with
    listOffsetsAfter := fun asked => if asked.tail.isEmpty then
        let since := (asked.headD (0, 0)).2
        .ok (FiniteMap.empty.insert 0 ⟨((twoRecords.records.findIdx? fun logged =>
          since ≤ logged.stamp).map Int.ofNat).getD (-1), none⟩)
      else .error "" }

def rereadHour := rebuild truthful (some fun _ => .ok 3600000000000) 1 "events"
  (FiniteMap.empty.insert "events" (FiniteMap.empty.insert 0 ⟨2, 3⟩))

theorem rebuild_eq_rewind_an_hour :
    ∃ rebuilt after, rereadHour = .ok (rebuilt, []) ∧
      (rebuilt.ofTopic "events").lookup 0 = some after ∧ after.offset = 1 := by
  have honest : Honest truthful [(0, 2)] 3600000000000 0 2 twoRecords := by
    refine ⟨⟨_, rfl, rfl⟩, fun starts times _ times_eq => ?_, ?_⟩
    · obtain rfl := Except.ok.inj times_eq
      rfl
    · rintro (_ | ⟨one, _ | ⟨other, asked⟩⟩) listed since member listed_eq
      · cases member
      · obtain rfl := List.mem_singleton.mp member
        obtain rfl := Except.ok.inj listed_eq
        rfl
      · cases listed_eq
  obtain ⟨rebuilt, succeeded⟩ : ∃ rebuilt, rereadHour = .ok (rebuilt, []) := ⟨_, rfl⟩
  obtain ⟨after, lands⟩ :=
    rebuild_eq_rewind rfl (by decide) succeeded rfl (by decide) (by decide) honest
  exact ⟨rebuilt, after, succeeded, lands⟩

end Consumer
end Seagull.Broker
