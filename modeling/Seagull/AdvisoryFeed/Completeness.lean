import Seagull.AdvisoryFeed.Importer

/-!
# What a complete feed still owes

Each record says something about its own listing only, so the state of a listing after an attempt is
what its own record makes of the state before.  An attempt without an error may still owe something:
one that is cancelled stops handing out listings, and a record older than its listing is neither
settled nor an error.
-/

namespace Seagull.AdvisoryFeed

open Contract VulnerabilityV1

variable {β σ : Type} (importer : Importer β σ) (feed version : String)

/-- What is known of one record: what is held of it, and when it was settled. -/
structure Standing where
  held : Option Holding
  settled : Option ℤ

def Reading.standing (reading : Reading σ) (id : String) : Standing :=
  ⟨reading.held.lookup id, reading.settled.lookup id⟩

namespace Standing

def settle (standing : Standing) (listing : Listing) : Standing :=
  { standing with settled := some listing.modified }

def write (standing : Standing) (waiting : Waiting σ) : Standing where
  held := some (holding feed waiting.advisory waiting.statement)
  settled :=
    if modifiedOf waiting.advisory < waiting.listing.modified then standing.settled
    else some waiting.listing.modified

/-- Whether a listing is still to be read. -/
def owes (standing : Standing) (listing : Listing) : Bool :=
  !standing.settled.any (fun settled => listing.modified ≤ settled) &&
    !standing.held.any fun current =>
      importer.normalization ≤ current.normalization && listing.modified ≤ current.modified

/-- Whether what was read says something new. -/
def isNews (standing : Standing) (advisory : Option (Advisory σ)) (statement : List UInt8) : Bool :=
  standing.held.all fun current =>
    ¬ modifiedOf advisory < current.modified ∧
      (current.normalization < importer.normalization ∨ statement ≠ current.statement)

def arrive (standing : Standing) (arrival : Arrival β) : Standing :=
  match AdvisoryFeed.settle importer feed version arrival with
  | .owed _ => standing
  | .gone => standing.settle arrival.listing
  | .refused _ => standing.settle arrival.listing
  | .read advisory statement =>
    if standing.isNews importer advisory statement then
      standing.write feed ⟨arrival.listing, advisory, statement⟩
    else if modifiedOf advisory < arrival.listing.modified then standing
    else standing.settle arrival.listing

end Standing

/-- Whether what arrived answers for its listing. -/
def answers (arrival : Arrival β) : Bool :=
  match settle importer feed version arrival with
  | .owed _ => false
  | .gone => true
  | .refused _ => true
  | .read advisory _ => arrival.listing.modified ≤ modifiedOf advisory

theorem Standing.owes_settle (standing : Standing) (listing : Listing) :
    (standing.settle listing).owes importer listing = false := by
  simp [Standing.owes, Standing.settle]

theorem Standing.owes_write {standing : Standing} (waiting : Waiting σ)
    (owed : standing.owes importer waiting.listing) :
    (standing.write feed waiting).owes importer waiting.listing =
      decide (modifiedOf waiting.advisory < waiting.listing.modified) := by
  by_cases older : modifiedOf waiting.advisory < waiting.listing.modified
  · simp only [Standing.owes, Bool.and_eq_true] at owed
    simp [Standing.owes, Standing.write, older, owed.1, holding, not_le.mpr older]
  · simp [Standing.owes, Standing.write, older]

theorem Standing.owes_arrive {standing : Standing} {arrival : Arrival β}
    (owed : standing.owes importer arrival.listing) :
    (standing.arrive importer feed version arrival).owes importer arrival.listing =
      !answers importer feed version arrival := by
  unfold Standing.arrive answers
  cases AdvisoryFeed.settle importer feed version arrival with
  | owed reason => simpa using owed
  | gone => simp [Standing.owes_settle]
  | refused reason => simp [Standing.owes_settle]
  | read advisory statement =>
    dsimp only
    split
    · rw [Standing.owes_write importer feed ⟨arrival.listing, advisory, statement⟩ owed,
        ← decide_not, decide_eq_decide, not_le]
    · split
      · next older => simpa [owed, not_le] using older
      · next fresh => simpa [Standing.owes_settle] using not_lt.mp fresh

namespace Reading

variable {feed version} {importer}

@[simp]
theorem standing_settleAt (reading : Reading σ) (listing : Listing) (id : String) :
    (reading.settleAt listing).standing id =
      if id = listing.id then (reading.standing id).settle listing else reading.standing id := by
  by_cases same : id = listing.id <;>
    simp [standing, settleAt, Standing.settle, FiniteMap.lookup_insert, same]

theorem standing_write (reading : Reading σ) (waiting : Waiting σ) (id : String) :
    (reading.write feed waiting).standing id =
      if id = waiting.listing.id then (reading.standing id).write feed waiting
      else reading.standing id := by
  by_cases same : id = waiting.listing.id <;>
    by_cases older : modifiedOf waiting.advisory < waiting.listing.modified <;>
    simp [standing, write, settleAt, Standing.write, FiniteMap.lookup_insert, same, older]

def waitingIDs (reading : Reading σ) : List String := reading.batch.map fun waiting =>
  waiting.listing.id

/-- What a reading will know once what waits is written down. -/
def drained (feed : String) (reading : Reading σ) : Reading σ :=
  reading.batch.foldl (write feed) reading

variable {id : String}

theorem foldl_write_standing_congr {one other : Reading σ}
    (same : one.standing id = other.standing id) (batch : List (Waiting σ)) :
    (batch.foldl (write feed) one).standing id = (batch.foldl (write feed) other).standing id := by
  induction batch generalizing one other with
  | nil => exact same
  | cons waiting batch ih =>
    refine ih ?_
    rw [standing_write, standing_write, same]

theorem foldl_write_standing_of_notMem {batch : List (Waiting σ)}
    (absent : id ∉ batch.map fun waiting => waiting.listing.id) (reading : Reading σ) :
    (batch.foldl (write feed) reading).standing id = reading.standing id := by
  induction batch generalizing reading with
  | nil => rfl
  | cons waiting batch ih =>
    simp only [List.map_cons, List.mem_cons, not_or] at absent
    rw [List.foldl_cons, ih absent.2, standing_write, if_neg absent.1]

theorem drained_standing_of_notMem (feed : String) {reading : Reading σ}
    (absent : id ∉ reading.waitingIDs) : (reading.drained feed).standing id = reading.standing id :=
  foldl_write_standing_of_notMem absent reading

theorem foldl_write_stranded (feed : String) (reading : Reading σ) (batch : List (Waiting σ)) :
    (batch.foldl (write feed) reading).stranded = reading.stranded ∧
      (batch.foldl (write feed) reading).unwritable = reading.unwritable := by
  induction batch generalizing reading with
  | nil => exact ⟨rfl, rfl⟩
  | cons waiting batch ih =>
    have kept : (reading.write feed waiting).stranded = reading.stranded ∧
        (reading.write feed waiting).unwritable = reading.unwritable := by
      unfold write settleAt
      dsimp only
      split <;> exact ⟨rfl, rfl⟩
    rw [List.foldl_cons, (ih _).1, (ih _).2]
    exact kept

variable {backbone : ℕ → Option String} {reading : Reading σ}

theorem stranded_of_flush (whole : (reading.flush feed backbone).stranded = none) :
    reading.stranded = none := by
  unfold flush at whole
  split at whole
  · exact whole
  · cases taken : backbone reading.appends with
    | some reason => simp [taken] at whole
    | none =>
      rw [taken] at whole
      exact (foldl_write_stranded feed reading reading.batch).1 ▸ whole

/-- A reading after a flush that left nothing over. -/
structure Flushed (feed : String) (reading flushed : Reading σ) : Prop where
  batch : flushed.batch = []
  writable : flushed.unwritable = false
  standing : ∀ id, flushed.standing id = (reading.drained feed).standing id

theorem flush_flushed (writable : reading.unwritable = false)
    (whole : (reading.flush feed backbone).stranded = none) :
    Flushed feed reading (reading.flush feed backbone) := by
  unfold flush at whole ⊢
  split at whole
  · next idle =>
      have empty : reading.batch = [] := idle.resolve_right (by simp [writable])
      rw [if_pos idle]
      exact ⟨rfl, writable, fun id => by rw [drained, empty]; rfl⟩
  · next busy =>
      rw [if_neg busy]
      cases taken : backbone reading.appends with
      | some reason => simp [taken] at whole
      | none =>
        have after := (foldl_write_stranded feed reading reading.batch).2.trans writable
        exact ⟨rfl, after, fun id => rfl⟩

theorem drained_queue (reading : Reading σ) (waiting : Waiting σ) (id : String) :
    ((reading.queue waiting).drained feed).standing id =
      ((reading.drained feed).write feed waiting).standing id := by
  have same : (reading.queue waiting).standing id = reading.standing id := rfl
  unfold drained
  rw [queue, List.foldl_append]
  exact foldl_write_standing_congr (foldl_write_standing_congr same reading.batch) [waiting]

/-- A reading after one record that left nothing over: no other listing changed. -/
structure Processed (importer : Importer β σ) (feed version : String) (reading : Reading σ)
    (arrival : Arrival β) (processed : Reading σ) : Prop where
  writable : processed.unwritable = false
  waiting : ∀ id ∈ processed.waitingIDs, id ∈ reading.waitingIDs ∨ id = arrival.listing.id
  standing : ∀ id, (processed.drained feed).standing id =
    if id = arrival.listing.id then
      ((reading.drained feed).standing id).arrive importer feed version arrival
    else (reading.drained feed).standing id

theorem publishable_eq_isNews (reading : Reading σ) (id : String) (advisory : Option (Advisory σ))
    (statement : List UInt8) :
    publishable importer reading.held id advisory statement =
      (reading.standing id).isNews importer advisory statement := by
  unfold publishable Standing.isNews standing
  cases reading.held.lookup id with
  | none => rfl
  | some current =>
    dsimp only [Option.all_some]
    split
    · next older => simp [older]
    · next fresh =>
        split
        · next rose => simp [fresh, rose]
        · next read => simp [fresh, read]

variable {arrival : Arrival β}

theorem processed_of_settleAt (writable : reading.unwritable = false)
    (fresh : arrival.listing.id ∉ reading.waitingIDs)
    (settles : ∀ standing : Standing, standing = reading.standing arrival.listing.id →
      standing.arrive importer feed version arrival = standing.settle arrival.listing) :
    Processed importer feed version reading arrival (reading.settleAt arrival.listing) := by
  refine ⟨writable, fun id waits => .inl waits, fun id => ?_⟩
  split
  · next same =>
      subst same
      have absent : arrival.listing.id ∉ (reading.settleAt arrival.listing).waitingIDs := fresh
      rw [drained_standing_of_notMem feed fresh, drained_standing_of_notMem feed absent, settles _ rfl,
        standing_settleAt, if_pos rfl]
  · next other =>
      exact foldl_write_standing_congr (by simp [other]) reading.batch

theorem processed_of_queue {waiting : Waiting σ} (writable : reading.unwritable = false)
    (about : waiting.listing = arrival.listing)
    (writes : ((reading.drained feed).standing arrival.listing.id).arrive importer feed version
      arrival = ((reading.drained feed).standing arrival.listing.id).write feed waiting) :
    Processed importer feed version reading arrival (reading.queue waiting) := by
  refine ⟨writable, fun id waits => ?_, fun id => ?_⟩
  · simpa [queue, waitingIDs, about] using waits
  · rw [drained_queue, standing_write, about]
    split
    · next same => rw [same, writes]
    · rfl

theorem Processed.flush {queued : Reading σ}
    (processed : Processed importer feed version reading arrival queued)
    (flushed : Flushed feed queued (queued.flush feed backbone)) :
    Processed importer feed version reading arrival (queued.flush feed backbone) where
  writable := flushed.writable
  waiting id waits := by simp [waitingIDs, flushed.batch] at waits
  standing id := by
    rw [← processed.standing id, ← flushed.standing id, drained, flushed.batch]
    rfl

theorem Processed.countRefused {processed : Reading σ}
    (settled : Processed importer feed version reading arrival processed) :
    Processed importer feed version reading arrival processed.countRefused where
  writable := settled.writable
  waiting := settled.waiting
  standing id := by
    have same : (processed.countRefused).standing id = processed.standing id := rfl
    exact (foldl_write_standing_congr same processed.batch).trans (settled.standing id)

theorem processed_of_known {advisory : Option (Advisory σ)} {statement : List UInt8}
    (writable : reading.unwritable = false) (fresh : arrival.listing.id ∉ reading.waitingIDs)
    (settled : settle importer feed version arrival = .read advisory statement)
    (known : (reading.standing arrival.listing.id).isNews importer advisory statement = false) :
    Processed importer feed version reading arrival
      (if modifiedOf advisory < arrival.listing.modified then reading
      else reading.settleAt arrival.listing) := by
  split
  · next older =>
      refine ⟨writable, fun id waits => .inl waits, fun id => ?_⟩
      split
      · next same =>
          rw [same, drained_standing_of_notMem feed fresh, Standing.arrive, settled]
          simp [known, older]
      · rfl
  · next current =>
      refine processed_of_settleAt writable fresh fun _ same => ?_
      rw [same, Standing.arrive, settled]
      simp [known, current]

theorem stranded_of_process
    (whole : (process importer feed version backbone reading arrival).stranded = none) :
    reading.stranded = none := by
  unfold process at whole
  split at whole
  · cases whole
  · exact whole
  · exact whole
  · split at whole
    · split at whole
      · have queued : (reading.queue _).stranded = none := stranded_of_flush whole
        exact queued
      · exact whole
    · split at whole <;> exact whole

theorem process_processed (writable : reading.unwritable = false)
    (fresh : arrival.listing.id ∉ reading.waitingIDs)
    (whole : (process importer feed version backbone reading arrival).stranded = none) :
    Processed importer feed version reading arrival
      (process importer feed version backbone reading arrival) := by
  unfold process at whole ⊢
  cases settled : settle importer feed version arrival with
  | owed reason =>
    rw [settled] at whole
    cases whole
  | gone =>
    refine processed_of_settleAt writable fresh fun _ _ => ?_
    rw [Standing.arrive, settled]
  | refused reason =>
    refine (processed_of_settleAt writable fresh fun _ _ => ?_).countRefused
    rw [Standing.arrive, settled]
  | read advisory statement =>
    simp only [settled, publishable_eq_isNews] at whole ⊢
    split
    · next news =>
        rw [if_pos news] at whole
        have queued : Processed importer feed version reading arrival
            (reading.queue ⟨arrival.listing, advisory, statement⟩) := by
          refine processed_of_queue writable rfl ?_
          rw [drained_standing_of_notMem feed fresh, Standing.arrive, settled]
          exact if_pos news
        split
        · next full =>
            rw [if_pos full] at whole
            exact queued.flush (flush_flushed queued.writable whole)
        · exact queued
    · next known =>
        exact processed_of_known writable fresh settled (by simpa using known)

/-- Each listing stands as its own record made it stand. -/
structure Follows (importer : Importer β σ) (feed version : String) (start : Reading σ)
    (read : List (Arrival β)) (reading : Reading σ) : Prop where
  writable : reading.unwritable = false
  waiting : ∀ id ∈ reading.waitingIDs, id ∈ read.map fun arrival => arrival.listing.id
  arrived : ∀ arrival ∈ read, (reading.drained feed).standing arrival.listing.id =
    (start.standing arrival.listing.id).arrive importer feed version arrival
  other : ∀ id, (id ∉ read.map fun arrival => arrival.listing.id) →
    (reading.drained feed).standing id = start.standing id

variable {start : Reading σ} {read : List (Arrival β)}

theorem Follows.process (follows : Follows importer feed version start read reading)
    (fresh : arrival.listing.id ∉ read.map fun arrival => arrival.listing.id)
    (whole : (AdvisoryFeed.process importer feed version backbone reading arrival).stranded = none) :
    Follows importer feed version start (read ++ [arrival])
      (AdvisoryFeed.process importer feed version backbone reading arrival) := by
  obtain ⟨writable, waiting, arrived, other⟩ := follows
  have processed := process_processed writable (fun waits => fresh (waiting _ waits)) whole
  refine ⟨processed.writable, fun id waits => ?_, fun earlier isRead => ?_, fun id unread => ?_⟩
  · rw [List.map_append, List.mem_append]
    refine (processed.waiting id waits).imp (waiting id) fun same => ?_
    simp [same]
  · rw [processed.standing]
    rcases List.mem_append.mp isRead with isRead | isRead
    · have distinct : earlier.listing.id ≠ arrival.listing.id := fun same =>
        fresh (same ▸ List.mem_map_of_mem isRead)
      rw [if_neg distinct, arrived earlier isRead]
    · rw [List.mem_singleton.mp isRead, if_pos rfl, other _ fresh]
  · simp only [List.map_append, List.map_cons, List.map_nil, List.mem_append, List.mem_singleton,
      not_or] at unread
    rw [processed.standing, if_neg unread.2, other id unread.1]

section

variable {arrived : List (Arrival β)}
  (distinct : (arrived.map fun arrival => arrival.listing.id).Nodup)
  (writable : start.unwritable = false) (empty : start.batch = [])

include distinct writable empty

theorem foldl_process_follows
    (whole : (arrived.foldl (process importer feed version backbone) start).stranded = none) :
    Follows importer feed version start arrived
      (arrived.foldl (process importer feed version backbone) start) := by
  induction arrived using List.reverseRecOn with
  | nil => exact ⟨writable, by simp [waitingIDs, empty], nofun, fun id _ => by
    rw [List.foldl_nil, drained, empty, List.foldl_nil]⟩
  | append_singleton arrived arrival ih =>
    rw [List.foldl_append] at whole ⊢
    rw [List.map_append, List.nodup_append] at distinct
    obtain ⟨earlier, -, apart⟩ := distinct
    refine (ih earlier (stranded_of_process whole)).process (fun isRead => ?_) whole
    exact apart _ isRead _ (by simp) rfl

theorem readAll_standing
    (whole : (readAll importer feed version backbone start arrived).stranded = none) :
    (∀ arrival ∈ arrived,
      (readAll importer feed version backbone start arrived).standing arrival.listing.id =
        (start.standing arrival.listing.id).arrive importer feed version arrival) ∧
      ∀ id, (id ∉ arrived.map fun arrival => arrival.listing.id) →
        (readAll importer feed version backbone start arrived).standing id = start.standing id := by
  have follows := foldl_process_follows distinct writable empty (stranded_of_flush whole)
  have flushed := flush_flushed follows.writable whole
  exact ⟨fun arrival isRead => (flushed.standing _).trans (follows.arrived arrival isRead),
    fun id unread => (flushed.standing id).trans (follows.other id unread)⟩

end

end Reading

/-- What a feed owes when its records are asked for. -/
def asked (held : FiniteMap String Holding) (follow : Follow) (attempt : Attempt β) :
    List Listing :=
  match attempt.index with
  | .error _ => []
  | .ok index => owed importer held (indexed follow index)

def askedVersion (follow : Follow) (attempt : Attempt β) : String :=
  match attempt.index with
  | .error _ => follow.known
  | .ok index => (indexed follow index).known

/-- What is owed is handed out in order, up to a stop, and answered in any order. -/
def Attempt.Hands (attempt : Attempt β) (owed : List Listing) : Prop :=
  ∃ handed, (attempt.arrived.map Arrival.listing).Perm (owed.take handed)

variable {importer feed} {held : FiniteMap String Holding} {follow : Follow} {attempt : Attempt β}

section

variable (hands : attempt.Hands (owed importer held follow))

include hands

theorem Attempt.Hands.distinct :
    (attempt.arrived.map fun arrival => arrival.listing.id).Nodup := by
  obtain ⟨handed, permuted⟩ := hands
  have sublist : ((owed importer held follow).take handed).Sublist follow.listings :=
    (List.take_sublist ..).trans List.filter_sublist
  have ids := (permuted.map Listing.id).nodup_iff.mpr ((sublist.map _).nodup follow.distinct)
  rwa [List.map_map] at ids

theorem Attempt.Hands.mem_owed {arrival : Arrival β} (isRead : arrival ∈ attempt.arrived) :
    arrival.listing ∈ owed importer held follow := by
  obtain ⟨handed, permuted⟩ := hands
  exact List.mem_of_mem_take (permuted.mem_iff.mp (List.mem_map_of_mem isRead))

theorem reading_eq_readAll {refused : ℕ} :
    reading importer feed held follow refused attempt =
      readAll importer feed follow.known attempt.backbone
        ⟨held, follow.settled, [], none, false, 0, refused, 0⟩ attempt.arrived := by
  unfold reading
  split
  · next nothing =>
      have none_read : attempt.arrived = [] := List.eq_nil_iff_forall_not_mem.mpr
        fun arrival isRead => by simpa [nothing] using hands.mem_owed isRead
      rw [none_read]
      rfl
  · rfl

theorem isOwed_reading_iff {refused : ℕ}
    (whole : (reading importer feed held follow refused attempt).stranded = none)
    {listing : Listing} (listed : listing ∈ follow.listings) :
    isOwed importer (reading importer feed held follow refused attempt).held
        (reading importer feed held follow refused attempt).settled listing ↔
      listing ∈ owed importer held follow ∧ ∀ arrival ∈ attempt.arrived,
        arrival.listing = listing → ¬ answers importer feed follow.known arrival := by
  rw [reading_eq_readAll hands] at whole ⊢
  obtain ⟨arrived, other⟩ := Reading.readAll_standing hands.distinct rfl rfl whole
  by_cases answered : listing.id ∈ attempt.arrived.map fun arrival => arrival.listing.id
  · obtain ⟨arrival, isRead, same⟩ := List.mem_map.mp answered
    have isOwed := hands.mem_owed isRead
    obtain rfl : arrival.listing = listing :=
      List.inj_on_of_nodup_map follow.distinct (List.mem_of_mem_filter isOwed) listed same
    have only : ∀ other ∈ attempt.arrived, other.listing = arrival.listing → other = arrival :=
      fun other otherRead same => List.inj_on_of_nodup_map hands.distinct otherRead isRead
        (congrArg Listing.id same)
    have before : (Reading.standing (σ := σ) ⟨held, follow.settled, [], none, false, 0, refused, 0⟩
        arrival.listing.id).owes importer arrival.listing := (List.mem_filter.mp isOwed).2
    have after := Standing.owes_arrive importer feed follow.known before
    rw [← arrived arrival isRead] at after
    refine (Bool.eq_iff_iff.mp after).trans ?_
    simp only [Bool.not_eq_eq_eq_not, Bool.not_true, Bool.not_eq_true]
    exact ⟨fun unanswered => ⟨isOwed, fun other otherRead same =>
      only other otherRead same ▸ unanswered⟩, fun unanswered => unanswered.2 arrival isRead rfl⟩
  · have after := congrArg (fun standing => standing.owes importer listing) (other _ answered)
    refine (Bool.eq_iff_iff.mp after).trans ⟨fun isOwed => ⟨List.mem_filter.mpr ⟨listed, isOwed⟩,
      fun arrival arrives same => ?_⟩, fun isOwed => (List.mem_filter.mp isOwed.1).2⟩
    exact absurd (List.mem_map.mpr ⟨arrival, arrives, congrArg Listing.id same⟩) answered

end


theorem reading_of_complete
    (complete : (sync importer feed held follow attempt).report.outcome = .complete) :
    ∃ index refused, attempt.index = .ok index ∧
      (reading importer feed held (indexed follow index) refused attempt).stranded = none ∧
      owed importer (sync importer feed held follow attempt).held
          (sync importer feed held follow attempt).follow =
        (indexed follow index).listings.filter (isOwed importer
          (reading importer feed held (indexed follow index) refused attempt).held
          (reading importer feed held (indexed follow index) refused attempt).settled) := by
  unfold sync at complete ⊢
  cases read : attempt.index with
  | error reason =>
    rw [read] at complete
    cases complete
  | ok index =>
    simp only [read] at complete
    split at complete
    · cases complete
    · next readable =>
        unfold finished at complete
        split at complete
        · cases complete
        · next whole =>
            refine ⟨index, _, rfl, whole, ?_⟩
            dsimp only
            rw [if_neg readable, finished, whole]
            rfl

/-- A feed reported as complete owes nothing exactly if every listing it owed was handed out and
what arrived answers for it. -/
theorem owed_nil_of_complete_iff (hands : attempt.Hands (asked importer held follow attempt))
    (complete : (sync importer feed held follow attempt).report.outcome = .complete) :
    owed importer (sync importer feed held follow attempt).held
        (sync importer feed held follow attempt).follow = [] ↔
      ∀ listing ∈ asked importer held follow attempt, ∃ arrival ∈ attempt.arrived,
        arrival.listing = listing ∧
          answers importer feed (askedVersion follow attempt) arrival := by
  obtain ⟨index, refused, read, whole, left⟩ := reading_of_complete complete
  simp only [asked, askedVersion, read] at hands ⊢
  rw [left, List.filter_eq_nil_iff]
  constructor
  · intro nothing listing isOwed
    have listed := List.mem_of_mem_filter isOwed
    have settled := (isOwed_reading_iff hands whole listed).not.mp (nothing listing listed)
    simpa [isOwed] using settled
  · intro answered listing listed
    rw [isOwed_reading_iff hands whole listed]
    rintro ⟨isOwed, unanswered⟩
    obtain ⟨arrival, isRead, same, answer⟩ := answered listing isOwed
    exact unanswered arrival isRead same answer

/-- A feed that was never read. -/
def newFollow : Follow := ⟨"", [], List.nodup_nil, FiniteMap.empty, 0, false⟩

/-- A record listed two seconds after the epoch, and modified some seconds after it. -/
def oneRecord (seconds : ℤ) : Attempt (Advisory Unit) where
  checked := 0
  index := .ok ⟨[⟨"DSA-1-1", (Timestamp.mk 2 0).asTime⟩], "1", false, 0⟩
  arrived := [plainArrival 2 seconds]
  backbone _ := none

/-- A record that is as new as listed is no longer owed. -/
theorem owed_nil_of_current :
    owed plainImporter (sync plainImporter "Debian:12" FiniteMap.empty newFollow (oneRecord 2)).held
      (sync plainImporter "Debian:12" FiniteMap.empty newFollow (oneRecord 2)).follow = [] :=
  (owed_nil_of_complete_iff ⟨1, by decide +kernel⟩ (by decide +kernel)).mpr (by decide +kernel)

/-- A record older than listed is published and still owed, and the feed is complete. -/
theorem complete_with_older_record_owed :
    let result := sync plainImporter "Debian:12" FiniteMap.empty newFollow (oneRecord 1)
    result.report.outcome = .complete ∧ result.report.published = 1 ∧
      owed plainImporter result.held result.follow =
        [⟨"DSA-1-1", (Timestamp.mk 2 0).asTime⟩] := by
  decide +kernel

end Seagull.AdvisoryFeed
