import Seagull.AdvisoryFeed.Importer
import Seagull.Foundation.CompactedLog
import Seagull.Foundation.Transition

/-!
# Feeds that share what is held

Every feed is followed by a goroutine of its own, and all share one map of what is held.  Whether an
advisory says something new is decided against that map when it is read, and written into it only
after it was appended, so two feeds may both decide before either has appended.
-/

namespace Seagull.AdvisoryFeed

open Contract VulnerabilityV1 CompactedLog

variable {β σ : Type}

/-! ## The goroutines -/

/-- What the goroutine of a feed has in hand. -/
structure Worker (σ : Type) where
  batch : List (Waiting σ)
  /-- Whether the batch is in the log, and what is held is yet to be updated. -/
  appended : Bool

namespace Worker

/-- A goroutine that has nothing in hand. -/
def idle : Worker σ := ⟨[], false⟩

/-- The advisories in hand. -/
def ids (worker : Worker σ) : List String := worker.batch.map fun waiting => waiting.listing.id

end Worker

/-- The log of advisories, and the importer that writes it. -/
structure Publication (β σ : Type) where
  log : List (Advisory σ)
  importer : Importer β σ
  feeds : List String
  held : FiniteMap String Holding
  workers : String → Worker σ

/-- How far the clock of whoever read an advisory may be ahead. -/
def maxClockSkew : ℤ := Duration.hour

/-- Whether a record of the log is learned from. -/
def learns (importer : Importer β σ) (feeds : List String) (now : ℤ) (advisory : Advisory σ) :
    Bool :=
  advisory.source = importer.source ∧ (importer.validate advisory).isNone ∧
    advisory.provenance.feed ∈ feeds ∧
    ¬ now + maxClockSkew < (advisory.provenance.fetchedAt.getD Timestamp.unset).asTime

def kept (importer : Importer β σ) (advisory : Advisory σ) : Holding :=
  ⟨advisory.provenance.feed, modifiedOf (some advisory), advisory.provenance.normalization,
    statement importer advisory⟩

def keep (importer : Importer β σ) (held : FiniteMap String Holding) (advisory : Advisory σ) :
    FiniteMap String Holding :=
  if (held.lookup advisory.id).any fun current => modifiedOf (some advisory) < current.modified then
    held
  else held.insert advisory.id (kept importer advisory)

def recalled (importer : Importer β σ) (feeds : List String) (now : ℤ) (log : List (Advisory σ)) :
    FiniteMap String Holding :=
  (log.filter (learns importer feeds now)).foldl (keep importer) FiniteMap.empty

/-- What the goroutines and the process do, one at a time. -/
inductive Act (β σ : Type) where
  /-- The record of a listing is read, and checked against what is held. -/
  | check (feed version : String) (arrival : Arrival β)
  /-- The backbone takes a batch. -/
  | append (feed : String)
  /-- The backbone takes nothing, and the batch is forgotten. -/
  | abandon (feed : String)
  /-- What is held is updated with a batch that was appended. -/
  | update (feed : String)
  /-- An importer with rules of its own takes over, and reads the log back. -/
  | restart (importer : Importer β σ) (feeds : List String) (now : ℤ)

namespace Publication

/-- Give a feed's goroutine something else in hand. -/
def give (state : Publication β σ) (feed : String) (worker : Worker σ) : Publication β σ :=
  { state with workers := Function.update state.workers feed worker }

/-- An importer of the same source and digest that takes over. -/
def successor (state : Publication β σ) (importer : Importer β σ) : Importer β σ :=
  { importer with source := state.importer.source, hash := state.importer.hash }

def writeDown (feed : String) (held : FiniteMap String Holding) (batch : List (Waiting σ)) :
    FiniteMap String Holding :=
  batch.foldl (fun held waiting =>
    held.insert waiting.listing.id (holding feed waiting.advisory waiting.statement)) held

def check (state : Publication β σ) (feed version : String) (arrival : Arrival β) :
    Option (Publication β σ) :=
  if (state.workers feed).appended ∨ feed ∉ state.feeds ∨
      arrival.listing.id ∈ (state.workers feed).ids then none
  else match settle state.importer feed version arrival with
    | .read advisory statement =>
      if publishable state.importer state.held arrival.listing.id advisory statement then
        some (state.give feed ⟨(state.workers feed).batch ++
          [⟨arrival.listing, advisory, statement⟩], false⟩)
      else some state
    | _ => some state

def act (state : Publication β σ) : Act β σ → Option (Publication β σ)
  | .check feed version arrival => state.check feed version arrival
  | .append feed =>
    -- An advisory that is missing has no key, so a batch with one is not appended.
    if (state.workers feed).appended ∨ (state.workers feed).batch = [] ∨
        ∃ waiting ∈ (state.workers feed).batch, waiting.advisory.isNone then none
    else some { state.give feed ⟨(state.workers feed).batch, true⟩ with
      log := state.log ++ (state.workers feed).batch.filterMap Waiting.advisory }
  | .abandon feed => if (state.workers feed).appended then none else some (state.give feed .idle)
  | .update feed =>
    if (state.workers feed).appended then
      some { state.give feed .idle with
        held := writeDown feed state.held (state.workers feed).batch }
    else none
  | .restart importer feeds now =>
    some ⟨state.log, state.successor importer, feeds,
      recalled (state.successor importer) feeds now state.log, fun _ => .idle⟩

end Publication

/-- A log that nothing was written to, and an importer that holds nothing. -/
def publishing : System (Publication β σ) (Act β σ) where
  starts state :=
    state.log = [] ∧ state.held = FiniteMap.empty ∧ ∀ feed, state.workers feed = .idle
  step := Publication.act

/-! ## What the log should say -/

/-- An advisory that may follow another: not older, and saying something else unless read with newer
rules. -/
def Succeeds (one next : Advisory σ) : Prop :=
  modifiedOf (some one) ≤ modifiedOf (some next) ∧
    (one.provenance.normalization < next.provenance.normalization ∨
      (one.source, one.stated) ≠ (next.source, next.stated))

/-- The log never goes back, and what is held is what its last record says, unless a feed is about
to write that record down. -/
structure Publication.Upheld (state : Publication β σ) : Prop where
  ordered : state.log.Pairwise fun one next =>
    one.id = next.id → modifiedOf (some one) ≤ modifiedOf (some next)
  successive : Succession Advisory.id Succeeds state.log
  held : ∀ id, (∀ feed ∈ state.feeds, (state.workers feed).appended →
      id ∉ (state.workers feed).ids) →
    state.held.lookup id = (lastUnder Advisory.id state.log id).map (kept state.importer)

/-- A feed checks an advisory only while no other has it in hand, and whoever reads the log back
learns from all of it. -/
def Publication.Apart (state : Publication β σ) : Act β σ → Prop
  | .check feed _ arrival =>
    ∀ other ∈ state.feeds, other ≠ feed → arrival.listing.id ∉ (state.workers other).ids
  | .restart importer feeds now =>
    ∀ advisory ∈ state.log,
      learns (state.successor importer) feeds now advisory
  | _ => True

instance (state : Publication β σ) : (act : Act β σ) → Decidable (state.Apart act)
  | .check .. => inferInstanceAs (Decidable (∀ _ ∈ _, _))
  | .restart .. => inferInstanceAs (Decidable (∀ _ ∈ _, _))
  | .append _ => .isTrue trivial
  | .abandon _ => .isTrue trivial
  | .update _ => .isTrue trivial

/-! ## What the goroutines keep -/

/-- An advisory in hand is the one that was listed. -/
def Waiting.IsRead (importer : Importer β σ) (feed : String) (waiting : Waiting σ) : Prop :=
  ∀ advisory, waiting.advisory = some advisory →
    advisory.id = waiting.listing.id ∧
      holding feed waiting.advisory waiting.statement = kept importer advisory ∧
      advisory.provenance.normalization = importer.normalization

variable {importer : Importer β σ} {feed : String}

theorem isRead_of_settle {version : String} {arrival : Arrival β} {advisory : Option (Advisory σ)}
    {stated : List UInt8} (read : settle importer feed version arrival = .read advisory stated) :
    (Waiting.mk arrival.listing advisory stated).IsRead importer feed := by
  unfold settle at read
  rintro placed ⟨⟩
  split at read
  · cases read
  · cases read
  · cases read
  · split at read <;> cases read
  · split at read
    · cases read
    · split at read
      · cases read
      · next translated _ =>
          split at read
          · cases read
          · next same_id =>
              split at read
              · cases read
              · next same_rules =>
                  dsimp only at read
                  split at read
                  · cases read
                  · cases read
                    exact ⟨not_not.mp same_id, rfl, not_not.mp same_rules⟩

variable {held : FiniteMap String Holding}

theorem succeeds_of_publishable {last advisory : Advisory σ} {stated : List UInt8} {id : String}
    (known : held.lookup id = some (kept importer last)) (same : advisory.id = last.id)
    (rules : advisory.provenance.normalization = importer.normalization)
    (states : stated = statement importer advisory)
    (news : publishable importer held id (some advisory) stated) : Succeeds last advisory := by
  unfold publishable at news
  rw [known] at news
  dsimp only at news
  split at news
  · cases news
  · next current =>
      refine ⟨not_lt.mp current, ?_⟩
      split at news
      · next rose => exact .inl (rules ▸ rose)
      · refine .inr fun equal => ?_
        have same_statement : statement importer last = statement importer advisory := by
          rw [statement, statement, same, (Prod.mk.inj equal).1, (Prod.mk.inj equal).2]
        simp [kept, states, same_statement] at news

variable {log : List (Advisory σ)}

theorem lookup_foldl_keep (succession : Succession Advisory.id Succeeds log) (id : String) :
    (log.foldl (keep importer) FiniteMap.empty).lookup id =
      (lastUnder Advisory.id log id).map (kept importer) := by
  induction log using List.reverseRecOn generalizing id with
  | nil => rfl
  | append_singleton log advisory ih =>
    obtain ⟨earlier, next⟩ := succession_concat_iff.mp succession
    have not_later : ((lastUnder Advisory.id log advisory.id).map (kept importer)).any
        (fun current => modifiedOf (some advisory) < current.modified) = false := by
      cases last : lastUnder Advisory.id log advisory.id with
      | none => rfl
      | some last' => simpa [kept] using (next last' last).1
    rw [List.foldl_append, List.foldl_cons, List.foldl_nil, keep, ih earlier, not_later,
      if_neg Bool.false_ne_true, lastUnder_concat, FiniteMap.lookup_insert, ih earlier]
    by_cases same : advisory.id = id
    · simp [same]
    · simp [same, Ne.symm same]

variable {batch : List (Waiting σ)}

theorem lookup_writeDown_of_notMem {id : String}
    (absent : id ∉ batch.map fun waiting => waiting.listing.id) (held : FiniteMap String Holding) :
    (Publication.writeDown feed held batch).lookup id = held.lookup id := by
  induction batch generalizing held with
  | nil => rfl
  | cons waiting batch ih =>
    simp only [List.map_cons, List.mem_cons, not_or] at absent
    exact (ih absent.2 _).trans (by rw [FiniteMap.lookup_insert, if_neg absent.1])

theorem lookup_writeDown (distinct : (batch.map fun waiting => waiting.listing.id).Nodup)
    (held : FiniteMap String Holding) {waiting : Waiting σ} (member : waiting ∈ batch) :
    (Publication.writeDown feed held batch).lookup waiting.listing.id =
      some (holding feed waiting.advisory waiting.statement) := by
  induction batch generalizing held with
  | nil => cases member
  | cons first batch ih =>
    obtain ⟨fresh, distinct⟩ := List.nodup_cons.mp distinct
    rcases List.mem_cons.mp member with rfl | later
    · exact (lookup_writeDown_of_notMem fresh _).trans (by rw [FiniteMap.lookup_insert_self])
    · exact ih distinct _ later

/-- What a goroutine has in hand says something new until appended, and is the last word then. -/
structure Worker.Sound (importer : Importer β σ) (held : FiniteMap String Holding)
    (log : List (Advisory σ)) (feed : String) (worker : Worker σ) : Prop where
  read : ∀ waiting ∈ worker.batch, waiting.IsRead importer feed
  distinct : worker.ids.Nodup
  news : worker.appended = false → ∀ waiting ∈ worker.batch,
    publishable importer held waiting.listing.id waiting.advisory waiting.statement
  last : worker.appended → ∀ waiting ∈ worker.batch, ∃ advisory,
    waiting.advisory = some advisory ∧
      lastUnder Advisory.id log waiting.listing.id = some advisory

theorem Worker.sound_idle (importer : Importer β σ) (held : FiniteMap String Holding)
    (log : List (Advisory σ)) (feed : String) : Worker.Sound importer held log feed .idle :=
  ⟨nofun, List.nodup_nil, nofun, nofun⟩

theorem Worker.Sound.frame {held' : FiniteMap String Holding} {log' : List (Advisory σ)}
    {worker : Worker σ} (sound : Worker.Sound importer held log feed worker)
    (same_held : ∀ id ∈ worker.ids, held'.lookup id = held.lookup id)
    (same_last : ∀ id ∈ worker.ids, lastUnder Advisory.id log' id = lastUnder Advisory.id log id) :
    Worker.Sound importer held' log' feed worker where
  read := sound.read
  distinct := sound.distinct
  news waits waiting member := by
    have news := sound.news waits waiting member
    rwa [publishable, ← same_held _ (List.mem_map_of_mem member)] at news
  last appended waiting member := by
    rw [same_last _ (List.mem_map_of_mem member)]
    exact sound.last appended waiting member

theorem Worker.Sound.queue {worker : Worker σ} {waiting : Waiting σ}
    (sound : Worker.Sound importer held log feed worker) (waits : worker.appended = false)
    (fresh : waiting.listing.id ∉ worker.ids) (isRead : waiting.IsRead importer feed)
    (news : publishable importer held waiting.listing.id waiting.advisory waiting.statement) :
    Worker.Sound importer held log feed ⟨worker.batch ++ [waiting], false⟩ where
  read := by
    simpa [or_imp, forall_and] using ⟨sound.read, isRead⟩
  distinct := by
    rw [Worker.ids, List.map_append, List.nodup_append]
    refine ⟨sound.distinct, List.nodup_singleton _, ?_⟩
    rintro id inHand _ itself rfl
    rw [List.mem_singleton.mp itself] at inHand
    exact fresh inHand
  news _ := by
    simpa [or_imp, forall_and] using ⟨sound.news waits, news⟩
  last := nofun

namespace Publication

/-- What the goroutines keep while no two have an advisory in hand at once. -/
structure Sound (state : Publication β σ) : Prop where
  succession : Succession Advisory.id Succeeds state.log
  idle : ∀ feed, feed ∉ state.feeds → state.workers feed = .idle
  workers : ∀ feed,
    Worker.Sound state.importer state.held state.log feed (state.workers feed)
  apart : ∀ id one other, id ∈ (state.workers one).ids → id ∈ (state.workers other).ids →
    one = other
  held : ∀ id, (∀ feed, (state.workers feed).appended → id ∉ (state.workers feed).ids) →
    state.held.lookup id = (lastUnder Advisory.id state.log id).map (kept state.importer)

variable {state after : Publication β σ}

variable {feed : String}

section

variable (sound : state.Sound)

include sound

theorem Sound.mem_feeds {id : String} (inHand : id ∈ (state.workers feed).ids)
    : feed ∈ state.feeds := by
  by_contra absent
  rw [sound.idle feed absent] at inHand
  cases inHand

theorem Sound.upheld : state.Upheld := by
  refine ⟨sound.succession.pairwise fun _ _ succeeds => succeeds.1, sound.succession, ?_⟩
  intro id free
  exact sound.held id fun feed appended inHand =>
    free feed (sound.mem_feeds inHand) appended inHand

omit sound in
theorem workers_give (feed : String) (worker : Worker σ) (other : String) :
    (state.give feed worker).workers other =
      if other = feed then worker else state.workers other :=
  Function.update_apply ..

theorem Sound.held_of_waiting {id : String}
    (waits : (state.workers feed).appended = false) (inHand : id ∈ (state.workers feed).ids) :
    state.held.lookup id = (lastUnder Advisory.id state.log id).map (kept state.importer) := by
  refine sound.held id fun other appended taken => ?_
  rw [sound.apart id other feed taken inHand, waits] at appended
  cases appended

/-- What one goroutine does: it changes only what it has in hand, and takes what no other has. -/
structure Alters (feed : String) (worker : Worker σ) (state next : Publication β σ) : Prop where
  importer : next.importer = state.importer
  feeds : next.feeds = state.feeds
  workers : ∀ other, next.workers other = if other = feed then worker else state.workers other
  free : ∀ id ∈ worker.ids, ∀ other, other ≠ feed → id ∉ (state.workers other).ids
  same_held : ∀ id ∉ (state.workers feed).ids, next.held.lookup id = state.held.lookup id
  same_last : ∀ id ∉ (state.workers feed).ids,
    lastUnder Advisory.id next.log id = lastUnder Advisory.id state.log id

variable {worker : Worker σ}

theorem Sound.alter (alters : Alters feed worker state after)
    (followed : worker = .idle ∨ feed ∈ state.feeds)
    (succession : Succession Advisory.id Succeeds after.log)
    (own : Worker.Sound after.importer after.held after.log feed worker)
    (held : ∀ id ∈ (state.workers feed).ids, (worker.appended → id ∉ worker.ids) →
      after.held.lookup id = (lastUnder Advisory.id after.log id).map (kept after.importer)) :
    after.Sound where
  succession := succession
  idle other unfollowed := by
    rw [alters.feeds] at unfollowed
    rw [alters.workers]
    split
    · next same => exact followed.resolve_right (same ▸ unfollowed)
    · exact sound.idle other unfollowed
  workers other := by
    rw [alters.workers]
    split
    · next same => exact same ▸ own
    · next differs =>
        have elsewhere {id : String} (inHand : id ∈ (state.workers other).ids) :
            id ∉ (state.workers feed).ids :=
          fun taken => differs (sound.apart id other feed inHand taken)
        rw [alters.importer]
        exact (sound.workers other).frame
          (fun id inHand => alters.same_held id (elsewhere inHand))
          fun id inHand => alters.same_last id (elsewhere inHand)
  apart id one other := by
    rw [alters.workers, alters.workers]
    intro oneHas otherHas
    split at oneHas <;> split at otherHas
    · next same same' => rw [same, same']
    · next same differs => exact absurd otherHas (alters.free id oneHas other differs)
    · next differs same => exact absurd oneHas (alters.free id otherHas one differs)
    · exact sound.apart id one other oneHas otherHas
  held id unwritten := by
    have others (other : String) := unwritten other
    simp only [alters.workers] at others
    by_cases own_hand : id ∈ (state.workers feed).ids
    · exact held id own_hand (by simpa using others feed)
    · rw [alters.same_held id own_hand, alters.same_last id own_hand, alters.importer]
      refine sound.held id fun other appended inHand => ?_
      have differs : other ≠ feed := fun same => own_hand (same ▸ inHand)
      have unwritten_other := others other
      rw [if_neg differs] at unwritten_other
      exact unwritten_other appended inHand

theorem Sound.give (followed : worker = .idle ∨ feed ∈ state.feeds)
    (waits : (state.workers feed).appended = false)
    (own : Worker.Sound state.importer state.held state.log feed worker)
    (free : ∀ id ∈ worker.ids, ∀ other, other ≠ feed → id ∉ (state.workers other).ids) :
    (state.give feed worker).Sound :=
  sound.alter ⟨rfl, rfl, workers_give feed worker, free, fun _ _ => rfl, fun _ _ => rfl⟩ followed
    sound.succession own fun _ inHand _ => sound.held_of_waiting waits inHand

theorem Sound.check {version : String} {arrival : Arrival β}
    (free : state.Apart (.check feed version arrival))
    (stepped : state.check feed version arrival = some after) : after.Sound := by
  unfold Publication.check at stepped
  split at stepped
  · cases stepped
  · next permitted =>
      simp only [not_or, not_not, Bool.not_eq_true] at permitted
      obtain ⟨waits, followed, fresh⟩ := permitted
      split at stepped
      · next advisory stated read =>
          split at stepped
          · next news =>
              obtain rfl := Option.some.inj stepped
              have own := sound.workers feed
              refine sound.give (.inr followed) waits (own.queue waits fresh
                (isRead_of_settle read) news) fun id inHand other differs taken => ?_
              rw [Worker.ids, List.map_append, List.mem_append] at inHand
              rcases inHand with before | itself
              · exact differs (sound.apart id other feed taken before)
              · rw [List.mem_singleton.mp itself] at taken
                exact free other (sound.mem_feeds taken) differs taken
          · exact Option.some.inj stepped ▸ sound
      · exact Option.some.inj stepped ▸ sound

variable {importer : Importer β σ}

omit sound in
theorem ids_filterMap (read : ∀ waiting ∈ batch, waiting.IsRead importer feed)
    (whole : ∀ waiting ∈ batch, waiting.advisory.isSome) :
    (batch.filterMap Waiting.advisory).map Advisory.id =
      batch.map fun waiting => waiting.listing.id := by
  induction batch with
  | nil => rfl
  | cons waiting batch ih =>
    obtain ⟨first, rest⟩ := List.forall_mem_cons.mp read
    obtain ⟨present, others⟩ := List.forall_mem_cons.mp whole
    obtain ⟨advisory, advisory_eq⟩ := Option.isSome_iff_exists.mp present
    rw [List.filterMap_cons_some advisory_eq, List.map_cons, List.map_cons, ih rest others,
      (first advisory advisory_eq).1]

theorem Sound.succeeds {waiting : Waiting σ} {advisory last : Advisory σ}
    (waits : (state.workers feed).appended = false) (member : waiting ∈ (state.workers feed).batch)
    (present : waiting.advisory = some advisory)
    (last_eq : lastUnder Advisory.id state.log advisory.id = some last) :
    Succeeds last advisory := by
  obtain ⟨same_id, same_holding, rules⟩ := (sound.workers feed).read waiting member advisory present
  have news := (sound.workers feed).news waits waiting member
  have known := sound.held_of_waiting waits (List.mem_map_of_mem member)
  rw [← same_id, last_eq] at known
  rw [present, ← same_id] at news
  exact succeeds_of_publishable known (key_of_lastUnder last_eq).symm rules
    (congrArg Holding.statement same_holding) news

omit sound in
theorem sound_appended {held : FiniteMap String Holding} {log : List (Advisory σ)}
    (own : Worker.Sound importer held log feed worker)
    (whole : ∀ waiting ∈ worker.batch, waiting.advisory.isSome) :
    Worker.Sound importer held (log ++ worker.batch.filterMap Waiting.advisory) feed
      ⟨worker.batch, true⟩ where
  read := own.read
  distinct := own.distinct
  news := nofun
  last _ waiting member := by
    obtain ⟨advisory, present⟩ := Option.isSome_iff_exists.mp (whole waiting member)
    have distinct : ((worker.batch.filterMap Waiting.advisory).map Advisory.id).Nodup := by
      rw [ids_filterMap own.read whole]
      exact own.distinct
    refine ⟨advisory, present, ?_⟩
    rw [← (own.read waiting member advisory present).1]
    exact lastUnder_append distinct (List.mem_filterMap.mpr ⟨waiting, member, present⟩)

theorem Sound.append (stepped : state.act (.append feed) = some after) :
    after.Sound := by
  unfold act at stepped
  dsimp only at stepped
  split at stepped
  · cases stepped
  next permitted =>
  simp only [not_or, Bool.not_eq_true, not_exists, not_and, Option.isNone_eq_false_iff]
    at permitted
  obtain ⟨waits, nonempty, whole⟩ := permitted
  obtain rfl := Option.some.inj stepped
  have own := sound.workers feed
  have ids : ((state.workers feed).batch.filterMap Waiting.advisory).map Advisory.id =
    (state.workers feed).ids := ids_filterMap own.read whole
  have followed : feed ∈ state.feeds := by
    by_contra absent
    exact nonempty (congrArg Worker.batch (sound.idle feed absent))
  refine sound.alter ⟨rfl, rfl, workers_give feed _, fun id inHand other differs taken =>
    differs (sound.apart id other feed taken inHand), fun _ _ => rfl, fun id absent =>
    lastUnder_append_of_notMem (ids ▸ absent)⟩ (.inr followed) ?_ (sound_appended own whole)
    fun id inHand unwritten => absurd inHand (unwritten rfl)
  refine sound.succession.append (ids ▸ own.distinct) fun advisory member last last_eq => ?_
  obtain ⟨waiting, waiting_mem, present⟩ := List.mem_filterMap.mp member
  exact sound.succeeds waits waiting_mem present last_eq

theorem Sound.update (stepped : state.act (.update feed) = some after) :
    after.Sound := by
  unfold act at stepped
  dsimp only at stepped
  split at stepped
  case isFalse => cases stepped
  next appended =>
  obtain rfl := Option.some.inj stepped
  have own := sound.workers feed
  refine sound.alter ⟨rfl, rfl, workers_give feed .idle, nofun, fun id absent =>
    lookup_writeDown_of_notMem absent state.held, fun _ _ => rfl⟩ (.inl rfl) sound.succession
    (Worker.sound_idle ..) fun id written _ => ?_
  obtain ⟨waiting, member, rfl⟩ := List.mem_map.mp written
  obtain ⟨advisory, present, last_eq⟩ := own.last appended waiting member
  have last_held : some (holding feed waiting.advisory waiting.statement) =
      (lastUnder Advisory.id state.log waiting.listing.id).map (kept state.importer) := by
    rw [last_eq, (own.read waiting member advisory present).2.1]
    rfl
  exact (lookup_writeDown own.distinct state.held member).trans last_held

theorem Sound.restart {feeds : List String} {now : ℤ}
    (learned : state.Apart (.restart importer feeds now))
    (stepped : state.act (.restart importer feeds now) = some after) : after.Sound := by
  obtain rfl := Option.some.inj stepped
  refine ⟨sound.succession, fun _ _ => rfl, fun feed => Worker.sound_idle .., nofun, ?_⟩
  intro id _
  rw [recalled, List.filter_eq_self.mpr learned]
  exact lookup_foldl_keep sound.succession id

theorem Sound.abandon (stepped : state.act (.abandon feed) = some after) :
    after.Sound := by
  unfold act at stepped
  dsimp only at stepped
  split at stepped
  · cases stepped
  · next waits =>
      obtain rfl := Option.some.inj stepped
      exact sound.give (.inl rfl) (by simpa using waits) (Worker.sound_idle ..) nofun

theorem Sound.act {step : Act β σ} (apart : state.Apart step)
    (stepped : state.act step = some after) : after.Sound := by
  cases step with
  | check feed version arrival => exact sound.check apart stepped
  | append feed => exact sound.append stepped
  | abandon feed => exact sound.abandon stepped
  | update feed => exact sound.update stepped
  | restart importer feeds now => exact sound.restart apart stepped

end


theorem sound_of_starts (starts : publishing.starts state) : state.Sound := by
  obtain ⟨empty, nothing, idle⟩ := starts
  refine ⟨?_, fun feed _ => idle feed, fun feed => idle feed ▸ Worker.sound_idle .., ?_, ?_⟩
  · rw [empty]
    exact succession_nil
  · intro id one other oneHas
    rw [idle one] at oneHas
    cases oneHas
  · intro id _
    rw [empty, nothing]
    rfl

end Publication

/-- While no two feeds have an advisory in hand at once, and every restart learns from all of the
log, the log never goes back and what is held is what it says. -/
theorem upheld_of_apart {state : Publication β σ}
    (reaches : publishing.ReachesUnder Publication.Apart state) : state.Upheld :=
  (reaches.invariant (fun _ => Publication.sound_of_starts)
    fun _ _ _ sound apart stepped => sound.act apart stepped).upheld

/-- Two feeds that list the same advisories. -/
def twoFeeds : Publication (Advisory Unit) Unit :=
  ⟨[], plainImporter, ["Debian:12", "Ubuntu:24.04"], FiniteMap.empty, fun _ => .idle⟩

/-- The second feed checks once the first has written down its own. -/
def oneAfterAnother : List (Act (Advisory Unit) Unit) :=
  [.check "Debian:12" "1" (plainArrival 2 2), .append "Debian:12", .update "Debian:12",
    .check "Ubuntu:24.04" "1" (plainArrival 1 1), .abandon "Ubuntu:24.04"]

/-- The second feed's older version is not published. -/
theorem oneAfterAnother_upheld :
    ∃ state, publishing.run twoFeeds oneAfterAnother = some state ∧ state.Upheld := by
  have runs : (publishing.run twoFeeds oneAfterAnother).isSome ∧
      publishing.Throughout Publication.Apart twoFeeds oneAfterAnother := by
    decide +kernel
  obtain ⟨state, ran⟩ := Option.isSome_iff_exists.mp runs.1
  exact ⟨state, ran, upheld_of_apart
    ⟨twoFeeds, oneAfterAnother, ⟨rfl, rfl, fun _ => rfl⟩, runs.2, ran⟩⟩

def bothAtOnce : List (Act (Advisory Unit) Unit) :=
  [.check "Debian:12" "1" (plainArrival 2 2), .check "Ubuntu:24.04" "1" (plainArrival 1 1),
    .append "Debian:12", .update "Debian:12", .append "Ubuntu:24.04", .update "Ubuntu:24.04"]

/-- The older version is appended last. -/
theorem log_goes_back :
    ∃ state, publishing.run twoFeeds bothAtOnce = some state ∧
      state.log.map (fun advisory => (advisory.id, advisory.modified)) =
        [("DSA-1-1", some ⟨2, 0⟩), ("DSA-1-1", some ⟨1, 0⟩)] ∧ ¬ state.Upheld := by
  have runs : (publishing.run twoFeeds bothAtOnce).any fun state =>
      state.log.map (fun advisory => (advisory.id, advisory.modified)) =
        [("DSA-1-1", some ⟨2, 0⟩), ("DSA-1-1", some ⟨1, 0⟩)] ∧
      ¬ state.log.Pairwise fun one next =>
        one.id = next.id → modifiedOf (some one) ≤ modifiedOf (some next) := by
    decide +kernel
  obtain ⟨state, ran, went_back⟩ := (Option.any_eq_true _ _).mp runs
  obtain ⟨log_eq, disordered⟩ := of_decide_eq_true went_back
  exact ⟨state, ran, log_eq, fun upheld => disordered upheld.ordered⟩

end Seagull.AdvisoryFeed
