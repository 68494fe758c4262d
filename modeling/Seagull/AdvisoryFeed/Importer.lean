import Mathlib.Data.String.Basic
import Seagull.Contract.Vulnerability
import Seagull.Foundation.FiniteMap
import Seagull.Foundation.Quote

/-!
# Following a feed of advisories

An importer asks a feed for its index, reads the records it owes, and publishes the advisories that
say something new.  A feed is complete when nothing was left over with an error.
-/

namespace Seagull.AdvisoryFeed

open Contract VulnerabilityV1

/-- What an index says of a record. -/
structure Listing where
  id : String
  modified : ℤ
  deriving DecidableEq

/-- What the platform holds of one advisory, and the rules it was read with. -/
structure Holding where
  feed : String
  modified : ℤ
  normalization : ℕ
  statement : List UInt8

/-- A feed that is followed. -/
structure Follow where
  known : String
  listings : List Listing
  distinct : (listings.map Listing.id).Nodup
  /-- The listed times at which records were settled. -/
  settled : FiniteMap String ℤ
  syncedAt : ℤ
  synced : Bool

/-- What a feed answers when it is asked for its index. -/
structure Index where
  listings : List Listing
  version : String
  unchanged : Bool
  malformed : ℕ

/-- What a feed answers when it is asked for a record. -/
inductive Answer (β : Type) where
  | fetched (body : β) (location : String)
  /-- The feed no longer has what its index listed. -/
  | gone
  /-- The feed could not be reached, or said it was busy, as often as it was asked. -/
  | unavailable (reason : String)
  /-- Anything else. -/
  | failed (reason : String)

/-- An importer of advisories. -/
structure Importer (β σ : Type) where
  source : String
  normalization : ℕ
  normalization_pos : 0 < normalization
  batch : ℕ
  batch_pos : 0 < batch
  translate : β → Except String (Advisory σ)
  /-- `vulnerability.Validate`: why an advisory is not one. -/
  validate : Advisory σ → Option String
  /-- SHA-256 of an advisory without its time and provenance. -/
  hash : String × String × σ → List UInt8
  /-- SHA-256 of the bytes of a record, in hexadecimal. -/
  digest : β → String
  /-- `strconv.IsPrint`. -/
  isPrint : Char → Bool

def maxIDLength : ℕ := 128
def maxFailureLength : ℕ := 512

/-- The letters of a text that fit into a number of bytes. -/
def fitting : List Char → ℕ → List Char
  | [], _ => []
  | letter :: letters, room =>
    if letter.utf8Size ≤ room then letter :: fitting letters (room - letter.utf8Size) else []

/-- A text cut to a number of bytes, between two letters. -/
def bounded (text : String) (maximum : ℕ) : String :=
  if text.utf8ByteSize ≤ maximum then text else String.ofList (fitting text.toList maximum)

/-- What went wrong. -/
def failure (what reason : String) : String := bounded (what ++ ": " ++ reason) maxFailureLength

def uint32 (count : ℕ) : ℕ := count % 2 ^ 32

/-- The latest time each record is listed with. -/
def newest (listings : List Listing) : FiniteMap String ℤ :=
  listings.foldl (fun held listing =>
    match held.lookup listing.id with
    | none => held.insert listing.id listing.modified
    | some current =>
      if current < listing.modified then held.insert listing.id listing.modified else held)
    FiniteMap.empty

/-- The listings of an index, each record once, with its latest time. -/
def latest (listings : List Listing) : List Listing :=
  ((newest listings).entries.map fun entry => (⟨entry.1, entry.2⟩ : Listing)).mergeSort
    fun one other => one.id ≤ other.id

theorem latest_distinct (listings : List Listing) : ((latest listings).map Listing.id).Nodup := by
  refine ((List.mergeSort_perm ..).map Listing.id).nodup_iff.mpr ?_
  rw [List.map_map]
  exact (newest listings).keys_nodup

/-- The latest time anything is listed with. -/
def newestOf (listings : List Listing) : Option ℤ :=
  if listings.isEmpty then none
  else some (listings.foldl (fun newest listing => max newest listing.modified) Instant.zero)

def modifiedOf {σ : Type} (advisory : Option (Advisory σ)) : ℤ :=
  ((advisory.bind Advisory.modified).getD Timestamp.unset).asTime

def normalizationOf {σ : Type} (advisory : Option (Advisory σ)) : ℕ :=
  (advisory.map fun read => read.provenance.normalization).getD 0

variable {β σ : Type} (importer : Importer β σ)

/-- Whether a listing is still to be read. -/
def isOwed (held : FiniteMap String Holding) (settled : FiniteMap String ℤ) (listing : Listing) :
    Bool :=
  !(settled.lookup listing.id).any (fun at_time => listing.modified ≤ at_time) &&
    !(held.lookup listing.id).any fun current =>
      importer.normalization ≤ current.normalization && listing.modified ≤ current.modified

def owed (held : FiniteMap String Holding) (follow : Follow) : List Listing :=
  follow.listings.filter (isOwed importer held follow.settled)

/-- What became of a listing. -/
inductive Settlement (σ : Type) where
  | owed (reason : String)
  | gone
  | refused (reason : String)
  /-- An advisory and the digest of what it states. -/
  | read (advisory : Option (Advisory σ)) (statement : List UInt8)

def statement (advisory : Advisory σ) : List UInt8 :=
  importer.hash (advisory.id, advisory.source, advisory.stated)

/-- A listing as it was asked for. -/
structure Arrival (β : Type) where
  listing : Listing
  /-- The error of the attempt, if it was cancelled before there was room to ask. -/
  unasked : Option String
  answer : Answer β
  /-- Whether the attempt was cancelled by the time of the answer. -/
  cancelled : Bool
  instant : ℤ

/-- Read a record, and hold it to being the advisory that was listed. -/
def settle (feed version : String) (arrival : Arrival β) : Settlement σ :=
  match arrival.unasked, arrival.answer with
  | some reason, _ => .owed reason
  | none, .gone => .gone
  | none, .unavailable reason => .owed ("the feed is unavailable: " ++ reason)
  | none, .failed reason => if arrival.cancelled then .owed reason else .refused reason
  | none, .fetched body location =>
    -- What was fetched as the attempt was cancelled is owed with the error of a fetch that had
    -- none, so that nothing says that it is owed.
    if arrival.cancelled then .read none (List.replicate 32 0)
    else match importer.translate body with
      | .error reason => .refused reason
      | .ok advisory =>
        if advisory.id ≠ arrival.listing.id then
          .refused ("the record listed as " ++ arrival.listing.id ++ " names itself " ++
            Quote.quote importer.isPrint (bounded advisory.id maxIDLength))
        else if advisory.provenance.normalization ≠ importer.normalization then
          .refused ("the record was translated with rules " ++
            toString advisory.provenance.normalization ++ " and this importer reads with " ++
            toString importer.normalization)
        else
          let placed := { advisory with provenance := { advisory.provenance with
            feed := feed
            feedVersion := version
            location := location
            fetchedAt := some (Timestamp.new arrival.instant)
            digest := importer.digest body } }
          match importer.validate placed with
          | some reason => .refused reason
          | none => .read (some placed) (statement importer placed)

/-- Whether what was read says something new. -/
def publishable (held : FiniteMap String Holding) (id : String) (advisory : Option (Advisory σ))
    (statement : List UInt8) : Bool :=
  match held.lookup id with
  | none => true
  | some current =>
    if modifiedOf advisory < current.modified then false
    else if current.normalization < importer.normalization then true
    else statement ≠ current.statement

def holding (feed : String) (advisory : Option (Advisory σ)) (statement : List UInt8) : Holding :=
  ⟨feed, modifiedOf advisory, normalizationOf advisory, statement⟩

/-- An advisory that waits to be published. -/
structure Waiting (σ : Type) where
  listing : Listing
  advisory : Option (Advisory σ)
  statement : List UInt8

/-- A reading of what a feed owes. -/
structure Reading (σ : Type) where
  held : FiniteMap String Holding
  settled : FiniteMap String ℤ
  batch : List (Waiting σ)
  stranded : Option String
  /-- Whether the backbone took nothing. -/
  unwritable : Bool
  /-- How often something was given to the backbone. -/
  appends : ℕ
  refused : ℕ
  published : ℕ

namespace Reading

def settleAt (reading : Reading σ) (listing : Listing) : Reading σ :=
  { reading with settled := reading.settled.insert listing.id listing.modified }

/-- Leave a listing over with an error; the first one counts. -/
def strand (reading : Reading σ) (reason : String) : Reading σ :=
  { reading with stranded := some (reading.stranded.getD reason) }

def countRefused (reading : Reading σ) : Reading σ :=
  { reading with refused := uint32 (reading.refused + 1) }

/-- Let an advisory wait to be published. -/
def queue (reading : Reading σ) (waiting : Waiting σ) : Reading σ :=
  { reading with batch := reading.batch ++ [waiting] }

/-- Write down a published advisory, settled unless it is older than listed. -/
def write (feed : String) (reading : Reading σ) (waiting : Waiting σ) : Reading σ :=
  let written : Reading σ :=
    { reading with
      held := reading.held.insert waiting.listing.id
        (holding feed waiting.advisory waiting.statement) }
  if modifiedOf waiting.advisory < waiting.listing.modified then written
  else written.settleAt waiting.listing

/-- Publish what waits.  What the backbone does not take is forgotten. -/
def flush (feed : String) (backbone : ℕ → Option String) (reading : Reading σ) : Reading σ :=
  if reading.batch = [] ∨ reading.unwritable then { reading with batch := [] }
  else match backbone reading.appends with
    | some reason =>
      let refused := "the backbone did not take " ++ toString reading.batch.length ++
        " advisories: " ++ reason
      { reading with
        batch := []
        unwritable := true
        appends := reading.appends + 1
        stranded := some (match reading.stranded with
          | none => refused
          | some before => before ++ "\n" ++ refused) }
    | none =>
      let written := reading.batch.foldl (write feed) reading
      { written with
        batch := []
        appends := reading.appends + 1
        published := uint32 (reading.published + reading.batch.length) }

end Reading

/-- What becomes of one record. -/
def process (feed version : String) (backbone : ℕ → Option String) (reading : Reading σ)
    (arrival : Arrival β) : Reading σ :=
  match settle importer feed version arrival with
  | .owed reason => reading.strand reason
  | .gone => reading.settleAt arrival.listing
  | .refused _ => (reading.settleAt arrival.listing).countRefused
  | .read advisory statement =>
    if publishable importer reading.held arrival.listing.id advisory statement then
      if importer.batch ≤ reading.batch.length + 1 then
        (reading.queue ⟨arrival.listing, advisory, statement⟩).flush feed backbone
      else reading.queue ⟨arrival.listing, advisory, statement⟩
    else if modifiedOf advisory < arrival.listing.modified then reading
    else reading.settleAt arrival.listing

/-- Read records in the order they arrive, and publish what is left over. -/
def readAll (feed version : String) (backbone : ℕ → Option String) (reading : Reading σ)
    (arrived : List (Arrival β)) : Reading σ :=
  (arrived.foldl (process importer feed version backbone) reading).flush feed backbone

/-- What an attempt to read a feed meets with. -/
structure Attempt (β : Type) where
  checked : ℤ
  index : Except String Index
  /-- The records that were asked for, in the order they were answered. -/
  arrived : List (Arrival β)
  /-- What the backbone answers each time: an error if it takes nothing. -/
  backbone : ℕ → Option String

/-- What an attempt leaves: what is held, the feed, and the report. -/
structure Result where
  held : FiniteMap String Holding
  follow : Follow
  report : FeedSync

def closed (held : FiniteMap String Holding) (follow : Follow) (report : FeedSync) : Result :=
  ⟨held, follow, { report with
    syncedAt := if follow.synced then some (Timestamp.new follow.syncedAt) else none
    held := uint32 (held.entries.filter fun entry => entry.2.feed = report.feed).length }⟩

def begun (feed : String) (attempt : Attempt β) : FeedSync where
  source := importer.source
  feed := feed
  checkedAt := Timestamp.new attempt.checked
  outcome := .failed
  failure := ""
  feedVersion := ""
  listed := 0
  refused := 0
  published := 0
  held := 0
  newestListed := none
  syncedAt := none

/-- A feed whose index was read: one that did not change is known already. -/
def indexed (follow : Follow) (index : Index) : Follow :=
  if index.unchanged then follow
  else { follow with
    known := index.version
    listings := latest index.listings
    distinct := latest_distinct index.listings }

def listed (report : FeedSync) (follow : Follow) (index : Index) : FeedSync :=
  { report with
    refused := if index.unchanged then 0 else uint32 index.malformed
    feedVersion := follow.known
    listed := uint32 follow.listings.length
    newestListed := (newestOf follow.listings).map Timestamp.new }

def reading (feed : String) (held : FiniteMap String Holding) (follow : Follow) (refused : ℕ)
    (attempt : Attempt β) : Reading σ :=
  let start : Reading σ := ⟨held, follow.settled, [], none, false, 0, refused, 0⟩
  if owed importer held follow = [] then start
  else readAll importer feed follow.known attempt.backbone start attempt.arrived

def finished (follow : Follow) (report : FeedSync) (checked : ℤ) (read : Reading σ) : Result :=
  match read.stranded with
  | some reason =>
    closed read.held { follow with settled := read.settled }
      { report with
        refused := read.refused
        published := read.published
        outcome := .partly
        failure := failure "some advisories are still owed" reason }
  | none =>
    closed read.held { follow with settled := read.settled, syncedAt := checked, synced := true }
      { report with
        refused := read.refused
        published := read.published
        outcome := .complete }

def unread (held : FiniteMap String Holding) (follow : Follow) (report : FeedSync)
    (reason : String) : Result :=
  closed held follow { report with failure := failure "the index could not be read" reason }

def sync (feed : String) (held : FiniteMap String Holding) (follow : Follow) (attempt : Attempt β) :
    Result :=
  match attempt.index with
  | .error reason => unread held follow (begun importer feed attempt) reason
  | .ok index =>
    if ¬ index.unchanged ∧ index.listings = [] ∧ 0 < index.malformed then
      unread held follow (begun importer feed attempt)
        ("none of its " ++ toString index.malformed ++ " lines names a record")
    else
      let following := indexed follow index
      let report := listed (begun importer feed attempt) following index
      finished following report attempt.checked
        (reading importer feed held following report.refused attempt)

def plainImporter : Importer (Advisory Unit) Unit where
  source := "osv"
  normalization := 1
  normalization_pos := by decide
  batch := 100
  batch_pos := by decide
  translate := .ok
  validate _ := none
  hash _ := []
  digest _ := ""
  isPrint _ := true

/-- A record listed and modified some seconds after the epoch. -/
def plainArrival (listed modified : ℤ) : Arrival (Advisory Unit) where
  listing := ⟨"DSA-1-1", (Timestamp.mk listed 0).asTime⟩
  unasked := none
  answer := .fetched ⟨"DSA-1-1", "osv", some ⟨modified, 0⟩, ⟨"", "", "", none, 1, ""⟩, ()⟩
    "DSA-1-1.json"
  cancelled := false
  instant := 0

end Seagull.AdvisoryFeed
