import Seagull.Contract.Event

/-!
# The vulnerability contract

The messages of `seagull.vulnerability.v1` an importer writes: advisories, and how a feed was read.
What an advisory states beside its name, its source and where it came from is a type of its own.
-/

namespace Seagull.VulnerabilityV1

open Contract

/-- Where and when an advisory was read, and with which rules. -/
structure Provenance where
  feed : String
  feedVersion : String
  location : String
  fetchedAt : Option Timestamp
  /-- A 32-bit number. -/
  normalization : ℕ
  digest : String

/-- An advisory.  An unset provenance reads as an empty one. -/
structure Advisory (σ : Type) where
  id : String
  source : String
  modified : Option Timestamp
  provenance : Provenance
  stated : σ

/-- How far a feed was read. -/
inductive Outcome where
  | complete
  | partly
  | failed
  deriving DecidableEq

/-- How a feed was read. -/
structure FeedSync where
  source : String
  feed : String
  checkedAt : Timestamp
  outcome : Outcome
  failure : String
  feedVersion : String
  /-- The counts are 32-bit numbers. -/
  listed : ℕ
  refused : ℕ
  published : ℕ
  held : ℕ
  newestListed : Option Timestamp
  syncedAt : Option Timestamp

end Seagull.VulnerabilityV1
