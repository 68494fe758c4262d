import Seagull.Contract.Event

/-!
# The inventory contract

The messages of `seagull.inventory.v1`: what a collector found on an asset.  Of an item that is not a
package only what names it and its instants are kept.
-/

namespace Seagull.InventoryV1

open Contract

/-- The kinds of things an asset has. -/
inductive Kind where
  | operatingSystem
  | kernel
  | package
  | service
  | networkInterface
  | user
  | hardware
  | process
  deriving DecidableEq

def Kind.number : Kind → ℕ
  | .operatingSystem => 1
  | .kernel => 2
  | .package => 3
  | .service => 4
  | .networkInterface => 5
  | .user => 6
  | .hardware => 7
  | .process => 8

/-- Whether a record is the whole of what an asset has of a kind. -/
inductive Mode where
  | snapshot
  | delta
  deriving DecidableEq

/-- A package. -/
structure Package where
  name : String
  version : String
  architecture : String
  manager : String
  source : String
  vendor : String
  sizeBytes : ℕ
  installedAt : Option Timestamp
  deriving DecidableEq

def Package.unset : Package := ⟨"", "", "", "", "", "", 0, none⟩

/-- An item of a record. -/
inductive Item where
  | operatingSystem
  | kernel
  | hardware
  | package (installed : Package)
  | service (name : String)
  | networkInterface (name : String)
  | user (name uid : String) (lastLogin : Option Timestamp)
  | process (pid : ℕ) (startedAt : Option Timestamp)
  deriving DecidableEq

def Item.getPackage : Item → Package
  | .package installed => installed
  | _ => Package.unset

/-- What one collection found. -/
structure Record where
  recordID : String
  schemaVersion : ℕ
  tenantID : String
  agentID : String
  kind : Kind
  mode : Mode
  collectedAt : Timestamp
  ingestTime : Option Timestamp
  items : List Item
  deriving DecidableEq

end Seagull.InventoryV1
