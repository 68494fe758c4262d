import Seagull.Foundation.Replacing
import Seagull.Inventory.Identity

/-!
# What an asset currently has

Every item of a record becomes a row, and every snapshot moves a line.  What was seen at or after
the newest line of its kind is what the asset has.
-/

namespace Seagull.Inventory

open InventoryV1 Contract

/-- What one line is about: an asset and a kind. -/
structure Scope where
  tenantID : String
  agentID : String
  kind : Kind
  deriving DecidableEq

def scopeOf (record : Record) : Scope := ⟨record.tenantID, record.agentID, record.kind⟩

def milliseconds (instant : ℤ) : ℤ := instant / 1000000

def instant (stamp : Option Timestamp) : ℤ := (stamp.getD Timestamp.unset).asTime

/-- A row of the inventory. -/
structure Row where
  scope : Scope
  itemID : String
  lastSeen : ℤ
  mode : Mode
  recordID : String
  schemaVersion : ℕ
  ingestTime : ℤ
  packageName : String
  packageVersion : String
  packageArchitecture : String
  packageManager : String
  packageSource : String
  packageVendor : String
  packageSizeBytes : ℕ
  packageInstalledAt : ℤ
  userLastLogin : ℤ
  processStartedAt : ℤ
  deriving DecidableEq

/-- What tells two rows apart. -/
def Row.key (row : Row) : Scope × String := (row.scope, row.itemID)

def Row.seen (row : Row) : ℤ := milliseconds row.lastSeen

def Row.installed (row : Row) : Instance :=
  ⟨row.packageName, row.packageArchitecture, row.packageManager, row.packageVersion⟩

def fill (row : Row) : Item → Row
  | .package installed =>
    { row with
      packageName := installed.name
      packageVersion := installed.version
      packageArchitecture := installed.architecture
      packageManager := installed.manager
      packageSource := installed.source
      packageVendor := installed.vendor
      packageSizeBytes := installed.sizeBytes
      packageInstalledAt := instant installed.installedAt }
  | .user _ _ lastLogin => { row with userLastLogin := instant lastLogin }
  | .process _ startedAt => { row with processStartedAt := instant startedAt }
  | _ => row

def common (record : Record) : Row where
  scope := scopeOf record
  itemID := ""
  lastSeen := record.collectedAt.asTime
  mode := record.mode
  recordID := record.recordID
  schemaVersion := record.schemaVersion
  ingestTime := instant record.ingestTime
  packageName := ""
  packageVersion := ""
  packageArchitecture := ""
  packageManager := ""
  packageSource := ""
  packageVendor := ""
  packageSizeBytes := 0
  packageInstalledAt := instant none
  userLastLogin := instant none
  processStartedAt := instant none

variable (hash : List UInt8 → List UInt8)

def rowOf (record : Record) (identifier : String) (item : Item) : Row :=
  fill { common record with itemID := identifier } item

def project (record : Record) : List Row :=
  List.zipWith (rowOf record) (itemIDs hash record) record.items

/-- When an asset's inventory of a kind was enumerated in full. -/
structure Scan where
  scope : Scope
  scannedAt : ℤ
  recordID : String
  items : ℕ
  deriving DecidableEq

/-- The line a record moves, if it is the whole of what an asset has. -/
def scanned (record : Record) : Option Scan :=
  if record.mode ≠ .snapshot then none
  else some ⟨scopeOf record, record.collectedAt.asTime, record.recordID,
    record.items.length % 2 ^ 32⟩

/-- Every row and every line that was stored. -/
structure Store where
  rows : List Row
  scans : List Scan

/-- What is stored once records were delivered, in the order they came. -/
def stored (records : List Record) : Store :=
  ⟨records.flatMap (project hash), records.filterMap scanned⟩

namespace Store

def line (store : Store) (scope : Scope) : Option Scan :=
  Replacing.final Scan.scope (fun scan => milliseconds scan.scannedAt) store.scans scope

def current (store : Store) (scope : Scope) : List Row :=
  match store.line scope with
  | none => []
  | some scan => store.rows.filter fun row =>
    row.scope = scope ∧ Replacing.final Row.key Row.seen store.rows row.key = some row ∧
      milliseconds scan.scannedAt ≤ row.seen

end Store

def collected (record : Record) : ℤ := milliseconds record.collectedAt.asTime

variable {hash} {records : List Record} {scope : Scope}

variable {record : Record} {row : Row}

theorem mem_project :
    row ∈ project hash record ↔
      ∃ item ∈ record.items, rowOf record (nameIn hash record item) item = row := by
  rw [project, itemIDs, List.zipWith_map_left, List.zipWith_self]
  exact List.mem_map

theorem rowOf_scope (record : Record) (identifier : String) (item : Item) :
    (rowOf record identifier item).scope = scopeOf record := by
  cases item <;> rfl

theorem rowOf_key (record : Record) (identifier : String) (item : Item) :
    (rowOf record identifier item).key = (scopeOf record, identifier) := by
  cases item <;> rfl

theorem rowOf_seen (record : Record) (identifier : String) (item : Item) :
    (rowOf record identifier item).seen = collected record := by
  cases item <;> rfl

theorem rowOf_installed (record : Record) (identifier : String) (item : Item) :
    (rowOf record identifier item).installed = instanceOf item := by
  cases item <;> rfl

/-- What was stored of an asset and a kind. -/
structure Stored (records : List Record) (scope : Scope) (record : Record) : Prop where
  member : record ∈ records
  scope : scopeOf record = scope

theorem mem_rows :
    row ∈ (stored hash records).rows ↔ ∃ record ∈ records, ∃ item ∈ record.items,
      rowOf record (nameIn hash record item) item = row := by
  simp only [stored, List.mem_flatMap, mem_project]

variable (hash) in
theorem exists_final_row (isStored : Stored records scope record) {item : Item}
    (item_mem : item ∈ record.items) :
    ∃ later, Stored records scope later ∧ collected record ≤ collected later ∧
      ∃ other ∈ later.items, nameIn hash later other = nameIn hash record item ∧
        Replacing.final Row.key Row.seen (stored hash records).rows
            (rowOf later (nameIn hash later other) other).key =
          some (rowOf later (nameIn hash later other) other) := by
  have row_mem : rowOf record (nameIn hash record item) item ∈ (stored hash records).rows :=
    mem_rows.mpr ⟨record, isStored.member, item, item_mem, rfl⟩
  obtain ⟨seen, seen_eq⟩ := Replacing.exists_final Row.key Row.seen row_mem
  obtain ⟨seen_mem, same_key, newest⟩ := Replacing.final_spec seen_eq
  obtain ⟨later, later_mem, other, other_mem, rfl⟩ := mem_rows.mp seen_mem
  have seen_later := newest _ row_mem rfl
  rw [rowOf_seen, rowOf_seen] at seen_later
  rw [rowOf_key, rowOf_key, Prod.mk.injEq] at same_key
  refine ⟨later, ⟨later_mem, same_key.1.trans isStored.scope⟩, seen_later, other, other_mem,
    same_key.2, ?_⟩
  rw [rowOf_key, same_key.1, same_key.2, ← rowOf_key]
  exact same_key.2 ▸ seen_eq

/-- The newest snapshot of an asset and a kind. -/
structure NewestSnapshot (records : List Record) (scope : Scope) (snapshot : Record) : Prop where
  stored : Stored records scope snapshot
  full : snapshot.mode = .snapshot
  newest : ∀ record, Stored records scope record → record.mode = .snapshot →
    collected record ≤ collected snapshot

variable (hash) in
theorem mem_scans {scan : Scan} :
    scan ∈ (stored hash records).scans ↔ ∃ record ∈ records, record.mode = .snapshot ∧
      scan = ⟨scopeOf record, record.collectedAt.asTime, record.recordID,
        record.items.length % 2 ^ 32⟩ := by
  simp only [stored, List.mem_filterMap, scanned]
  refine exists_congr fun record => and_congr_right fun _ => ?_
  by_cases full : record.mode = .snapshot <;> simp [full, eq_comm]

variable (hash) in
theorem line_eq {snapshot : Record} (newest : NewestSnapshot records scope snapshot) :
    ∃ scan, (stored hash records).line scope = some scan ∧
      milliseconds scan.scannedAt = collected snapshot := by
  have scan_mem := (mem_scans hash).mpr ⟨snapshot, newest.stored.member, newest.full, rfl⟩
  obtain ⟨scan, scan_eq⟩ := Replacing.exists_final Scan.scope
    (fun scan => milliseconds scan.scannedAt) scan_mem
  rw [newest.stored.scope] at scan_eq
  obtain ⟨seen_mem, same_scope, latest⟩ := Replacing.final_spec scan_eq
  obtain ⟨record, record_mem, full, rfl⟩ := (mem_scans hash).mp seen_mem
  exact ⟨_, scan_eq, le_antisymm (newest.newest record ⟨record_mem, same_scope⟩ full)
    (latest _ scan_mem newest.stored.scope)⟩

theorem mem_current {snapshot : Record} (newest : NewestSnapshot records scope snapshot) :
    row ∈ (stored hash records).current scope ↔
      ∃ record, Stored records scope record ∧ collected snapshot ≤ collected record ∧
        ∃ item ∈ record.items, rowOf record (nameIn hash record item) item = row ∧
          Replacing.final Row.key Row.seen (stored hash records).rows row.key = some row := by
  obtain ⟨scan, line, scanned_at⟩ := line_eq hash newest
  rw [Store.current, line]
  simp only [List.mem_filter, decide_eq_true_eq, mem_rows, scanned_at]
  constructor
  · rintro ⟨⟨record, record_mem, item, item_mem, rfl⟩, same_scope, shown, late⟩
    rw [rowOf_scope] at same_scope
    rw [rowOf_seen] at late
    exact ⟨record, ⟨record_mem, same_scope⟩, late, item, item_mem, rfl, shown⟩
  · rintro ⟨record, isStored, late, item, item_mem, rfl, shown⟩
    refine ⟨⟨record, isStored.member, item, item_mem, rfl⟩, ?_, shown, ?_⟩
    · rw [rowOf_scope, isStored.scope]
    · rwa [rowOf_seen]

/-- Records of an asset's packages, none collected in the millisecond of another, none naming two
versions where the manager holds one. -/
structure PackageHistory (records : List Record) (scope : Scope) : Prop where
  packages : scope.kind = .package
  apart : ∀ one other, Stored records scope one → Stored records scope other →
    collected one = collected other → one = other
  once : ∀ record, Stored records scope record → NamesOnce record
  fits : ∀ record, Stored records scope record → ∀ item ∈ record.items, (instanceOf item).Fits

def IsCurrent (hash : List UInt8 → List UInt8) (records : List Record) (scope : Scope)
    (installed : Instance) : Prop :=
  ∃ row ∈ (stored hash records).current scope, row.installed = installed

/-- A later record that names another version of a package of which its manager holds one. -/
def Replaces (records : List Record) (scope : Scope) (record : Record) (installed : Instance) :
    Prop :=
  ∃ later, Stored records scope later ∧ collected record < collected later ∧
    ∃ item ∈ later.items, (instanceOf item).parts = installed.parts ∧
      (instanceOf item).version ≠ installed.version

variable {snapshot : Record}

theorem PackageHistory.kind (history : PackageHistory records scope)
    (isStored : Stored records scope record) : record.kind = .package :=
  (congrArg Scope.kind isStored.scope).trans history.packages

theorem isCurrent_or_replaced (injective : Function.Injective hash)
    (history : PackageHistory records scope) (newest : NewestSnapshot records scope snapshot)
    (isStored : Stored records scope record) (late : collected snapshot ≤ collected record)
    {item : Item} (item_mem : item ∈ record.items) :
    IsCurrent hash records scope (instanceOf item) ∨
      heldOnce (instanceOf item).manager ∧ Replaces records scope record (instanceOf item) := by
  obtain ⟨later, later_stored, seen_later, other, other_mem, same_name, shown⟩ :=
    exists_final_row hash isStored item_mem
  have current (same : instanceOf other = instanceOf item) :
      IsCurrent hash records scope (instanceOf item) :=
    ⟨_, (mem_current newest).mpr ⟨later, later_stored, late.trans seen_later, other, other_mem, rfl,
      shown⟩, (rowOf_installed ..).trans same⟩
  rcases seen_later.eq_or_lt with together | after
  · obtain rfl := history.apart record later isStored later_stored together
    exact .inl (current (instance_eq_of_nameIn_eq injective (history.kind isStored)
      (history.fits record isStored) (history.once record isStored) other_mem item_mem same_name))
  · -- Only a snapshot is named by a package alone, and the later record is none.
    have partly : later.mode = .delta := by
      cases mode : later.mode with
      | delta => rfl
      | snapshot =>
        have bound := newest.newest later later_stored mode
        omega
    obtain ⟨parts, ⟨-, -, version⟩ | ⟨untold, -⟩⟩ := eq_of_nameIn_eq injective
      (history.kind later_stored) (history.kind isStored)
      (history.fits later later_stored other other_mem) (history.fits record isStored item item_mem)
      same_name
    · exact .inl (current (Instance.eq_of_parts parts version))
    · have held : heldOnce (instanceOf item).manager := by
        rw [← Instance.manager_eq_of_parts parts]
        by_contra tellable
        exact untold ⟨by simpa using tellable, .inl partly⟩
      by_cases version : (instanceOf other).version = (instanceOf item).version
      · exact .inl (current (Instance.eq_of_parts parts version))
      · exact .inr ⟨held, later, later_stored, after, other, other_mem, parts, version⟩

/-- What an asset has is what its newest snapshot named.  If deltas came after it, whatever the
snapshot or one of them named is there, but for a package of a manager that holds one version, which
a later record replaced. -/
theorem current_packages (injective : Function.Injective hash)
    (history : PackageHistory records scope) (newest : NewestSnapshot records scope snapshot) :
    ((∀ record, Stored records scope record → collected record ≤ collected snapshot) →
      ∀ installed, IsCurrent hash records scope installed ↔
        ∃ item ∈ snapshot.items, instanceOf item = installed) ∧
      ∀ record, Stored records scope record → collected snapshot ≤ collected record →
        ∀ item ∈ record.items, IsCurrent hash records scope (instanceOf item) ∨
          heldOnce (instanceOf item).manager ∧
            Replaces records scope record (instanceOf item) := by
  refine ⟨fun last installed => ⟨?_, ?_⟩, fun record isStored late item item_mem =>
    isCurrent_or_replaced injective history newest isStored late item_mem⟩
  · rintro ⟨row, row_mem, rfl⟩
    obtain ⟨record, isStored, late, item, item_mem, rfl, -⟩ := (mem_current newest).mp row_mem
    obtain rfl := history.apart record snapshot isStored newest.stored
      (le_antisymm (last record isStored) late)
    exact ⟨item, item_mem, (rowOf_installed ..).symm⟩
  · rintro ⟨item, item_mem, rfl⟩
    rcases isCurrent_or_replaced injective history newest newest.stored le_rfl item_mem with
      current | ⟨-, later, later_stored, after, -⟩
    · exact current
    · exact absurd (last later later_stored) (not_le.mpr after)

def packageRecord (mode : Mode) (seconds : ℤ) (named : List Package) : Record :=
  ⟨"", 1, "acme", "agent-1", .package, mode, ⟨seconds, 0⟩, none, named.map .package⟩

def newestScan : Record :=
  packageRecord .snapshot 2 [⟨"kernel-core", "2-1.el9", "x86_64", "rpm", "", "", 0, none⟩,
    ⟨"kernel-core", "3-1.el9", "x86_64", "rpm", "", "", 0, none⟩]

/-- Records delivered out of order, and a snapshot delivered twice. -/
def lateDeliveries : List Record :=
  [newestScan,
    packageRecord .snapshot 1 [⟨"kernel-core", "2-1.el9", "x86_64", "rpm", "", "", 0, none⟩],
    packageRecord .delta 0 [⟨"curl", "8.5.0", "amd64", "dpkg", "", "", 0, none⟩],
    newestScan]

/-- A version the newest snapshot named is there, and a package it did not name is not. -/
theorem current_lateDeliveries :
    IsCurrent id lateDeliveries (scopeOf newestScan)
        ⟨"kernel-core", "x86_64", "rpm", "2-1.el9"⟩ ∧
      ¬ IsCurrent id lateDeliveries (scopeOf newestScan)
        ⟨"curl", "amd64", "dpkg", "8.5.0"⟩ := by
  have facts : (∀ one ∈ lateDeliveries, ∀ other ∈ lateDeliveries,
      collected one = collected other → one = other) ∧
      (∀ record ∈ lateDeliveries, NamesOnce record) ∧
      (∀ record ∈ lateDeliveries, ∀ item ∈ record.items, (instanceOf item).Fits) ∧
      newestScan ∈ lateDeliveries ∧
      ∀ record ∈ lateDeliveries, collected record ≤ collected newestScan := by
    decide +kernel
  obtain ⟨apart, once, fits, member, last⟩ := facts
  have exact_scan := (current_packages Function.injective_id
    ⟨rfl, fun one other isOne isOther => apart one isOne.member other isOther.member,
      fun record isStored => once record isStored.member,
      fun record isStored => fits record isStored.member⟩
    ⟨⟨member, rfl⟩, rfl, fun record isStored _ => last record isStored.member⟩).1
    fun record isStored => last record isStored.member
  rw [exact_scan, exact_scan]
  decide +kernel

end Seagull.Inventory
