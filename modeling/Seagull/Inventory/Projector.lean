import Seagull.Inventory.Current

/-!
# What the projector keeps

A record of the backbone is folded whole or refused whole.  Whether the store can hold its instants
is judged row by row, so that a snapshot that names nothing is not judged at all.
-/

namespace Seagull.Inventory

open InventoryV1 Contract

/-- The first instant the store can hold, the start of the year 1900. -/
def earliest : ℤ := (Timestamp.epoch - 2208988800) * Duration.second

/-- The last instant the store can hold, in April of the year 2262. -/
def latest : ℤ := (Timestamp.epoch + 9223372036) * Duration.second

def Held (instant : ℤ) : Prop := earliest ≤ instant ∧ instant ≤ latest

instance (instant : ℤ) : Decidable (Held instant) := inferInstanceAs (Decidable (_ ∧ _))

def Row.instants (row : Row) : List (String × ℤ) :=
  [("collected_at", row.lastSeen), ("reception.ingest_time", row.ingestTime),
    ("items.package.installed_at", row.packageInstalledAt),
    ("items.user.last_login", row.userLastLogin),
    ("items.process.started_at", row.processStartedAt)]

def storable (row : Row) : Option String :=
  (row.instants.find? fun read => ¬ Held read.2).map fun read =>
    read.1 ++ " is outside the 1900-01-01..2262-04-11 the store can hold"

theorem storable_eq_none {row : Row} :
    storable row = none ↔ ∀ read ∈ row.instants, Held read.2 := by
  simp [storable]

/-- A record as the backbone delivers it. -/
structure Delivered where
  partition : Int32
  offset : Int64
  key : List UInt8
  value : List UInt8

/-- Why a record is not folded. -/
inductive Reason where
  | undecodable
  | contractViolation
  | unstorable

/-- A record for the quarantine. -/
structure Refused extends Delivered where
  reason : Reason
  detail : String

/-- The rows and the lines to store, and the records that are refused. -/
structure Classified where
  rows : List Row
  scans : List Scan
  refused : List Refused

section

variable {μ : Type} (hash : List UInt8 → List UInt8) (decode : List UInt8 → Option μ)
  (validateContract : μ → Except String Record)

/-- Refuse a record for the first reason there is, or read it. -/
def judge (delivered : Delivered) : Refused ⊕ Record :=
  match decode delivered.value with
  | none => .inl ⟨delivered, .undecodable, "the record is not a seagull.inventory.v1.Record"⟩
  | some message =>
    match validateContract message with
    | .error violation => .inl ⟨delivered, .contractViolation, violation⟩
    | .ok record =>
      match (project hash record).findSome? storable with
      | some detail => .inl ⟨delivered, .unstorable, detail⟩
      | none => .inr record

def Classified.keep (kept : Classified) : Refused ⊕ Record → Classified
  | .inl refused => { kept with refused := kept.refused ++ [refused] }
  | .inr record =>
    { kept with
      rows := kept.rows ++ project hash record
      scans := kept.scans ++ (scanned record).toList }

def classify (records : List Delivered) : Classified :=
  records.foldl (fun kept delivered => kept.keep hash (judge hash decode validateContract delivered))
    ⟨[], [], []⟩

def folded (records : List Delivered) : List Record :=
  records.filterMap fun delivered => (judge hash decode validateContract delivered).getRight?

/-- Every record is refused or folded: a folded one contributes all of its rows and, if a snapshot,
its line, and a refused one neither. -/
structure Whole (records : List Delivered) (classified : Classified) : Prop where
  refused : classified.refused =
    records.filterMap fun delivered => (judge hash decode validateContract delivered).getLeft?
  rows : classified.rows = (folded hash decode validateContract records).flatMap (project hash)
  scans : classified.scans = (folded hash decode validateContract records).filterMap scanned
  lines : ∀ record, (scanned record).isSome ↔ record.mode = .snapshot

theorem classify_whole (records : List Delivered) :
    Whole hash decode validateContract records
      (classify hash decode validateContract records) := by
  induction records using List.reverseRecOn with
  | nil => exact ⟨rfl, rfl, rfl, fun record => by simp [scanned]⟩
  | append_singleton records delivered ih =>
    rw [classify, List.foldl_append]
    change Whole _ _ _ _ (Classified.keep hash (classify hash decode validateContract records) _)
    cases judged : judge hash decode validateContract delivered with
    | inl refused =>
      exact ⟨by simp [Classified.keep, judged, ih.refused],
        by simp [Classified.keep, folded, judged, ih.rows],
        by simp [Classified.keep, folded, judged, ih.scans], ih.lines⟩
    | inr record =>
      refine ⟨by simp [Classified.keep, judged, ih.refused],
        by simp [Classified.keep, folded, judged, ih.rows], ?_, ih.lines⟩
      cases line : scanned record <;> simp [Classified.keep, folded, judged, ih.scans, line]

end

variable {μ : Type} {hash : List UInt8 → List UInt8} {decode : List UInt8 → Option μ}
  {validateContract : μ → Except String Record} {records : List Delivered}

theorem rowOf_lastSeen (record : Record) (identifier : String) (item : Item) :
    (rowOf record identifier item).lastSeen = record.collectedAt.asTime := by
  cases item <;> rfl

theorem mem_folded {record : Record} :
    record ∈ folded hash decode validateContract records ↔
      ∃ delivered ∈ records, ∃ message, decode delivered.value = some message ∧
        validateContract message = .ok record ∧
        ∀ row ∈ project hash record, ∀ read ∈ row.instants, Held read.2 := by
  simp only [folded, List.mem_filterMap, Sum.getRight?_eq_some_iff, ← storable_eq_none]
  refine exists_congr fun delivered => and_congr_right fun _ => ?_
  unfold judge
  cases decode delivered.value with
  | none => simp
  | some message =>
    cases passes : validateContract message with
    | error violation => simp [passes]
    | ok read =>
      cases found : (project hash read).findSome? storable with
      | none =>
        simp only [passes, found, Option.some.injEq, exists_eq_left', Sum.inr.injEq,
          Except.ok.injEq]
        exact ⟨fun same => ⟨same, same ▸ List.findSome?_eq_none_iff.mp found⟩, And.left⟩
      | some detail =>
        obtain ⟨row, row_mem, unheld⟩ := List.exists_of_findSome?_eq_some found
        simp only [passes, found, Option.some.injEq, exists_eq_left', Except.ok.injEq,
          reduceCtorEq, false_iff, not_and, not_forall]
        rintro rfl
        exact ⟨row, row_mem, by simp [unheld]⟩

variable (hash decode validateContract records) in
/-- Every record is folded whole or refused whole, and what is handed to the store is within what it
can hold unless a snapshot names nothing and was collected outside of it. -/
theorem classify_whole_iff :
    (Whole hash decode validateContract records (classify hash decode validateContract records) ∧
      (∀ row ∈ (classify hash decode validateContract records).rows, ∀ read ∈ row.instants,
        Held read.2) ∧
      ∀ scan ∈ (classify hash decode validateContract records).scans, Held scan.scannedAt) ↔
    ∀ delivered ∈ records, ∀ message, decode delivered.value = some message →
      ∀ record, validateContract message = .ok record → record.mode = .snapshot →
        record.items = [] → Held record.collectedAt.asTime := by
  have whole := classify_whole hash decode validateContract records
  rw [whole.rows, whole.scans]
  simp only [List.mem_flatMap, List.mem_filterMap, mem_folded]
  constructor
  · rintro ⟨-, -, scans⟩ delivered member message read record passes full empty
    exact scans _ ⟨record, ⟨delivered, member, message, read, passes, by simp [project, empty]⟩,
      if_neg (not_not.mpr full)⟩
  · intro covered
    refine ⟨whole, ?_, ?_⟩
    · rintro row ⟨record, ⟨-, -, -, -, -, held⟩, row_mem⟩
      exact held row row_mem
    · rintro scan ⟨record, ⟨delivered, member, message, read, passes, held⟩, line⟩
      have full : record.mode = .snapshot := (whole.lines record).mp (by simp [line])
      obtain rfl := Option.some.inj ((if_neg (not_not.mpr full)).symm.trans line)
      cases items : record.items with
      | nil => exact covered delivered member message read record passes full items
      | cons item rest =>
        have row_mem : rowOf record (nameIn hash record item) item ∈ project hash record :=
          mem_project.mpr ⟨item, by simp [items], rfl⟩
        have seen := held _ row_mem _ (List.mem_cons_self ..)
        rwa [rowOf_lastSeen] at seen

/-- An asset that says at the end of the year 9999 that it has no packages. -/
def emptySnapshot : Record :=
  { packageRecord .snapshot 253402300799 [] with recordID := "record-0001" }

theorem classify_empty_snapshot :
    (classify id (fun _ => some emptySnapshot) .ok [⟨0, 0, [], []⟩]).scans =
        [⟨scopeOf emptySnapshot, emptySnapshot.collectedAt.asTime, "record-0001", 0⟩] ∧
      ¬ Held emptySnapshot.collectedAt.asTime := by
  decide +kernel

end Seagull.Inventory
