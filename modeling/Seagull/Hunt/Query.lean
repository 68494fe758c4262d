import Seagull.Event.Limits
import Seagull.Hunt.Cursor
import Seagull.Hunt.Expression

/-!
# A question held to what it may read

Compiling a question looks up who may ask it, its window, how many records a page holds, what it
matches and where it starts.  A compiled question carries its scope.
-/

namespace Seagull.Hunt

open Contract EventContract

/-- The tenants a caller may read.  The zero scope has none. -/
structure Scope where
  tenants : List String
  valid : ∀ tenant ∈ tenants, validIdentifier tenant = true

/-- The instants from the start up to the end, which is not one of them. -/
structure TimeRange where
  start : ℤ
  stop : ℤ

/-- How much of the store one question may read. -/
structure Limits where
  window : ℤ
  page : ℤ
  maxPage : ℤ
  timeout : ℤ
  maxRowsRead : ℕ

/-- `Limits.valid`: why limits are refused. -/
def Limits.refused (limits : Limits) : Option String :=
  if limits.window ≤ 0 then some "a query plane needs a widest window"
  else if limits.page ≤ 0 ∨ limits.maxPage ≤ 0 ∨ limits.maxPage < limits.page then
    some "a query plane needs a page size no larger than its ceiling"
  else if limits.timeout ≤ 0 then some "a query plane needs a positive read budget"
  else if limits.maxRowsRead = 0 then
    some "a query plane needs a ceiling on how much of the store one read examines"
  else none

/-- What compiles questions: limits that hold together and a long key. -/
structure Compiler where
  limits : Limits
  key : List UInt8
  valid : limits.refused = none
  long : 32 ≤ key.length

/-- A question the store can be asked. -/
structure Query where
  dataset : Dataset
  scope : Scope
  window : TimeRange
  filter : Option Expression
  limit : ℤ
  after : Option After
  fingerprint : List UInt8

section Compiling

variable (platform : Platform) (seals : Seals) (vocabulary : Vocabulary) (compiler : Compiler)

def fingerprintText (dataset : Dataset) (scope : Scope) (window : TimeRange)
    (filter : Option Expression) (limit : ℤ) : String :=
  dataset.written ++ "\n" ++ String.intercalate "," scope.tenants ++ "\n" ++
    Decimal.format (unixMilli window.start) ++ "\n" ++ Decimal.format (unixMilli window.stop) ++
    "\n" ++ Decimal.format limit ++ "\n" ++
    match filter with
    | none => ""
    | some filter => filter.written platform

/-- `fingerprintOf`. -/
def fingerprintOf (dataset : Dataset) (scope : Scope) (window : TimeRange)
    (filter : Option Expression) (limit : ℤ) : List UInt8 :=
  seals.sha256 (Text.bytes (fingerprintText platform dataset scope window filter limit))

/-- `Timestamp.AsTime` of any timestamp: its seconds are counted in 64 bits. -/
def timeOf (stamp : Timestamp) : ℤ :=
  (stamp.seconds + stamp.nanos / Duration.second + Timestamp.epoch).bmod (2 ^ 64) *
    Duration.second + stamp.nanos % Duration.second

/-- `Compiler.window`. -/
def windowOf (asked : Option HuntV1.TimeRange) : Except Refusal TimeRange :=
  match asked with
  | some ⟨some start, some stop⟩ => do
      refuse (timeOf stop ≤ timeOf start)
        (⟨.invertedRange, "range", "the range ends at or before it starts"⟩ : Refusal)
      refuse (compiler.limits.window < Instant.sub (timeOf stop) (timeOf start))
        (⟨.rangeTooWide, "range", "the range spans " ++
          Duration.written (Instant.sub (timeOf stop) (timeOf start)) ++
          " and the widest a query may ask for is " ++
          Duration.written compiler.limits.window⟩ : Refusal)
      .ok ⟨timeOf start, timeOf stop⟩
  | _ => .error ⟨.missingRange, "range", "a query carries the window it asks about; " ++
      "the store holds more than any question should read"⟩

/-- `Compiler.page`. -/
def pageOf (asked : ℕ) : Except Refusal ℤ :=
  if asked = 0 then .ok compiler.limits.page
  else do
    refuse (compiler.limits.maxPage < asked) (⟨.limitTooLarge, "limit",
      "a page holds at most " ++ Decimal.format compiler.limits.maxPage ++ " records"⟩ : Refusal)
    .ok asked

def startOf (fingerprint : List UInt8) (cursor : String) : Except Refusal (Option After) :=
  if cursor = "" then .ok none
  else match decodeCursor seals compiler.key fingerprint cursor with
    | none => .error ⟨.invalidCursor, "cursor", "the cursor was not issued for this query"⟩
    | some after => .ok (some after)

/-- `Compiler.Compile`. -/
def compile (dataset : Dataset) (scope : Scope) (asked : HuntV1.Query) : Except Refusal Query := do
  refuse (scope.tenants.isEmpty = true)
    (⟨.unscoped, "", "a query is answered within a scope and this caller has none"⟩ : Refusal)
  let window ← windowOf compiler asked.range
  let limit ← pageOf compiler asked.limit
  let (filter, _) ← expression platform vocabulary dataset asked.filter 0 maxPredicates
  let fingerprint := fingerprintOf platform seals dataset scope window filter limit
  let after ← startOf seals compiler fingerprint asked.cursor
  .ok ⟨dataset, scope, window, filter, limit, after, fingerprint⟩

end Compiling

end Seagull.Hunt
