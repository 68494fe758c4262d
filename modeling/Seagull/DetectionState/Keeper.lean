import Seagull.DetectionState.Held
import Seagull.Foundation.BinaryHeap

/-!
# The keeper

The in-process store: the keys, what each tenant holds of them, and for each partition of a tenant a
clock and a queue of keys, soonest past first.  A queue files the keys where the source files
pointers to their entries, and a fold is given the order in which a loop over a map visits its keys.
-/

namespace Seagull.DetectionState

/-- How often a store at its ceiling may walk every tenant, in event time. -/
def sweepEvery : ℤ := Duration.second

/-- A key's place in a queue: an instant no later than the end of its window. -/
structure Expiry where
  time : ℤ
  entry : Key
  deriving DecidableEq, Repr, Inhabited

/-- What one tenant holds of one partition, and how far that has come. -/
structure PartitionKeys where
  /-- The newest event time the partition delivered. -/
  watermark : ℤ
  /-- The newest event time of the store when the partition last delivered. -/
  heard : ℤ
  /-- The keys the partition opened, as a heap of their places. -/
  expiring : List Expiry
  deriving Repr

namespace PartitionKeys

def delivered (keys : PartitionKeys) (time newest : ℤ) : PartitionKeys :=
  { keys with
    watermark := if keys.watermark < time then time else keys.watermark
    heard := newest }

/-- How far a partition has come, carried on by the rest of the stream. -/
def clock (keys : PartitionKeys) (newest : ℤ) : ℤ :=
  keys.watermark + Instant.sub newest keys.heard

end PartitionKeys

/-- What one tenant holds. -/
structure TenantKeys where
  tenant : String
  held : ℤ
  rules : FiniteMap String ℤ
  partitions : FiniteMap Int32 PartitionKeys

namespace TenantKeys

def new (tenant : String) : TenantKeys := ⟨tenant, 0, FiniteMap.empty, FiniteMap.empty⟩

/-- Why a tenant may not open another key under a rule, if it may not. -/
def refuses (owner : TenantKeys) (rule : String) (bounds : Bounds) : Option Refusal :=
  if bounds.keysPerTenant ≤ owner.held then
    some .tenantAtCapacity
  else if bounds.keysPerRule ≤ owner.rules.counted rule then
    some .ruleAtCapacity
  else
    none

def opened (owner : TenantKeys) (rule : String) : TenantKeys :=
  { owner with held := owner.held + 1, rules := owner.rules.increment rule }

def closed (owner : TenantKeys) (rule : String) : TenantKeys :=
  { owner with held := owner.held - 1, rules := owner.rules.decrement rule }

end TenantKeys

/-- The orders in which one fold visits maps. -/
structure Order where
  own : Range Int32 PartitionKeys
  tenants : Range String TenantKeys
  swept : String → Range Int32 PartitionKeys

def Order.inOrder : Order := ⟨Range.inOrder, Range.inOrder, fun _ => Range.inOrder⟩

/-- The store. -/
structure Keeper where
  bounds : Bounds
  keys : FiniteMap Key Held
  tenants : FiniteMap String TenantKeys
  newest : ℤ
  /-- The newest event time when every tenant was last walked. -/
  swept : ℤ

/-- An observation a caller asks a store to fold, timed by a valid timestamp. -/
structure Call where
  key : Key
  seen : Observation
  window : ℤ
  /-- Whether the caller reads the window back. -/
  read : Bool
  /-- Whether the caller has given up. -/
  cancelled : Bool
  order : Order
  named : Instant.zero ≤ seen.time

/-- The state, the window when it was read, and why the fold was refused. -/
structure Answer where
  state : State
  window : List Observation
  refusal : Option Refusal
  deriving DecidableEq, Repr

def Answer.refused (refusal : Refusal) : Answer := ⟨.empty, [], some refusal⟩

def Call.refusal (call : Call) (bounds : Bounds) : Option Refusal :=
  if call.cancelled then
    some .cancelled
  else
    match call.seen.validate with
    | some refusal => some refusal
    | none =>
      if call.window ≤ 0 then
        some .noWindow
      else if bounds.window < call.window then
        some .windowTooLong
      else
        none

/-- Fold the observation of a call into an entry. -/
def Call.observe (call : Call) (bounds : Bounds) (entry : Held) : Held × State × Option Refusal :=
  { entry with window := call.window }.observe call.seen bounds.observationsPerKey

namespace Keeper

/-- A store that holds nothing. -/
def empty (bounds : Bounds) : Keeper where
  bounds := bounds
  keys := FiniteMap.empty
  tenants := FiniteMap.empty
  newest := Instant.zero
  swept := Instant.zero

def new (bounds : Bounds) : Except Refusal Keeper :=
  match bounds.validate with
  | some refusal => .error refusal
  | none => .ok (empty bounds)

def expiresOf (keys : FiniteMap Key Held) (key : Key) : ℤ :=
  match keys.lookup key with
  | none => Instant.zero
  | some held => held.expires

def advance (keeper : Keeper) (tenant : String) (seen : Observation) : Keeper :=
  let newest := if keeper.newest < seen.time then seen.time else keeper.newest
  let tenants :=
    match keeper.tenants.lookup tenant with
    | none => keeper.tenants
    | some owner =>
      match owner.partitions.lookup seen.partition with
      | none => keeper.tenants
      | some keys =>
        keeper.tenants.insert tenant
          { owner with
            partitions := owner.partitions.insert seen.partition
              (keys.delivered seen.time newest) }
  { keeper with newest, tenants }

/-- What a walk over one queue works on. -/
structure Walked where
  keys : FiniteMap Key Held
  owner : TenantKeys
  expiring : List Expiry

/-- Drop the keys of a queue that a clock has passed, and file again those observed since, for a
count of rounds. -/
def dropPast (clock : ℤ) : ℕ → Walked → Walked
  | 0, walked => walked
  | rounds + 1, walked =>
    match walked.expiring with
    | [] => walked
    | first :: rest =>
      if first.time < clock then
        if clock ≤ expiresOf walked.keys first.entry then
          dropPast clock rounds
            { walked with
              expiring := BinaryHeap.fix Expiry.time
                (⟨expiresOf walked.keys first.entry, first.entry⟩ :: rest) 0 }
        else
          dropPast clock rounds
            { keys := walked.keys.erase first.entry
              owner := walked.owner.closed first.entry.rule
              expiring := BinaryHeap.pop Expiry.time (first :: rest) }
      else
        walked

/-- A tenant after the queue of a partition was walked, forgotten when empty. -/
def walkedOwner (partition : Int32) (keys : PartitionKeys) (walked : Walked) : TenantKeys :=
  { walked.owner with
    partitions :=
      if walked.expiring = [] then walked.owner.partitions.erase partition
      else walked.owner.partitions.insert partition { keys with expiring := walked.expiring } }

def reclaimPartition (newest : ℤ) (partition : Int32)
    (store : FiniteMap Key Held × TenantKeys) : FiniteMap Key Held × TenantKeys :=
  match store.2.partitions.lookup partition with
  | none => store
  | some keys =>
    let walked := dropPast (keys.clock newest) keys.expiring.length
      ⟨store.1, store.2, keys.expiring⟩
    (walked.keys, walkedOwner partition keys walked)

/-- Reclaim every partition of a tenant, and forget it when it holds nothing.  The caller still
reads its record. -/
def reclaim (range : Range Int32 PartitionKeys) (keeper : Keeper) (owner : TenantKeys) :
    Keeper × TenantKeys :=
  let store := (range.visit owner.partitions).foldl
    (fun store partition => reclaimPartition keeper.newest partition store) (keeper.keys, owner)
  ({ keeper with
      keys := store.1
      tenants :=
        if store.2.held = 0 then keeper.tenants.erase store.2.tenant
        else keeper.tenants.insert store.2.tenant store.2 },
    store.2)

def reclaimTenant (range : Range Int32 PartitionKeys) (keeper : Keeper) (tenant : String) :
    Keeper :=
  match keeper.tenants.lookup tenant with
  | none => keeper
  | some owner => (keeper.reclaim range owner).1

def sweep (order : Order) (keeper : Keeper) : Keeper :=
  if Instant.sub keeper.newest keeper.swept < sweepEvery then
    keeper
  else
    (order.tenants.visit keeper.tenants).foldl
      (fun keeper tenant => keeper.reclaimTenant (order.swept tenant) tenant)
      { keeper with swept := keeper.newest }

def full (keeper : Keeper) : Bool := keeper.bounds.keys ≤ keeper.keys.size

def makeRoom (order : Order) (keeper : Keeper) : Keeper × Option Refusal :=
  let keeper := if keeper.full then keeper.sweep order else keeper
  (keeper, if keeper.full then some .atCapacity else none)

/-- Make room for a key in the store, unless its tenant has none for it. -/
def grant (order : Order) (keeper : Keeper) : Option Refusal → Keeper × Option Refusal
  | some refusal => (keeper, some refusal)
  | none => keeper.makeRoom order

/-- Make room for a key, or say why there is none. -/
def admitKey (order : Order) (keeper : Keeper) (key : Key) : Keeper × Option Refusal :=
  match keeper.tenants.lookup key.tenant with
  | none => keeper.makeRoom order
  | some owner =>
    let asked :=
      if (owner.refuses key.rule keeper.bounds).isSome ∨ keeper.full then
        keeper.reclaim order.own owner
      else
        (keeper, owner)
    asked.1.grant order (asked.2.refuses key.rule keeper.bounds)

def openKey (keeper : Keeper) (entry : Held) (seen : Observation) : Keeper :=
  let owner := (keeper.tenants.lookup entry.key.tenant).getD (TenantKeys.new entry.key.tenant)
  let keys := (owner.partitions.lookup seen.partition).getD ⟨seen.time, keeper.newest, []⟩
  let filed := { keys with
    expiring := BinaryHeap.push Expiry.time keys.expiring ⟨entry.expires, entry.key⟩ }
  let opened := (owner.opened entry.key.rule)
  { keeper with
    keys := keeper.keys.insert entry.key entry
    tenants := keeper.tenants.insert entry.key.tenant
      { opened with partitions := opened.partitions.insert seen.partition filed } }

def answer (read : Bool) (folded : Held × State × Option Refusal) : Answer :=
  { state := folded.2.1
    window := if folded.2.2.isSome ∨ read = false then [] else folded.1.seen
    refusal := folded.2.2 }

/-- Fold an observation into its key, opening the key if it is not held. -/
def fold (keeper : Keeper) (call : Call) : Keeper × Answer :=
  match call.refusal keeper.bounds with
  | some refusal => (keeper, .refused refusal)
  | none =>
    let advanced := keeper.advance call.key.tenant call.seen
    match advanced.keys.lookup call.key with
    | some entry =>
      let folded := call.observe advanced.bounds entry
      ({ advanced with keys := advanced.keys.insert call.key folded.1 },
        answer call.read folded)
    | none =>
      match advanced.admitKey call.order call.key with
      | (admitted, some refusal) => (admitted, .refused refusal)
      | (admitted, none) =>
        let folded := call.observe admitted.bounds (Held.opening call.key)
        (admitted.openKey folded.1 call.seen, answer call.read folded)

def run (keeper : Keeper) : List Call → Keeper × List Answer
  | [] => (keeper, [])
  | call :: calls =>
    let next := keeper.fold call
    let rest := run next.1 calls
    (rest.1, next.2 :: rest.2)

end Keeper

def Bounds.small : Bounds := ⟨3600 * Duration.second, 4, 24, 12, 6⟩

/-- A call that reads nothing back and visits maps in their order. -/
def Call.plain (key : Key) (event : EventName) (time : ℕ) (window : ℤ) : Call where
  key := key
  seen := ⟨event, time, [], 0, 0⟩
  window := window
  read := false
  cancelled := false
  order := .inOrder
  named := Int.natCast_nonneg time

def Call.twoTenants : List Call :=
  [.plain ⟨"left", "rule", "group"⟩ ⟨"agent", "first"⟩ 1000 60,
    .plain ⟨"right", "rule", "group"⟩ ⟨"agent", "second"⟩ 2000 60]

end Seagull.DetectionState
