import Seagull.Foundation.Instant

/-!
# The event contract

The messages of `seagull.event.v1`: every field the getters, the checks and the row projection of
this repository name.  A message that can be unset is an `Option`, and reading through an unset one
gives the zero value.  A scalar has no presence of its own.
-/

namespace Seagull.Contract

/-- A protobuf timestamp: seconds from the Unix epoch, and nanoseconds. -/
structure Timestamp where
  seconds : ℤ
  nanos : ℤ
  deriving DecidableEq

namespace Timestamp

/-- The seconds from the zero time to the epoch. -/
def epoch : ℤ := 62135596800

def unset : Timestamp := ⟨0, 0⟩

def asTime (stamp : Timestamp) : ℤ := (stamp.seconds + epoch) * Duration.second + stamp.nanos

def new (instant : ℤ) : Timestamp :=
  ⟨instant / Duration.second - epoch, instant % Duration.second⟩

/-- A timestamp names an instant of the years 1 to 9999. -/
def isValid (stamp : Timestamp) : Bool :=
  -epoch ≤ stamp.seconds && stamp.seconds ≤ 253402300799 && 0 ≤ stamp.nanos &&
    stamp.nanos < Duration.second

theorem asTime_new (instant : ℤ) : (new instant).asTime = instant := by
  have split := Int.emod_add_mul_ediv instant Duration.second
  unfold asTime new
  linarith

theorem new_asTime {stamp : Timestamp} (valid : stamp.isValid) : new stamp.asTime = stamp := by
  simp only [isValid, Bool.and_eq_true, decide_eq_true_eq] at valid
  obtain ⟨seconds, nanos⟩ := stamp
  simp only [new, asTime, Timestamp.mk.injEq]
  unfold Duration.second at *
  simp only at valid
  omega

end Timestamp

/-- A protobuf duration: seconds and nanoseconds, of one sign. -/
structure Span where
  seconds : ℤ
  nanos : ℤ
  deriving DecidableEq

namespace Span

/-- The furthest a duration message reaches, in seconds. -/
def furthest : ℤ := 315576000000

def new (duration : ℤ) : Span :=
  ⟨duration.tdiv Duration.second, duration.tmod Duration.second⟩

/-- Whether a message names a duration. -/
def isValid (span : Span) : Bool :=
  -furthest ≤ span.seconds && span.seconds ≤ furthest && -Duration.second < span.nanos &&
    span.nanos < Duration.second && !(0 < span.seconds && span.nanos < 0) &&
    !(span.seconds < 0 && 0 < span.nanos)

def asDuration (span : Span) : ℤ :=
  max Duration.shortest (min Duration.longest (span.seconds * Duration.second + span.nanos))

theorem new_total (duration : ℤ) :
    (new duration).seconds * Duration.second + (new duration).nanos = duration := by
  rw [mul_comm]
  exact Int.mul_tdiv_add_tmod duration Duration.second

theorem new_names {duration : ℤ} (lower : Duration.shortest ≤ duration)
    (upper : duration ≤ Duration.longest) :
    (new duration).isValid ∧ (new duration).asDuration = duration := by
  constructor
  · have parts := new_total duration
    have nanos_eq : (new duration).nanos = duration.tmod Duration.second := rfl
    have small := Int.tmod_lt_of_pos duration (show 0 < Duration.second by decide)
    have large := Int.lt_tmod_of_pos duration (show 0 < Duration.second by decide)
    have sign : 0 ≤ duration → 0 ≤ duration.tmod Duration.second :=
      fun nonneg => Int.tmod_nonneg _ nonneg
    have sign_neg : duration ≤ 0 → duration.tmod Duration.second ≤ 0 := by
      intro nonpos
      have mirrored := Int.tmod_nonneg Duration.second (neg_nonneg.mpr nonpos)
      rw [Int.neg_tmod] at mirrored
      omega
    rw [nanos_eq] at parts
    simp only [isValid, nanos_eq]
    generalize duration.tmod Duration.second = nanos at *
    generalize (new duration).seconds = seconds at *
    unfold Duration.second Duration.longest Duration.shortest furthest at *
    simp only [Bool.and_eq_true, decide_eq_true_eq, Bool.not_eq_true', Bool.and_eq_false_iff,
      decide_eq_false_iff_not]
    omega
  · rw [asDuration, new_total, min_eq_right upper, max_eq_right lower]

end Span

/-- The class of an event. -/
inductive EventClass where
  | unspecified
  | authentication
  /-- A number the contract does not declare. -/
  | undeclared (number : ℤ)
  deriving DecidableEq

def EventClass.number : EventClass → ℤ
  | .unspecified => 0
  | .authentication => 1
  | .undeclared number => number

/-- When an event happened, and when its collector read it. -/
structure Timestamps where
  eventTime : Option Timestamp
  observedTime : Option Timestamp

/-- The machine an event came from. -/
structure Host where
  hostname : String
  ip : String
  os : String
  architecture : String
  deriving DecidableEq

/-- Whose estate an event belongs to, and which agent sent it. -/
structure Origin where
  tenantId : String
  agentId : String
  host : Option Host
  deriving DecidableEq

/-- How an event was collected. -/
structure Collection where
  collector : String
  source : String
  /-- A 64-bit number. -/
  sequence : ℕ

/-- How an event was admitted. -/
structure Reception where
  gateway : String
  batchId : String
  ingestTime : Option Timestamp

/-- The account an event is about. -/
structure User where
  name : String
  domain : String
  uid : String

/-- The service an event is about. -/
structure Service where
  name : String
  protocol : String

/-- One end of a connection. -/
structure Endpoint where
  ip : String
  /-- A 32-bit number. -/
  port : ℕ

/-- The connection an event came over. -/
structure Network where
  source : Option Endpoint
  destination : Option Endpoint
  transport : ℤ

/-- The body of an authentication event. -/
structure Authentication where
  activity : ℤ
  outcome : ℤ
  outcomeReason : String
  method : String
  user : Option User
  service : Option Service
  network : Option Network
  rawRecord : String

/-- An event. -/
structure Event where
  eventId : String
  /-- A 32-bit number. -/
  schemaVersion : ℕ
  eventClass : EventClass
  time : Option Timestamps
  origin : Option Origin
  collection : Option Collection
  reception : Option Reception
  authentication : Option Authentication

namespace Event

def tenant (event : Event) : String := (event.origin.map Origin.tenantId).getD ""

def agent (event : Event) : String := (event.origin.map Origin.agentId).getD ""

def happened (event : Event) : ℤ :=
  ((event.time.bind Timestamps.eventTime).getD .unset).asTime

/-- How far the collector's clock lies from the gateway's, zero where either is missing. -/
def skew (event : Event) : ℤ :=
  match event.time.bind Timestamps.observedTime, event.reception.bind Reception.ingestTime with
  | some observed, some admitted => Instant.sub observed.asTime admitted.asTime
  | _, _ => 0

end Event

/-- An enumeration of the contract: its values in declared order, under the names rules write. -/
structure Enumeration where
  values : List (String × ℤ)
  numbers_nodup : (values.map Prod.snd).Nodup
  zero_declared : 0 ∈ values.map Prod.snd
  names_plain : ∀ value ∈ values, value.1 ≠ "" ∧
    ∀ letter ∈ value.1.toList, letter.isAlphanum || letter == '_'

namespace Enumeration

theorem plain_of_all {values : List (String × ℤ)}
    (plain : values.all fun value => value.1 != "" &&
      value.1.toList.all fun letter => letter.isAlphanum || letter == '_') :
    ∀ value ∈ values, value.1 ≠ "" ∧
      ∀ letter ∈ value.1.toList, letter.isAlphanum || letter == '_' := by
  simpa using plain

/-- The names a rule may write. -/
def names (enumeration : Enumeration) : List String := enumeration.values.map Prod.fst

/-- The number a written name stands for: that of the first value so named. -/
def numberOf (enumeration : Enumeration) (name : String) : Option ℤ :=
  (enumeration.values.find? fun value => value.1 == name).map Prod.snd

def nameOf (enumeration : Enumeration) (number : ℤ) : Option String :=
  (enumeration.values.find? fun value => value.2 == number).map Prod.fst

end Enumeration
end Seagull.Contract
