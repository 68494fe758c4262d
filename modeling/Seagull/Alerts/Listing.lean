import Seagull.Alerts.Store
import Seagull.Contract.Incident
import Seagull.Foundation.Base64
import Seagull.Foundation.Bytes
import Seagull.Foundation.Paging

/-!
# The listings of alerts and incidents

A listing is read page by page, newest first.  The cursor of a page names its last row by identifier
and millisecond, while the store keeps microseconds: what was raised in that millisecond, before the
row, is not behind the cursor.
-/

namespace Seagull.Alerts

open Contract

/-- Why a listing is refused. -/
inductive ListingError where
  /-- The cursor was not issued for the listing. -/
  | cursor
  /-- The database does not take what the cursor names. -/
  | store

/-- `Time.UnixMilli`. -/
def unixMilli (instant : ℤ) : ℤ := (instant - Timestamp.epoch * Duration.second) / 1000000

/-- `time.UnixMilli`. -/
def ofUnixMilli (millis : ℤ) : ℤ := millis * 1000000 + Timestamp.epoch * Duration.second

/-- The cursor of the page that ended with a row. -/
def encodeCursor (instant : ℤ) (id : String) : String :=
  Base64.encode (Text.bytes (Decimal.format (unixMilli instant) ++ "." ++ id))

def cutAtStop (bytes : List UInt8) : Option (List UInt8 × List UInt8) :=
  match bytes.dropWhile (· != 46) with
  | [] => none
  | _ :: behind => some (bytes.takeWhile (· != 46), behind)

def decodeCursor (token : String) : Option (ℤ × List UInt8) := do
  let payload ← Base64.decode token
  let (written, id) ← cutAtStop payload
  let millis ← if id = [] then none
    else Decimal.parseInt (written.map fun byte => Char.ofNat byte.toNat)
  some (ofUnixMilli millis, id)

/-- The text the database takes bytes for: UTF-8, and no zero byte in it. -/
def columnText (bytes : List UInt8) : Option String :=
  if 0 ∈ bytes then none else Text.ofBytes bytes

/-- `DefaultPageSize`. -/
def defaultPageSize : ℤ := 50

/-- `MaxPageSize`. -/
def maxPageSize : ℤ := 500

/-- How many rows a page holds when so many are asked for. -/
def pageSize (limit : ℤ) : ℕ := (min (if limit ≤ 0 then defaultPageSize else limit) maxPageSize).toNat

theorem pageSize_pos (limit : ℤ) : 0 < pageSize limit := by
  unfold pageSize defaultPageSize maxPageSize
  split <;> omega

/-- A page of a listing, and the cursor of the next one, if any. -/
structure ListingPage (ρ : Type) where
  rows : List ρ
  nextCursor : String

/-- What a listing reads of a row to place it. -/
structure Placing (ρ : Type) where
  id : ρ → String
  raisedAt : ρ → ℤ

/-- `(raised_at, id)` as the database compares it. -/
def Position (κ : Type) : Type := ℤ ×ₗ κ

namespace Position

variable {κ : Type} [LinearOrder κ]

instance : LinearOrder (Position κ) := @Prod.Lex.instLinearOrder ℤ κ Int.instLinearOrder _

def of (instant : ℤ) (id : κ) : Position κ := toLex (instant, id)

theorem of_lt_of {instant other : ℤ} {id key : κ} :
    of instant id < of other key ↔ instant < other ∨ instant = other ∧ id < key :=
  Prod.Lex.toLex_lt_toLex

omit [LinearOrder κ] in
theorem id_eq_of_of_eq {instant other : ℤ} {id key : κ} (same : of instant id = of other key) :
    id = key :=
  congrArg Prod.snd (toLex.injective same)

end Position

section Listing

-- The database compares texts by its collation, which no two texts are equal under.
variable {κ ρ : Type} [LinearOrder κ] (collate : String ↪ κ) (placing : Placing ρ)

def position (row : ρ) : Position κ := .of (placing.raisedAt row) (collate (placing.id row))

def mark (row : ρ) : Position κ :=
  .of (ofUnixMilli (unixMilli (placing.raisedAt row))) (collate (placing.id row))

/-- `ORDER BY raised_at DESC, id DESC`. -/
def inOrder (rows : List ρ) : List ρ :=
  rows.insertionSort fun earlier later => position collate placing later ≤
    position collate placing earlier

def startOf (cursor : String) : Except ListingError (WithTop (Position κ)) :=
  if cursor = "" then .ok ⊤
  else match decodeCursor cursor with
    | none => .error .cursor
    | some (instant, bytes) =>
      match columnText bytes with
      | none => .error .store
      | some id => .ok (Position.of instant (collate id))

/-- The page behind where it starts.  One row more tells whether there is a next one. -/
def pageFrom (rows : List ρ) (isAsked : ρ → Bool) (limit : ℤ) (start : WithTop (Position κ)) :
    ListingPage ρ :=
  let found := (inOrder collate placing (rows.filter fun row =>
    isAsked row && decide ((position collate placing row : WithTop (Position κ)) < start))).take
      (pageSize limit + 1)
  { rows := found.take (pageSize limit)
    nextCursor :=
      if pageSize limit < found.length then
        match found[pageSize limit - 1]? with
        | none => ""
        | some last => encodeCursor (placing.raisedAt last) (placing.id last)
      else "" }

def pageOf (rows : List ρ) (isAsked : ρ → Bool) (limit : ℤ) (cursor : String) :
    Except ListingError (ListingPage ρ) :=
  (startOf collate cursor).map (pageFrom collate placing rows isAsked limit)

def asPage (page : ListingPage ρ) : Paging.Page ρ String :=
  ⟨page.rows, if page.nextCursor = "" then none else some page.nextCursor⟩

/-- The rows of all pages, read by following the cursors. -/
def followed (page : String → Except ListingError (ListingPage ρ)) (fuel : ℕ) : Option (List ρ) :=
  Paging.follow (fun cursor => (page cursor).toOption.map asPage) fuel ""

/-- The cursor tells the last row of a page from the first of the next: they differ in their
millisecond, or the next is at its very start and smaller. -/
def Apart (last first : ρ) : Prop :=
  placing.raisedAt first < ofUnixMilli (unixMilli (placing.raisedAt last)) ∨
    placing.raisedAt first = ofUnixMilli (unixMilli (placing.raisedAt last)) ∧
      collate (placing.id first) < collate (placing.id last)

def PagesApart (limit : ℤ) (listed : List ρ) : Prop :=
  ∀ page last first, listed[(page + 1) * pageSize limit - 1]? = some last →
    listed[(page + 1) * pageSize limit]? = some first → Apart collate placing last first

end Listing

/-- Whether a value is among those named, if any is. -/
def among {α : Type} [DecidableEq α] (named : List α) (value : α) : Bool :=
  named.isEmpty || decide (value ∈ named)

def isText (asked value : String) : Bool := asked == "" || value == asked

/-- Whether an instant lies in a range, to the microsecond. -/
def inRange (start stop : Option Timestamp) (instant : ℤ) : Bool :=
  (start.all fun bound => decide (Instant.stored bound.asTime ≤ instant)) &&
    stop.all fun bound => decide (instant < Instant.stored bound.asTime)

def severities (asked : List DetectionV1.Severity) : List DetectionV1.Severity :=
  asked.filter (· ≠ .unspecified)

/-- `alertv1.Query`. -/
structure AlertQuery where
  rangeStart : Option Timestamp
  rangeEnd : Option Timestamp
  /-- A number that stands for no state of an alert is `none`. -/
  states : List (Option AlertState)
  severities : List DetectionV1.Severity
  assignee : String
  ruleId : String
  agentId : String
  cursor : String
  limit : ℤ

/-- Whether a query asks for an alert, within the tenants of its caller. -/
def AlertQuery.asksFor (asked : AlertQuery) (tenants : List String) (alert : Alert) : Bool :=
  decide (alert.tenantId ∈ tenants) && inRange asked.rangeStart asked.rangeEnd alert.raisedAt &&
    among asked.states.reduceOption alert.state &&
    among (Alerts.severities asked.severities) alert.severity &&
    isText asked.assignee alert.assignee && isText asked.ruleId alert.ruleId &&
    isText asked.agentId alert.agentId

def alertPlacing : Placing Alert := ⟨Alert.alertId, Alert.raisedAt⟩

def AlertStore.page {κ : Type} [LinearOrder κ] (collate : String ↪ κ) (store : AlertStore)
    (asked : AlertQuery) (tenants : List String) : Except ListingError (ListingPage Alert) :=
  pageOf collate alertPlacing store.alerts.rows (asked.asksFor tenants) asked.limit asked.cursor

/-- `incidentv1.Query`. -/
structure IncidentQuery where
  rangeStart : Option Timestamp
  rangeEnd : Option Timestamp
  /-- A number that stands for no state of an incident is `none`. -/
  states : List (Option IncidentState)
  severities : List DetectionV1.Severity
  confidences : List Confidence
  assignee : String
  ruleId : String
  agentId : String
  cursor : String
  limit : ℤ

def levels (asked : List Confidence) : List Confidence := asked.filter (· ≠ .unspecified)

/-- Whether a query asks for an incident, within the tenants of its caller. -/
def IncidentQuery.asksFor (asked : IncidentQuery) (tenants : List String) (incident : Incident) :
    Bool :=
  decide (incident.tenantId ∈ tenants) &&
    inRange asked.rangeStart asked.rangeEnd incident.raisedAt &&
    among asked.states.reduceOption incident.state &&
    among (Alerts.severities asked.severities) incident.severity &&
    among (levels asked.confidences) incident.confidence &&
    isText asked.assignee incident.assignee && isText asked.ruleId incident.rule.id &&
    isText asked.agentId incident.agentId

/-- The incidents. -/
structure IncidentStore where
  incidents : Table String Incident Incident.incidentId

def incidentPlacing : Placing Incident := ⟨Incident.incidentId, Incident.raisedAt⟩

def IncidentStore.page {κ : Type} [LinearOrder κ] (collate : String ↪ κ) (store : IncidentStore)
    (asked : IncidentQuery) (tenants : List String) :
    Except ListingError (ListingPage Incident) :=
  pageOf collate incidentPlacing store.incidents.rows (asked.asksFor tenants) asked.limit
    asked.cursor

/-- The first instant the database keeps. -/
def earliestStored : ℤ := -148731206400 * Duration.second

/-- The end of the instants the database keeps, in the year 294277. -/
def endOfStored : ℤ := 9286453612800 * Duration.second

/-- A row the database can hold, under an identifier. -/
structure Storable (id : String) (instant : ℤ) : Prop where
  named : id ≠ ""
  text : 0 ∉ Text.bytes id
  earliest : earliestStored ≤ instant
  latest : instant < endOfStored

theorem ofUnixMilli_unixMilli_le (instant : ℤ) : ofUnixMilli (unixMilli instant) ≤ instant := by
  unfold ofUnixMilli unixMilli
  omega

theorem cutAtStop_append {written behind : List UInt8} (no_stop : ∀ byte ∈ written, byte ≠ 46) :
    cutAtStop (written ++ 46 :: behind) = some (written, behind) := by
  have passes : ∀ byte ∈ written, (byte != 46) = true := fun byte member =>
    bne_iff_ne.mpr (no_stop byte member)
  rw [cutAtStop, List.dropWhile_append_of_pos passes, List.takeWhile_append_of_pos passes]
  simp

theorem letters_as_bytes (number : ℤ) :
    (∀ byte ∈ Text.bytes (Decimal.format number), byte ≠ 46) ∧
      (Text.bytes (Decimal.format number)).map (fun byte => Char.ofNat byte.toNat) =
        Decimal.letters number := by
  have small : ∀ letter ∈ Decimal.letters number, letter.toNat < 128 ∧ letter.toNat ≠ 46 := by
    intro letter written
    rcases Decimal.of_mem_letters written with rfl | digit
    · decide
    · obtain ⟨lower, upper⟩ := Char.isDigit_iff_toNat.mp digit
      simp only [Char.reduceToNat] at lower upper
      omega
  have byte_of {letter : Char} (written : letter ∈ Decimal.letters number) :
      (UInt8.ofNat letter.toNat).toNat = letter.toNat := by
    have := (small letter written).1
    rw [UInt8.toNat_ofNat']
    omega
  rw [Decimal.format, Text.bytes_ofList fun letter written => (small letter written).1]
  constructor
  · intro byte member stop
    obtain ⟨letter, written, rfl⟩ := List.mem_map.mp member
    exact (small letter written).2 (byte_of written ▸ congrArg UInt8.toNat stop)
  · rw [List.map_map, List.map_congr_left (g := id), List.map_id]
    intro letter written
    rw [Function.comp_apply, byte_of written, Char.ofNat_toNat, id]

theorem decodeCursor_encodeCursor {id : String} {instant : ℤ} (storable : Storable id instant) :
    decodeCursor (encodeCursor instant id) =
      some (ofUnixMilli (unixMilli instant), Text.bytes id) := by
  obtain ⟨no_stop, letters⟩ := letters_as_bytes (unixMilli instant)
  have lower : -2 ^ 63 ≤ unixMilli instant := by
    have := storable.earliest
    unfold unixMilli earliestStored Timestamp.epoch Duration.second at *
    omega
  have upper : unixMilli instant < 2 ^ 63 := by
    have := storable.latest
    unfold unixMilli endOfStored Timestamp.epoch Duration.second at *
    omega
  have payload : Text.bytes (Decimal.format (unixMilli instant) ++ "." ++ id) =
      Text.bytes (Decimal.format (unixMilli instant)) ++ 46 :: Text.bytes id := by
    rw [Text.bytes_append, Text.bytes_append, List.append_assoc]
    rfl
  simp only [decodeCursor, encodeCursor, Base64.decode_encode, payload,
    cutAtStop_append no_stop, letters, Decimal.parseInt_letters lower upper,
    if_neg (Text.bytes_ne_nil storable.named), Option.bind_eq_bind, Option.bind_some]

theorem encodeCursor_ne_empty (instant : ℤ) (id : String) : encodeCursor instant id ≠ "" := by
  refine Base64.encode_ne_empty (Text.bytes_ne_nil fun empty => ?_)
  have := congrArg String.length empty
  simp at this

theorem startOf_encodeCursor {κ : Type} (collate : String ↪ κ) {id : String} {instant : ℤ}
    (storable : Storable id instant) : startOf collate (encodeCursor instant id) =
      .ok (Position.of (ofUnixMilli (unixMilli instant)) (collate id) : Position κ) := by
  have text : columnText (Text.bytes id) = some id := by
    rw [columnText, if_neg storable.text, Text.ofBytes_bytes]
  simp only [startOf, encodeCursor_ne_empty, if_false, decodeCursor_encodeCursor storable, text]

section Following

variable {κ ρ : Type} [LinearOrder κ] {collate : String ↪ κ} {placing : Placing ρ}

theorem mark_le_position (row : ρ) : mark collate placing row ≤ position collate placing row := by
  rw [← not_lt, position, mark, Position.of_lt_of]
  rintro (below | ⟨-, smaller⟩)
  · exact absurd (ofUnixMilli_unixMilli_le (placing.raisedAt row)) (not_le.mpr below)
  · exact lt_irrefl _ smaller

theorem inOrder_perm (rows : List ρ) : (inOrder collate placing rows).Perm rows :=
  List.perm_insertionSort ..

section

variable {rows : List ρ} (distinct : (rows.map placing.id).Nodup)

include distinct

theorem inOrder_descending :
    Paging.Descending (position collate placing) (inOrder collate placing rows) := by
  have total : Std.Total fun earlier later : ρ =>
      position collate placing later ≤ position collate placing earlier := ⟨fun _ _ => le_total _ _⟩
  have trans : IsTrans ρ fun earlier later =>
      position collate placing later ≤ position collate placing earlier :=
    ⟨fun _ _ _ first second => second.trans first⟩
  have ordered : (inOrder collate placing rows).Pairwise fun earlier later =>
      position collate placing later ≤ position collate placing earlier :=
    List.pairwise_insertionSort _ rows
  have apart : (inOrder collate placing rows).Pairwise fun earlier later =>
      placing.id earlier ≠ placing.id later :=
    List.pairwise_map.mp (((inOrder_perm rows).map placing.id).nodup_iff.mpr distinct)
  refine (ordered.and apart).imp fun {earlier later} both => lt_of_le_of_ne both.1 fun same => ?_
  exact both.2 (collate.injective (Position.id_eq_of_of_eq same)).symm

theorem inOrder_filter (kept : ρ → Bool) :
    inOrder collate placing (rows.filter kept) = (inOrder collate placing rows).filter kept := by
  have fewer : ((rows.filter kept).map placing.id).Nodup :=
    distinct.sublist (List.filter_sublist.map placing.id)
  have few_descending : Paging.Descending (position collate placing) _ := inOrder_descending fewer
  have descending : Paging.Descending (position collate placing) _ := inOrder_descending distinct
  refine List.Perm.eq_of_pairwise (fun _ _ _ _ below above => absurd above (lt_asymm below))
    few_descending (descending.filter kept) ?_
  exact (inOrder_perm _).trans ((inOrder_perm rows).filter kept).symm

variable {isAsked : ρ → Bool}

theorem inOrder_behind (start : WithTop (Position κ)) :
    inOrder collate placing (rows.filter fun row => isAsked row &&
        decide ((position collate placing row : WithTop (Position κ)) < start)) =
      Paging.behind (position collate placing)
        (inOrder collate placing (rows.filter isAsked)) start := by
  have asked_distinct : ((rows.filter isAsked).map placing.id).Nodup :=
    distinct.sublist (List.filter_sublist.map placing.id)
  rw [Paging.behind, ← inOrder_filter asked_distinct, List.filter_filter]
  simp only [Bool.and_comm]

theorem asPage_pageFrom (limit : ℤ)
    {start : WithTop (Position κ)} {found : List ρ}
    (finds : Paging.behind (position collate placing)
      (inOrder collate placing (rows.filter isAsked)) start = found) :
    asPage (pageFrom collate placing rows isAsked limit start) =
      { rows := found.take (pageSize limit)
        next := if pageSize limit < found.length then
            found[pageSize limit - 1]?.map fun last =>
              encodeCursor (placing.raisedAt last) (placing.id last)
          else none } := by
  have positive := pageSize_pos limit
  have lookahead : pageSize limit < (found.take (pageSize limit + 1)).length ↔
      pageSize limit < found.length := by
    rw [List.length_take]
    omega
  have cut : (found.take (pageSize limit + 1)).take (pageSize limit) =
      found.take (pageSize limit) := by
    rw [List.take_take, min_eq_left (Nat.le_succ _)]
  have ends : (found.take (pageSize limit + 1))[pageSize limit - 1]? =
      found[pageSize limit - 1]? :=
    List.getElem?_take_of_lt (by omega)
  simp only [asPage, pageFrom, inOrder_behind distinct, finds, lookahead, cut, ends]
  by_cases more : pageSize limit < found.length
  · rw [List.getElem?_eq_getElem (by omega)]
    simp only [if_pos more, encodeCursor_ne_empty, if_false, Option.map_some]
  · simp only [if_neg more, if_true]

theorem followed_eq
    (storable : ∀ row ∈ rows, Storable (placing.id row) (placing.raisedAt row)) (limit : ℤ)
    (fuel : ℕ) :
    followed (pageOf collate placing rows isAsked limit) fuel =
      Paging.follow (some ∘ Paging.keyset (position collate placing) (mark collate placing)
        (pageSize limit) (inOrder collate placing (rows.filter isAsked))) fuel ⊤ := by
  refine Paging.follow_eq (fun cursor start => startOf collate cursor = .ok start) ?_ fuel rfl
  intro cursor start starts
  refine ⟨_, _, by rw [pageOf, starts]; rfl, rfl, ?_⟩
  rw [asPage_pageFrom distinct limit rfl]
  refine ⟨rfl, ?_⟩
  simp only [Paging.keyset]
  split
  · rename_i more
    rw [List.getElem?_eq_getElem (by omega)]
    refine .some (startOf_encodeCursor collate (storable _ ?_))
    exact List.mem_of_mem_filter ((inOrder_perm _).mem_iff.mp
      (List.mem_of_mem_filter (List.getElem_mem _)))
  · exact .none

end

theorem pagesApart_iff {limit : ℤ} {listed : List ρ} :
    PagesApart collate placing limit listed ↔
      Paging.Clear (position collate placing) (mark collate placing) (pageSize limit) listed := by
  simp only [PagesApart, Paging.Clear, Apart, position, mark, Position.of_lt_of]

theorem followed_iff (distinct : (rows.map placing.id).Nodup)
    (storable : ∀ row ∈ rows, Storable (placing.id row) (placing.raisedAt row)) (limit : ℤ)
    {fuel : ℕ} (enough : rows.length < fuel) :
    followed (pageOf collate placing rows isAsked limit) fuel =
        some (inOrder collate placing (rows.filter isAsked)) ↔
      PagesApart collate placing limit (inOrder collate placing (rows.filter isAsked)) := by
  have asked_distinct : ((rows.filter isAsked).map placing.id).Nodup :=
    distinct.sublist (List.filter_sublist.map placing.id)
  have shorter : (inOrder collate placing (rows.filter isAsked)).length < fuel := by
    rw [(inOrder_perm _).length_eq]
    exact (List.length_filter_le _ _).trans_lt enough
  rw [followed_eq distinct storable, pagesApart_iff]
  exact Paging.follow_keyset_iff (inOrder_descending asked_distinct)
    (fun row _ => mark_le_position row) (pageSize_pos limit) shorter

end Following

section Complete

variable {κ : Type} [LinearOrder κ] (collate : String ↪ κ)

def AlertStore.listed (store : AlertStore) (asked : AlertQuery) (tenants : List String) :
    List Alert :=
  inOrder collate alertPlacing (store.alerts.rows.filter (asked.asksFor tenants))

def IncidentStore.listed (store : IncidentStore) (asked : IncidentQuery) (tenants : List String) :
    List Incident :=
  inOrder collate incidentPlacing (store.incidents.rows.filter (asked.asksFor tenants))

theorem AlertStore.page_cursor (store : AlertStore) (asked : AlertQuery) (tenants : List String) :
    (fun cursor => store.page collate { asked with cursor } tenants) =
      pageOf collate alertPlacing store.alerts.rows (asked.asksFor tenants) asked.limit := rfl

theorem IncidentStore.page_cursor (store : IncidentStore) (asked : IncidentQuery)
    (tenants : List String) :
    (fun cursor => store.page collate { asked with cursor } tenants) =
      pageOf collate incidentPlacing store.incidents.rows (asked.asksFor tenants) asked.limit := rfl

/-- Following the cursors of either listing to its end reads everything that is asked for, newest
first and once, exactly when every page ends with a row that its cursor tells apart from the first
of the next. -/
theorem listings_complete_iff (alerts : AlertStore) (incidents : IncidentStore)
    (alerts_storable : ∀ alert ∈ alerts.alerts.rows, Storable alert.alertId alert.raisedAt)
    (incidents_storable : ∀ incident ∈ incidents.incidents.rows,
      Storable incident.incidentId incident.raisedAt)
    (asked : AlertQuery) (story : IncidentQuery) (tenants : List String) (fuel : ℕ)
    (enough : alerts.alerts.rows.length < fuel ∧ incidents.incidents.rows.length < fuel) :
    (followed (fun cursor => alerts.page collate { asked with cursor } tenants) fuel =
          some (alerts.listed collate asked tenants) ↔
        PagesApart collate alertPlacing asked.limit (alerts.listed collate asked tenants)) ∧
      (followed (fun cursor => incidents.page collate { story with cursor } tenants) fuel =
          some (incidents.listed collate story tenants) ↔
        PagesApart collate incidentPlacing story.limit
          (incidents.listed collate story tenants)) := by
  rw [AlertStore.page_cursor, IncidentStore.page_cursor]
  exact ⟨followed_iff alerts.alerts.nodup_rows alerts_storable asked.limit enough.1,
    followed_iff incidents.incidents.nodup_rows incidents_storable story.limit enough.2⟩

end Complete

def raisedAlert (id : String) (instant : ℤ) : Alert :=
  { (sighting id 0).alert with raisedAt := instant }

def raisedTogether : AlertStore where
  alerts := (Table.empty.put (raisedAlert "a" 500000)).put (raisedAlert "b" 400000)
  trail := Table.empty
  occurrences := []

/-- The question for everything, so many at a time. -/
def everything (limit : ℤ) : AlertQuery :=
  ⟨none, none, [], [], "", "", "", "", limit⟩

theorem raisedTogether_storable :
    ∀ alert ∈ raisedTogether.alerts.rows, Storable alert.alertId alert.raisedAt := by
  have held : ∀ alert ∈ raisedTogether.alerts.rows, alert.alertId ≠ "" ∧
      0 ∉ Text.bytes alert.alertId ∧ earliestStored ≤ alert.raisedAt ∧
      alert.raisedAt < endOfStored := by decide
  intro alert member
  obtain ⟨named, text, earliest, latest⟩ := held alert member
  exact ⟨named, text, earliest, latest⟩

theorem listings_complete_of_one_page :
    followed (fun cursor => raisedTogether.page (.refl String) { everything 2 with cursor }
      ["acme"]) 3 = some [raisedAlert "a" 500000, raisedAlert "b" 400000] := by
  have listed : raisedTogether.listed (.refl String) (everything 2) ["acme"] =
      [raisedAlert "a" 500000, raisedAlert "b" 400000] := by rfl
  have complete := (listings_complete_iff (.refl String) raisedTogether ⟨Table.empty⟩
    raisedTogether_storable (fun _ absent => nomatch absent) (everything 2)
    ⟨none, none, [], [], [], "", "", "", "", 2⟩ ["acme"] 3 (by decide)).1
  rw [listed] at complete
  exact complete.mpr (pagesApart_iff.mpr (Paging.clear_of_length_le (by rfl)))

/-- Of two alerts raised in one millisecond, the second is on no page when the first ends one. -/
theorem alert_lost_between_pages :
    (∀ alert ∈ raisedTogether.alerts.rows, Instant.stored alert.raisedAt = alert.raisedAt) ∧
      followed (fun cursor => raisedTogether.page (.refl String) { everything 1 with cursor }
        ["acme"]) 3 = some [raisedAlert "a" 500000] ∧
      raisedTogether.listed (.refl String) (everything 1) ["acme"] =
        [raisedAlert "a" 500000, raisedAlert "b" 400000] := by
  refine ⟨by decide, ?_, by rfl⟩
  rw [AlertStore.page_cursor, followed_eq raisedTogether.alerts.nodup_rows raisedTogether_storable]
  rfl

end Seagull.Alerts
