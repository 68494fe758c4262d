import Seagull.Agent.Lifecycle
import Seagull.Foundation.Framing
import Seagull.Foundation.Table

/-!
# The certificates of an agent

Every certificate bound to an agent is recorded, and the one it replaces is marked as superseded.  A
renewal whose answer was lost is asked again with the certificate it asked to replace and the same
request, and is answered again.
-/

namespace Seagull.Agent

open Contract

/-! ## Requests and what is presented -/

/-- Certificate signing requests. -/
structure Signing (Csr : Type) where
  /-- SHA-256 of the bytes of a request. -/
  digest : Csr → List UInt8
  digest_length : ∀ csr, (digest csr).length = 32
  digest_injective : ∀ one other, digest one = digest other → one = other
  /-- Whether a request is signed with a signature that is drawn at random: ECDSA or RSA-PSS. -/
  drawn : Csr → Bool

/-- The digest of a request that only its sender could send again. -/
def Signing.requested {Csr : Type} (signing : Signing Csr) (csr : Csr) : String :=
  if signing.drawn csr then hexEncode (signing.digest csr) else ""

/-- A certificate that is presented, by the SHA-256 of its bytes. -/
structure Presented where
  digest : List UInt8
  length_eq : digest.length = 32

def Presented.fingerprint (presented : Presented) : String := hexEncode presented.digest

/-! ## The registry -/

/-- A certificate that was recorded. -/
structure CertificateRow where
  fingerprint : String
  agentId : String
  serial : String
  subject : String
  authoritySubject : String
  issuedBy : String
  issuedAt : ℤ
  expiresAt : ℤ
  supersededAt : Option ℤ
  answered : Asked

variable {Csr : Type}

/-- What is said of a certificate when it was bound; no column of the registry. -/
structure Binding (Csr : Type) where
  agentId : String
  fingerprint : String
  /-- The request it was signed for, none for an identity an operator wrote. -/
  csr : Option Csr
  /-- The certificate its renewal presented, none if an operator bound it. -/
  presented : Option String

/-- The agents, their certificates, and every certificate that was bound. -/
structure Registry (Csr : Type) where
  agents : Table String Agent Agent.agentId
  certificates : List CertificateRow
  bindings : List (Binding Csr)

/-- Why the registry refuses. -/
inductive Refusal where
  | unknown
  | registered
  | failed (failure : Failure)
  /-- That certificate is bound to another agent. -/
  | boundElsewhere
  /-- That certificate was already recorded. -/
  | recorded

/-- The fingerprint of the certificate an agent holds, empty if none. -/
def boundFingerprint (agent : Agent) : String :=
  (agent.identity.map Identity.fingerprintSha256).getD ""

def answering (move : Move) : Asked :=
  if move.renewal then ⟨move.presentedFingerprint, move.request⟩ else ⟨"", ""⟩

/-- What was bound, as its own record. -/
def certificate (moved : Agent) (move : Move) (authority : String) : Option CertificateRow :=
  move.identity.map fun _ =>
    let identity := moved.identity.getD ⟨"", "", "", none, none⟩
    { fingerprint := identity.fingerprintSha256
      agentId := moved.agentId
      serial := identity.serial
      subject := identity.subject
      authoritySubject := authority
      issuedBy := move.actor
      issuedAt := timeOf identity.issuedAt
      expiresAt := timeOf identity.expiresAt
      supersededAt := none
      answered := answering move }

def supersede (agentId : String) (instant : ℤ) (row : CertificateRow) : CertificateRow :=
  if row.agentId = agentId ∧ row.supersededAt = none then { row with supersededAt := some instant }
  else row

/-- Record a certificate in the place of the one before it. -/
def recordCertificate (certificates : List CertificateRow) (row : CertificateRow) (instant : ℤ) :
    Except Refusal (List CertificateRow) :=
  if row.fingerprint ∈ certificates.map CertificateRow.fingerprint then .error .recorded
  else .ok (certificates.map (supersede row.agentId instant) ++ [row])

def boundAnswer (certificates : List CertificateRow) (agentId : String) : Asked :=
  ((certificates.find? fun row => row.agentId = agentId ∧ row.supersededAt = none).map
    CertificateRow.answered).getD ⟨"", ""⟩

/-- A renewal is decided with what the last one asked with. -/
def Move.reading (asked : Move) (certificates : List CertificateRow) (agentId : String) : Move :=
  if asked.renewal then { asked with bound := boundAnswer certificates agentId } else asked

def Move.binding (asked : Move) (row : CertificateRow) (csr : Option Csr) : Binding Csr where
  agentId := row.agentId
  fingerprint := row.fingerprint
  csr := csr
  presented := if asked.renewal then some asked.presentedFingerprint else none

namespace Registry

/-- Whether another agent holds a certificate. -/
def heldElsewhere (registry : Registry Csr) (agentId fingerprint : String) : Bool :=
  fingerprint ≠ "" && registry.agents.rows.any fun agent =>
    agent.agentId ≠ agentId && boundFingerprint agent = fingerprint

/-- Move an agent: read its row, decide, and write what was decided. -/
def move (registry : Registry Csr) (agentId : String) (scope : Option (List String)) (asked : Move)
    (authority : String) (csr : Option Csr) : Except Refusal (Registry Csr) :=
  match registry.agents.lookup agentId with
  | none => .error .unknown
  | some current =>
    if ∃ tenants ∈ scope, current.tenantId ∉ tenants then .error .unknown
    else
      match apply current (asked.reading registry.certificates current.agentId) with
      | .error failure => .error (.failed failure)
      | .ok (moved, _) =>
        if registry.heldElsewhere moved.agentId (boundFingerprint moved) then
          .error .boundElsewhere
        else match certificate moved asked authority with
          | none => .ok { registry with agents := registry.agents.put moved }
          | some row =>
            (recordCertificate registry.certificates row asked.instant).map fun recorded =>
              ⟨registry.agents.put moved, recorded,
                registry.bindings ++ [asked.binding row csr]⟩

def register (registry : Registry Csr) (asked : Registration) (actor : String) (instant : ℤ) :
    Except Refusal (Registry Csr) :=
  match Agent.register asked actor instant with
  | .error failure => .error (.failed failure)
  | .ok (made, _) =>
    if (registry.agents.lookup made.agentId).isSome then .error .registered
    else .ok { registry with agents := registry.agents.put made }

end Registry

/-! ## What is asked of the registry -/

/-- An act of an operator: a state, an identity, or a signed certificate. -/
structure Order where
  target : String
  identity : Option Identity
  note : String
  actor : String
  instant : ℤ
  expected : ℕ

def Order.move (order : Order) : Move where
  target := order.target
  identity := order.identity
  note := order.note
  actor := order.actor
  instant := order.instant
  presentedFingerprint := ""
  request := ""
  bound := ⟨"", ""⟩
  renewal := false
  expected := order.expected

/-- An agent asks for a renewal, with the identity that was signed for it. -/
structure Renewal (Csr : Type) where
  agentId : String
  presented : Presented
  csr : Csr
  identity : Identity
  authority : String
  instant : ℤ

def Renewal.move (signing : Signing Csr) (renewal : Renewal Csr) : Move where
  target := ""
  identity := some renewal.identity
  note := ""
  actor := renewal.agentId
  instant := renewal.instant
  presentedFingerprint := renewal.presented.fingerprint
  request := signing.requested renewal.csr
  bound := ⟨"", ""⟩
  renewal := true
  expected := 0

def Registry.renew (registry : Registry Csr) (signing : Signing Csr) (renewal : Renewal Csr) :
    Except Refusal (Registry Csr) :=
  registry.move renewal.agentId none (renewal.move signing) renewal.authority (some renewal.csr)

/-- What is asked of the registry. -/
inductive Act (Csr : Type) where
  | register (asked : Registration) (actor : String) (instant : ℤ)
  /-- An operator moves an agent or binds an identity to it, and may have had it signed. -/
  | order (agentId : String) (tenants : List String) (order : Order) (authority : String)
      (csr : Option Csr)
  | renew (renewal : Renewal Csr)

/-- What the registry makes of what is asked: a refusal changes nothing. -/
def Registry.take (signing : Signing Csr) (registry : Registry Csr) (act : Act Csr) :
    Registry Csr :=
  let answer := match act with
    | .register asked actor instant => registry.register asked actor instant
    | .order agentId tenants order authority csr =>
      registry.move agentId (some tenants) order.move authority csr
    | .renew renewal => registry.renew signing renewal
  match answer with
  | .ok changed => changed
  | .error _ => registry

def certifying (signing : Signing Csr) : System (Registry Csr) (Act Csr) where
  starts registry := registry = ⟨Table.empty, [], []⟩
  step registry act := some (registry.take signing act)

/-! ## What a move does to the certificates -/

theorem hexEncode_ne_empty {bytes : List UInt8} (solid : bytes.length = 32) : hexEncode bytes ≠ "" := by
  cases bytes with
  | nil => cases solid
  | cons byte bytes =>
    intro empty
    have letters := congrArg String.toList empty
    simp [hexEncode] at letters

theorem Presented.fingerprint_ne_empty (presented : Presented) : presented.fingerprint ≠ "" :=
  hexEncode_ne_empty presented.length_eq

@[simp]
theorem Move.reading_identity (asked : Move) (certificates : List CertificateRow) (agentId : String) :
    (asked.reading certificates agentId).identity = asked.identity := by
  unfold reading
  split <;> rfl

/-- What the registry is after a move. -/
structure Registry.Moves (registry next : Registry Csr) (agentId : String) (asked : Move)
    (csr : Option Csr) (current : Agent) (state : AgentState) : Prop where
  found : registry.agents.lookup agentId = some current
  accepts : Accepts current state (asked.reading registry.certificates agentId)
  agents : next.agents = registry.agents.put
    ((asked.reading registry.certificates agentId).moved current state)
  recorded : (asked.identity = none ∧ next.certificates = registry.certificates ∧
      next.bindings = registry.bindings) ∨
    ∃ identity row, asked.identity = some identity ∧
      row.fingerprint = identity.fingerprintSha256 ∧ row.agentId = agentId ∧
      row.supersededAt = none ∧ row.answered = answering asked ∧
      row.fingerprint ∉ registry.certificates.map CertificateRow.fingerprint ∧
      next.certificates =
        registry.certificates.map (supersede agentId asked.instant) ++ [row] ∧
      next.bindings = registry.bindings ++ [asked.binding row csr]

theorem Registry.moves_of_ok {registry next : Registry Csr} {agentId : String}
    {scope : Option (List String)} {asked : Move} {authority : String} {csr : Option Csr}
    (accepted : registry.move agentId scope asked authority csr = .ok next) :
    ∃ current state, registry.Moves next agentId asked csr current state := by
  unfold move at accepted
  split at accepted
  · cases accepted
  · rename_i current found
    have same_id : current.agentId = agentId := Table.key_of_lookup found
    split at accepted
    · cases accepted
    · split at accepted
      · cases accepted
      · rename_i moved line applied
        rw [same_id] at applied
        obtain ⟨state, accepts, rfl, -⟩ := apply_eq_ok_iff.mp applied
        split at accepted
        · cases accepted
        · split at accepted
          · rename_i unbound
            cases accepted
            exact ⟨current, state, found, accepts, rfl,
              .inl ⟨by simpa [certificate] using unbound, rfl, rfl⟩⟩
          · rename_i row bound
            obtain ⟨recorded, kept, rfl⟩ := mapped_eq_ok.mp accepted
            obtain ⟨identity, identity_eq, row_eq⟩ := Option.map_eq_some_iff.mp bound
            have moved_identity : ((asked.reading registry.certificates agentId).moved current
                state).identity = some identity := by
              rw [Move.moved, Move.reading_identity, identity_eq, Option.some_or]
            rw [moved_identity, Option.getD_some] at row_eq
            subst row_eq
            rw [recordCertificate] at kept
            split at kept
            · cases kept
            · rename_i fresh
              cases kept
              refine ⟨current, state, found, accepts, rfl, .inr ⟨identity, _, identity_eq, rfl,
                same_id, rfl, rfl, fresh, ?_, rfl⟩⟩
              rw [show ((asked.reading registry.certificates agentId).moved current state).agentId =
                agentId from same_id]

/-! ## One certificate at a time -/

def Binding.asked (signing : Signing Csr) (binding : Binding Csr) : Asked :=
  match binding.presented, binding.csr with
  | some presented, some csr => ⟨presented, signing.requested csr⟩
  | _, _ => ⟨"", ""⟩

namespace Registry

def bindingsOf (registry : Registry Csr) (agentId : String) : List (Binding Csr) :=
  registry.bindings.filter fun binding => binding.agentId = agentId

def bound (registry : Registry Csr) (agentId : String) : Option String :=
  (registry.agents.lookup agentId).bind fun agent => agent.identity.map Identity.fingerprintSha256

end Registry

/-- A renewal presents what was bound last, or asks again what that answered. -/
def Link (signing : Signing Csr) (before : List (Binding Csr)) (next : Binding Csr) : Prop :=
  ∀ presented, next.presented = some presented →
    before.getLast?.map Binding.fingerprint = some presented ∨
      ∃ last, before.getLast? = some last ∧ last.asked signing = next.asked signing ∧
        (next.asked signing).request ≠ ""

/-- Bindings each of which links to those before it. -/
inductive Linked (signing : Signing Csr) : List (Binding Csr) → Prop where
  | nil : Linked signing []
  | concat {before : List (Binding Csr)} {next : Binding Csr} (linked : Linked signing before)
      (link : Link signing before next) : Linked signing (before ++ [next])

/-- What the registry keeps of certificates. -/
structure Registry.Recorded (signing : Signing Csr) (registry : Registry Csr) : Prop where
  distinct : (registry.certificates.map CertificateRow.fingerprint).Nodup
  bound : ∀ agentId, registry.bound agentId =
    (registry.bindingsOf agentId).getLast?.map Binding.fingerprint
  /-- A certificate that is not superseded is the one bound last, with what it answered. -/
  current : ∀ row ∈ registry.certificates, row.supersededAt = none →
    ∃ last, (registry.bindingsOf row.agentId).getLast? = some last ∧
      row.fingerprint = last.fingerprint ∧ row.answered = last.asked signing
  linked : ∀ agentId, Linked signing (registry.bindingsOf agentId)

namespace Registry.Recorded

variable {signing : Signing Csr} {registry next : Registry Csr}

section

variable (recorded : registry.Recorded signing)

include recorded

theorem link {renewal : Renewal Csr} {current : Agent}
    {state : AgentState} (found : registry.agents.lookup renewal.agentId = some current)
    (accepts : Accepts current state
      ((renewal.move signing).reading registry.certificates renewal.agentId)) :
    registry.bound renewal.agentId = some renewal.presented.fingerprint ∨
      ∃ last, (registry.bindingsOf renewal.agentId).getLast? = some last ∧
        last.asked signing = ⟨renewal.presented.fingerprint, signing.requested renewal.csr⟩ ∧
        signing.requested renewal.csr ≠ "" := by
  obtain ⟨-, -, -, renews, -⟩ := permitted_eq_ok_iff.mp accepts.permitted
  obtain ⟨-, holds_it | asks_again⟩ := renews rfl rfl
  · left
    rw [Registry.bound, found, Option.bind_some]
    change renewal.presented.fingerprint =
      (current.identity.map Identity.fingerprintSha256).getD "" at holds_it
    cases held : current.identity.map Identity.fingerprintSha256 with
    | none =>
      rw [held] at holds_it
      exact absurd holds_it renewal.presented.fingerprint_ne_empty
    | some fingerprint => rw [held, Option.getD_some] at holds_it; rw [holds_it]
  · right
    have again : signing.requested renewal.csr ≠ "" ∧
        signing.requested renewal.csr =
          (boundAnswer registry.certificates renewal.agentId).request ∧
        renewal.presented.fingerprint =
          (boundAnswer registry.certificates renewal.agentId).presented := by
      simpa [Move.asksAgain, Move.reading, Renewal.move, and_assoc] using asks_again
    obtain ⟨solid, same_request, same_presented⟩ := again
    unfold boundAnswer at same_request same_presented
    cases answered : registry.certificates.find? fun row =>
        row.agentId = renewal.agentId ∧ row.supersededAt = none with
    | none =>
      rw [answered] at same_request
      exact absurd same_request solid
    | some row =>
      rw [answered] at same_request same_presented
      have row_is := List.find?_some answered
      simp only [Bool.decide_and, Bool.and_eq_true, decide_eq_true_eq] at row_is
      obtain ⟨last, last_eq, -, answered_eq⟩ :=
        recorded.current row (List.mem_of_find?_eq_some answered) row_is.2
      rw [row_is.1] at last_eq
      refine ⟨last, last_eq, ?_, solid⟩
      rw [← answered_eq, same_request, same_presented]
      rfl

omit recorded in
theorem start : Recorded signing (⟨Table.empty, [], []⟩ : Registry Csr) where
  distinct := List.nodup_nil
  bound _ := rfl
  current := nofun
  linked _ := .nil

theorem register {asked : Registration} {actor : String}
    {instant : ℤ} (accepted : registry.register asked actor instant = .ok next) :
    next.Recorded signing := by
  unfold Registry.register at accepted
  split at accepted
  · cases accepted
  · rename_i made line registers
    split at accepted
    · cases accepted
    · rename_i unknown
      cases accepted
      refine ⟨recorded.distinct, fun agentId => ?_, recorded.current, recorded.linked⟩
      refine Eq.trans ?_ (recorded.bound agentId)
      obtain ⟨-, -, rfl, -⟩ := register_eq_ok registers
      rw [Registry.bound, Registry.bound, Table.lookup_put]
      split
      · rename_i same
        rw [Option.not_isSome_iff_eq_none, ← same] at unknown
        rw [unknown]
        rfl
      · rfl

theorem moved {agentId : String} {asked : Move}
    {csr : Option Csr} {current : Agent} {state : AgentState}
    (moves : registry.Moves next agentId asked csr current state)
    (answers : ∀ row, (asked.binding row csr).asked signing = answering asked)
    (links : ∀ row, Link signing (registry.bindingsOf agentId) (asked.binding row csr)) :
    next.Recorded signing := by
  have same_id : current.agentId = agentId := Table.key_of_lookup moves.found
  have lookups : ∀ other, next.agents.lookup other = if other = agentId then
      some ((asked.reading registry.certificates agentId).moved current state)
        else registry.agents.lookup other := by
    intro other
    rw [moves.agents, Table.lookup_put,
      show ((asked.reading registry.certificates agentId).moved current state).agentId = agentId
        from same_id]
  rcases moves.recorded with ⟨unbinding, same_rows, same_bindings⟩ |
    ⟨identity, row, identity_eq, row_fingerprint, row_agent, row_current, row_answered, fresh,
      rows_eq, bindings_eq⟩
  · have same_of : ∀ other, next.bindingsOf other = registry.bindingsOf other := fun other => by
      rw [bindingsOf, bindingsOf, same_bindings]
    refine ⟨same_rows ▸ recorded.distinct, fun other => ?_, ?_, fun other => ?_⟩
    · rw [same_of, ← recorded.bound, Registry.bound, Registry.bound, lookups]
      split
      · rename_i same
        rw [same, moves.found, Option.bind_some, Option.bind_some, Move.moved, Move.reading_identity,
          unbinding, Option.none_or]
      · rfl
    · rw [same_rows]
      intro held member unsuperseded
      rw [same_of]
      exact recorded.current held member unsuperseded
    · rw [same_of]
      exact recorded.linked other
  · have own : next.bindingsOf agentId = registry.bindingsOf agentId ++ [asked.binding row csr] := by
      rw [bindingsOf, bindings_eq, List.filter_append, bindingsOf]
      simp [Move.binding, row_agent]
    have others : ∀ other, other ≠ agentId → next.bindingsOf other = registry.bindingsOf other := by
      intro other differs
      rw [bindingsOf, bindings_eq, List.filter_append, bindingsOf]
      simp [Move.binding, row_agent, differs.symm]
    refine ⟨?_, fun other => ?_, ?_, fun other => ?_⟩
    · rw [rows_eq, List.map_append, List.map_map]
      have same_prints : CertificateRow.fingerprint ∘ supersede agentId asked.instant =
          CertificateRow.fingerprint := by
        funext held
        simp only [Function.comp_apply, supersede]
        split <;> rfl
      rw [same_prints]
      exact List.nodup_append.mpr ⟨recorded.distinct, List.nodup_singleton _, by
        rintro one one_mem other other_mem rfl
        exact fresh (List.mem_singleton.mp other_mem ▸ one_mem)⟩
    · by_cases same : other = agentId
      · subst same
        rw [own, Registry.bound, lookups, if_pos rfl, Option.bind_some, Move.moved,
          Move.reading_identity, identity_eq, List.getLast?_concat]
        simp [Move.binding, row_fingerprint]
      · rw [others other same, ← recorded.bound, Registry.bound, Registry.bound, lookups,
          if_neg same]
    · rw [rows_eq]
      intro held member unsuperseded
      rcases List.mem_append.mp member with before | itself
      · obtain ⟨old, old_mem, rfl⟩ := List.mem_map.mp before
        unfold supersede at unsuperseded ⊢
        split at unsuperseded
        · cases unsuperseded
        · rename_i kept
          have differs : old.agentId ≠ agentId := fun same => kept ⟨same, unsuperseded⟩
          rw [if_neg kept, others _ differs]
          exact recorded.current old old_mem unsuperseded
      · rw [List.mem_singleton.mp itself, row_agent, own, List.getLast?_concat]
        exact ⟨_, rfl, rfl, row_answered.trans (answers row).symm⟩
    · by_cases same : other = agentId
      · subst same
        rw [own]
        exact (recorded.linked other).concat (links row)
      · rw [others other same]
        exact recorded.linked other

theorem order {agentId : String} {tenants : List String}
    {order : Order} {authority : String} {csr : Option Csr}
    (accepted : registry.move agentId (some tenants) order.move authority csr = .ok next) :
    next.Recorded signing := by
  obtain ⟨current, state, moves⟩ := moves_of_ok accepted
  exact recorded.moved moves (fun row => rfl) fun row presented absent => by cases absent

theorem renew {renewal : Renewal Csr}
    (accepted : registry.renew signing renewal = .ok next) : next.Recorded signing := by
  obtain ⟨current, state, moves⟩ := moves_of_ok accepted
  refine recorded.moved moves (fun row => rfl) fun row presented presented_eq => ?_
  cases presented_eq
  rw [← recorded.bound]
  exact recorded.link moves.found moves.accepts

theorem take (act : Act Csr) :
    (registry.take signing act).Recorded signing := by
  unfold Registry.take
  simp only
  split
  · rename_i changed accepted
    cases act with
    | register asked actor instant => exact recorded.register accepted
    | order agentId tenants order authority csr => exact recorded.order accepted
    | renew renewal => exact recorded.renew accepted
  · exact recorded

end


end Registry.Recorded

variable {signing : Signing Csr}

theorem recorded_of_reaches {registry : Registry Csr}
    (reached : (certifying signing).Reaches registry) : registry.Recorded signing :=
  reached.invariant (fun start starts => starts ▸ .start) fun before act after recorded stepped => by
    cases stepped
    exact recorded.take act

/-! ## Renewals asked again -/

theorem Signing.csr_of_requested {one other : Csr} (solid : signing.requested other ≠ "")
    (same : signing.requested one = signing.requested other) : one = other := by
  have drawn : ∀ {csr}, signing.requested csr ≠ "" →
      signing.requested csr = hexEncode (signing.digest csr) := by
    intro csr named
    unfold requested at named ⊢
    split at named
    · rename_i is_drawn
      exact if_pos is_drawn
    · exact absurd rfl named
  rw [drawn (same ▸ solid), drawn solid] at same
  exact signing.digest_injective one other (hexEncode_injective same)

theorem Binding.of_asked {binding : Binding Csr} {presented : String} {csr : Csr}
    (solid : signing.requested csr ≠ "")
    (asked : binding.asked signing = ⟨presented, signing.requested csr⟩) :
    binding.presented = some presented ∧ binding.csr = some csr := by
  unfold Binding.asked at asked
  split at asked
  · rename_i shown signed shown_eq signed_eq
    obtain ⟨rfl, same_request⟩ := Asked.mk.inj asked
    exact ⟨shown_eq, signed_eq.trans (congrArg some (Signing.csr_of_requested solid same_request))⟩
  · exact absurd (Asked.mk.inj asked).2.symm solid

theorem Linked.exists_first {bindings : List (Binding Csr)} (linked : Linked signing bindings)
    {last : Binding Csr} (last_eq : bindings.getLast? = some last) {presented : String} {csr : Csr}
    (solid : signing.requested csr ≠ "")
    (asked : last.asked signing = ⟨presented, signing.requested csr⟩) :
    ∃ earlier first later, bindings = earlier ++ first :: later ∧
      earlier.getLast?.map Binding.fingerprint = some presented ∧
      ∀ binding ∈ first :: later, binding.presented = some presented ∧ binding.csr = some csr := by
  induction linked generalizing last with
  | nil => cases last_eq
  | @concat before next linked link ih =>
    rw [List.getLast?_concat, Option.some.injEq] at last_eq
    subst last_eq
    have said := Binding.of_asked solid asked
    rcases link presented said.1 with was_bound | ⟨last, last_eq, same, -⟩
    · exact ⟨before, next, [], rfl, was_bound, by simpa using said⟩
    · obtain ⟨earlier, first, later, rfl, was_bound, answered⟩ := ih last_eq (same.trans asked)
      refine ⟨earlier, first, later ++ [next], by simp, was_bound, fun binding member => ?_⟩
      rw [← List.cons_append] at member
      rcases List.mem_append.mp member with before | itself
      · exact answered binding before
      · exact List.mem_singleton.mp itself ▸ said

/-! ## A sensor that renews -/

def oneRequest : Signing Unit where
  digest _ := List.replicate 32 7
  digest_length _ := rfl
  digest_injective _ _ _ := rfl
  drawn _ := true

/-- The certificate whose digest repeats a byte. -/
def presentedOf (byte : UInt8) : Presented := ⟨List.replicate 32 byte, List.length_replicate⟩

def sensorIdentityOf (byte : UInt8) : Identity :=
  { sensorIdentity with fingerprintSha256 := (presentedOf byte).fingerprint }

def sensorRenewal (shown issued : UInt8) : Renewal Unit where
  agentId := "sensor-1"
  presented := presentedOf shown
  csr := ()
  identity := sensorIdentityOf issued
  authority := "root"
  instant := 0

/-- The sensor is registered and an operator binds its first certificate. -/
def sensorBound : List (Act Unit) :=
  [.register sensor "operator" 0,
    .order "sensor-1" ["acme"] ⟨"", some (sensorIdentityOf 1), "", "operator", 0, 0⟩ "" none]

def sensorRegistry (renewals : List (Renewal Unit)) : Registry Unit :=
  (sensorBound ++ renewals.map Act.renew).foldl (Registry.take oneRequest) ⟨Table.empty, [], []⟩

theorem reaches_sensorRegistry (renewals : List (Renewal Unit)) :
    (certifying oneRequest).Reaches (sensorRegistry renewals) := by
  have total : ∀ (acts : List (Act Unit)) registry, (certifying oneRequest).run registry acts =
      some (acts.foldl (Registry.take oneRequest) registry) := by
    intro acts
    induction acts with
    | nil => exact fun registry => rfl
    | cons act acts ih => exact fun registry => ih (registry.take oneRequest act)
  exact ⟨_, sensorBound ++ renewals.map Act.renew, rfl, total _ _⟩

/-- At most one certificate of an agent is not superseded, and it is the one that is bound.  A
renewal that presents another is accepted only if it asks again: some renewal before presented it
while it was bound, with the same request, and every certificate bound since answered that renewal.
-/
theorem renewal_asks_again {signing : Signing Csr} {registry : Registry Csr}
    (reached : (certifying signing).Reaches registry) (agentId : String) :
    (∀ row ∈ registry.certificates, row.agentId = agentId → row.supersededAt = none →
      registry.bound agentId = some row.fingerprint ∧
        ∀ other ∈ registry.certificates, other.agentId = agentId → other.supersededAt = none →
          other = row) ∧
      ∀ renewal next, renewal.agentId = agentId → registry.renew signing renewal = .ok next →
        registry.bound agentId ≠ some renewal.presented.fingerprint →
          ∃ earlier first later, registry.bindingsOf agentId = earlier ++ first :: later ∧
            earlier.getLast?.map Binding.fingerprint = some renewal.presented.fingerprint ∧
            (∀ binding ∈ first :: later,
              binding.presented = some renewal.presented.fingerprint ∧
                binding.csr = some renewal.csr) ∧
            registry.bound agentId = (first :: later).getLast?.map Binding.fingerprint := by
  have recorded := recorded_of_reaches reached
  refine ⟨fun row row_mem row_agent row_current => ?_, ?_⟩
  · obtain ⟨last, last_eq, same_print, -⟩ := recorded.current row row_mem row_current
    rw [row_agent] at last_eq
    refine ⟨?_, fun other other_mem other_agent other_current => ?_⟩
    · rw [recorded.bound, last_eq, Option.map_some, same_print]
    · obtain ⟨again, again_eq, other_print, -⟩ := recorded.current other other_mem other_current
      rw [other_agent, last_eq, Option.some.injEq] at again_eq
      refine List.inj_on_of_nodup_map recorded.distinct other_mem row_mem ?_
      rw [other_print, same_print, again_eq]
  · rintro renewal next rfl accepted replaced
    obtain ⟨current, state, moves⟩ := Registry.moves_of_ok accepted
    rcases recorded.link moves.found moves.accepts with still_bound | ⟨last, last_eq, asked, solid⟩
    · exact absurd still_bound replaced
    · obtain ⟨earlier, first, later, parts, was_bound, answered⟩ :=
        (recorded.linked renewal.agentId).exists_first last_eq solid asked
      refine ⟨earlier, first, later, parts, was_bound, answered, ?_⟩
      rw [recorded.bound, parts, List.getLast?_append_of_ne_nil _ (List.cons_ne_nil _ _)]

/-- A sensor whose answer was lost asks again with the certificate it replaces. -/
theorem renewal_asks_again_sensor :
    ∃ next, (sensorRegistry [sensorRenewal 1 2]).renew oneRequest (sensorRenewal 1 3) = .ok next ∧
      ∃ earlier first later,
        (sensorRegistry [sensorRenewal 1 2]).bindingsOf "sensor-1" = earlier ++ first :: later ∧
        earlier.getLast?.map Binding.fingerprint = some (presentedOf 1).fingerprint ∧
        first.csr = some () := by
  obtain ⟨accepted, replaced⟩ : ((sensorRegistry [sensorRenewal 1 2]).renew oneRequest
        (sensorRenewal 1 3)).toOption.isSome ∧
      (sensorRegistry [sensorRenewal 1 2]).bound "sensor-1" ≠ some (presentedOf 1).fingerprint := by
    decide +kernel
  cases answer : (sensorRegistry [sensorRenewal 1 2]).renew oneRequest (sensorRenewal 1 3) with
  | error refusal =>
    rw [answer] at accepted
    cases accepted
  | ok next =>
    obtain ⟨earlier, first, later, parts, was_bound, answered, -⟩ :=
      (renewal_asks_again (reaches_sensorRegistry _) "sensor-1").2 _ _ rfl answer replaced
    exact ⟨next, rfl, earlier, first, later, parts, was_bound,
      (answered first List.mem_cons_self).2⟩

/-- A sensor renewed twice with one request asks again with its second certificate: the request was
first answered for the one before. -/
theorem request_first_answered_for_another :
    (certifying oneRequest).Reaches (sensorRegistry [sensorRenewal 1 2, sensorRenewal 2 3]) ∧
      ((sensorRegistry [sensorRenewal 1 2, sensorRenewal 2 3]).renew oneRequest
        (sensorRenewal 2 4)).toOption.isSome ∧
      (sensorRegistry [sensorRenewal 1 2, sensorRenewal 2 3]).bound "sensor-1" =
        some (presentedOf 3).fingerprint ∧
      (((sensorRegistry [sensorRenewal 1 2, sensorRenewal 2 3]).bindingsOf "sensor-1").find?
        fun binding => binding.csr = some ()).map Binding.presented =
          some (some (presentedOf 1).fingerprint) ∧
      (presentedOf 1).fingerprint ≠ (presentedOf 2).fingerprint ∧
      (presentedOf 2).fingerprint ≠ (presentedOf 3).fingerprint :=
  ⟨reaches_sensorRegistry _, by decide +kernel⟩

end Seagull.Agent
