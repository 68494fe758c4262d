import Seagull.AgentUpdate.Root
import Seagull.Foundation.Transition

/-!
# The chain of trust

Each root held after the anchor is the next version of the one before, and carries valid signatures
of a threshold of distinct keys of both.  Whoever holds the anchor walks the served roots to the
newest one, at any later time.
-/

namespace Seagull.AgentUpdate

variable {κ : Type} {library : Library κ}

@[simp]
theorem wrapped_eq_ok {α : Type} {wrap : Failure → Failure} {part : Except Failure α} {value : α} :
    wrapped wrap part = .ok value ↔ part = .ok value := by
  cases part <;> simp [wrapped]

theorem foldl_counts {α σ : Type} {count : σ → List String → α → List String} {name : α → String}
    {Made : α → σ → Prop} (counts : ∀ signature signed candidate,
      count signature signed candidate = signed ∨ name candidate ∉ signed ∧
        Made candidate signature ∧ count signature signed candidate = signed ++ [name candidate])
    (candidates : List α) (signatures : List σ) :
    (signatures.foldl (fun signed signature => candidates.foldl (count signature) signed) []).Nodup ∧
      ∀ named ∈ signatures.foldl (fun signed signature => candidates.foldl (count signature) signed) [],
        ∃ candidate ∈ candidates, name candidate = named ∧
          ∃ signature ∈ signatures, Made candidate signature := by
  let Counts (signed : List String) : Prop := signed.Nodup ∧ ∀ named ∈ signed,
    ∃ candidate ∈ candidates, name candidate = named ∧ ∃ signature ∈ signatures, Made candidate signature
  have none_counted : Counts [] := ⟨List.nodup_nil, by simp⟩
  refine List.foldlRecOn signatures _ none_counted fun signed counted signature signature_mem => ?_
  refine List.foldlRecOn candidates _ counted fun signed counted candidate candidate_mem => ?_
  rcases counts signature signed candidate with same | ⟨fresh, made, longer⟩
  · rw [same]
    exact counted
  · rw [longer]
    refine ⟨counted.1.append (List.nodup_singleton _) (by simpa using fresh), ?_⟩
    intro other other_mem
    rcases List.mem_append.mp other_mem with before | itself
    · exact counted.2 other before
    · exact ⟨candidate, candidate_mem, (List.mem_singleton.mp itself).symm, signature, signature_mem,
        made⟩

theorem countIn_cases (library : Library κ) (keys : FiniteMap String κ) (digest : Bytes)
    (signature : Signature) (signed : List String) (keyid : String) :
    countIn library keys digest signature signed keyid = signed ∨ keyid ∉ signed ∧
      (∃ key, keys.lookup keyid = some key ∧ library.verify key digest signature.sig = true) ∧
      countIn library keys digest signature signed keyid = signed ++ [keyid] := by
  unfold countIn
  split
  · exact .inl rfl
  · rename_i key found
    split
    · rename_i once
      exact .inr ⟨once.1, ⟨key, found, once.2⟩, rfl⟩
    · exact .inl rfl

variable {keys : FiniteMap String κ} {envelope : Envelope}

theorem signedBy_eq_ok {role : Option Role} {payloadType : String} {signed : List String}
    (accepted : signedBy library keys role payloadType envelope = .ok signed) :
    envelope.payloadType = payloadType ∧ (role.getD ⟨[], 0⟩).threshold ≤ signed.length ∧
      signed.Nodup ∧ ∀ keyid ∈ signed, keyid ∈ (role.getD ⟨[], 0⟩).keyids ∧
        ∃ key, keys.lookup keyid = some key ∧ ∃ signature ∈ envelope.signatures,
          library.verify key (digest library payloadType envelope.payload) signature.sig = true := by
  simp only [signedBy, passes_eq_ok, refuse_eq_ok, pure_eq_ok, not_not] at accepted
  obtain ⟨declared, -, -, -, -, enough, rfl⟩ := accepted
  obtain ⟨distinct, each⟩ := foldl_counts
    (countIn_cases library keys (digest library payloadType envelope.payload))
    (role.getD ⟨[], 0⟩).keyids envelope.signatures
  have sorted := List.perm_insertionSort (· ≤ ·) (counted library keys (role.getD ⟨[], 0⟩).keyids
    (digest library payloadType envelope.payload) envelope.signatures)
  refine ⟨declared, sorted.length_eq ▸ not_lt.mp enough, sorted.nodup_iff.mpr distinct, ?_⟩
  intro keyid keyid_mem
  obtain ⟨keyid, in_role, rfl, signature, signature_mem, key, found, verified⟩ :=
    each keyid (sorted.mem_iff.mp keyid_mem)
  exact ⟨in_role, key, found, signature, signature_mem, verified⟩

/-- The decoded keys are those a root names, by the digests of their encodings. -/
def Names (library : Library κ) (named : List Key) (keys : FiniteMap String κ) : Prop :=
  ∀ keyid decoded, keys.lookup keyid = some decoded →
    ∃ key ∈ named, key.keyid = keyid ∧ keyid = keyID library key.publicKey ∧
      library.parsePKIXPublicKey key.publicKey = .p256 decoded

theorem publicKey_eq_ok {after : FiniteMap String κ} {key : Key}
    (accepted : publicKey library keys key = .ok after) :
    key.keyid = keyID library key.publicKey ∧
      ∃ decoded, library.parsePKIXPublicKey key.publicKey = .p256 decoded ∧
        after = keys.insert key.keyid decoded := by
  simp only [publicKey, passes_eq_ok, refuse_eq_ok, not_not] at accepted
  obtain ⟨is_digest, -, parsed⟩ := accepted
  split at parsed
  · cases parsed
  · cases parsed
  · rename_i decoded parsed_eq
    exact ⟨is_digest, decoded, parsed_eq, (pure_eq_ok.mp parsed).symm⟩

theorem names_of_publicKeys {named : List Key} (accepted : publicKeys library named = .ok keys) :
    Names library named keys := by
  simp only [publicKeys, passes_eq_ok] at accepted
  have general : ∀ (rest : List Key) (before after : FiniteMap String κ), rest ⊆ named →
      Names library named before → rest.foldlM (publicKey library) before = .ok after →
      Names library named after := by
    intro rest
    induction rest with
    | nil =>
      intro before after _ names folded
      exact pure_eq_ok.mp folded ▸ names
    | cons key rest ih =>
      intro before after subset names folded
      rw [List.foldlM_cons, checked_eq_ok] at folded
      obtain ⟨between, added, folded⟩ := folded
      obtain ⟨is_digest, decoded, parsed, rfl⟩ := publicKey_eq_ok added
      refine ih _ after (fun other member => subset (List.mem_cons_of_mem _ member)) ?_ folded
      intro keyid other found
      rw [FiniteMap.lookup_insert] at found
      split at found
      · rename_i same
        cases found
        exact ⟨key, subset List.mem_cons_self, same.symm, same.trans is_digest, parsed⟩
      · exact names keyid other found
  exact general named FiniteMap.empty keys (fun _ member => member) (by simp [Names]) accepted.2

/-- A root is held with the keys it names, and asks for at least one. -/
structure Held (library : Library κ) (message : RootMessage) (keys : FiniteMap String κ) : Prop where
  names : Names library message.keys keys
  role : ∃ held, message.root = some held ∧ 0 < held.threshold

theorem role_eq_ok {name : String} {held : Option Role} (accepted : role name held keys = .ok ()) :
    ∃ role, held = some role ∧ 0 < role.threshold := by
  cases held with
  | none => cases accepted
  | some held =>
    simp only [role, passes_eq_ok, refuse_eq_ok, not_or] at accepted
    exact ⟨held, rfl, Nat.pos_of_ne_zero accepted.2.1.1⟩

variable {now : ℤ}

theorem decodeRoot_eq_ok {payload : Bytes} {message : RootMessage}
    (accepted : decodeRoot library payload now = .ok (message, keys)) :
    library.unmarshalRoot payload = some message ∧ Held library message keys := by
  unfold decodeRoot at accepted
  split at accepted
  · cases accepted
  · rename_i read found
    simp only [checked_eq_ok, exists_passed, pure_eq_ok, Prod.mk.injEq] at accepted
    obtain ⟨-, -, -, -, decoded, named, vouches, -, rfl, rfl⟩ := accepted
    exact ⟨found, names_of_publicKeys named, role_eq_ok vouches⟩

variable {later : ℤ}

theorem lifetime_later {what : String} {issued expires : Option Contract.Timestamp}
    (accepted : lifetime what issued expires now = .ok ()) (passed : now ≤ later) :
    lifetime what issued expires later = .ok () := by
  simp only [lifetime, passes_eq_ok, refuse_eq_ok] at accepted ⊢
  obtain ⟨issue, expiry, ahead, rest⟩ := accepted
  exact ⟨issue, expiry, by omega, rest⟩

theorem decodeRoot_later {payload : Bytes} {result : RootMessage × FiniteMap String κ}
    (accepted : decodeRoot library payload now = .ok result) (passed : now ≤ later) :
    decodeRoot library payload later = .ok result := by
  unfold decodeRoot at accepted ⊢
  split at accepted
  · cases accepted
  · rename_i read found
    simp only [passes_eq_ok] at accepted ⊢
    obtain ⟨known, schema, counted, alive, rest⟩ := accepted
    exact ⟨known, schema, counted, lifetime_later alive passed, rest⟩

variable {served : Bytes}

theorem decode_of_encode (encoded : encode library envelope = .ok served) :
    decode library served = .ok envelope := by
  unfold encode at encoded
  split at encoded
  · cases encoded
  · rename_i marshalled found
    simp only [passes_eq_ok, pure_eq_ok] at encoded
    obtain ⟨short, rfl⟩ := encoded
    simp only [decode, passes_eq_ok, library.unmarshal_marshal envelope marshalled found]
    exact ⟨short, rfl⟩

/-- A root names no key under two encodings. -/
def OneEncoding (library : Library κ) (message : RootMessage) : Prop :=
  ∀ key ∈ message.keys, ∀ other ∈ message.keys, ∀ decoded,
    library.parsePKIXPublicKey key.publicKey = .p256 decoded →
    library.parsePKIXPublicKey other.publicKey = .p256 decoded → key.publicKey = other.publicKey

/-- An envelope carries signatures of a threshold of a root's keys.  Their encodings are distinct,
and so are they where the root names no key under two encodings. -/
def Vouches (library : Library κ) (message : RootMessage) (envelope : Envelope) : Prop :=
  ∃ (held : Role) (signers : List (Key × κ)), message.root = some held ∧ 0 < held.threshold ∧
    held.threshold ≤ signers.length ∧ (signers.map fun signer => signer.1.publicKey).Nodup ∧
    (OneEncoding library message → (signers.map Prod.snd).Nodup) ∧
    ∀ signer ∈ signers, signer.1 ∈ message.keys ∧ signer.1.keyid ∈ held.keyids ∧
      library.parsePKIXPublicKey signer.1.publicKey = .p256 signer.2 ∧
        ∃ signature ∈ envelope.signatures, library.verify signer.2
          (digest library rootPayloadType envelope.payload) signature.sig = true

theorem exists_named {α : Type} {name : α → String} {ids : List String} (property : α → Prop)
    (named : ∀ id ∈ ids, ∃ thing, name thing = id ∧ property thing) :
    ∃ things : List α, things.map name = ids ∧ ∀ thing ∈ things, property thing := by
  induction ids with
  | nil => exact ⟨[], rfl, by simp⟩
  | cons id ids ih =>
    obtain ⟨thing, thing_id, holds⟩ := named id List.mem_cons_self
    obtain ⟨things, things_ids, all⟩ := ih fun other member => named other (List.mem_cons_of_mem _ member)
    refine ⟨thing :: things, by rw [List.map_cons, thing_id, things_ids], ?_⟩
    exact List.forall_mem_cons.mpr ⟨holds, all⟩

theorem vouches_of_signedBy {message : RootMessage} {signed : List String}
    (held : Held library message keys)
    (accepted : signedBy library keys message.root rootPayloadType envelope = .ok signed) :
    envelope.payloadType = rootPayloadType ∧ Vouches library message envelope := by
  obtain ⟨role, role_eq, positive⟩ := held.role
  rw [role_eq] at accepted
  obtain ⟨declared, enough, distinct, each⟩ := signedBy_eq_ok accepted
  obtain ⟨chosen, chosen_ids, all⟩ := @exists_named (Key × κ) (fun signer => signer.1.keyid) _
    (fun signer => signer.1 ∈ message.keys ∧ signer.1.keyid ∈ role.keyids ∧
      signer.1.keyid = keyID library signer.1.publicKey ∧
      library.parsePKIXPublicKey signer.1.publicKey = .p256 signer.2 ∧
        ∃ signature ∈ envelope.signatures, library.verify signer.2
          (digest library rootPayloadType envelope.payload) signature.sig = true) <| by
    intro keyid member
    obtain ⟨in_role, decoded, found, verified⟩ := each keyid member
    obtain ⟨key, key_mem, key_id, is_digest, parsed⟩ := held.names keyid decoded found
    exact ⟨(key, decoded), key_id, key_mem, key_id ▸ in_role, key_id.trans is_digest, parsed,
      verified⟩
  -- Keys under distinct identifiers have distinct encodings.
  have encodings : (chosen.map fun signer => signer.1.publicKey).Nodup := by
    have ids_eq : (chosen.map fun signer => signer.1.publicKey).map (keyID library) =
        chosen.map fun signer => signer.1.keyid := by
      rw [List.map_map]
      exact List.map_congr_left fun signer member => (all signer member).2.2.1.symm
    refine List.Nodup.of_map (keyID library) ?_
    rw [ids_eq, chosen_ids]
    exact distinct
  refine ⟨declared, role, chosen, role_eq, positive, ?_, encodings, fun lone => ?_, ?_⟩
  · rw [← chosen_ids, List.length_map] at enough
    exact enough
  · refine List.pairwise_map.mpr ((List.pairwise_map.mp encodings).imp_of_mem ?_)
    intro one other one_mem other_mem differ same
    obtain ⟨one_named, -, -, one_parsed, -⟩ := all one one_mem
    obtain ⟨other_named, -, -, other_parsed, -⟩ := all other other_mem
    exact differ (lone _ one_named _ other_named _ one_parsed (same ▸ other_parsed))
  · intro signer member
    obtain ⟨key_mem, in_role, -, verified⟩ := all signer member
    exact ⟨key_mem, in_role, verified⟩

/-- A root is the next version after another, and a threshold of the keys of each vouches for it. -/
def Follows (library : Library κ) (before after : Root κ) : Prop :=
  after.version = before.version + 1 ∧
    ∃ envelope, decode library after.served = .ok envelope ∧
      envelope.payloadType = rootPayloadType ∧
      library.unmarshalRoot envelope.payload = some after.message ∧
      Vouches library before.message envelope ∧ Vouches library after.message envelope

variable {root : Root κ}

theorem next_eq_ok {next : Root κ} (held : Held library root.message root.keys)
    (accepted : root.next library envelope now = .ok next) :
    Held library next.message next.keys ∧ decode library next.served = .ok envelope ∧
      Follows library root next := by
  simp only [Root.next, checked_eq_ok, exists_passed, wrapped_eq_ok, refuse_eq_ok, pure_eq_ok,
    not_not] at accepted
  obtain ⟨before, vouched, ⟨message, keys⟩, decoded, -, version_eq, after, own, encoded,
    encoded_eq, rfl⟩ := accepted
  obtain ⟨payload_eq, next_held⟩ := decodeRoot_eq_ok decoded
  have served := decode_of_encode encoded_eq
  obtain ⟨declared, vouches⟩ := vouches_of_signedBy held vouched
  exact ⟨next_held, served, version_eq, envelope, served, declared, payload_eq, vouches,
    (vouches_of_signedBy next_held own).2⟩

theorem next_later {next : Root κ} (accepted : root.next library envelope now = .ok next)
    (passed : now ≤ later) : root.next library envelope later = .ok next := by
  simp only [Root.next, checked_eq_ok] at accepted ⊢
  obtain ⟨before, vouched, result, decoded, rest⟩ := accepted
  exact ⟨before, vouched, result, decodeRoot_later decoded passed, rest⟩

theorem anchor_eq_ok (accepted : anchor library served now = .ok root) :
    Held library root.message root.keys := by
  simp only [anchor, checked_eq_ok, exists_passed, wrapped_eq_ok, pure_eq_ok] at accepted
  obtain ⟨envelope, -, -, ⟨message, keys⟩, decoded, signed, -, encoded, -, rfl⟩ := accepted
  exact (decodeRoot_eq_ok decoded).2

theorem anchor_later (accepted : anchor library served now = .ok root) (passed : now ≤ later) :
    anchor library served later = .ok root := by
  simp only [anchor, checked_eq_ok, exists_passed, wrapped_eq_ok] at accepted ⊢
  obtain ⟨envelope, read, declared, result, decoded, rest⟩ := accepted
  exact ⟨envelope, read, declared, result, decodeRoot_later decoded passed, rest⟩

/-- The anchor, and the roots accepted after it, oldest first. -/
structure Chain (κ : Type) where
  anchor : Root κ
  accepted : List (Root κ)

def Chain.newest (chain : Chain κ) : Root κ := chain.accepted.getLast?.getD chain.anchor

/-- A root offered by somebody at an instant. -/
structure Offer where
  asked : RootPublication
  actor : String
  instant : ℤ

def Chain.take (library : Library κ) (chain : Chain κ) (offer : Offer) : Chain κ :=
  match acceptRoot library offer.asked chain.newest offer.actor offer.instant with
  | .error _ => chain
  | .ok (_, root) => { chain with accepted := chain.accepted ++ [root] }

def publishing (library : Library κ) : System (Chain κ) Offer where
  starts chain := ∃ served now root, anchor library served now = .ok root ∧ chain = ⟨root, []⟩
  step chain offer := some (chain.take library offer)

theorem newest_concat (chain : Chain κ) (root : Root κ) :
    Chain.newest { chain with accepted := chain.accepted ++ [root] } = root := by
  simp [Chain.newest]

theorem acceptRoot_eq_ok {asked : RootPublication} {newest : Root κ} {actor : String} {instant : ℤ}
    {record : PublishedRoot}
    (accepted : acceptRoot library asked newest actor instant = .ok (record, root)) :
    ∃ envelope, newest.next library envelope instant = .ok root := by
  simp only [acceptRoot, passes_eq_ok] at accepted
  obtain ⟨-, accepted⟩ := accepted
  split at accepted
  · cases accepted
  · rename_i envelope _
    simp only [checked_eq_ok, exists_passed, pure_eq_ok, Prod.mk.injEq] at accepted
    obtain ⟨next, next_eq, -, -, rfl⟩ := accepted
    exact ⟨envelope, next_eq⟩

/-- A root is the next one of another at an instant, read as it is served. -/
def Steps (library : Library κ) (later : ℤ) (before after : Root κ) : Prop :=
  ∃ envelope, decode library after.served = .ok envelope ∧
    before.next library envelope later = .ok after

theorem walk_of_steps {roots : List (Root κ)}
    (stepped : (root :: roots).IsChain (Steps library later)) :
    root.walk library later (roots.map Root.served) = .ok (roots.getLast?.getD root) := by
  induction roots generalizing root with
  | nil => rfl
  | cons next roots ih =>
    obtain ⟨⟨envelope, served, next_eq⟩, rest⟩ := List.isChain_cons_cons.mp stepped
    simp only [List.map_cons, Root.walk, checked_eq_ok, wrapped_eq_ok, List.getLast?_cons,
      Option.getD_some]
    exact ⟨envelope, served, next, next_eq, ih rest⟩

/-- Each root held follows the one before, and is the next one as it is served. -/
structure Trusted (library : Library κ) (later : ℤ) (chain : Chain κ) : Prop where
  linked : (chain.anchor :: chain.accepted).IsChain (Follows library)
  held : Held library chain.newest.message chain.newest.keys
  stepped : (chain.anchor :: chain.accepted).IsChain (Steps library later)

variable {chain : Chain κ}

theorem isChain_concat {relation : Root κ → Root κ → Prop}
    (along : (chain.anchor :: chain.accepted).IsChain relation) (last : relation chain.newest root) :
    (chain.anchor :: (chain.accepted ++ [root])).IsChain relation := by
  rw [← List.cons_append, List.isChain_append]
  refine ⟨along, List.isChain_singleton _, ?_⟩
  intro newest newest_eq first first_eq
  rw [List.getLast?_cons, Option.mem_def, Option.some.injEq] at newest_eq
  exact newest_eq ▸ Option.some.inj first_eq ▸ last

theorem Trusted.take (trusted : Trusted library later chain) {offer : Offer}
    (passed : offer.instant ≤ later) : Trusted library later (chain.take library offer) := by
  unfold Chain.take
  split
  · exact trusted
  · rename_i record root accepted
    obtain ⟨envelope, next_eq⟩ := acceptRoot_eq_ok accepted
    obtain ⟨root_held, served, follows⟩ := next_eq_ok trusted.held next_eq
    refine ⟨isChain_concat trusted.linked follows, ?_, isChain_concat trusted.stepped ?_⟩
    · rw [newest_concat]
      exact root_held
    · exact ⟨envelope, served, next_later next_eq passed⟩

theorem anchor_take (chain : Chain κ) (offer : Offer) :
    (chain.take library offer).anchor = chain.anchor := by
  unfold Chain.take
  split <;> rfl

theorem trusted_of_run (held : Held library root.message root.keys) {offers : List Offer}
    (ran : (publishing library).run ⟨root, []⟩ offers = some chain)
    (passed : ∀ offer ∈ offers, offer.instant ≤ later) :
    Trusted library later chain ∧ chain.anchor = root := by
  have start : Trusted library later (⟨root, []⟩ : Chain κ) ∧
      (⟨root, []⟩ : Chain κ).anchor = root :=
      ⟨⟨List.isChain_singleton _, held, List.isChain_singleton _⟩, rfl⟩
  refine @System.run_keeps _ _ _ _ (fun chain => Trusted library later chain ∧ chain.anchor = root)
    ?_ _ _ _ start (System.throughout_of_forall passed _) ran
  rintro before offer after ⟨trusted, anchor_eq⟩ offered stepped
  cases stepped
  exact ⟨trusted.take offered, (anchor_take before offer).trans anchor_eq⟩

/-- Whatever is offered, each root held after the anchor follows the one before it, signed by as many
distinct keys as both ask for where they name no key under two encodings.  A refused offer changes
nothing, and at any later time the anchor and the served roots lead to the newest root. -/
theorem chain_of_trust {served : Bytes} {now : ℤ} {root : Root κ}
    (anchored : anchor library served now = .ok root) (offers : List Offer) {chain : Chain κ}
    (ran : (publishing library).run ⟨root, []⟩ offers = some chain) :
    chain.anchor = root ∧ (root :: chain.accepted).IsChain (Follows library) ∧
    (∀ (offer : Offer) (failure : Failure),
      acceptRoot library offer.asked chain.newest offer.actor offer.instant = .error failure →
      (publishing library).step chain offer = some chain) ∧
    ∀ later, now ≤ later → (∀ offer ∈ offers, offer.instant ≤ later) →
      anchor library served later = .ok root ∧
        root.walk library later (chain.accepted.map Root.served) = .ok chain.newest := by
  have held := anchor_eq_ok anchored
  obtain ⟨last, last_le⟩ := (offers.map Offer.instant).toFinset.exists_le
  have passed : ∀ offer ∈ offers, offer.instant ≤ last := fun offer member =>
    last_le _ (List.mem_toFinset.mpr (List.mem_map_of_mem member))
  obtain ⟨trusted, anchor_eq⟩ := trusted_of_run held ran passed
  refine ⟨anchor_eq, anchor_eq ▸ trusted.linked, ?_, ?_⟩
  · intro offer failure refused
    change some (chain.take library offer) = some chain
    rw [Chain.take, refused]
  · intro later passed_anchor passed
    obtain ⟨trusted, anchor_eq⟩ := trusted_of_run held ran passed
    exact ⟨anchor_later anchored passed_anchor, anchor_eq ▸ walk_of_steps trusted.stepped⟩

/-- A root of two keys, the encodings 7 and the given one, which must both sign. -/
def twoKeys (second : Bytes) (version : ℕ) : RootMessage where
  schemaVersion := schemaVersion
  version := version
  issuedAt := some ⟨0, 0⟩
  expiresAt := some ⟨1, 0⟩
  keys := [⟨"07", [7]⟩, ⟨hexEncode second, second⟩]
  root := some ⟨["07", hexEncode second], 2⟩
  catalog := some ⟨["07"], 1⟩
  unknown := none

/-- The envelope of a root, with its signatures. -/
def signedRoot (signatures : List Signature) (version : UInt8) : Envelope :=
  ⟨[version], rootPayloadType, signatures⟩

/-- A library whose keys are the first bytes of their encodings, and their own signatures. -/
def plainLibrary (second : Bytes) (signatures : List Signature) : Library Bytes where
  sha256 bytes := bytes
  parsePKIXPublicKey der := .p256 (der.take 1)
  verify key _ signature := key == signature
  marshal envelope :=
    if envelope = signedRoot signatures 1 then some [1]
    else if envelope = signedRoot signatures 2 then some [2] else none
  unmarshal bytes :=
    if bytes = [1] then some (signedRoot signatures 1)
    else if bytes = [2] then some (signedRoot signatures 2) else none
  unmarshalRoot payload := some (twoKeys second (payload.map UInt8.toNat).sum)
  unmarshal_marshal := by
    intro envelope encoded written
    split_ifs at written with first second
    · cases written
      rw [if_pos rfl, first]
    · cases written
      rw [if_neg (by decide), if_pos rfl, second]

/-- The second root, offered with its signatures. -/
def secondRoot (signatures : List Signature) : Offer :=
  ⟨⟨some (signedRoot signatures 2), ""⟩, "operator", Contract.Timestamp.unset.asTime⟩

/-- Signatures of two keys, the first of which signed twice. -/
def twoSigned : List Signature := [⟨[7], "07"⟩, ⟨[7], "07"⟩, ⟨[8], "08"⟩]

/-- The second root is held after the first, and walked to from it when both have run out. -/
theorem chain_of_trust_two_roots :
    ∃ (root : Root Bytes) (chain : Chain Bytes),
      anchor (plainLibrary [8] twoSigned) [1] Contract.Timestamp.unset.asTime = .ok root ∧
      (publishing (plainLibrary [8] twoSigned)).run ⟨root, []⟩ [secondRoot twoSigned] =
        some chain ∧
      chain.newest.version = 2 ∧ OneEncoding (plainLibrary [8] twoSigned) root.message ∧
      (root :: chain.accepted).IsChain (Follows (plainLibrary [8] twoSigned)) ∧
      root.walk (plainLibrary [8] twoSigned) (Contract.Timestamp.unset.asTime + maxLifetime)
        [[2]] = .ok chain.newest := by
  have published : ∃ (root : Root Bytes) (chain : Chain Bytes),
      anchor (plainLibrary [8] twoSigned) [1] Contract.Timestamp.unset.asTime = .ok root ∧
      (publishing (plainLibrary [8] twoSigned)).run ⟨root, []⟩ [secondRoot twoSigned] =
        some chain ∧
      chain.newest.version = 2 ∧ chain.accepted.map Root.served = [[2]] ∧
      root.message.keys = [⟨"07", [7]⟩, ⟨"08", [8]⟩] :=
    ⟨_, _, rfl, rfl, rfl, rfl, rfl⟩
  obtain ⟨root, chain, anchored, ran, version_eq, served_eq, keys_eq⟩ := published
  have lone : OneEncoding (plainLibrary [8] twoSigned) root.message := by
    simp [OneEncoding, keys_eq, plainLibrary]
  obtain ⟨-, linked, -, walks⟩ := chain_of_trust anchored [secondRoot twoSigned] ran
  have walked := walks (Contract.Timestamp.unset.asTime + maxLifetime) (by decide) (by decide)
  exact ⟨root, chain, anchored, ran, version_eq, lone, linked, served_eq ▸ walked.2⟩

/-- One signature, of the key that the roots name under two encodings. -/
def onceSigned : List Signature := [⟨[7], "07"⟩]

/-- A root names one key under two encodings and asks for two keys.  One signature of that key is
enough for it, and for the root after it. -/
theorem one_key_meets_two :
    ∃ (root : Root Bytes) (chain : Chain Bytes),
      anchor (plainLibrary [7, 0] onceSigned) [1] Contract.Timestamp.unset.asTime = .ok root ∧
      (publishing (plainLibrary [7, 0] onceSigned)).run ⟨root, []⟩ [secondRoot onceSigned] =
        some chain ∧
      chain.newest.version = 2 ∧
      (root :: chain.accepted).map (fun held => held.message.root.map Role.threshold) =
        [some 2, some 2] ∧
      ∀ held ∈ root :: chain.accepted, ∀ key ∈ held.message.keys,
        (plainLibrary [7, 0] onceSigned).parsePKIXPublicKey key.publicKey = .p256 [7] := by
  have published : ∃ (root : Root Bytes) (chain : Chain Bytes),
      anchor (plainLibrary [7, 0] onceSigned) [1] Contract.Timestamp.unset.asTime = .ok root ∧
      (publishing (plainLibrary [7, 0] onceSigned)).run ⟨root, []⟩ [secondRoot onceSigned] =
        some chain ∧
      chain.newest.version = 2 ∧
      (root :: chain.accepted).map Root.message = [twoKeys [7, 0] 1, twoKeys [7, 0] 2] :=
    ⟨_, _, rfl, rfl, rfl, rfl⟩
  obtain ⟨root, chain, anchored, ran, version_eq, messages⟩ := published
  refine ⟨root, chain, anchored, ran, version_eq, ?_, fun held held_mem key key_mem => ?_⟩
  · have thresholds := congrArg (List.map fun message => message.root.map Role.threshold) messages
    rwa [List.map_map] at thresholds
  · have named : held.message ∈ [twoKeys [7, 0] 1, twoKeys [7, 0] 2] :=
      messages ▸ List.mem_map_of_mem held_mem
    rcases List.mem_pair.mp named with message_eq | message_eq <;> rw [message_eq] at key_mem <;>
      rcases List.mem_pair.mp key_mem with rfl | rfl <;> rfl

end Seagull.AgentUpdate
