import Seagull.AgentUpdate.Trust

/-!
# What a signature stands for

A signature is made over a payload and its type, each behind its length, so that it is a signature of
nothing else.  A policy is taken where one of the platform's signers signed it, update metadata where
enough distinct keys of its role did.
-/

namespace Seagull.AgentPolicy

open AgentUpdate

def payloadType : String := "application/vnd.seagull.policy.v1+protobuf"
def maxPayloadBytes : ℕ := 2 ^ 20
def maxSignatures : ℕ := 4

/-- Why a policy is refused. -/
inductive Failure where
  | declaredAs (payloadType : String)
  | noPayload
  | payloadTooLong
  | unsigned
  | tooManySignatures (signatures : ℕ)
  | notPolicy
  | unknownFields (message : String)

structure Signer (κ : Type) where
  id : String
  key : κ

/-- The keys a policy is accepted under. -/
structure Signers (κ : Type) where
  keys : List (Signer κ)

structure Verified (π : Type) where
  policy : π
  signedBy : List String

section Verify

variable {κ π : Type} (library : Library κ)

/-- Count a signer in, once, where a signature verifies with its key. -/
def countIn (digest : Bytes) (signature : Signature) (signedBy : List String)
    (candidate : Signer κ) : List String :=
  if candidate.id ∉ signedBy ∧ library.verify candidate.key digest signature.sig then
    signedBy ++ [candidate.id]
  else signedBy

def Signers.counted (signers : Signers κ) (digest : Bytes) (signatures : List Signature) :
    List String :=
  signatures.foldl (fun signedBy signature =>
    signers.keys.foldl (countIn library digest signature) signedBy) []

/-- Take a policy a signer signed.  `unmarshal` and `unknown` decode the payload. -/
def Signers.verify (unmarshal : Bytes → Option π) (unknown : π → Option String)
    (signers : Signers κ) (envelope : Envelope) : Except Failure (Verified π) := do
  refuse (envelope.payloadType ≠ payloadType) (.declaredAs envelope.payloadType)
  refuse (envelope.payload = []) .noPayload
  refuse (maxPayloadBytes < envelope.payload.length) .payloadTooLong
  refuse (envelope.signatures = []) .unsigned
  refuse (maxSignatures < envelope.signatures.length)
    (.tooManySignatures envelope.signatures.length)
  let signedBy := signers.counted library (digest library payloadType envelope.payload)
    envelope.signatures
  refuse (signedBy = []) .unsigned
  match unmarshal envelope.payload with
  | none => .error .notPolicy
  | some policy =>
    match unknown policy with
    | some message => .error (.unknownFields message)
    | none => return ⟨policy, signedBy.insertionSort (· ≤ ·)⟩

end Verify

section Encoding

theorem toList_loop (bytes : ByteArray) (index : ℕ) (read : List UInt8) :
    ByteArray.toList.loop bytes index read = read.reverse ++ bytes.data.toList.drop index := by
  fun_induction ByteArray.toList.loop bytes index read with
  | case1 index read inside ih =>
    have more : index < bytes.data.toList.length := inside
    have next : bytes.get! index = bytes.data.toList[index] := getElem!_pos bytes.data index inside
    rw [ih, List.drop_eq_getElem_cons more, next, List.reverse_cons, List.append_assoc]
    rfl
  | case2 index read outside =>
    have done : bytes.data.toList.length ≤ index := not_lt.mp outside
    rw [List.drop_eq_nil_of_le done, List.append_nil]

theorem bytesOf_eq (text : String) : bytesOf text = Text.bytes text := by
  have same : text.toByteArray = (Text.bytes text).toByteArray := String.utf8Encode_toList.symm
  rw [bytesOf, String.toUTF8, ByteArray.toList, toList_loop, same, List.data_toByteArray]
  rfl

/-- The encoding of a payload behind a type that need not be a text. -/
def preAuth (payloadType payload : Bytes) : Bytes :=
  Text.bytes "DSSEv1 " ++ (Text.bytes (toString payloadType.length) ++ 32 ::
    (payloadType ++ 32 :: (Text.bytes (toString payload.length) ++ 32 :: payload)))

theorem pae_eq_preAuth (payloadType : String) (payload : Bytes) :
    pae payloadType payload = preAuth (Text.bytes payloadType) payload := by
  have space : Text.bytes " " = [32] := rfl
  have text : ∀ written : String, toString written = written := fun _ => rfl
  simp only [pae, bytesOf_eq, preAuth, Text.bytes_append, Text.length_bytes, text, space,
    List.append_assoc, List.cons_append, List.nil_append]

theorem space_notMem_digits (number : ℕ) : 32 ∉ Text.bytes (toString number) := by
  have digit : ∀ letter ∈ Nat.toDigits 10 number, 48 ≤ letter.toNat ∧ letter.toNat ≤ 57 := by
    intro letter member
    have told := Nat.isDigit_of_mem_toDigits (by decide) (by decide) member
    simp only [Char.isDigit, Bool.and_eq_true, decide_eq_true_eq] at told
    exact ⟨UInt32.le_iff_toNat_le.mp told.1, UInt32.le_iff_toNat_le.mp told.2⟩
  have written : toString number = String.ofList (Nat.toDigits 10 number) :=
    Nat.repr_eq_ofList_toDigits
  rw [written, Text.bytes_ofList fun letter member => (digit letter member).2.trans_lt (by decide)]
  intro member
  obtain ⟨letter, letter_mem, same⟩ := List.mem_map.mp member
  have bounds := digit letter letter_mem
  have small : letter.toNat % 256 = 32 := congrArg UInt8.toNat same
  omega

theorem preAuth_injective {payloadType payload otherType other : Bytes}
    (same : preAuth payloadType payload = preAuth otherType other) :
    payloadType = otherType ∧ payload = other := by
  obtain ⟨same_size, behind⟩ := append_mark_inj (space_notMem_digits _) (space_notMem_digits _)
    (List.append_cancel_left same)
  have same_length := Decimal.toString_injective (Text.bytes_injective same_size)
  obtain ⟨same_type, behind⟩ := List.append_inj behind same_length
  have same_rest := append_mark_inj (space_notMem_digits _) (space_notMem_digits _)
    (List.cons.inj behind).2
  exact ⟨same_type, same_rest.2⟩

end Encoding

section Signed

variable {κ π : Type} {library : Library κ} {unmarshal : Bytes → Option π}
  {unknown : π → Option String}

theorem countIn_cases (library : Library κ) (digest : Bytes) (signature : Signature)
    (signedBy : List String) (candidate : Signer κ) :
    countIn library digest signature signedBy candidate = signedBy ∨ candidate.id ∉ signedBy ∧
      library.verify candidate.key digest signature.sig = true ∧
      countIn library digest signature signedBy candidate = signedBy ++ [candidate.id] := by
  unfold countIn
  split
  · rename_i once
    exact .inr ⟨once.1, once.2, rfl⟩
  · exact .inl rfl

theorem verify_eq_ok {signers : Signers κ} {envelope : Envelope} {verified : Verified π}
    (accepted : signers.verify library unmarshal unknown envelope = .ok verified) :
    envelope.payloadType = payloadType ∧ verified.signedBy ≠ [] ∧
      verified.signedBy.Perm (signers.counted library (digest library payloadType envelope.payload)
        envelope.signatures) := by
  simp only [Signers.verify, passes_eq_ok, refuse_eq_ok, not_not] at accepted
  obtain ⟨declared, -, -, -, -, some_signed, decoded⟩ := accepted
  split at decoded
  · cases decoded
  · split at decoded
    · cases decoded
    · obtain rfl := pure_eq_ok.mp decoded
      have sorted := List.perm_insertionSort (· ≤ ·) (signers.counted library
        (digest library payloadType envelope.payload) envelope.signatures)
      exact ⟨declared, fun none_signed => some_signed (List.nil_perm.mp
        ((List.Perm.of_eq none_signed.symm).trans sorted)), sorted⟩

/-- Signing, idealised: a key verifies only what its holder signed, and no two byte strings share a
digest. -/
structure Ideal (library : Library κ) (Signed : κ → Bytes → Prop) : Prop where
  signs : ∀ key digest signature, library.verify key digest signature = true →
    ∃ message, Signed key message ∧ library.sha256 message = digest
  collisionFree : Function.Injective library.sha256

theorem Ideal.signed {Signed : κ → Bytes → Prop} (ideal : Ideal library Signed) {key : κ}
    {payloadType : String} {payload signature : Bytes}
    (verified : library.verify key (digest library payloadType payload) signature = true) :
    Signed key (pae payloadType payload) := by
  obtain ⟨message, signed, same⟩ := ideal.signs _ _ _ verified
  exact ideal.collisionFree same ▸ signed

/-- As many keys of a role that hold a property as are asked for, no two the same. -/
def Enough (keys : FiniteMap String κ) (role : Role) (holds : κ → Prop) : Prop :=
  ∃ signers : List κ, signers.Nodup ∧ role.threshold ≤ signers.length ∧
    ∀ key ∈ signers, holds key ∧ ∃ keyid ∈ role.keyids, keys.lookup keyid = some key

/-- A library whose keys are their own signatures, for what each signed. -/
def signing (made : List (Bytes × Bytes)) : Library Bytes :=
  { plainLibrary [8] [] with
    verify := fun key digest signature => (key, digest) ∈ made ∧ signature = key }

theorem ideal_signing (made : List (Bytes × Bytes)) :
    Ideal (signing made) fun key message => (key, message) ∈ made := by
  refine ⟨fun key digest signature verified => ?_, fun _ _ same => same⟩
  exact ⟨digest, (of_decide_eq_true verified).1, rfl⟩

theorem digest_signing (made : List (Bytes × Bytes)) (payloadType : String) (payload : Bytes) :
    digest (signing made) payloadType payload = pae payloadType payload := rfl

/-- A policy signed twice by one signer, and by a key nobody accepts. -/
def signedPolicy : Envelope := ⟨[2], payloadType, [⟨[7], ""⟩, ⟨[9], ""⟩, ⟨[7], "08"⟩]⟩

/-- The keys a root names, under two ids. -/
def twoIds (id : String) (key : Bytes) : FiniteMap String Bytes :=
  (FiniteMap.empty.insert "07" [7]).insert id key

end Signed

end Seagull.AgentPolicy
