import Seagull.Contract.Event
import Seagull.Foundation.Checked
import Seagull.Foundation.FiniteMap
import Seagull.Foundation.Framing

/-!
# The root that authorizes an agent update

A root names the keys of both roles and how many of them must agree.  The root after it is signed by
a threshold of its root keys and a threshold of the next one's own.  A key counts once however many
signatures it made, and is known by the digest of its encoding.
-/

namespace Seagull.AgentUpdate

open Contract

abbrev Bytes := List UInt8

/-- A key a root names. -/
structure Key where
  keyid : String
  publicKey : Bytes

/-- The keys of a role, and how many of them must agree. -/
structure Role where
  keyids : List String
  threshold : ℕ

/-- The message of a root. -/
structure RootMessage where
  schemaVersion : ℕ
  version : ℕ
  issuedAt : Option Timestamp
  expiresAt : Option Timestamp
  keys : List Key
  root : Option Role
  catalog : Option Role
  /-- The first message in it that holds fields this platform does not know, if one does. -/
  unknown : Option String

/-- One signature. -/
structure Signature where
  sig : Bytes
  keyid : String
  deriving DecidableEq

/-- Metadata and the signatures over it. -/
structure Envelope where
  payload : Bytes
  payloadType : String
  signatures : List Signature
  deriving DecidableEq

/-- What is asked to publish a root. -/
structure RootPublication where
  root : Option Envelope
  note : String

/-- What a public key's encoding decodes to. -/
inductive Parsed (κ : Type) where
  | unparsable
  /-- A key of another algorithm or over another curve. -/
  | other
  | p256 (key : κ)

/-- What the platform takes from libraries: digests, keys, signatures and encodings. -/
structure Library (κ : Type) where
  sha256 : Bytes → Bytes
  parsePKIXPublicKey : Bytes → Parsed κ
  /-- Whether a signature over a digest verifies with a key. -/
  verify : κ → Bytes → Bytes → Bool
  marshal : Envelope → Option Bytes
  unmarshal : Bytes → Option Envelope
  unmarshalRoot : Bytes → Option RootMessage
  unmarshal_marshal : ∀ envelope encoded, marshal envelope = some encoded →
    unmarshal encoded = some envelope

def schemaVersion : ℕ := 1
def rootPayloadType : String := "application/vnd.seagull.update.v1.root+protobuf"
def maxPayloadBytes : ℕ := 2 ^ 20
def maxEnvelopeBytes : ℕ := maxPayloadBytes + 16 * 2 ^ 10
def maxSignatures : ℕ := 16
def maxKeys : ℕ := 16
def maxRoleKeys : ℕ := 8
def maxNoteLength : ℕ := 512
def maxVersion : ℕ := 2 ^ 63 - 1
def maxLifetime : ℤ := 366 * 24 * Duration.hour
def maxAhead : ℤ := 300 * Duration.second

/-- Why a root is refused. -/
inductive Failure where
  | declaredAs (payloadType expected : String)
  | noPayload
  | payloadTooLong
  | noSignature
  | tooManySignatures (signatures : ℕ)
  | fewSigned (signed threshold : ℕ)
  | notEncoded
  | envelopeTooLong
  | notEnvelope
  | notRoot
  | unknownFields (message : String)
  | schema (written : ℕ)
  | uncounted
  | noIssue (what : String)
  | noExpiry (what : String)
  | ahead (what : String)
  | expiresBeforeIssue (what : String)
  | tooLongLived (what : String)
  | keyCount (named : ℕ)
  | keyNotDigest (keyid : String)
  | keyTwice (keyid : String)
  | keyUnparsable (keyid : String)
  | keyNotP256 (keyid : String)
  | noRole (role : String)
  | roleKeyCount (role : String) (named : ℕ)
  | roleThreshold (role : String) (named threshold : ℕ)
  | roleUnknownKey (role keyid : String)
  | roleKeyTwice (role keyid : String)
  /-- The root keys of a version did not sign the next root. -/
  | notVouched (version : ℕ) (failure : Failure)
  | held (version newest : ℕ)
  | notNext (version newest : ℕ)
  | ownUnsigned (failure : Failure)
  | anchorDeclaredAs (payloadType : String)
  | anchor (failure : Failure)
  | anchorUnsigned (failure : Failure)
  | walked (version : ℕ) (failure : Failure)
  | noActor
  | noteTooLong
  | noRoot
  | expired (version : ℕ) (instant : ℤ)

variable {κ : Type} (library : Library κ)

def keyID (der : Bytes) : String := hexEncode (library.sha256 der)

def bytesOf (text : String) : Bytes := text.toUTF8.toList

/-- `agentpolicy.PAE`: what is signed of a payload, with its type in front. -/
def pae (payloadType : String) (payload : Bytes) : Bytes :=
  bytesOf (s!"DSSEv1 {payloadType.utf8ByteSize} " ++ payloadType ++ s!" {payload.length} ") ++ payload

def digest (payloadType : String) (payload : Bytes) : Bytes :=
  library.sha256 (pae payloadType payload)

/-- Count a key of a role in, once, where a signature verifies with it. -/
def countIn (keys : FiniteMap String κ) (digest : Bytes) (signature : Signature)
    (signed : List String) (keyid : String) : List String :=
  match keys.lookup keyid with
  | none => signed
  | some key =>
    if keyid ∉ signed ∧ library.verify key digest signature.sig then signed ++ [keyid] else signed

def counted (keys : FiniteMap String κ) (keyids : List String) (digest : Bytes)
    (signatures : List Signature) : List String :=
  signatures.foldl (fun signed signature =>
    keyids.foldl (countIn library keys digest signature) signed) []

/-- The keys of a role that signed an envelope, if enough did. -/
def signedBy (keys : FiniteMap String κ) (role : Option Role) (payloadType : String)
    (envelope : Envelope) : Except Failure (List String) := do
  refuse (envelope.payloadType ≠ payloadType) (.declaredAs envelope.payloadType payloadType)
  refuse (envelope.payload = []) .noPayload
  refuse (maxPayloadBytes < envelope.payload.length) .payloadTooLong
  refuse (envelope.signatures = []) .noSignature
  refuse (maxSignatures < envelope.signatures.length)
    (.tooManySignatures envelope.signatures.length)
  let held := role.getD ⟨[], 0⟩
  let signed := counted library keys held.keyids (digest library payloadType envelope.payload)
    envelope.signatures
  refuse (signed.length < held.threshold) (.fewSigned signed.length held.threshold)
  return signed.insertionSort (· ≤ ·)

def encode (envelope : Envelope) : Except Failure Bytes :=
  match library.marshal envelope with
  | none => .error .notEncoded
  | some served => do
      refuse (maxEnvelopeBytes < served.length) .envelopeTooLong
      return served

def decode (served : Bytes) : Except Failure Envelope := do
  refuse (maxEnvelopeBytes < served.length) .envelopeTooLong
  match library.unmarshal served with
  | none => .error .notEnvelope
  | some envelope => return envelope

def timeOf (stamp : Option Timestamp) : ℤ := (stamp.getD .unset).asTime

/-- Hold metadata to when it was issued and when it runs out. -/
def lifetime (what : String) (issued expires : Option Timestamp) (now : ℤ) :
    Except Failure Unit := do
  refuse (¬ issued.any Timestamp.isValid) (.noIssue what)
  refuse (¬ expires.any Timestamp.isValid) (.noExpiry what)
  refuse (now + maxAhead < timeOf issued) (.ahead what)
  refuse (timeOf expires ≤ timeOf issued) (.expiresBeforeIssue what)
  refuse (maxLifetime < Instant.sub (timeOf expires) (timeOf issued)) (.tooLongLived what)

def publicKey (keys : FiniteMap String κ) (key : Key) : Except Failure (FiniteMap String κ) := do
  refuse (key.keyid ≠ keyID library key.publicKey) (.keyNotDigest key.keyid)
  refuse ((keys.lookup key.keyid).isSome) (.keyTwice key.keyid)
  match library.parsePKIXPublicKey key.publicKey with
  | .unparsable => .error (.keyUnparsable key.keyid)
  | .other => .error (.keyNotP256 key.keyid)
  | .p256 decoded => return keys.insert key.keyid decoded

def publicKeys (named : List Key) : Except Failure (FiniteMap String κ) := do
  refuse (named = [] ∨ maxKeys < named.length) (.keyCount named.length)
  named.foldlM (publicKey library) FiniteMap.empty

/-- Hold the keys of a role to being keys of the root, each named once. -/
def roleKeys (name : String) (keys : FiniteMap String κ) (before : List String) :
    List String → Except Failure Unit
  | [] => .ok ()
  | keyid :: keyids => do
      refuse ((keys.lookup keyid).isNone) (.roleUnknownKey name keyid)
      refuse (keyid ∈ before) (.roleKeyTwice name keyid)
      roleKeys name keys (before ++ [keyid]) keyids

/-- Hold a role to keys of the root and to a threshold they can reach. -/
def role (name : String) (held : Option Role) (keys : FiniteMap String κ) : Except Failure Unit :=
  match held with
  | none => .error (.noRole name)
  | some held => do
      refuse (held.keyids = [] ∨ maxRoleKeys < held.keyids.length)
        (.roleKeyCount name held.keyids.length)
      refuse (held.threshold = 0 ∨ held.keyids.length < held.threshold)
        (.roleThreshold name held.keyids.length held.threshold)
      roleKeys name keys [] held.keyids

def decodeRoot (payload : Bytes) (now : ℤ) :
    Except Failure (RootMessage × FiniteMap String κ) := do
  match library.unmarshalRoot payload with
  | none => .error .notRoot
  | some message =>
    refuse (message.unknown.isSome) (.unknownFields (message.unknown.getD ""))
    refuse (message.schemaVersion ≠ schemaVersion) (.schema message.schemaVersion)
    refuse (message.version = 0 ∨ maxVersion < message.version) .uncounted
    lifetime "the root" message.issuedAt message.expiresAt now
    let keys ← publicKeys library message.keys
    role "root" message.root keys
    role "catalog" message.catalog keys
    return (message, keys)

/-- A trusted root, with its keys decoded and the envelope it is served as. -/
structure Root (κ : Type) where
  message : RootMessage
  served : Bytes
  keys : FiniteMap String κ
  signedBy : List String

def Root.version (root : Root κ) : ℕ := root.message.version

def Root.expiresAt (root : Root κ) : ℤ := timeOf root.message.expiresAt

def Root.expired (root : Root κ) (instant : ℤ) : Bool := root.expiresAt ≤ instant

/-- A refusal of a part, as a refusal of the whole. -/
def wrapped {α : Type} (wrap : Failure → Failure) (part : Except Failure α) : Except Failure α :=
  match part with
  | .error failure => .error (wrap failure)
  | .ok value => .ok value

/-- The configured root, held to its own root role. -/
def anchor (served : Bytes) (now : ℤ) : Except Failure (Root κ) := do
  let envelope ← wrapped .anchor (decode library served)
  refuse (envelope.payloadType ≠ rootPayloadType) (.anchorDeclaredAs envelope.payloadType)
  let (message, keys) ← wrapped .anchor (decodeRoot library envelope.payload now)
  let signed ← wrapped .anchorUnsigned
    (signedBy library keys message.root rootPayloadType envelope)
  let encoded ← wrapped .anchor (encode library envelope)
  return ⟨message, encoded, keys, signed⟩

/-- The root after one, signed by a threshold of both.  A payload it did not vouch for is never
decoded. -/
def Root.next (root : Root κ) (envelope : Envelope) (now : ℤ) : Except Failure (Root κ) := do
  let before ← wrapped (.notVouched root.version)
    (AgentUpdate.signedBy library root.keys root.message.root rootPayloadType envelope)
  let (message, keys) ← decodeRoot library envelope.payload now
  refuse (message.version ≤ root.version) (.held message.version root.version)
  refuse (message.version ≠ root.version + 1) (.notNext message.version root.version)
  let after ← wrapped .ownUnsigned
    (AgentUpdate.signedBy library keys message.root rootPayloadType envelope)
  let encoded ← encode library envelope
  return ⟨message, encoded, keys,
    compact ((before ++ after).insertionSort (· ≤ ·))⟩

/-- The newest root reached from one through those after it. -/
def Root.walk (root : Root κ) (now : ℤ) : List Bytes → Except Failure (Root κ)
  | [] => .ok root
  | encoded :: served => do
      let envelope ← wrapped (.walked (root.version + 1)) (decode library encoded)
      let next ← wrapped (.walked (root.version + 1)) (root.next library envelope now)
      next.walk now served

/-- What the platform records of a root it published. -/
structure PublishedRoot where
  version : ℕ
  issuedAt : Timestamp
  expiresAt : Timestamp
  digestSha256 : String
  signedBy : List String
  publishedBy : String
  publishedAt : Timestamp
  note : String

def attributable (actor note : String) : Except Failure Unit := do
  refuse (actor = "") .noActor
  refuse (maxNoteLength < note.utf8ByteSize) .noteTooLong

/-- Accept the root after the newest one, if it is attributable and has not run out. -/
def acceptRoot (asked : RootPublication) (newest : Root κ) (actor : String) (instant : ℤ) :
    Except Failure (PublishedRoot × Root κ) := do
  attributable actor asked.note
  match asked.root with
  | none => .error .noRoot
  | some envelope =>
    let next ← newest.next library envelope instant
    refuse (next.expired instant) (.expired next.version next.expiresAt)
    return ({
      version := next.version
      issuedAt := Timestamp.new (timeOf next.message.issuedAt)
      expiresAt := Timestamp.new next.expiresAt
      digestSha256 := hexEncode (library.sha256 next.served)
      signedBy := next.signedBy
      publishedBy := actor
      publishedAt := Timestamp.new instant
      note := asked.note }, next)

end Seagull.AgentUpdate
