import Seagull.Alerts.Listing
import Seagull.Foundation.Framing
import Seagull.Foundation.Varint

/-!
# Where the next page of a hunt starts

A cursor names the last record of a page, by millisecond and by names, and is signed together with
the question it belongs to.  The hash and the signature are parameters.
-/

namespace Seagull.Hunt

open Contract

/-- `maxCursorName`. -/
def maxCursorName : ℕ := 128

/-- `maxCursorNames`. -/
def maxCursorNames : ℕ := 2

/-- `cursorLayout`. -/
def cursorLayout : String := "seagull.hunt.cursor/2"

/-- SHA-256, and HMAC with SHA-256. -/
structure Seals where
  sha256 : List UInt8 → List UInt8
  sha256_length : ∀ bytes, (sha256 bytes).length = 32
  hmac : List UInt8 → List UInt8 → List UInt8

/-- `Time.UnixMilli`, in 64 bits. -/
def unixMilli (instant : ℤ) : ℤ := (Alerts.unixMilli instant).bmod (2 ^ 64)

/-- Where a page starts: behind the record of this instant and these names. -/
structure After where
  time : ℤ
  names : List String
  deriving DecidableEq

/-- The number that eight bytes are, and the bytes behind them. -/
def readBigEndian : List UInt8 → Option (ℕ × List UInt8)
  | a :: b :: c :: d :: e :: f :: g :: h :: behind =>
    some ([a, b, c, d, e, f, g, h].foldl (fun number byte => 256 * number + byte.toNat) 0, behind)
  | _ => none

def payloadOf (instant : ℤ) (names : List String) : List UInt8 :=
  bigEndian (unixMilli instant % 2 ^ 64).toNat ++
    names.flatMap fun name => Varint.append name.utf8ByteSize ++ Text.bytes name

/-- `sign`. -/
def sign (seals : Seals) (key fingerprint payload : List UInt8) : List UInt8 :=
  seals.hmac key (Text.bytes cursorLayout ++ fingerprint ++ payload)

/-- `encodeCursor`. -/
def encodeCursor (seals : Seals) (key fingerprint : List UInt8) (instant : ℤ)
    (names : List String) : String :=
  Base64.encode (payloadOf instant names) ++ "." ++
    Base64.encode (sign seals key fingerprint (payloadOf instant names))

/-- `readNames`, with how many names may still be read. -/
def readNames : ℕ → List UInt8 → Option (List String)
  | _, [] => some []
  | 0, _ :: _ => none
  | left + 1, byte :: bytes =>
    match Varint.read (byte :: bytes) with
    | none => none
    | some (length, behind) =>
      if maxCursorName < length ∨ behind.length < length then none
      else (Text.ofBytes (behind.take length)).bind fun name =>
        (readNames left (behind.drop length)).map (name :: ·)

/-- `strings.Cut` at a full stop. -/
def cutAtDot (token : String) : Option (String × String) :=
  match token.toList.dropWhile (· != '.') with
  | [] => none
  | _ :: behind => some (String.ofList (token.toList.takeWhile (· != '.')), String.ofList behind)

/-- `decodeCursor`. -/
def decodeCursor (seals : Seals) (key fingerprint : List UInt8) (token : String) : Option After := do
  let (written, signature) ← cutAtDot token
  let payload ← Base64.decode written
  let presented ← Base64.decode signature
  if presented = sign seals key fingerprint payload then
    let (millis, behind) ← readBigEndian payload
    match ← readNames maxCursorNames behind with
    | [] => none
    | names => some ⟨Alerts.ofUnixMilli ((millis : ℤ).bmod (2 ^ 64)), names⟩
  else none

end Seagull.Hunt
