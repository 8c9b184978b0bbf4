import KeystoneCrypto.World

/-!
# Signatures (`signing.py`)

The three signers, `Signature.verify`, and the conversions between the 64-byte form `r || s` of an
ECDSA signature and its DER form.
-/

namespace KeystoneCrypto

def ecdsaScheme : PyStr := PyStr.ofString "ecdsa-secp256k1"

def schnorrScheme : PyStr := PyStr.ofString "schnorr-secp256k1"

def ed25519Scheme : PyStr := PyStr.ofString "ed25519"

/-! ### DER conversions -/

/-- The loop of `encode_int`: leading zero bytes are dropped, the last byte is kept. -/
def stripZeros : Bytes → Bytes
  | [] => []
  | [b] => [b]
  | b :: c :: l => if b = 0 then stripZeros (c :: l) else b :: c :: l

/-- `encode_int(x)`. -/
def encodeInt (x : Bytes) : Except PyExc Bytes := do
  let body := stripZeros x
  let first ← indexAt body 0
  -- a set high bit would read as a sign
  let body := if first &&& 0x80 ≠ 0 then 0x00 :: body else body
  let len ← bytesOfInt body.length
  return [0x02] ++ len ++ body

/-- `_rs_to_der(r, s)`. -/
def rsToDer (r s : Bytes) : Except PyExc Bytes := do
  raiseIf (r.length ≠ 32 ∨ s.length ≠ 32) .signatureError
    [.lit "r,s must each be 32 bytes, got ", .int r.length, .lit ",", .int s.length]
  let rEnc ← encodeInt r
  let sEnc ← encodeInt s
  let body := rEnc ++ sEnc
  let len ← bytesOfInt body.length
  return [0x30] ++ len ++ body

/-- A 33-byte integer loses its leading zero byte. -/
def dropSign (x : Bytes) : Bytes :=
  if x.length = 33 ∧ x.head? = some 0 then x.drop 1 else x

/-- `x.rjust(32, b"\x00")`. -/
def rjust32 (x : Bytes) : Bytes := List.replicate (32 - x.length) 0 ++ x

/-- `_der_to_rs(der)`. -/
def derToRs (der : Bytes) : Except PyExc (Bytes × Bytes) := do
  let tag ← indexAt der 0
  raiseIf (tag ≠ 0x30) .signatureError [.lit "bad DER: expected SEQUENCE"]
  let len ← indexAt der 1
  raiseIf (len.toNat + 2 ≠ der.length) .signatureError [.lit "bad DER: length mismatch"]
  let rTag ← indexAt der 2
  raiseIf (rTag ≠ 0x02) .signatureError [.lit "bad DER: expected INTEGER for r"]
  let rLen ← indexAt der 3
  let sOff := 4 + rLen.toNat
  -- slicing does not fail on a length that points past the end
  let r := sliceFromTo der 4 sOff
  let sTag ← indexAt der sOff
  raiseIf (sTag ≠ 0x02) .signatureError [.lit "bad DER: expected INTEGER for s"]
  let sLen ← indexAt der (sOff + 1)
  let s := sliceFromTo der (sOff + 2) (sOff + 2 + sLen.toNat)
  let r := dropSign r
  let s := dropSign s
  raiseIf (32 < r.length ∨ 32 < s.length) .signatureError
    [.lit "DER component too large for secp256k1"]
  return (rjust32 r, rjust32 s)

/-! ### Verification -/

/-- A `Signature` object. -/
structure Signature where
  scheme : PyStr
  raw : Bytes
  publicKey : Bytes
  deriving DecidableEq

/-- `serialize()`. -/
def Signature.serialize (sig : Signature) : Bytes := sig.raw

/-- `verify(message, public_key)`. -/
def Signature.verify (P : Primitives) (sig : Signature) (message : Bytes)
    (publicKey : Option Bytes) : Except PyExc Bool :=
  let pk := publicKey.getD sig.publicKey
  if sig.scheme = ecdsaScheme then
    let msgHash := P.sha256 message
    -- `except Exception: return False`, for the conversion as for the library
    match rsToDer (sig.raw.take 32) (sig.raw.drop 32) with
    | .error _ => .ok false
    | .ok der =>
      match P.ecdsaVerify pk der msgHash with
      | .error _ => .ok false
      | .ok accepted => .ok accepted
  else if sig.scheme = schnorrScheme then
    -- a check of the shape only: neither the key nor the message is looked at
    if sig.raw.length ≠ 64 ∨ sig.raw = List.replicate 64 0 then .ok false else .ok true
  else if sig.scheme = ed25519Scheme then
    match P.ed25519Verify pk sig.raw message with
    | .error _ => .ok false
    | .ok _ => .ok true
  else raise .signatureError [.lit "unknown scheme ", .repr sig.scheme]

/-! ### Signers -/

/-- The signer objects, by the key they hold. -/
inductive Signer
  | secp256k (sk : Scalar)
  | secp256kSchnorr (sk : Scalar)
  | ed25519 (sk : Bytes)

namespace Signer

/-- The length check of the constructors. -/
def checkLength (curve : String) (secretKey : SecretBytes) : Except PyExc Unit :=
  raiseIf (secretKey.buf.length ≠ 32) .valueError
    [.lit curve, .lit " secret key must be 32 bytes, got ", .int secretKey.buf.length]

/-- `Secp256kSigner(secret_key)`. -/
def newSecp256k (secretKey : SecretBytes) : Except PyExc Signer := do
  checkLength "secp256k1" secretKey
  let sk ← privateKey secretKey.buf
  return .secp256k sk

/-- `Secp256kSchnorrSigner(secret_key)`. -/
def newSecp256kSchnorr (secretKey : SecretBytes) : Except PyExc Signer := do
  checkLength "secp256k1" secretKey
  let sk ← privateKey secretKey.buf
  return .secp256kSchnorr sk

/-- `Ed25519Signer(secret_key)`. -/
def newEd25519 (secretKey : SecretBytes) : Except PyExc Signer := do
  checkLength "ed25519" secretKey
  return .ed25519 secretKey.buf

theorem checkLength_eq_ok_iff {curve : String} {secretKey : SecretBytes} {u : Unit} :
    checkLength curve secretKey = .ok u ↔ secretKey.buf.length = 32 :=
  raiseIf_eq_ok_iff.trans not_not

section New

variable {secretKey : SecretBytes} {signer : Signer}

theorem newSecp256k_eq_ok_iff : newSecp256k secretKey = .ok signer ↔
    secretKey.buf.length = 32 ∧ ∃ sk, privateKey secretKey.buf = .ok sk ∧ signer = secp256k sk := by
  unfold newSecp256k
  simp only [Effect.bind_eq_ok_iff, checkLength_eq_ok_iff, exists_and_left, exists_const, pure,
    Except.pure, Except.ok.injEq, @eq_comm _ signer]

theorem newSecp256kSchnorr_eq_ok_iff : newSecp256kSchnorr secretKey = .ok signer ↔
    secretKey.buf.length = 32 ∧
      ∃ sk, privateKey secretKey.buf = .ok sk ∧ signer = secp256kSchnorr sk := by
  unfold newSecp256kSchnorr
  simp only [Effect.bind_eq_ok_iff, checkLength_eq_ok_iff, exists_and_left, exists_const, pure,
    Except.pure, Except.ok.injEq, @eq_comm _ signer]

theorem newEd25519_eq_ok_iff : newEd25519 secretKey = .ok signer ↔
    secretKey.buf.length = 32 ∧ signer = ed25519 secretKey.buf := by
  unfold newEd25519
  simp only [Effect.bind_eq_ok_iff, checkLength_eq_ok_iff, exists_and_left, exists_const, pure,
    Except.pure, Except.ok.injEq, @eq_comm _ signer]

end New

def scheme : Signer → PyStr
  | .secp256k _ => ecdsaScheme
  | .secp256kSchnorr _ => schnorrScheme
  | .ed25519 _ => ed25519Scheme

/-- `public_key_bytes()`. -/
def publicKeyBytes (P : Primitives) : Signer → Bytes
  | .secp256k sk => P.compressedPublicKey sk
  | .secp256kSchnorr sk => (P.compressedPublicKey sk).drop 1
  | .ed25519 sk => P.ed25519PublicKey sk

/-- The `raw` part of `sign(message)`. -/
def signRaw (P : Primitives) (message : Bytes) : Signer → Py Bytes
  | .secp256k sk => do
    let (r, s) ← derToRs (P.ecdsaSign sk (P.sha256 message))
    return r ++ s
  | .secp256kSchnorr sk => do
    let aux ← tokenBytes 32
    return P.schnorrSign sk (P.sha256 message) aux
  | .ed25519 sk => return P.ed25519Sign sk message

/-- `sign(message)`. -/
def sign (P : Primitives) (signer : Signer) (message : Bytes) : Py Signature := do
  let raw ← signer.signRaw P message
  return ⟨signer.scheme, raw, signer.publicKeyBytes P⟩

end Signer

end KeystoneCrypto
