import KeystoneCrypto.Aead
import KeystoneCrypto.Kdf

/-!
# The keystore envelope (`envelope.py`)

`Envelope.pack` draws a salt, derives a key, encrypts the plaintext under it and concatenates
header and ciphertext; `Envelope.unpack` reads the header at fixed offsets, derives the key again
and decrypts. `for_testing` builds the parameters `unpack` reads, so no bound is checked on them,
and it gives them `salt_len=16` whatever length the salt was packed with.
-/

namespace KeystoneCrypto

def magic : Bytes := [0x4B, 0x53, 0x54, 0x31]

def version : ℕ := 1

def headerLen : ℕ := 4 + 1 + 1 + 32 + 16 + nonceLen

def gcmTagLen : ℕ := 16

def offMagic : ℕ := 0

def offVersion : ℕ := 4

def offKdfId : ℕ := 5

def offKdf : ℕ := 6

def offSalt : ℕ := 38

def offNonce : ℕ := 54

/-- The result of a successful decryption. -/
structure UnpackedKeystore where
  seed : SecretBytes
  hasPassphrase : Bool
  createdAt : ℤ
  deriving DecidableEq

namespace Envelope

/-- `_pack_kdf_params(p)`. -/
def packKdfParams (p : Argon2Params) : Except PyExc Bytes := do
  let t ← packU32 p.timeCost
  let m ← packU32 p.memoryCost
  let par ← packU32 p.parallelism
  let hl ← packU32 p.hashLen
  let v ← packU32 p.version
  return t ++ m ++ par ++ hl ++ v ++ List.replicate 12 0

/-- `_unpack_kdf_params(blob)`. -/
def unpackKdfParams (blob : Bytes) : Except PyExc Argon2Params := do
  raiseIf (blob.length ≠ 32) .keystoreDecryptionError
    [.lit "kdf_params section wrong size: ", .int blob.length, .lit " bytes"]
  -- `12x` skips the reserved bytes, whatever they are; the salt length is not stored at all
  return .forTesting (unpackU32 blob 0) (unpackU32 blob 4) (unpackU32 blob 8)
    (unpackU32 blob 12) 16 (unpackU32 blob 16)

/-- `_aad(version, kdf_id)`. -/
def aad (version kdfId : ℤ) : Except PyExc Bytes := do
  let v ← bytesOfInt version
  let k ← bytesOfInt kdfId
  return v ++ k

/-- The plaintext `pack` encrypts. -/
def packPlaintext (seed : SecretBytes) (ts : ℤ) (hasPassphrase : Bool) : Except PyExc Bytes := do
  let flags : ℤ := if hasPassphrase then 0x01 else 0x00
  let len ← bytesOfInt seed.buf.length
  let stamp ← packI64 ts
  let flag ← bytesOfInt flags
  return len ++ seed.buf ++ stamp ++ flag ++ List.replicate 6 0

/-- `int(created_at if created_at is not None else time.time())`. -/
def timestamp (createdAt : Option ℤ) : Py ℤ :=
  match createdAt with
  | some t => pure t
  | none => time

/-- `pack(seed, password, params, kdf_id, has_passphrase, created_at)`. -/
def pack (P : Primitives) (seed password : SecretBytes) (params : Argon2Params) (kdfId : ℤ)
    (hasPassphrase : Bool) (createdAt : Option ℤ) : Py Bytes := do
  raiseIf (kdfId ≠ 1) .valueError
    [.lit "unsupported kdf_id ", .int kdfId, .lit " (only 1 = Argon2id)"]
  raiseIf (255 < seed.buf.length) .valueError
    [.lit "seed too long: ", .int seed.buf.length, .lit " > 255 bytes"]
  raiseIf (params.hashLen ≠ 32) .valueError
    [.lit "envelope requires hash_len=32, got ", .int params.hashLen]
  -- a salt of any declared length goes into the blob, in front of the nonce
  let salt ← tokenBytes params.saltLen
  let (key, _) ← deriveKey P password params (some salt)
  let ts ← timestamp createdAt
  let plaintext ← packPlaintext seed ts hasPassphrase
  let ad ← aad version kdfId
  let (nonce, ciphertext) ← encrypt P key plaintext ad
  let ids ← aad version kdfId
  let kdf ← packKdfParams params
  return magic ++ ids ++ kdf ++ salt ++ nonce ++ ciphertext

/-- `_unpack_plaintext(plaintext)`. -/
def unpackPlaintext (plaintext : Bytes) : Except PyExc UnpackedKeystore := do
  raiseIf (plaintext.length < 1 + 8 + 1 + 6) .keystoreDecryptionError
    [.lit "plaintext too short"]
  let seedLen := (← indexAt plaintext 0).toNat
  -- a plaintext that is longer than the length byte says passes
  raiseIf (plaintext.length < 1 + seedLen + 8 + 1 + 6) .keystoreDecryptionError
    [.lit "seed length inconsistent"]
  let seed ← SecretBytes.new (sliceFromTo plaintext 1 (1 + seedLen))
  let createdAt ← unpackI64 (sliceFromTo plaintext (1 + seedLen) (1 + seedLen + 8))
  let flags ← indexAt plaintext (1 + seedLen + 8)
  -- only the lowest bit of the flags byte is looked at
  return { seed, hasPassphrase := flags &&& 0x01 != 0, createdAt }

/-- `unpack(blob, password)`. -/
def unpack (P : Primitives) (blob : Bytes) (password : SecretBytes) : Py UnpackedKeystore := do
  raiseIf (blob.length < headerLen + gcmTagLen) .keystoreDecryptionError
    [.lit "blob too short: ", .int blob.length, .lit " bytes"]
  raiseIf (sliceFromTo blob offMagic (offMagic + 4) ≠ magic) .keystoreVersionError
    [.lit "bad magic; not a keystonecrypto keystore"]
  let ver ← indexAt blob offVersion
  raiseIf (ver.toNat ≠ version) .keystoreVersionError
    [.lit "unsupported keystore version ", .int ver.toNat,
      .lit "; this build of keystonecrypto only supports version ", .int version]
  let kdfId ← indexAt blob offKdfId
  -- no bound is checked on what the header asks for
  let params ← unpackKdfParams (sliceFromTo blob offKdf (offKdf + 32))
  let salt := sliceFromTo blob offSalt (offSalt + 16)
  let nonce := sliceFromTo blob offNonce (offNonce + nonceLen)
  let ciphertext := blob.drop headerLen
  let (key, _) ← deriveKey P password params (some salt)
  let ad ← aad ver.toNat kdfId.toNat
  let plaintext ← decrypt P key nonce ciphertext ad
  -- the check of `kdf_id` comes after the decryption it was part of
  raiseIf (kdfId.toNat ≠ 1) .keystoreVersionError [.lit "unsupported kdf_id ", .int kdfId.toNat]
  unpackPlaintext plaintext

end Envelope

end KeystoneCrypto
