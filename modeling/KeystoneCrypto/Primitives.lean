import KeystoneCrypto.Python
import KeystoneCrypto.Lib.Der

/-!
# The third-party code under the library

Everything the library calls but does not contain: `hashlib`, `hmac`, `unicodedata`, `argon2`, the
AES-GCM and Ed25519 classes of `cryptography`, and `coincurve`. `Primitives` bundles one function
for each call the library makes, together with the output lengths those packages document; every
definition and theorem of the development is stated for an arbitrary such bundle.

Cryptographic strength is not part of the bundle. A theorem that needs it assumes the property it
needs: `AesGcmUndoes` (decryption undoes encryption), `OnlyOpens` (one tuple of key, nonce,
ciphertext and associated data decrypts and no other does), `OnlyDerivedBy` (one Argon2id call
yields a key and no other does). The last two speak about one tuple and one call, since a bundle
in which decryption undoes *every* encryption cannot refuse all tuples but one.
-/

namespace KeystoneCrypto

/-- The order of the prime-order subgroup of secp256k1, as `coincurve` has it. -/
def groupOrder : ℕ :=
  0xFFFFFFFFFFFFFFFFFFFFFFFFFFFFFFFEBAAEDCE6AF48A03BBFD25E8CD0364141

theorem groupOrder_lt : groupOrder < 256 ^ 32 := by norm_num [groupOrder]

/-- A secp256k1 secret key: a scalar in `[1, n - 1]`. -/
abbrev Scalar := {k : ℕ // 0 < k ∧ k < groupOrder}

/-- One call of `argon2.low_level.hash_secret_raw` with `type=Type.ID`. -/
structure Argon2Call where
  secret : Bytes
  salt : Bytes
  timeCost : ℤ
  memoryCost : ℤ
  parallelism : ℤ
  hashLen : ℤ
  version : ℤ
  deriving DecidableEq, Repr

/-- The parameter ranges in which Argon2id computes: at least one pass and one lane, eight blocks
of memory for each lane, a salt of eight bytes and an output of four, each in 32 bits. There is no
bound on the secret: that Argon2id takes less than `2 ^ 32` bytes of it is idealised away. -/
structure Argon2Call.Supported (c : Argon2Call) : Prop where
  timeCost_pos : 1 ≤ c.timeCost
  timeCost_lt : c.timeCost < 2 ^ 32
  parallelism_pos : 1 ≤ c.parallelism
  parallelism_lt : c.parallelism < 2 ^ 24
  memoryCost_ge : 8 * c.parallelism ≤ c.memoryCost
  memoryCost_lt : c.memoryCost < 2 ^ 32
  salt_ge : 8 ≤ c.salt.length
  salt_lt : c.salt.length < 2 ^ 32
  hashLen_ge : 4 ≤ c.hashLen
  hashLen_lt : c.hashLen < 2 ^ 32

/-- The third-party functions the library calls. -/
structure Primitives where
  /-- `hashlib.sha256(data).digest()`. -/
  sha256 : Bytes → Bytes
  sha256_length : ∀ b, (sha256 b).length = 32
  /-- `hashlib.new("ripemd160", data).digest()`. -/
  ripemd160 : Bytes → Bytes
  ripemd160_length : ∀ b, (ripemd160 b).length = 20
  /-- `hmac.new(key, msg, hashlib.sha512).digest()`. -/
  hmacSha512 : Bytes → Bytes → Bytes
  hmacSha512_length : ∀ k b, (hmacSha512 k b).length = 64
  /-- `hashlib.pbkdf2_hmac("sha512", password, salt, iterations, dklen=dklen)`. -/
  pbkdf2HmacSha512 : Bytes → Bytes → ℕ → ℕ → Bytes
  pbkdf2HmacSha512_length : ∀ p s i n, (pbkdf2HmacSha512 p s i n).length = n
  /-- `unicodedata.normalize("NFKD", s)`. -/
  nfkd : PyStr → PyStr
  nfkd_ascii : ∀ s : PyStr, (∀ c ∈ s, c.val < 128) → nfkd s = s
  /-- `hash_secret_raw(...)`, or the text of its `HashingError`. -/
  hashSecretRaw : Argon2Call → Except String Bytes
  hashSecretRaw_length : ∀ c raw, hashSecretRaw c = .ok raw → (raw.length : ℤ) = c.hashLen
  /-- An idealisation: a supported call does not fail for lack of memory. -/
  hashSecretRaw_supported : ∀ c : Argon2Call, c.Supported → ∃ raw, hashSecretRaw c = .ok raw
  /-- `AESGCM(key).encrypt(nonce, data, aad)`: the ciphertext with its 16-byte tag. -/
  aesGcmEncrypt : Bytes → Bytes → Bytes → Bytes → Bytes
  aesGcmEncrypt_length : ∀ k n d a, (aesGcmEncrypt k n d a).length = d.length + 16
  /-- `AESGCM(key).decrypt(nonce, ciphertext, aad)`, or the text of the exception it raises. -/
  aesGcmDecrypt : Bytes → Bytes → Bytes → Bytes → Except String Bytes
  /-- `PrivateKey(k).public_key.format(compressed=True)`. -/
  compressedPublicKey : Scalar → Bytes
  compressedPublicKey_length : ∀ k, (compressedPublicKey k).length = 33
  /-- `PrivateKey(k).sign(digest, hasher=None)`: a DER signature. -/
  ecdsaSign : Scalar → Bytes → Bytes
  /-- `PublicKey(pk).verify(der, digest, hasher=None)`, or the text of the exception raised. -/
  ecdsaVerify : Bytes → Bytes → Bytes → Except String Bool
  /-- `PrivateKey(k).sign_schnorr(digest)`, with the 32 random bytes it draws. -/
  schnorrSign : Scalar → Bytes → Bytes → Bytes
  /-- `Ed25519PrivateKey.from_private_bytes(sk).public_key().public_bytes(Raw, Raw)`. -/
  ed25519PublicKey : Bytes → Bytes
  /-- `Ed25519PrivateKey.from_private_bytes(sk).sign(message)`. -/
  ed25519Sign : Bytes → Bytes → Bytes
  /-- `Ed25519PublicKey.from_public_bytes(pk).verify(signature, message)`, or the text of the
  exception raised. -/
  ed25519Verify : Bytes → Bytes → Bytes → Except String Unit

/-- `coincurve.PrivateKey(secret)`: the scalar, when it lies in `[1, n - 1]`. -/
def privateKey (secret : Bytes) : Except PyExc Scalar :=
  if h : 0 < intFromBytes secret ∧ intFromBytes secret < groupOrder then .ok ⟨_, h⟩
  else raise .valueError [.foreign "coincurve: secret scalar out of range"]

theorem privateKey_of_intFromBytes {secret : Bytes} {k : Scalar} (h : intFromBytes secret = k) :
    privateKey secret = .ok k := by
  have hr : 0 < intFromBytes secret ∧ intFromBytes secret < groupOrder := h ▸ k.2
  -- rewriting the subtype, not computing it, keeps the scalar opaque
  unfold privateKey
  rw [dif_pos hr]
  exact congrArg Except.ok (Subtype.ext h)

theorem intFromBytes_of_privateKey {secret : Bytes} {k : Scalar}
    (h : privateKey secret = .ok k) : intFromBytes secret = k := by
  unfold privateKey at h
  split at h
  · rw [← Except.ok.inj h]
  · cases h

/-! ### Idealised strength -/

namespace Primitives

variable (P : Primitives)

/-- AES-GCM decryption undoes encryption under equal key, nonce and associated data. -/
def AesGcmUndoes : Prop :=
  ∀ key nonce data aad,
    P.aesGcmDecrypt key nonce (P.aesGcmEncrypt key nonce data aad) aad = .ok data

/-- AES-GCM decryption succeeds on this tuple at most: the tuple is the one an encryption
produced, and every other one is a forgery. -/
def OnlyOpens (key nonce ciphertext aad : Bytes) : Prop :=
  ∀ k n c a data, P.aesGcmDecrypt k n c a = .ok data →
    k = key ∧ n = nonce ∧ c = ciphertext ∧ a = aad

/-- Argon2id yields this key for this call only. -/
def OnlyDerivedBy (call : Argon2Call) (key : Bytes) : Prop :=
  ∀ c, P.hashSecretRaw c = .ok key → c = call

/-- The same primitives with another HMAC. -/
def withHmac (H : Bytes → Bytes → Bytes)
    (hH : ∀ k b, (H k b).length = 64) : Primitives :=
  { P with hmacSha512 := H, hmacSha512_length := hH }

/-! ### A bundle that computes

The laws of the bundle, and decryption undoing encryption, can be met together: `toy` copies
numbers from input to output where the real functions hash, its cipher appends the length of the
data as a tag, and its signatures verify under the key that made them. -/

/-- The SHA-256 digest of sixteen zero bytes. -/
def zeroDigest : Bytes := [
  0x37, 0x47, 0x08, 0xff, 0xf7, 0x71, 0x9d, 0xd5, 0x97, 0x9e, 0xc8, 0x75, 0xd5, 0x6c, 0xd2, 0x28,
  0x6f, 0x6d, 0x3c, 0xf7, 0xec, 0x31, 0x7a, 0x3b, 0x25, 0x63, 0x2a, 0xab, 0x28, 0xec, 0x37, 0xbb]

/-- Both digests of `toy` have 32 bytes. -/
theorem length_toyDigest (b : Bytes) :
    (if b = List.replicate 16 0 then zeroDigest else List.replicate 32 0).length = 32 := by
  by_cases h : b = List.replicate 16 0
  · rw [if_pos h]
    rfl
  · rw [if_neg h]
    exact List.length_replicate

/-- A key of `toy` has the length that was asked for. -/
theorem length_toyKey (c : Argon2Call) (raw : Bytes)
    (h : (if 0 ≤ c.hashLen then Except.ok (List.replicate c.hashLen.toNat 0)
      else Except.error "bad output length" : Except String Bytes) = .ok raw) :
    (raw.length : ℤ) = c.hashLen := by
  by_cases hc : 0 ≤ c.hashLen
  · rw [if_pos hc] at h
    cases h
    rw [List.length_replicate]
    omega
  · rw [if_neg hc] at h
    cases h

/-- The tag of `toy`. -/
def toyTag (data : Bytes) : Bytes := Radix.digits byteDigit 16 data.length

/-- The signature of `toy` for the number of a key. -/
def toyEcdsa (k : ℕ) (digest : Bytes) : Bytes :=
  Der.signature byteDigit (intFromBytes digest % 2 ^ 255 + 1) (k % 2 ^ 255 + 1)

def toy : Primitives where
  sha256 b := if b = List.replicate 16 0 then zeroDigest else List.replicate 32 0
  sha256_length := length_toyDigest
  ripemd160 _ := List.replicate 20 0
  ripemd160_length _ := List.length_replicate
  hmacSha512 _ b := Radix.digits byteDigit 32 (intFromBytes b % 2 ^ 128 + 1) ++ List.replicate 32 0
  hmacSha512_length _ _ := by simp
  pbkdf2HmacSha512 p s _ n := Radix.digits byteDigit n (intFromBytes p + intFromBytes s)
  pbkdf2HmacSha512_length _ _ _ _ := Radix.length_digits _ _ _
  nfkd s := s
  nfkd_ascii _ _ := rfl
  hashSecretRaw c :=
    if 0 ≤ c.hashLen then .ok (List.replicate c.hashLen.toNat 0) else .error "bad output length"
  hashSecretRaw_length := length_toyKey
  hashSecretRaw_supported c h := ⟨_, if_pos (le_trans (by decide) h.hashLen_ge)⟩
  aesGcmEncrypt _ _ d _ := d ++ toyTag d
  aesGcmEncrypt_length _ _ _ _ := by simp [toyTag]
  aesGcmDecrypt _ _ c _ :=
    let data := c.take (c.length - 16)
    if c = data ++ toyTag data then .ok data else .error "InvalidTag"
  compressedPublicKey k := 2 :: Radix.digits byteDigit 32 k
  compressedPublicKey_length _ := by simp
  ecdsaSign k digest := toyEcdsa k digest
  ecdsaVerify pk der digest := .ok (der = toyEcdsa (intFromBytes (pk.drop 1)) digest)
  schnorrSign _ digest _ := Radix.digits byteDigit 64 (intFromBytes digest + 1)
  ed25519PublicKey sk := sk
  ed25519Sign sk _ := sk ++ sk
  ed25519Verify pk signature _ :=
    if pk.length = 32 ∧ signature = pk ++ pk then .ok () else .error "InvalidSignature"

theorem toy_undoes : toy.AesGcmUndoes := by
  intro key nonce data aad
  -- the tag has sixteen bytes, so cutting sixteen bytes off leaves the data
  have htake : (data ++ toyTag data).take ((data ++ toyTag data).length - 16) = data := by
    simp [toyTag]
  change (let d := (data ++ toyTag data).take ((data ++ toyTag data).length - 16)
    if data ++ toyTag data = d ++ toyTag d then Except.ok d else .error "InvalidTag") = .ok data
  simp only [htake, if_true]

/-- What `toy` opens ends in the tag of what comes out. -/
theorem eq_of_toy_decrypt {key nonce c aad data : Bytes}
    (h : toy.aesGcmDecrypt key nonce c aad = .ok data) : c = data ++ toyTag data := by
  change (let d := c.take (c.length - 16)
    if c = d ++ toyTag d then Except.ok d else .error "InvalidTag") = .ok data at h
  simp only at h
  split at h
  · next hc =>
    cases h
    exact hc
  · cases h

end Primitives

theorem toy_compressedPublicKey_injective :
    Function.Injective Primitives.toy.compressedPublicKey := by
  intro k k' h
  -- the key spells the scalar in 32 digits
  exact Subtype.ext (Radix.digits_inj byteDigit (lt_trans k.2.2 groupOrder_lt)
    (lt_trans k'.2.2 groupOrder_lt) (List.cons.inj h).2)

end KeystoneCrypto
