import KeystoneCrypto.World

/-!
# AES-256-GCM (`aead.py`)

The wrappers `encrypt` and `decrypt`. `encrypt` draws its nonce; `decrypt` turns every failure of
the cipher into `KeystoneDecryptionError` but lets the length checks on nonce and key through as
`ValueError`.
-/

namespace KeystoneCrypto

def nonceLen : ℕ := 12

def keyLen : ℕ := 32

/-- `_as_key(key)`. -/
def asKey (key : SecretBytes) : Except PyExc Bytes := do
  raiseIf (key.buf.length ≠ keyLen) .valueError
    [.lit "AES-256-GCM key must be ", .int keyLen, .lit " bytes, got ", .int key.buf.length]
  return key.buf

/-- `encrypt(key, plaintext, aad)`: the nonce and the ciphertext with its tag. -/
def encrypt (P : Primitives) (key : SecretBytes) (plaintext aad : Bytes) :
    Py (Bytes × Bytes) := do
  -- the nonce is drawn before the key is looked at
  let nonce ← tokenBytes nonceLen
  let raw ← asKey key
  return (nonce, P.aesGcmEncrypt raw nonce plaintext aad)

/-- `decrypt(key, nonce, ciphertext, aad)`. -/
def decrypt (P : Primitives) (key : SecretBytes) (nonce ciphertext aad : Bytes) :
    Except PyExc Bytes := do
  raiseIf (nonce.length ≠ nonceLen) .valueError
    [.lit "nonce must be ", .int nonceLen, .lit " bytes, got ", .int nonce.length]
  let raw ← asKey key
  -- `except Exception`: whatever the cipher raises becomes one error
  match P.aesGcmDecrypt raw nonce ciphertext aad with
  | .ok plaintext => return plaintext
  | .error text =>
    raise .keystoreDecryptionError [.lit "AES-GCM decryption failed: ", .foreign text]

theorem asKey_of_length {key : SecretBytes} (h : key.buf.length = 32) :
    asKey key = .ok key.buf := by
  unfold asKey keyLen
  rw [raiseIf_neg (not_not.mpr h)]
  rfl

/-- Encryption under a 32-byte key draws one nonce and succeeds. -/
theorem run_encrypt (P : Primitives) (w : World) {key : SecretBytes} (h : key.buf.length = 32)
    (plaintext aad : Bytes) :
    (encrypt P key plaintext aad).run w
      = .ok (w.random.take 12, P.aesGcmEncrypt key.buf (w.random.take 12) plaintext aad)
          { w with random := w.random.drop 12 } := by
  unfold encrypt
  rw [EStateM.run_bind, run_tokenBytes w (by decide : (0 : ℤ) ≤ nonceLen), asKey_of_length h]
  rfl

/-- Decryption succeeds exactly when the lengths fit and the cipher accepts. -/
theorem decrypt_eq_ok_iff {P : Primitives} {key : SecretBytes}
    {nonce ciphertext aad plaintext : Bytes} :
    decrypt P key nonce ciphertext aad = .ok plaintext ↔
      nonce.length = 12 ∧ key.buf.length = 32 ∧
        P.aesGcmDecrypt key.buf nonce ciphertext aad = .ok plaintext := by
  unfold decrypt asKey nonceLen keyLen
  simp only [Effect.bind_eq_ok_iff, raiseIf_eq_ok_iff, not_not, ne_eq, pure, Except.pure,
    Except.ok.injEq]
  cases h : P.aesGcmDecrypt key.buf nonce ciphertext aad with
  | ok data => simp [h]
  | error text => simp [h, raise]

end KeystoneCrypto
