import KeystoneCrypto.Envelope
import KeystoneCrypto.Mnemonic
import KeystoneCrypto.Derivation
import KeystoneCrypto.Signing

/-!
# Keystores and wallets (`keystore.py`)

`Keystore.create` packs the entropy of a mnemonic under a password, `KeystoreContext.unlock` opens
the blob again and returns a `Wallet`. A wallet keeps the mnemonic it could reconstruct, a
reference to the seed buffer and its `_closed` flag; `close` overwrites the buffer and sets the
flag. The seed of a wallet is the entropy that was stored.
-/

namespace KeystoneCrypto

/-- An `Account` object. -/
structure Account where
  path : DerivationPath
  signer : Signer
  publicKey : Bytes

/-- `sign(message)` of an account. -/
def Account.sign (P : Primitives) (account : Account) (message : Bytes) : Py Bytes := do
  let sig ← account.signer.sign P message
  return sig.serialize

/-- A `Wallet` object; seed buffer and flag are cells of the world. -/
structure Wallet where
  mnemonic : Option Mnemonic
  seed : ℕ
  closed : ℕ
  deriving DecidableEq

namespace Wallet

/-- The dispatch on the scheme in `derive_account`. -/
def newSigner (scheme : PyStr) (sk : SecretBytes) : Except PyExc Signer :=
  if scheme = ecdsaScheme then Signer.newSecp256k sk
  else if scheme = schnorrScheme then Signer.newSecp256kSchnorr sk
  else if scheme = ed25519Scheme then Signer.newEd25519 sk
  else raise .valueError [.lit "unsupported scheme: ", .str scheme]

/-- The statements of `derive_account` behind the check of the flag. -/
def accountOf (P : Primitives) (seed : SecretBytes) (path : DerivationPath) (scheme : PyStr) :
    Except PyExc Account := do
  let xprv ← deriveFromSeed P seed path
  let signer ← newSigner scheme xprv.privateKey
  return ⟨path, signer, signer.publicKeyBytes P⟩

/-- `if self._closed: raise RuntimeError(...)`. -/
def checkOpen (wallet : Wallet) : Py Unit := do
  let closed ← readFlag wallet.closed
  raiseIf (closed = true) .runtimeError [.lit "wallet is closed"]

/-- `derive_account(path, scheme)`. -/
def deriveAccount (P : Primitives) (wallet : Wallet) (path : DerivationPath) (scheme : PyStr) :
    Py Account := do
  wallet.checkOpen
  let seed ← readSecret wallet.seed
  accountOf P seed path scheme

/-- `sign_message(path, message, scheme)`. -/
def signMessage (P : Primitives) (wallet : Wallet) (path : DerivationPath) (message : Bytes)
    (scheme : PyStr) : Py Signature := do
  -- the flag is checked here and once more in `derive_account`
  wallet.checkOpen
  let account ← wallet.deriveAccount P path scheme
  account.signer.sign P message

/-- `close()`. -/
def close (wallet : Wallet) : Py Unit := do
  -- the mnemonic is left as it is
  zeroizeSecret wallet.seed
  writeFlag wallet.closed true

end Wallet

/-- A `KeystoreContext` object. -/
structure KeystoreContext where
  blob : Bytes
  deriving DecidableEq

namespace KeystoreContext

/-- The loop of `unlock` over the bit sizes of an entropy. -/
def reconstruct (P : Primitives) (seed : SecretBytes) : List ℕ → Option Mnemonic
  | [] => none
  | bits :: rest =>
    if seed.buf.length = bits / 8 then
      -- `except Exception: m = None`, then `break`
      (Mnemonic.fromEntropy P seed).toOption
    else reconstruct P seed rest

/-- `unlock(password)`. -/
def unlock (P : Primitives) (ctx : KeystoreContext) (password : PyStr) : Py Wallet := do
  let pwBytes ← password.encodeUtf8
  let pw ← SecretBytes.new pwBytes
  let pwSecret ← newSecret pw
  let pw ← readSecret pwSecret
  let unpacked ← Envelope.unpack P ctx.blob pw
  -- reached only if `unpack` returned
  zeroizeSecret pwSecret
  let m := reconstruct P unpacked.seed [128, 160, 192, 224, 256]
  let seed ← newSecret unpacked.seed
  let closed ← newFlag false
  return ⟨m, seed, closed⟩

end KeystoreContext

/-- A `Keystore` object. -/
structure Keystore where
  blob : Bytes
  params : Argon2Params
  hasPassphrase : Bool
  createdAt : ℤ
  deriving DecidableEq

namespace Keystore

/-- `Keystore.create(mnemonic, password, params, has_passphrase)`. -/
def create (P : Primitives) (mnemonic : Mnemonic) (password : PyStr) (params : Argon2Params)
    (hasPassphrase : Bool) : Py Keystore := do
  raiseIf (password = []) .valueError [.lit "password must be a non-empty string"]
  let pwBytes ← password.encodeUtf8
  let pw ← SecretBytes.new pwBytes
  let pwSecret ← newSecret pw
  -- what is stored is the entropy, not the PBKDF2 seed
  let seed ← mnemonic.entropy
  let pw ← readSecret pwSecret
  let blob ← Envelope.pack P seed pw params 1 hasPassphrase none
  zeroizeSecret pwSecret
  -- the timestamp in the blob is not the one of the object
  return { blob, params, hasPassphrase, createdAt := 0 }

/-- `save(path)`. -/
def save (ks : Keystore) (path : PyStr) : Py Unit := writeBytes path ks.blob

/-- `Keystore.open(path)`. -/
def openFile (path : PyStr) : Py KeystoreContext := do
  let data ← readBytes path
  return ⟨data⟩

end Keystore

end KeystoneCrypto
