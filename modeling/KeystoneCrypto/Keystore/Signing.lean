import KeystoneCrypto.Keystore.Run
import KeystoneCrypto.Signing.Verify

/-!
# Signing with a wallet

`sign_message` derives an account, lets its signer sign, and returns what the signer made. The
account a caller derives for the same path and scheme is the same one, before and after signing,
since deriving only reads the cells of the wallet and signing leaves them alone. So whatever the
signers of the account promise holds between the two calls (`signMessage_verifies`).
-/

namespace KeystoneCrypto

namespace Wallet

variable {P : Primitives} {wallet : Wallet} {path : DerivationPath} {scheme : PyStr}
  {account : Account} {w w' : World}

/-- The schemes `derive_account` knows. -/
def schemes : List PyStr := [ecdsaScheme, schnorrScheme, ed25519Scheme]

theorem newSigner_ecdsa (sk : SecretBytes) :
    newSigner ecdsaScheme sk = Signer.newSecp256k sk := if_pos rfl

theorem newSigner_schnorr (sk : SecretBytes) :
    newSigner schnorrScheme sk = Signer.newSecp256kSchnorr sk := by
  unfold newSigner
  rw [if_neg ecdsaScheme_ne.1, if_pos rfl]

theorem newSigner_ed25519 (sk : SecretBytes) :
    newSigner ed25519Scheme sk = Signer.newEd25519 sk := by
  obtain ⟨-, hee, hes⟩ := ecdsaScheme_ne
  unfold newSigner
  rw [if_neg hee, if_neg hes, if_pos rfl]

theorem mem_schemes_iff :
    scheme ∈ schemes ↔ scheme = ecdsaScheme ∨ scheme = schnorrScheme ∨ scheme = ed25519Scheme := by
  simp only [schemes, List.mem_cons, List.not_mem_nil, or_false]

/-- Every other scheme is refused. -/
theorem mem_schemes_of_newSigner {sk : SecretBytes} {signer : Signer}
    (h : newSigner scheme sk = .ok signer) : scheme ∈ schemes := by
  by_contra hmem
  -- with another scheme all three tests of the dispatch fail
  rw [mem_schemes_iff, not_or, not_or] at hmem
  obtain ⟨he, hs, hd⟩ := hmem
  unfold newSigner at h
  rw [if_neg he, if_neg hs, if_neg hd] at h
  cases h

/-- The dispatch builds a signer for the scheme, with a key of the right length. -/
theorem signer_of_newSigner {sk : SecretBytes} {signer : Signer}
    (h : newSigner scheme sk = .ok signer) : signer.scheme = scheme ∧ signer.Sized := by
  rcases mem_schemes_iff.mp (mem_schemes_of_newSigner h) with rfl | rfl | rfl
  · rw [newSigner_ecdsa, Signer.newSecp256k_eq_ok_iff] at h
    obtain ⟨-, k, -, rfl⟩ := h
    exact ⟨rfl, trivial⟩
  · rw [newSigner_schnorr, Signer.newSecp256kSchnorr_eq_ok_iff] at h
    obtain ⟨-, k, -, rfl⟩ := h
    exact ⟨rfl, trivial⟩
  · rw [newSigner_ed25519, Signer.newEd25519_eq_ok_iff] at h
    obtain ⟨hlen, rfl⟩ := h
    exact ⟨rfl, hlen⟩

/-- An account has a signer for its scheme and the public key of that signer. -/
theorem account_of_accountOf {seed : SecretBytes} (h : accountOf P seed path scheme = .ok account) :
    account.publicKey = account.signer.publicKeyBytes P ∧ account.signer.scheme = scheme ∧
      account.signer.Sized := by
  unfold accountOf at h
  obtain ⟨xprv, -, h⟩ := Effect.bind_eq_ok_iff.mp h
  obtain ⟨signer, hsigner, h⟩ := Effect.bind_eq_ok_iff.mp h
  cases h
  exact ⟨rfl, signer_of_newSigner hsigner⟩

/-- Deriving succeeds exactly on an open wallet whose seed yields an account, and changes
nothing. -/
theorem run_deriveAccount_eq_ok_iff :
    (wallet.deriveAccount P path scheme).run w = .ok account w' ↔
      w.flags.read wallet.closed = false ∧
        accountOf P (w.secrets.read wallet.seed) path scheme = .ok account ∧ w' = w := by
  rw [run_deriveAccount]
  cases w.flags.read wallet.closed with
  | true => simp
  | false =>
    rw [if_neg Bool.false_ne_true]
    cases accountOf P (w.secrets.read wallet.seed) path scheme <;> simp [eq_comm]

/-- On an open wallet signing is deriving and then signing with the account. -/
theorem run_signMessage_of_derived
    (h : (wallet.deriveAccount P path scheme).run w = .ok account w') (message : Bytes) :
    (wallet.signMessage P path message scheme).run w = (account.signer.sign P message).run w := by
  obtain ⟨hopen, -, rfl⟩ := run_deriveAccount_eq_ok_iff.mp h
  have hcheck : wallet.checkOpen.run w' = .ok () w' :=
    (run_checkOpen w').trans (if_neg (by rw [hopen]; exact Bool.false_ne_true))
  unfold signMessage
  rw [Effect.run_bind_of_ok hcheck, Effect.run_bind_of_ok h]

/-- Signing draws random bytes at most, so the account derived afterwards is the same. -/
theorem run_deriveAccount_of_signed {path' : DerivationPath} {message : Bytes} {scheme' : PyStr}
    {sig : Signature} (hsign : (wallet.signMessage P path' message scheme').run w = .ok sig w')
    (h : (wallet.deriveAccount P path scheme).run w = .ok account w) :
    (wallet.deriveAccount P path scheme).run w' = .ok account w' := by
  -- flag and buffer are all that deriving looks at
  have hcells : (w'.flags.read wallet.closed, w'.secrets.read wallet.seed)
      = (w.flags.read wallet.closed, w.secrets.read wallet.seed) := by
    rw [← Effect.after_of_ok hsign]
    have hfree : RandomFree fun w : World =>
      (w.flags.read wallet.closed, w.secrets.read wallet.seed) := fun _ _ => rfl
    exact keeps_signMessage hfree message w
  obtain ⟨hflag, hseed⟩ := Prod.ext_iff.mp hcells
  obtain ⟨hopen, haccount, -⟩ := run_deriveAccount_eq_ok_iff.mp h
  refine run_deriveAccount_eq_ok_iff.mpr ⟨hflag.trans hopen, ?_, rfl⟩
  rw [show w'.secrets.read wallet.seed = _ from hseed]
  exact haccount

/-- **Signing with a wallet.** If an account can be derived, signing with the same path and scheme
succeeds; the signature has 64 bytes and the public key of the account, it verifies with that key
and with its own, and the account derived afterwards is still the same. -/
theorem signMessage_verifies (hP : P.SignsHonestly)
    (h : (wallet.deriveAccount P path scheme).run w = .ok account w') (message : Bytes) :
    ∃ sig w'', (wallet.signMessage P path message scheme).run w' = .ok sig w'' ∧
      sig.raw.length = 64 ∧ sig.publicKey = account.publicKey ∧
      sig.verify P message none = .ok true ∧
      sig.verify P message (some account.publicKey) = .ok true ∧
      (wallet.deriveAccount P path scheme).run w'' = .ok account w'' := by
  obtain ⟨hopen, haccount, rfl⟩ := run_deriveAccount_eq_ok_iff.mp h
  obtain ⟨hpk, -, hsize⟩ := account_of_accountOf haccount
  obtain ⟨sig, w'', hsign, hlen, hkey, haccepted⟩ :=
    Signer.run_sign_accepted hP message w' hsize
  have hsigned : (wallet.signMessage P path message scheme).run w' = .ok sig w'' :=
    (run_signMessage_of_derived h message).trans hsign
  -- verified with its own key or with the one of the account, the key is the same
  refine ⟨sig, w'', hsigned, hlen, hkey.trans hpk.symm, haccepted none rfl, haccepted _ ?_,
    run_deriveAccount_of_signed hsigned h⟩
  rw [hpk, ← hkey]
  rfl

theorem sixteenZeros_ne_nil : (List.replicate 16 0 : Bytes) ≠ [] := List.cons_ne_nil _ _

/-- Sixteen zero bytes. -/
def zeroSeed : SecretBytes := ⟨List.replicate 16 0, sixteenZeros_ne_nil⟩

/-- A world with one open wallet. -/
def seedWorld (seed : SecretBytes) : World :=
  { zeroWorld with
    secrets := zeroWorld.secrets.alloc seed
    flags := zeroWorld.flags.alloc false }

/-- That wallet. -/
def seedWallet : Wallet := ⟨none, 0, 0⟩

def firstAccountPath : DerivationPath := ⟨[(44, true), (0, false)]⟩

theorem exists_zeroSeed_account : ∃ account, (seedWallet.deriveAccount Primitives.toy
    firstAccountPath ecdsaScheme).run (seedWorld zeroSeed) = .ok account (seedWorld zeroSeed) := by
  -- the derivation is run in the kernel; all that is kept is that it returned
  have hderives : (accountOf Primitives.toy zeroSeed firstAccountPath ecdsaScheme).isOk = true := by
    decide +kernel
  cases haccount : accountOf Primitives.toy zeroSeed firstAccountPath ecdsaScheme with
  | ok account => exact ⟨account, run_deriveAccount_eq_ok_iff.mpr ⟨rfl, haccount, rfl⟩⟩
  | error e =>
    rw [haccount] at hderives
    cases hderives

theorem signMessage_verifies_zeroSeed : ∃ account,
    (seedWallet.deriveAccount Primitives.toy firstAccountPath ecdsaScheme).run (seedWorld zeroSeed)
      = .ok account (seedWorld zeroSeed) ∧
    ∃ sig w'', (seedWallet.signMessage Primitives.toy firstAccountPath [1, 2, 3]
        ecdsaScheme).run (seedWorld zeroSeed) = .ok sig w'' ∧
      sig.raw.length = 64 ∧ sig.publicKey = account.publicKey ∧
      sig.verify Primitives.toy [1, 2, 3] none = .ok true ∧
      sig.verify Primitives.toy [1, 2, 3] (some account.publicKey) = .ok true ∧
      (seedWallet.deriveAccount Primitives.toy firstAccountPath ecdsaScheme).run w''
        = .ok account w'' := by
  obtain ⟨account, hrun⟩ := exists_zeroSeed_account
  exact ⟨account, hrun, signMessage_verifies Primitives.toy_signsHonestly hrun [1, 2, 3]⟩

end Wallet

end KeystoneCrypto
