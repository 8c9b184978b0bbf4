import KeystoneCrypto.Keystore.Signing

/-!
# The verification recipe of the tour

The documented way to check a signature derives the account without naming a scheme, so the key it
hands to `verify` is always the compressed secp256k1 key. For an ECDSA signature it is the right
one. The Schnorr branch of `verify` does not look at the key. The Ed25519 branch hands 33 bytes to
the library, swallows the exception and answers `False`. So the recipe works for every scheme but
Ed25519 (`recipe_returns_true_iff`).
-/

namespace KeystoneCrypto

/-- A signature has the scheme of its signer. -/
theorem Signer.scheme_of_run_sign {P : Primitives} {signer : Signer} {message : Bytes}
    {sig : Signature} {w w' : World} (h : (signer.sign P message).run w = .ok sig w') :
    sig.scheme = signer.scheme := by
  obtain ⟨raw, w₁, -, h⟩ := Effect.run_bind_eq_ok_iff.mp h
  cases h
  rfl

namespace Wallet

/-- `wallet.sign_message(path, message, scheme=scheme).verify(message,
wallet.derive_account(path).public_key)`. -/
def recipe (P : Primitives) (wallet : Wallet) (path : DerivationPath) (message : Bytes)
    (scheme : PyStr) : Py Bool := do
  let sig ← wallet.signMessage P path message scheme
  -- `derive_account` has `scheme="ecdsa-secp256k1"` as its default
  let account ← wallet.deriveAccount P path ecdsaScheme
  sig.verify P message (some account.publicKey)

section Recipe

variable {P : Primitives} {wallet : Wallet} {path : DerivationPath} {scheme : PyStr}
  {account : Account} {seed : SecretBytes} {w w' : World}

/-- A key that makes an ECDSA signer makes a signer for every scheme. -/
theorem exists_newSigner {sk : SecretBytes} {signer : Signer}
    (h : newSigner ecdsaScheme sk = .ok signer) (hscheme : scheme ∈ schemes) :
    ∃ signer', newSigner scheme sk = .ok signer' := by
  rw [newSigner_ecdsa, Signer.newSecp256k_eq_ok_iff] at h
  -- what the ECDSA signer asks of a key the two others do not exceed
  obtain ⟨hlen, k, hk, -⟩ := h
  rcases mem_schemes_iff.mp hscheme with rfl | rfl | rfl
  · rw [newSigner_ecdsa]
    exact ⟨_, Signer.newSecp256k_eq_ok_iff.mpr ⟨hlen, k, hk, rfl⟩⟩
  · rw [newSigner_schnorr]
    exact ⟨_, Signer.newSecp256kSchnorr_eq_ok_iff.mpr ⟨hlen, k, hk, rfl⟩⟩
  · rw [newSigner_ed25519]
    exact ⟨_, Signer.newEd25519_eq_ok_iff.mpr ⟨hlen, rfl⟩⟩

/-- So an account for one scheme comes with accounts for the others. -/
theorem exists_accountOf (h : accountOf P seed path ecdsaScheme = .ok account)
    (hscheme : scheme ∈ schemes) : ∃ account', accountOf P seed path scheme = .ok account' := by
  unfold accountOf at h ⊢
  obtain ⟨xprv, hxprv, h⟩ := Effect.bind_eq_ok_iff.mp h
  obtain ⟨signer, hsigner, -⟩ := Effect.bind_eq_ok_iff.mp h
  obtain ⟨signer', hsigner'⟩ := exists_newSigner hsigner hscheme
  rw [hxprv, Effect.ok_bind, hsigner']
  exact ⟨_, rfl⟩

/-- The key of an ECDSA account is a compressed point. -/
theorem length_publicKey (h : accountOf P seed path ecdsaScheme = .ok account) :
    account.publicKey.length = 33 := by
  unfold accountOf at h
  obtain ⟨xprv, -, h⟩ := Effect.bind_eq_ok_iff.mp h
  obtain ⟨signer, hsigner, h⟩ := Effect.bind_eq_ok_iff.mp h
  rw [newSigner_ecdsa, Signer.newSecp256k_eq_ok_iff] at hsigner
  obtain ⟨-, k, -, rfl⟩ := hsigner
  cases h
  -- 32 bytes of the coordinate behind a byte for its parity
  exact P.compressedPublicKey_length k

/-- What signing under a scheme gives, where an account can be derived. -/
theorem exists_run_signMessage (hP : P.SignsHonestly)
    (h : (wallet.deriveAccount P path ecdsaScheme).run w = .ok account w) (message : Bytes)
    (hscheme : scheme ∈ schemes) : ∃ account' sig w',
      accountOf P (w.secrets.read wallet.seed) path scheme = .ok account' ∧
      (wallet.signMessage P path message scheme).run w = .ok sig w' ∧ sig.scheme = scheme ∧
      sig.publicKey = account'.publicKey ∧ Signer.Accepted P message sig := by
  obtain ⟨hopen, haccount, -⟩ := run_deriveAccount_eq_ok_iff.mp h
  obtain ⟨account', haccount'⟩ := exists_accountOf haccount hscheme
  obtain ⟨hkey', hsigner, hsize⟩ := account_of_accountOf haccount'
  obtain ⟨sig, w', hsign, -, hkey, haccepted⟩ := Signer.run_sign_accepted hP message w hsize
  exact ⟨account', sig, w', haccount', (run_signMessage_of_derived
    (run_deriveAccount_eq_ok_iff.mpr ⟨hopen, haccount', rfl⟩) message).trans hsign,
    (Signer.scheme_of_run_sign hsign).trans hsigner, hkey.trans hkey'.symm, haccepted⟩

/-- **The answer of the recipe.** The key of the ECDSA account serves the ECDSA signature as its own
and the Schnorr signature as well as any other; it is no key for the Ed25519 signature. -/
theorem exists_run_recipe (hP : P.SignsHonestly)
    (hlen : ∀ pk raw message, P.ed25519Verify pk raw message = .ok () → pk.length = 32)
    (h : (wallet.deriveAccount P path ecdsaScheme).run w = .ok account w) (message : Bytes)
    (hscheme : scheme ∈ schemes) : ∃ w', (recipe P wallet path message scheme).run w
      = .ok (decide (scheme ≠ ed25519Scheme)) w' := by
  obtain ⟨account', sig, w', haccount', hsign, hsig, hkey, haccepted⟩ :=
    exists_run_signMessage hP h message hscheme
  obtain ⟨-, haccount, -⟩ := run_deriveAccount_eq_ok_iff.mp h
  obtain ⟨-, hee, hes⟩ := ecdsaScheme_ne
  -- the account derived at the end is the one that could be derived at the start
  have hrun : (recipe P wallet path message scheme).run w
      = (liftM (sig.verify P message (some account.publicKey)) : Py Bool).run w' := by
    unfold recipe
    rw [Effect.run_bind_of_ok hsign, Effect.run_bind_of_ok (run_deriveAccount_of_signed hsign h)]
  refine ⟨w', hrun.trans (Effect.run_liftM_eq_ok_iff.mpr ⟨?_, rfl⟩)⟩
  rcases mem_schemes_iff.mp hscheme with rfl | rfl | rfl
  · obtain rfl : account = account' := Except.ok.inj (haccount.symm.trans haccount')
    rw [decide_eq_true hee.symm]
    exact haccepted _ hkey.symm
  · rw [decide_eq_true hes.symm]
    -- the Schnorr branch looks at the key inside the signature only
    exact (verify_schnorr_iff hsig).mpr ((verify_schnorr_iff hsig).mp (haccepted none rfl))
  · rw [decide_eq_false (not_not.mpr rfl)]
    -- 33 bytes are no Ed25519 key
    refine verify_ed25519_refused hsig fun haccept => ?_
    exact absurd ((length_publicKey haccount).symm.trans (hlen _ _ _ haccept)) (by decide)

/-- **When the recipe works.** Where an account can be derived, it returns `True` for every scheme
but Ed25519. -/
theorem recipe_returns_true_iff (hP : P.SignsHonestly)
    (hlen : ∀ pk raw message, P.ed25519Verify pk raw message = .ok () → pk.length = 32)
    (h : (wallet.deriveAccount P path ecdsaScheme).run w = .ok account w') (message : Bytes)
    (hscheme : scheme ∈ schemes) :
    (∃ w'', (recipe P wallet path message scheme).run w = .ok true w'') ↔
      scheme ≠ ed25519Scheme := by
  obtain ⟨-, -, rfl⟩ := run_deriveAccount_eq_ok_iff.mp h
  obtain ⟨w'', hrun⟩ := exists_run_recipe hP hlen h message hscheme
  refine ⟨?_, fun hne => ⟨w'', by rw [hrun, decide_eq_true hne]⟩⟩
  rintro ⟨w₁, htrue⟩
  exact of_decide_eq_true (EStateM.Result.ok.inj (hrun.symm.trans htrue)).1

end Recipe

end Wallet

/-! ### An Ed25519 library that checks the length of the key -/

namespace Primitives

/-- The Ed25519 keys of `toy` have 32 bytes. -/
theorem length_of_toy_verify (pk raw message : Bytes)
    (h : toy.ed25519Verify pk raw message = .ok ()) : pk.length = 32 := by
  by_contra hlen
  change (if _ then _ else _) = _ at h
  rw [if_neg fun hc => hlen hc.1] at h
  cases h

end Primitives

namespace Wallet

theorem recipe_returns_true_iff_schnorr : ∃ account,
    (seedWallet.deriveAccount Primitives.toy firstAccountPath ecdsaScheme).run
      (seedWorld zeroSeed) = .ok account (seedWorld zeroSeed) ∧
    ((∃ w'', (recipe Primitives.toy seedWallet firstAccountPath [1, 2, 3] schnorrScheme).run
        (seedWorld zeroSeed) = .ok true w'') ↔ schnorrScheme ≠ ed25519Scheme) := by
  obtain ⟨account, hrun⟩ := exists_zeroSeed_account
  exact ⟨account, hrun, recipe_returns_true_iff Primitives.toy_signsHonestly
    Primitives.length_of_toy_verify hrun [1, 2, 3] (mem_schemes_iff.mpr (.inr (.inl rfl)))⟩

/-- **A signature the recipe rejects.** The Ed25519 signature of a wallet is answered with
`False`. -/
theorem recipe_returns_false : ∃ account,
    (seedWallet.deriveAccount Primitives.toy firstAccountPath ecdsaScheme).run
      (seedWorld zeroSeed) = .ok account (seedWorld zeroSeed) ∧
    (∃ w'', (recipe Primitives.toy seedWallet firstAccountPath [1, 2, 3] ed25519Scheme).run
      (seedWorld zeroSeed) = .ok false w'') ∧
    ¬ ∀ scheme ∈ schemes, ∃ w'', (recipe Primitives.toy seedWallet firstAccountPath [1, 2, 3]
      scheme).run (seedWorld zeroSeed) = .ok true w'' := by
  obtain ⟨account, hrun⟩ := exists_zeroSeed_account
  have hmem : ed25519Scheme ∈ schemes := mem_schemes_iff.mpr (.inr (.inr rfl))
  obtain ⟨w'', hfalse⟩ := exists_run_recipe Primitives.toy_signsHonestly
    Primitives.length_of_toy_verify hrun [1, 2, 3] hmem
  rw [decide_eq_false (not_not.mpr rfl)] at hfalse
  refine ⟨account, hrun, ⟨w'', hfalse⟩, fun h => ?_⟩
  obtain ⟨w₁, htrue⟩ := h ed25519Scheme hmem
  cases hfalse.symm.trans htrue

end Wallet

end KeystoneCrypto
