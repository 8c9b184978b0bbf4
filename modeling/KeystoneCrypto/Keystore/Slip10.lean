import KeystoneCrypto.Slip10
import KeystoneCrypto.Derivation.Keys
import KeystoneCrypto.Keystore.Signing

/-!
# Ed25519 accounts

`derive_account` hands the key that BIP-32 derives to every signer, whatever its curve. For Ed25519
the design asks for SLIP-0010, which starts from another HMAC key, does not add, and knows hardened
components only. The two agree where neither yields a key, on the paths with an index of more than
31 bits, and nowhere else (`followsSlip10_iff`).

That they differ is shown by an HMAC under which BIP-32 starts from the scalar one and adds zeros,
while all halves SLIP-0010 looks at are zero. An invariant of either walk says which key is at its
end: always one (`exists_derive_marking`), always zero (`secretOf_marking`).
-/

namespace KeystoneCrypto

/-- On every open wallet with this seed, the Ed25519 account of the path has the key of SLIP-0010,
and there is no account where SLIP-0010 refuses the path. -/
def FollowsSlip10 (P : Primitives) (seed : SecretBytes) (path : DerivationPath) : Prop :=
  ∀ (wallet : Wallet) (w : World), w.flags.read wallet.closed = false →
    w.secrets.read wallet.seed = seed → ∀ secret,
      (∃ account w', (wallet.deriveAccount P path ed25519Scheme).run w = .ok account w' ∧
        account.signer = .ed25519 secret) ↔
      Slip10.secretOf P seed.buf path.indices = .ok secret

section Accounts

variable {P : Primitives} {seed : SecretBytes} {path : DerivationPath} {secret : Bytes}

/-- The secret of an Ed25519 account is the private key BIP-32 derives. -/
theorem exists_ed25519_account_iff : (∃ account,
      Wallet.accountOf P seed path ed25519Scheme = .ok account ∧
        account.signer = .ed25519 secret) ↔
      ∃ key, deriveFromSeed P seed path = .ok key ∧ key.privateKey.buf = secret := by
  unfold Wallet.accountOf
  simp only [Wallet.newSigner_ed25519]
  refine ⟨?_, ?_⟩
  · rintro ⟨account, haccount, hsigner⟩
    obtain ⟨key, hkey, haccount⟩ := Effect.bind_eq_ok_iff.mp haccount
    obtain ⟨signer, hnew, haccount⟩ := Effect.bind_eq_ok_iff.mp haccount
    obtain ⟨-, rfl⟩ := Signer.newEd25519_eq_ok_iff.mp hnew
    cases haccount
    exact ⟨key, hkey, Signer.ed25519.inj hsigner⟩
  -- a derived private key has 32 bytes, which is all that the Ed25519 signer asks for
  · rintro ⟨key, hkey, rfl⟩
    have hlen := (shape_of_deriveFromSeed hkey).1.privateKey_length
    refine ⟨⟨path, .ed25519 key.privateKey.buf,
      P.ed25519PublicKey key.privateKey.buf⟩, ?_, rfl⟩
    rw [hkey, Effect.ok_bind, Signer.newEd25519_eq_ok_iff.mpr ⟨hlen, rfl⟩]
    rfl

/-- What the property says about derivation. -/
theorem followsSlip10_iff_forall : FollowsSlip10 P seed path ↔ ∀ secret,
    (∃ key, deriveFromSeed P seed path = .ok key ∧ key.privateKey.buf = secret) ↔
      Slip10.secretOf P seed.buf path.indices = .ok secret := by
  have haccounts : ∀ (wallet : Wallet) (w : World), w.flags.read wallet.closed = false →
      w.secrets.read wallet.seed = seed → ∀ secret,
      ((∃ account w', (wallet.deriveAccount P path ed25519Scheme).run w = .ok account w' ∧
        account.signer = .ed25519 secret) ↔
      ∃ key, deriveFromSeed P seed path = .ok key ∧ key.privateKey.buf = secret) := by
    intro wallet w hopen hseed secret
    rw [← exists_ed25519_account_iff]
    simp only [Wallet.run_deriveAccount_eq_ok_iff, hopen, hseed, true_and]
    refine ⟨?_, ?_⟩
    · rintro ⟨account, w', ⟨haccount, -⟩, hsigner⟩
      exact ⟨account, haccount, hsigner⟩
    · rintro ⟨account, haccount, hsigner⟩
      exact ⟨account, w, ⟨haccount, rfl⟩, hsigner⟩
  refine ⟨?_, ?_⟩
  · intro h secret
    have hwallet := h Wallet.seedWallet (Wallet.seedWorld seed) rfl rfl secret
    exact (haccounts Wallet.seedWallet (Wallet.seedWorld seed) rfl rfl secret).symm.trans hwallet
  · intro h wallet w hopen hseed secret
    exact (haccounts wallet w hopen hseed secret).trans (h secret)

/-- A path that BIP-32 walks has indices of 31 bits. -/
theorem inRange_of_deriveFromSeed {key : ExtendedPrivateKey}
    (h : deriveFromSeed P seed path = .ok key) : ∀ c ∈ path.indices, Bip32.InRange c := by
  unfold deriveFromSeed at h
  obtain ⟨root, -, hwalk⟩ := Effect.bind_eq_ok_iff.mp h
  intro c hc
  -- every component was the input of a step, and a step checks its index
  obtain ⟨u, v, hstep⟩ := Walk.exists_step_of_walk hwalk c hc
  unfold ExtendedPrivateKey.derive at hstep
  obtain ⟨_, hindex, -⟩ := Effect.bind_eq_ok_iff.mp hstep
  have hrange := raiseIf_eq_ok_iff.mp hindex
  unfold Bip32.InRange
  omega

end Accounts

/-! ### What tells the two apart -/

section Marking

variable (P : Primitives)

theorem ofHmac_marking {k : Bytes} (h : k ≠ Bytes.ofString "Bitcoin seed") (b : Bytes) :
    Slip10.Node.ofHmac (P.marking.hmacSha512 k b)
      = ⟨List.replicate 32 0, List.replicate 32 0⟩ := by
  obtain ⟨hleft, hright⟩ := halves_marking P h b
  unfold Slip10.Node.ofHmac
  rw [hleft, hright]

/-- Under SLIP-0010 all secrets are zero. -/
theorem secretOf_marking {seed secret : Bytes} {path : List (ℤ × Bool)}
    (h : Slip10.secretOf P.marking seed path = .ok secret) : secret = List.replicate 32 0 := by
  obtain ⟨n, hwalk, rfl⟩ := Slip10.secretOf_eq_ok_iff.mp h
  have hzero : n = ⟨List.replicate 32 0, List.replicate 32 0⟩ := by
    refine Walk.walk_induction (I := fun _ n =>
      n = (⟨List.replicate 32 0, List.replicate 32 0⟩ : Slip10.Node)) ?_ ?_ hwalk
    · exact ofHmac_marking P (by decide) seed
    · rintro l c u v _ rfl hstep
      obtain ⟨-, -, rfl⟩ := Slip10.child_eq_ok_iff.mp hstep
      -- a chain code of zeros is not the key of BIP-32
      exact ofHmac_marking P (by decide) _
  rw [hzero]

end Marking

/-- **When Ed25519 accounts follow SLIP-0010.** Whatever the HMAC is, they do for a path with an
index out of range, which neither derives; for every other path there is an HMAC with which they
do not. -/
theorem followsSlip10_iff (P : Primitives) (seed : SecretBytes) (path : DerivationPath) :
    (∀ (H : Bytes → Bytes → Bytes) (hH : ∀ k b, (H k b).length = 64),
      FollowsSlip10 (P.withHmac H hH) seed path) ↔
      ∃ c ∈ path.indices, ¬ Bip32.InRange c := by
  refine ⟨?_, ?_⟩
  · intro h
    by_contra hnone
    push Not at hnone
    -- if all indices are in range, BIP-32 yields the key one under this HMAC
    obtain ⟨key, hkey, hone⟩ := exists_derive_marking P seed hnone
    have hslip := (followsSlip10_iff_forall.mp (h markingHmac length_markingHmac)
      key.privateKey.buf).mp ⟨key, hkey, rfl⟩
    -- one is not zero
    rw [secretOf_marking P hslip] at hone
    exact absurd hone (by decide)
  · rintro ⟨c, hc, hout⟩ H hH
    refine followsSlip10_iff_forall.mpr fun secret => iff_of_false ?_ ?_
    · rintro ⟨key, hkey, -⟩
      exact hout (inRange_of_deriveFromSeed hkey c hc)
    · intro hslip
      exact hout (Slip10.forall_of_secretOf hslip c hc).2

/-! ### One account -/

/-- The seed `00 01 .. 0f`. -/
def countingSeed : SecretBytes := ⟨Radix.digits byteDigit 16 0x000102030405060708090a0b0c0d0e0f,
  by decide⟩

/-- The halves of HMAC-SHA512 for the four keys that occur below, each for the one message that
occurs with it. -/
def countingHalves (k : Bytes) : ℕ × ℕ :=
  if k = Bytes.ofString "Bitcoin seed" then
    (0xe8f32e723decf4051aefac8e2c93c9c5b214313817cdb01a1494b917c8436b35,
      0x873dff81c02f525623fd1fe5167eac3a55a049de3d314bb42ee227ffed37d508)
  else if k = Bytes.ofString "ed25519 seed" then
    (0x2b4be7f19ee27bbf30c667b642d5f4aa69fd169872f8fc3059c08ebae2eb19e7,
      0x90046a93de5380a72b5e45010748567d5ea02bbf6522f979e05c0d8d8ca9fffb)
  else if k = Radix.digits byteDigit 32
      0x873dff81c02f525623fd1fe5167eac3a55a049de3d314bb42ee227ffed37d508 then
    (0x04bfb2dd60fa8921c2a4085ec15507a921f49cdc839f27f0f280e9c1495d44b5,
      0x47fdacbd0f1097043b78c63c20c34ef4ed9a111d980047ad16282c7ae6236141)
  else
    (0x68e0fe46dfb67e368c75379acec591dad19df3cde26e63b93a8e704f1dade7a3,
      0x8b59aa11380b624e81507a27fedda59fea6d0b779a778918a2fd3590e16e9c69)

def countingHmac (k _b : Bytes) : Bytes :=
  Radix.digits byteDigit 32 (countingHalves k).1 ++ Radix.digits byteDigit 32 (countingHalves k).2

theorem length_countingHmac (k b : Bytes) : (countingHmac k b).length = 64 := by
  unfold countingHmac
  rw [List.length_append, Radix.length_digits, Radix.length_digits]

/-- `toy` with these values of HMAC-SHA512. -/
def Primitives.counting : Primitives := Primitives.toy.withHmac countingHmac length_countingHmac

/-- **Two keys for one account.** For `m/0'` the account has the secp256k1 child of BIP-32, where
SLIP-0010 has another key. -/
theorem counting_two_keys :
    DerivationPath.parse (PyStr.ofString "m/0'") = .ok ⟨[(0, true)]⟩ ∧
    (∃ account w, (Wallet.seedWallet.deriveAccount Primitives.counting ⟨[(0, true)]⟩
        ed25519Scheme).run (Wallet.seedWorld countingSeed) = .ok account w ∧
      account.signer = .ed25519 (Radix.digits byteDigit 32
        0xedb2e14f9ee77d26dd93b4ecede8d16ed408ce149b6cd80b0715a2d911a0afea)) ∧
    Slip10.secretOf Primitives.counting countingSeed.buf [(0, true)]
      = .ok (Radix.digits byteDigit 32
        0x68e0fe46dfb67e368c75379acec591dad19df3cde26e63b93a8e704f1dade7a3) ∧
    ¬ FollowsSlip10 Primitives.counting countingSeed ⟨[(0, true)]⟩ := by
  have hbip : (deriveFromSeed Primitives.counting countingSeed ⟨[(0, true)]⟩).map
      (fun key => key.privateKey.buf) = .ok (Radix.digits byteDigit 32
        0xedb2e14f9ee77d26dd93b4ecede8d16ed408ce149b6cd80b0715a2d911a0afea) := by
    decide +kernel
  have hslip : Slip10.secretOf Primitives.counting countingSeed.buf [(0, true)]
      = .ok (Radix.digits byteDigit 32
        0x68e0fe46dfb67e368c75379acec591dad19df3cde26e63b93a8e704f1dade7a3) := by
    decide +kernel
  have hkey : ∃ key, deriveFromSeed Primitives.counting countingSeed ⟨[(0, true)]⟩ = .ok key ∧
      key.privateKey.buf = Radix.digits byteDigit 32
        0xedb2e14f9ee77d26dd93b4ecede8d16ed408ce149b6cd80b0715a2d911a0afea := by
    cases hderive : deriveFromSeed Primitives.counting countingSeed ⟨[(0, true)]⟩ with
    | ok key =>
      rw [hderive] at hbip
      exact ⟨key, rfl, Except.ok.inj hbip⟩
    | error e =>
      rw [hderive] at hbip
      cases hbip
  obtain ⟨account, haccount, hsigner⟩ := exists_ed25519_account_iff.mpr hkey
  refine ⟨by decide, ⟨account, _, Wallet.run_deriveAccount_eq_ok_iff.mpr ⟨rfl, haccount, rfl⟩,
    hsigner⟩, hslip, fun hfollows => ?_⟩
  -- the account would have to have the other key
  have hsame := (followsSlip10_iff_forall.mp hfollows _).mp hkey
  rw [hslip] at hsame
  exact absurd (Except.ok.inj hsame) (by decide +kernel)

end KeystoneCrypto
