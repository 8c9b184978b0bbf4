import KeystoneCrypto.Keystore.Recovery
import KeystoneCrypto.Derivation.Runs

/-!
# Two routes to a key

A mnemonic leads to a key by two routes. `directKey` is the lower-level route: the PBKDF2 seed of
the mnemonic is the root of the derivation. `walletKey` creates a keystore, unlocks it and derives
an account; what a keystore stores is the entropy, so there the entropy is the root.

Both routes end in `rootKey`, whose result is the public key of a BIP-32 scalar
(`rootKey_eq_ok_iff`). The two roots have different lengths, so they are different HMAC messages,
and the two keys are equal only where the HMAC and the sums along the path happen to collide.
Under the function `lengthHmac`, which tells messages apart by their length, they never are
(`keys_of_lengthHmac`).
-/

namespace KeystoneCrypto

/-! ### The root of a derivation -/

/-- The scalar BIP-32 assigns to a path from a seed, if there is one. -/
def Bip32.keyOf (P : Primitives) (seed : Bytes) (path : List (ℤ × Bool)) : Option Scalar :=
  if h : ValidSeed P seed then
    match derive P (master P seed h) path with
    | .ok node => some node.scalar
    | .error _ => none
  else none

/-- `Secp256kSigner(derive_from_seed(seed, path).private_key).public_key_bytes()`. -/
def rootKey (P : Primitives) (seed : SecretBytes) (path : DerivationPath) : Except PyExc Bytes := do
  let xprv ← deriveFromSeed P seed path
  let signer ← Signer.newSecp256k xprv.privateKey
  return signer.publicKeyBytes P

/-- The lower-level route: derive from `m.seed(passphrase='')`. -/
def directKey (P : Primitives) (m : Mnemonic) (path : DerivationPath) : Except PyExc Bytes := do
  let seed ← m.seed P []
  rootKey P seed path

/-- The wallet route: `Keystore.create(m, password)`, `unlock(password)`, `derive_account(path)`,
with the default profile and the default scheme. -/
def walletKey (P : Primitives) (m : Mnemonic) (password : PyStr) (path : DerivationPath) :
    Py Bytes := do
  let ks ← Keystore.create P m password interactiveProfile false
  let wallet ← KeystoreContext.unlock P ⟨ks.blob⟩ password
  let account ← wallet.deriveAccount P path ecdsaScheme
  return account.publicKey

section Root

variable {P : Primitives} {seed : SecretBytes} {path : DerivationPath}

/-- A key comes out only if the master scalar is valid: either the signer or the first step along
the path builds a private key from it. -/
theorem validSeed_of_rootKey {pk : Bytes} (h : rootKey P seed path = .ok pk) :
    Bip32.ValidSeed P seed.buf := by
  unfold rootKey at h
  obtain ⟨xprv, hderive, h⟩ := Effect.bind_eq_ok_iff.mp h
  obtain ⟨signer, hsigner, -⟩ := Effect.bind_eq_ok_iff.mp h
  by_cases hpath : path.indices = []
  · -- no step: the master key goes to the signer
    have hxprv := intFromBytes_of_deriveFromSeed_nil hpath hderive
    obtain ⟨-, k, hk, -⟩ := Signer.newSecp256k_eq_ok_iff.mp hsigner
    have hrange := k.2
    rwa [← intFromBytes_of_privateKey hk, hxprv] at hrange
  · exact validSeed_of_deriveFromSeed hpath hderive

/-- A signer for the private key of a node. -/
theorem newSecp256k_of_refines {key : ExtendedPrivateKey} {node : Bip32.Node}
    (h : key.Refines node) : Signer.newSecp256k key.privateKey = .ok (.secp256k node.scalar) := by
  have hlen : key.privateKey.buf.length = 32 := by
    rw [h.privateKey_eq, Bip32.ser256, Radix.length_digits]
  refine Signer.newSecp256k_eq_ok_iff.mpr ⟨hlen, node.scalar, ?_, rfl⟩
  rw [h.privateKey_eq, privateKey_ser256]

/-- **The key at the end of a path** is the public key of the BIP-32 scalar. -/
theorem rootKey_eq_ok_iff {pk : Bytes} :
    rootKey P seed path = .ok pk ↔
      ∃ k, Bip32.keyOf P seed.buf path.indices = some k ∧ P.compressedPublicKey k = pk := by
  unfold Bip32.keyOf
  refine ⟨?_, ?_⟩
  · intro h
    have hseed := validSeed_of_rootKey h
    unfold rootKey at h
    obtain ⟨xprv, hderive, h⟩ := Effect.bind_eq_ok_iff.mp h
    obtain ⟨⟨node, hnode, hR⟩, -⟩ := node_of_deriveFromSeed hseed hderive
    -- the signer takes the scalar of the node, and its public key is the result
    rw [newSecp256k_of_refines hR] at h
    rw [dif_pos hseed, hnode]
    exact ⟨node.scalar, rfl, Except.ok.inj h⟩
  · rintro ⟨k, hk, rfl⟩
    split at hk
    · next hseed =>
      cases hnode : Bip32.derive P (Bip32.master P seed.buf hseed) path.indices with
      | error r =>
        rw [hnode] at hk
        cases hk
      | ok node =>
        rw [hnode] at hk
        obtain ⟨xprv, hderive, hR⟩ := deriveFromSeed_of_derive hseed hnode
        unfold rootKey
        rw [hderive, Effect.ok_bind, newSecp256k_of_refines hR, ← Option.some.inj hk]
        rfl
    · cases hk

/-- An ECDSA account holds the key at the end of its path. -/
theorem map_accountOf (P : Primitives) (seed : SecretBytes) (path : DerivationPath) :
    (Wallet.accountOf P seed path ecdsaScheme).map Account.publicKey = rootKey P seed path := by
  have hnew : ∀ sk, Wallet.newSigner ecdsaScheme sk = Signer.newSecp256k sk :=
    fun sk => if_pos rfl
  unfold Wallet.accountOf rootKey
  cases deriveFromSeed P seed path with
  | error x => rfl
  | ok xprv =>
    simp only [Effect.ok_bind, hnew]
    cases Signer.newSecp256k xprv.privateKey <;> rfl

end Root

/-! ### The two routes -/

/-- What the results about both routes assume of their inputs: the mnemonic is one the library hands
out, the password can be wrapped, and the timestamp fits its field. -/
structure Routable (P : Primitives) (m : Mnemonic) (password : PyStr) (w : World) : Prop where
  obtained : Obtained P m
  password_ne_nil : password ≠ []
  password_encodes : ∃ b, password.encodeUtf8 = .ok b
  clock_ge : -2 ^ 63 ≤ w.clock.head
  clock_lt : w.clock.head < 2 ^ 63

section Routes

variable {P : Primitives} {m : Mnemonic} {password : PyStr} {w : World} {e : SecretBytes}

/-- **The wallet route** derives from the entropy. -/
theorem run_walletKey (hP : P.AesGcmUndoes) (h : Routable P m password w)
    (he : m.entropy = .ok e) (path : DerivationPath) :
    ∃ w', (walletKey P m password path).run w = match rootKey P e path with
      | .ok pk => .ok pk w'
      | .error x => .error x w' := by
  obtain ⟨b, hb⟩ := h.password_encodes
  obtain ⟨pw, hpw⟩ := exists_encodes h.password_ne_nil hb
  obtain ⟨e', he', hsize, -⟩ := h.obtained.exists_entropy
  obtain rfl : e' = e := Except.ok.inj (he'.symm.trans he)
  have hshort : e'.buf.length ≤ 255 := le_trans (length_le_of_mem_entropySizes hsize) (by decide)
  -- create, unlock, and read the entropy back out of the seed cell
  obtain ⟨ks, w₁, hcreate, hopens, -⟩ := exists_create hP he hshort h.password_ne_nil hpw
    profiles_public.1 rfl rfl false h.clock_ge h.clock_lt
  have hunlock : (KeystoreContext.unlock P ⟨ks.blob⟩ password).run w₁
      = .ok (unlockedWallet P w₁ e') (unlockedWorld w₁ pw (Envelope.headerCall ks.blob pw) e') :=
    KeystoreContext.run_unlock_eq_ok_iff.mpr ⟨pw, _, hpw, hopens, rfl, rfl⟩
  refine ⟨unlockedWorld w₁ pw (Envelope.headerCall ks.blob pw) e', ?_⟩
  unfold walletKey
  rw [Effect.run_bind_of_ok hcreate, Effect.run_bind_of_ok hunlock, EStateM.run_bind,
    Wallet.run_deriveAccount, read_unlockedWorld_closed, if_neg Bool.false_ne_true,
    read_unlockedWorld_seed, ← map_accountOf]
  cases Wallet.accountOf P e' path ecdsaScheme <;> rfl

/-- The wallet route yields a key exactly when derivation from the entropy does. -/
theorem run_walletKey_eq_ok_iff (hP : P.AesGcmUndoes) (h : Routable P m password w)
    (he : m.entropy = .ok e) {path : DerivationPath} {pk : Bytes} :
    (∃ w', (walletKey P m password path).run w = .ok pk w') ↔ rootKey P e path = .ok pk := by
  obtain ⟨w', hrun⟩ := run_walletKey hP h he path
  rw [hrun]
  cases rootKey P e path with
  | error x => simp
  | ok pk' => simp

/-- The lower-level route derives from the PBKDF2 seed. -/
theorem directKey_eq_ok_iff {path : DerivationPath} {pk : Bytes} :
    directKey P m path = .ok pk ↔
      ∃ seed, m.seed P [] = .ok seed ∧ rootKey P seed path = .ok pk :=
  Effect.bind_eq_ok_iff

/-- The seed has 64 bytes. -/
theorem length_of_seed {passphrase : PyStr} {seed : SecretBytes}
    (h : m.seed P passphrase = .ok seed) : seed.buf.length = 64 := by
  unfold Mnemonic.seed at h
  simp only at h
  split at h
  · rw [SecretBytes.new_eq_ok_iff.mp h, P.pbkdf2HmacSha512_length]
  · cases h

/-- Both normal forms being valid text, there is a seed. -/
theorem exists_seed {passphrase : PyStr} {b salt : Bytes}
    (hphrase : (P.nfkd m.phrase).encodeUtf8 = .ok b)
    (hsalt : (P.nfkd (PyStr.ofString "mnemonic" ++ passphrase)).encodeUtf8 = .ok salt) :
    ∃ seed, m.seed P passphrase = .ok seed := by
  have hne : P.pbkdf2HmacSha512 b salt 2048 64 ≠ [] := by
    apply List.ne_nil_of_length_pos
    rw [P.pbkdf2HmacSha512_length]
    decide
  refine ⟨⟨_, hne⟩, ?_⟩
  unfold Mnemonic.seed
  rw [hphrase, hsalt]
  exact SecretBytes.new_of_ne_nil hne

/-- For one choice of the hash functions, the routes agree where the scalars do. -/
theorem walletKey_eq_iff (hP : P.AesGcmUndoes) (hcurve : Function.Injective P.compressedPublicKey)
    (h : Routable P m password w) (he : m.entropy = .ok e) {seed : SecretBytes}
    (hseed : m.seed P [] = .ok seed) {path : DerivationPath} {pk : Bytes}
    (hpk : directKey P m path = .ok pk) :
    (∃ w', (walletKey P m password path).run w = .ok pk w') ↔
      Bip32.keyOf P e.buf path.indices = Bip32.keyOf P seed.buf path.indices := by
  -- both routes end in `rootKey`, so their results are the public keys of two scalars
  obtain ⟨seed', hseed', hdirect⟩ := directKey_eq_ok_iff.mp hpk
  obtain rfl : seed' = seed := Except.ok.inj (hseed'.symm.trans hseed)
  obtain ⟨k, hk, hkpk⟩ := rootKey_eq_ok_iff.mp hdirect
  rw [run_walletKey_eq_ok_iff hP h he, rootKey_eq_ok_iff, hk]
  refine ⟨?_, ?_⟩
  · rintro ⟨k', hk', hpk'⟩
    rw [hk', hcurve (hpk'.trans hkpk.symm)]
  · intro hk'
    exact ⟨k, hk', hkpk⟩

end Routes

/-! ### An HMAC that tells the roots apart -/

/-- An HMAC whose left half is the number 1 for messages of 64 bytes, the length of a PBKDF2 seed,
0 for messages of 37 bytes, the length of a derivation step, and 2 for all others. -/
@[irreducible] def lengthHmac (_ b : Bytes) : Bytes :=
  Bip32.ser256 (if b.length = 64 then 1 else if b.length = 37 then 0 else 2)
    ++ List.replicate 32 0

theorem lengthHmac_length (k b : Bytes) : (lengthHmac k b).length = 64 := by
  simp [lengthHmac, Bip32.ser256]

/-- The primitives under which lengths are all that matters. -/
def Primitives.byLength (P : Primitives) : Primitives := P.withHmac lengthHmac lengthHmac_length

/-- The scalar 1. -/
def scalarOne : Scalar := ⟨1, by norm_num [groupOrder]⟩

/-- The scalar 2. -/
def scalarTwo : Scalar := ⟨2, by norm_num [groupOrder]⟩

section ByLength

variable {P : Primitives}

theorem intFromBytes_lengthHmac (k b : Bytes) : intFromBytes ((lengthHmac k b).take 32)
    = if b.length = 64 then 1 else if b.length = 37 then 0 else 2 := by
  have hfits : ∀ n ≤ 2, intFromBytes (Bip32.ser256 n) = n := fun n hn =>
    Radix.value_digits_of_lt byteDigit (lt_of_le_of_lt hn (by norm_num))
  unfold lengthHmac
  rw [List.take_left' (by rw [Bip32.ser256, Radix.length_digits]), hfits]
  split
  · decide
  · split <;> decide

theorem left_byLength (n : Bip32.Node) (c : ℤ × Bool) : Bip32.left P.byLength n c = 0 := by
  refine (intFromBytes_lengthHmac n.chain _).trans ?_
  rw [Bip32.length_message]
  rfl

/-- So no step changes the scalar, and no step along 31-bit indices is refused. -/
theorem derive_byLength {path : List (ℤ × Bool)} (hpath : ∀ c ∈ path, Bip32.InRange c)
    (n : Bip32.Node) : ∃ m, Bip32.derive P.byLength n path = .ok m ∧ m.scalar = n.scalar := by
  induction path generalizing n with
  | nil => exact ⟨n, rfl, rfl⟩
  | cons c path ih =>
    -- with an `IL` of zero the guards on `IL` and on the sum pass
    have hleft := left_byLength (P := P) n c
    have hn := n.scalar.2
    obtain ⟨n', hchild⟩ : ∃ n', Bip32.child P.byLength n c = .ok n' := by
      cases hc : Bip32.child P.byLength n c with
      | ok n' => exact ⟨n', rfl⟩
      | error r =>
        exfalso
        rcases (Bip32.exists_child_eq_error_iff P.byLength n c).mp ⟨r, hc⟩ with h | h | h
        · exact h (hpath c List.mem_cons_self)
        · omega
        · rw [hleft, Nat.zero_add, Nat.mod_eq_of_lt hn.2] at h
          omega
    have hscalar := Bip32.scalar_of_child P.byLength n c hchild
    rw [hleft, Nat.zero_add, Nat.mod_eq_of_lt hn.2] at hscalar
    obtain ⟨m, hm, hms⟩ := ih (fun c' hc' => hpath c' (List.mem_cons_of_mem c hc')) n'
    refine ⟨m, ?_, hms.trans (Subtype.ext hscalar)⟩
    unfold Bip32.derive at hm ⊢
    rw [Walk.walk_cons, hchild]
    exact hm

/-- The key at the end of a path, by the length of the seed. -/
theorem keyOf_byLength {path : List (ℤ × Bool)} (hpath : ∀ c ∈ path, Bip32.InRange c)
    {seed : Bytes} {k : Scalar} (h : Bip32.masterLeft P.byLength seed = k) :
    Bip32.keyOf P.byLength seed path = some k := by
  have hseed : Bip32.ValidSeed P.byLength seed := by
    unfold Bip32.ValidSeed
    rw [h]
    exact k.2
  have hmaster : (Bip32.master P.byLength seed hseed).scalar = k := by
    apply Subtype.ext
    rw [Bip32.master_scalar, h]
  obtain ⟨m, hm, hscalar⟩ := derive_byLength hpath (Bip32.master P.byLength seed hseed)
  unfold Bip32.keyOf
  rw [dif_pos hseed, hm]
  change some m.scalar = some k
  rw [hscalar, hmaster]

theorem masterLeft_byLength (seed : Bytes) : Bip32.masterLeft P.byLength seed
    = if seed.length = 64 then 1 else if seed.length = 37 then 0 else 2 :=
  intFromBytes_lengthHmac (Bytes.ofString "Bitcoin seed") seed

/-- Mnemonics do not depend on the HMAC. -/
theorem Obtained.byLength {m : Mnemonic} (h : Obtained P m) : Obtained P.byLength m := by
  cases h with
  | generate h => exact .generate h
  | fromEntropy hsize h => exact .fromEntropy hsize h
  | fromPhrase h => exact .fromPhrase h

end ByLength

/-! ### When the routes agree -/

/-- Both routes succeed, with one key. -/
def SameKey (P : Primitives) (m : Mnemonic) (password : PyStr) (path : DerivationPath) (w : World) :
    Prop :=
  ∃ pk w', directKey P m path = .ok pk ∧ (walletKey P m password path).run w = .ok pk w'

section Agree

variable {P : Primitives} {m : Mnemonic} {password : PyStr} {w : World} {e seed : SecretBytes}
  {path : DerivationPath}

/-- **Different keys.** Under the HMAC that looks at lengths, both routes succeed for every
mnemonic, password and path of 31-bit indices: the lower-level API returns the public key of the
scalar 1, the wallet that of the scalar 2. -/
theorem keys_of_lengthHmac (hP : P.AesGcmUndoes) (h : Routable P m password w)
    (he : m.entropy = .ok e) (hseed : m.seed P [] = .ok seed)
    (hpath : ∀ c ∈ path.indices, Bip32.InRange c) :
    directKey P.byLength m path = .ok (P.compressedPublicKey scalarOne) ∧
      ∃ w', (walletKey P.byLength m password path).run w
        = .ok (P.compressedPublicKey scalarTwo) w' := by
  have hroutable : Routable P.byLength m password w := { h with obtained := h.obtained.byLength }
  obtain ⟨e', he', hsize, -⟩ := h.obtained.exists_entropy
  obtain rfl : e' = e := Except.ok.inj (he'.symm.trans he)
  refine ⟨?_, ?_⟩
  · -- the seed has 64 bytes
    have hmaster : Bip32.masterLeft P.byLength seed.buf = scalarOne := by
      rw [masterLeft_byLength, if_pos (length_of_seed hseed)]
      rfl
    exact directKey_eq_ok_iff.mpr
      ⟨seed, hseed, rootKey_eq_ok_iff.mpr ⟨scalarOne, keyOf_byLength hpath hmaster, rfl⟩⟩
  · -- the entropy has 32 bytes at most, so its length is neither 64 nor 37
    have hshort := length_le_of_mem_entropySizes hsize
    have hmaster : Bip32.masterLeft P.byLength e'.buf = scalarTwo := by
      rw [masterLeft_byLength, if_neg (by omega), if_neg (by omega)]
      rfl
    exact (run_walletKey_eq_ok_iff (P := P.byLength) hP hroutable he).mpr
      (rootKey_eq_ok_iff.mpr ⟨scalarTwo, keyOf_byLength hpath hmaster, rfl⟩)

/-- **When the wallet derives the key of the lower-level API.** For given hash functions, exactly
where BIP-32 assigns one scalar to the path from the entropy and from the PBKDF2 seed. As a law
about hash functions it fails everywhere: whatever PBKDF2, Argon2id, AES-GCM and the curve are,
one HMAC makes the keys differ for every mnemonic, password and path that has a key. -/
theorem sameKey_iff (hP : P.AesGcmUndoes) (hcurve : Function.Injective P.compressedPublicKey)
    (h : Routable P m password w) (he : m.entropy = .ok e) (hseed : m.seed P [] = .ok seed)
    (path : DerivationPath) :
    (∀ pk, directKey P m path = .ok pk → (SameKey P m password path w ↔
      Bip32.keyOf P e.buf path.indices = Bip32.keyOf P seed.buf path.indices)) ∧
    ((∀ c ∈ path.indices, Bip32.InRange c) →
      (∃ pk, directKey P.byLength m path = .ok pk) ∧
        ¬ SameKey P.byLength m password path w) := by
  refine ⟨?_, ?_⟩
  · intro pk hpk
    rw [← walletKey_eq_iff hP hcurve h he hseed hpk]
    unfold SameKey
    refine ⟨?_, ?_⟩
    · rintro ⟨pk', w', hpk', hwallet⟩
      obtain rfl : pk' = pk := Except.ok.inj (hpk'.symm.trans hpk)
      exact ⟨w', hwallet⟩
    · rintro ⟨w', hwallet⟩
      exact ⟨pk, w', hpk, hwallet⟩
  · intro hpath
    obtain ⟨hdirect, w', hwallet⟩ := keys_of_lengthHmac hP h he hseed hpath
    refine ⟨⟨_, hdirect⟩, ?_⟩
    rintro ⟨pk, w'', hdirect', hwallet'⟩
    rw [hdirect, Except.ok.injEq] at hdirect'
    rw [hwallet, EStateM.Result.ok.injEq] at hwallet'
    -- one key for both routes would make the scalars 1 and 2 equal
    have hscalars : scalarOne = scalarTwo := hcurve (hdirect'.trans hwallet'.1.symm)
    exact absurd (Subtype.ext_iff.mp hscalars) (by decide)

end Agree

/-- The path of the first Bitcoin address, `m/44'/0'/0'/0/0`. -/
def bitcoinPath : DerivationPath :=
  ⟨[(44, true), (0, true), (0, true), (0, false), (0, false)]⟩

theorem zeroPhrase_routable :
    Routable Primitives.toy ⟨zeroPhrase⟩ (PyStr.ofString "pw") zeroWorld where
  obtained := zeroPhrase_obtained
  password_ne_nil := by decide
  password_encodes := ⟨[0x70, 0x77], by decide⟩
  clock_ge := by decide
  clock_lt := by decide

theorem exists_seed_zeroPhrase :
    ∃ seed, (⟨zeroPhrase⟩ : Mnemonic).seed Primitives.toy [] = .ok seed :=
  exists_seed (P := Primitives.toy) rfl rfl

theorem sameKey_iff_zeroPhrase :
    ∃ seed, (⟨zeroPhrase⟩ : Mnemonic).seed Primitives.toy [] = .ok seed ∧
    (∀ pk, directKey Primitives.toy ⟨zeroPhrase⟩ bitcoinPath = .ok pk →
      (SameKey Primitives.toy ⟨zeroPhrase⟩ (PyStr.ofString "pw") bitcoinPath zeroWorld ↔
        Bip32.keyOf Primitives.toy (List.replicate 16 0) bitcoinPath.indices
          = Bip32.keyOf Primitives.toy seed.buf bitcoinPath.indices)) ∧
    ((∀ c ∈ bitcoinPath.indices, Bip32.InRange c) →
      (∃ pk, directKey Primitives.toy.byLength ⟨zeroPhrase⟩ bitcoinPath = .ok pk) ∧
        ¬ SameKey Primitives.toy.byLength ⟨zeroPhrase⟩ (PyStr.ofString "pw") bitcoinPath
          zeroWorld) := by
  obtain ⟨seed, hseed⟩ := exists_seed_zeroPhrase
  exact ⟨seed, hseed, sameKey_iff Primitives.toy_undoes toy_compressedPublicKey_injective
    zeroPhrase_routable zeroPhrase_entropy hseed bitcoinPath⟩

/-- **Two keys for one mnemonic** at `m/44'/0'/0'/0/0`. -/
theorem zeroPhrase_two_keys :
    directKey Primitives.toy.byLength ⟨zeroPhrase⟩ bitcoinPath
      = .ok (2 :: (List.replicate 31 0 ++ [1])) ∧
    ∃ w', (walletKey Primitives.toy.byLength ⟨zeroPhrase⟩ (PyStr.ofString "pw")
        bitcoinPath).run zeroWorld = .ok (2 :: (List.replicate 31 0 ++ [2])) w' := by
  obtain ⟨seed, hseed⟩ := exists_seed_zeroPhrase
  exact keys_of_lengthHmac Primitives.toy_undoes zeroPhrase_routable zeroPhrase_entropy hseed
    (by decide)

end KeystoneCrypto
