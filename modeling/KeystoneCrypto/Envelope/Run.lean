import KeystoneCrypto.Envelope

/-!
# What one packing and one unpacking do

`Sealing` collects the values of a successful `pack`: the salt and nonce it drew, the key it
derived, the plaintext and the parameter block it wrote, each with the fact that makes it the
right one. Every blob `pack` returns is the blob of a sealing (`sealing_of_run_pack`), and every
sealing over the bytes a world is about to hand out is what `pack` returns there (`run_pack`).

An unpacking is split at the key derivation. What precedes it reads the header and depends on the
blob alone (`readHeader`); what follows is pure again (`openHeader`). `run_unpack` puts the three
parts together, and `run_unpack_eq_ok_iff` lists what a successful unpacking must have found.
-/

namespace KeystoneCrypto

namespace Envelope

/-! ### Packing -/

/-- The values of a successful packing. -/
@[ext]
structure Sealing (P : Primitives) (seed password : SecretBytes) (params : Argon2Params)
    (hasPassphrase : Bool) (ts : ℤ) where
  salt : Bytes
  nonce : Bytes
  key : SecretBytes
  plaintext : Bytes
  kdf : Bytes
  seed_le : seed.buf.length ≤ 255
  hashLen_eq : params.hashLen = 32
  salt_length : (salt.length : ℤ) = params.saltLen
  nonce_length : nonce.length = 12
  derived : derivedKey P (argon2Call password params salt) = .ok key
  plaintext_eq : packPlaintext seed ts hasPassphrase = .ok plaintext
  kdf_eq : packKdfParams params = .ok kdf

namespace Sealing

variable {P : Primitives} {seed password : SecretBytes} {params : Argon2Params}
  {hasPassphrase : Bool} {ts : ℤ} (s : Sealing P seed password params hasPassphrase ts)

/-- The Argon2id call behind the key. -/
def call : Argon2Call := argon2Call password params s.salt

/-- The ciphertext with its tag; `[1, 1]` is the associated data, version and `kdf_id`. -/
def ciphertext : Bytes := P.aesGcmEncrypt s.key.buf s.nonce s.plaintext [1, 1]

/-- The packed blob. -/
def blob : Bytes := magic ++ [1, 1] ++ s.kdf ++ s.salt ++ s.nonce ++ s.ciphertext

/-- The ciphertext opens to the plaintext, as decryption undoes encryption. -/
def Opens : Prop := P.aesGcmDecrypt s.key.buf s.nonce s.ciphertext [1, 1] = .ok s.plaintext

/-- No other tuple opens. -/
def Unforgeable : Prop := P.OnlyOpens s.key.buf s.nonce s.ciphertext [1, 1]

theorem opens_of_undoes (h : P.AesGcmUndoes) : s.Opens := h _ _ _ _

theorem key_length : s.key.buf.length = 32 := by
  have h := P.hashSecretRaw_length _ _ (derivedKey_eq_ok_iff.mp s.derived)
  simp only [argon2Call, s.hashLen_eq] at h
  exact_mod_cast h

end Sealing

theorem aad_version : aad version 1 = .ok [1, 1] := rfl

/-- The parameter block is five big-endian words and twelve zero bytes. -/
theorem packKdfParams_eq_ok_iff {p : Argon2Params} {b : Bytes} :
    packKdfParams p = .ok b ↔ ∃ t m par hl v, packU32 p.timeCost = .ok t ∧
      packU32 p.memoryCost = .ok m ∧ packU32 p.parallelism = .ok par ∧
      packU32 p.hashLen = .ok hl ∧ packU32 p.version = .ok v ∧
      b = t ++ m ++ par ++ hl ++ v ++ List.replicate 12 0 := by
  unfold packKdfParams
  simp only [Effect.bind_eq_ok_iff, pure, Except.pure, Except.ok.injEq]
  refine ⟨?_, ?_⟩
  · rintro ⟨t, ht, m, hm, par, hpar, hl, hhl, v, hv, rfl⟩
    exact ⟨t, m, par, hl, v, ht, hm, hpar, hhl, hv, rfl⟩
  · rintro ⟨t, m, par, hl, v, ht, hm, hpar, hhl, hv, rfl⟩
    exact ⟨t, ht, m, hm, par, hpar, hl, hhl, v, hv, rfl⟩

/-- The layout of the plaintext. -/
theorem packPlaintext_eq_ok_iff {seed : SecretBytes} {ts : ℤ} {hasPassphrase : Bool}
    {b : Bytes} (hseed : seed.buf.length ≤ 255) :
    packPlaintext seed ts hasPassphrase = .ok b ↔ ∃ stamp, packI64 ts = .ok stamp ∧
      b = UInt8.ofNat seed.buf.length :: (seed.buf ++ stamp
        ++ (if hasPassphrase then 1 else 0) :: List.replicate 6 0) := by
  -- both bytes are in range, so no write fails but that of the timestamp
  have hflag : bytesOfInt (if hasPassphrase then 0x01 else 0x00)
      = .ok [if hasPassphrase then 1 else 0] := by cases hasPassphrase <;> rfl
  unfold packPlaintext
  simp only [hflag, bytesOfInt_natCast (Nat.lt_succ_of_le hseed), Effect.bind_eq_ok_iff, pure,
    Except.pure, Except.ok.injEq, exists_eq_left', List.append_assoc, List.nil_append,
    List.cons_append, @eq_comm _ _ b]

/-- The timestamp `pack` writes when `clock` holds the coming readings. -/
def stamp (createdAt : Option ℤ) (clock : Stream' ℤ) : ℤ := createdAt.getD clock.head

/-- The readings left after `pack` took its timestamp. -/
def clockAfter (createdAt : Option ℤ) (clock : Stream' ℤ) : Stream' ℤ :=
  createdAt.elim clock.tail fun _ => clock

theorem run_timestamp (createdAt : Option ℤ) (w : World) :
    (timestamp createdAt).run w
      = .ok (stamp createdAt w.clock) { w with clock := clockAfter createdAt w.clock } := by
  cases createdAt <;> rfl

/-- The state a successful packing ends in. -/
def packedWorld (w : World) (call : Argon2Call) (saltLen : ℤ) (createdAt : Option ℤ) : World :=
  { w with
    random := (w.random.drop saltLen.toNat).drop 12
    clock := clockAfter createdAt w.clock
    kdfCalls := w.kdfCalls ++ [call] }

section RunPack

variable {P : Primitives} {seed password : SecretBytes} {params : Argon2Params}
  {hasPassphrase : Bool} {createdAt : Option ℤ} {w w' : World}

/-- **Packing.** A sealing over the coming random bytes is what `pack` returns. -/
theorem run_pack (s : Sealing P seed password params hasPassphrase (stamp createdAt w.clock))
    (hsalt : s.salt = w.random.take params.saltLen.toNat)
    (hnonce : s.nonce = (w.random.drop params.saltLen.toNat).take 12) :
    (pack P seed password params 1 hasPassphrase createdAt).run w
      = .ok s.blob (packedWorld w s.call params.saltLen createdAt) := by
  have hpos : 0 ≤ params.saltLen := by rw [← s.salt_length]; exact Int.natCast_nonneg _
  -- the salt just drawn has the declared length, so the key of the sealing comes out
  have hkey : ∀ w₁, (deriveKey P password params (some s.salt)).run w₁
      = .ok (s.key, s.salt) (w₁.recordKdf s.call) := by
    intro w₁
    rw [run_deriveKey P w₁ password s.salt_length, s.derived]
    rfl
  unfold pack
  rw [raiseIf_neg (by simp), raiseIf_neg (Nat.not_lt.mpr s.seed_le),
    raiseIf_neg (not_not.mpr s.hashLen_eq)]
  simp only [EStateM.run_bind, Effect.run_liftM, run_tokenBytes w hpos, ← hsalt, hkey,
    run_timestamp, World.recordKdf, s.plaintext_eq, aad_version, s.kdf_eq,
    run_encrypt P _ s.key_length, EStateM.run_pure, ← hnonce]
  rfl

/-- **Every blob is a sealing's blob.** -/
theorem sealing_of_run_pack {kdfId : ℤ} {blob : Bytes}
    (h : (pack P seed password params kdfId hasPassphrase createdAt).run w = .ok blob w') :
    ∃ s : Sealing P seed password params hasPassphrase (stamp createdAt w.clock),
      s.blob = blob ∧ s.salt = w.random.take params.saltLen.toNat ∧
      s.nonce = (w.random.drop params.saltLen.toNat).take 12 ∧ kdfId = 1 ∧
      w' = packedWorld w s.call params.saltLen createdAt := by
  have hrun := h
  -- reading the run backwards gives every field of a sealing
  unfold pack at h
  simp only [Effect.run_bind_eq_ok_iff, Effect.run_liftM_eq_ok_iff, raiseIf_eq_ok_iff,
    run_tokenBytes_eq_ok_iff, run_deriveKey_eq_ok_iff, not_not, not_lt, ne_eq, run_timestamp,
    EStateM.Result.ok.injEq] at h
  obtain ⟨-, _, ⟨rfl, rfl⟩, -, _, ⟨hseed, rfl⟩, -, _, ⟨hlen, rfl⟩, salt, _, ⟨hpos, hsalt, rfl⟩,
    ⟨key, salt'⟩, _, ⟨hsaltLen, hkey, rfl, rfl⟩, _, _, ⟨rfl, rfl⟩, plaintext, _, ⟨hplain, -⟩,
    -, _, -, -, _, -, -, _, -, kdf, _, ⟨hkdf, -⟩, -⟩ := h
  let s : Sealing P seed password params hasPassphrase (stamp createdAt w.clock) :=
    { salt := salt', nonce := (w.random.drop params.saltLen.toNat).take 12, key, plaintext, kdf
      seed_le := hseed, hashLen_eq := hlen, salt_length := hsaltLen
      nonce_length := Stream'.length_take _ _, derived := hkey, plaintext_eq := hplain
      kdf_eq := hkdf }
  -- the sealing determines the run, so the run at hand is the one of `run_pack`
  have hs := run_pack s hsalt rfl
  rw [hrun, EStateM.Result.ok.injEq] at hs
  exact ⟨s, hs.1.symm, hsalt, rfl, rfl, hs.2⟩

end RunPack

/-! ### Unpacking -/

/-- What `unpack` reads off a blob. -/
structure Header where
  version : UInt8
  kdfId : UInt8
  params : Argon2Params
  salt : Bytes
  nonce : Bytes
  ciphertext : Bytes

/-- The statements of `unpack` before the key derivation. -/
def readHeader (blob : Bytes) : Except PyExc Header := do
  raiseIf (blob.length < headerLen + gcmTagLen) .keystoreDecryptionError
    [.lit "blob too short: ", .int blob.length, .lit " bytes"]
  raiseIf (sliceFromTo blob offMagic (offMagic + 4) ≠ magic) .keystoreVersionError
    [.lit "bad magic; not a keystonecrypto keystore"]
  let ver ← indexAt blob offVersion
  raiseIf (ver.toNat ≠ KeystoneCrypto.version) .keystoreVersionError
    [.lit "unsupported keystore version ", .int ver.toNat,
      .lit "; this build of keystonecrypto only supports version ", .int KeystoneCrypto.version]
  let kdfId ← indexAt blob offKdfId
  let params ← unpackKdfParams (sliceFromTo blob offKdf (offKdf + 32))
  return ⟨ver, kdfId, params, sliceFromTo blob offSalt (offSalt + 16),
    sliceFromTo blob offNonce (offNonce + nonceLen), blob.drop headerLen⟩

/-- The statements of `unpack` after the key derivation. -/
def openHeader (P : Primitives) (h : Header) (key : SecretBytes) :
    Except PyExc UnpackedKeystore := do
  let ad ← aad h.version.toNat h.kdfId.toNat
  let plaintext ← decrypt P key h.nonce h.ciphertext ad
  raiseIf (h.kdfId.toNat ≠ 1) .keystoreVersionError
    [.lit "unsupported kdf_id ", .int h.kdfId.toNat]
  unpackPlaintext plaintext

/-- `unpack` reads, derives and opens. -/
theorem unpack_eq (P : Primitives) (blob : Bytes) (password : SecretBytes) :
    unpack P blob password = (do
      let h ← readHeader blob
      let (key, _) ← deriveKey P password h.params (some h.salt)
      openHeader P h key) := by
  -- the two parts are pure; `derive_key` between them is the one that touches the world
  unfold unpack readHeader openHeader
  simp only [Effect.liftM_bind, Effect.liftM_pure, bind_assoc, pure_bind]

/-- The checks on length, magic and version pass. -/
structure Readable (blob : Bytes) : Prop where
  length_ge : 82 ≤ blob.length
  magic_eq : sliceFromTo blob 0 4 = magic
  version_eq : blob.getD 4 0 = 1

/-- The fields at the fixed offsets. -/
def header (blob : Bytes) : Header where
  version := blob.getD 4 0
  kdfId := blob.getD 5 0
  params :=
    let kdf := sliceFromTo blob 6 38
    .forTesting (unpackU32 kdf 0) (unpackU32 kdf 4) (unpackU32 kdf 8) (unpackU32 kdf 12) 16
      (unpackU32 kdf 16)
  salt := sliceFromTo blob 38 54
  nonce := sliceFromTo blob 54 66
  ciphertext := blob.drop 66

/-- The Argon2id call the header asks for. -/
def headerCall (blob : Bytes) (password : SecretBytes) : Argon2Call :=
  argon2Call password (header blob).params (header blob).salt

theorem readHeader_of_readable {blob : Bytes} (h : Readable blob) :
    readHeader blob = .ok (header blob) := by
  have hlen := h.length_ge
  -- 82 bytes are enough for every index and for the parameter block
  have hat : ∀ i, i < 82 → indexAt blob i = .ok (blob.getD i 0) := by
    intro i hi
    have hlt : i < blob.length := lt_of_lt_of_le hi hlen
    rw [indexAt_of_lt hlt, getD_of_lt hlt]
  have hkdf : unpackKdfParams (sliceFromTo blob 6 38) = .ok (header blob).params := by
    unfold unpackKdfParams
    rw [raiseIf_neg (by rw [length_sliceFromTo]; omega)]
    rfl
  have hshort : ¬ blob.length < headerLen + gcmTagLen := Nat.not_lt.mpr hlen
  have hmagic : sliceFromTo blob offMagic (offMagic + 4) = magic := h.magic_eq
  have hver : indexAt blob offVersion = .ok (blob.getD 4 0) := hat 4 (by decide)
  have hone : (blob.getD 4 0).toNat = KeystoneCrypto.version := by rw [h.version_eq]; rfl
  have hid : indexAt blob offKdfId = .ok (blob.getD 5 0) := hat 5 (by decide)
  unfold readHeader
  rw [raiseIf_neg hshort, raiseIf_neg (not_not.mpr hmagic), hver, Effect.ok_bind, Effect.ok_bind,
    Effect.ok_bind, raiseIf_neg (not_not.mpr hone), hid, Effect.ok_bind, Effect.ok_bind]
  exact congrArg (· >>= _) hkdf

/-- Reading fails unless the checks pass. -/
theorem readable_of_readHeader {blob : Bytes} {h : Header} (hr : readHeader blob = .ok h) :
    Readable blob := by
  unfold readHeader at hr
  simp only [Effect.bind_eq_ok_iff, raiseIf_eq_ok_iff, not_not, not_lt, ne_eq] at hr
  obtain ⟨_, hlen, _, hmagic, ver, hver, _, hone, -⟩ := hr
  refine ⟨hlen, hmagic, ?_⟩
  have hlt : 4 < blob.length := lt_of_lt_of_le (by decide) (show 82 ≤ blob.length from hlen)
  rw [offVersion, indexAt_of_lt hlt, Except.ok.injEq] at hver
  rw [getD_of_lt hlt, hver]
  exact UInt8.toNat_inj.mp hone

/-- An unreadable blob is refused before the key derivation. -/
theorem run_unpack_of_not_readable (P : Primitives) {blob : Bytes} (password : SecretBytes)
    (h : ¬ Readable blob) (w : World) :
    ∃ e, readHeader blob = .error e ∧ (unpack P blob password).run w = .error e w := by
  cases hr : readHeader blob with
  | ok hd => exact absurd (readable_of_readHeader hr) h
  | error e =>
    refine ⟨e, rfl, ?_⟩
    rw [unpack_eq, hr]
    rfl

/-- **Unpacking a readable blob** makes the Argon2id call of the header, then opens. -/
theorem run_unpack {P : Primitives} {blob : Bytes} {password : SecretBytes}
    (h : Readable blob) (w : World) :
    (unpack P blob password).run w
      = match derivedKey P (headerCall blob password) >>= openHeader P (header blob) with
        | .ok u => .ok u (w.recordKdf (headerCall blob password))
        | .error e => .error e (w.recordKdf (headerCall blob password)) := by
  -- both are sixteen: the salt is a slice of that length, and `for_testing` is told so
  have hsalt : ((header blob).salt.length : ℤ) = (header blob).params.saltLen := by
    have hlen := h.length_ge
    simp only [header, Argon2Params.forTesting, length_sliceFromTo]
    omega
  rw [unpack_eq, readHeader_of_readable h]
  simp only [EStateM.run_bind, Effect.run_liftM, run_deriveKey P w password hsalt]
  unfold headerCall
  cases derivedKey P (argon2Call password (header blob).params (header blob).salt) with
  | error e => rfl
  | ok key =>
    simp only [Effect.ok_bind]
    cases openHeader P (header blob) key <;> rfl

/-- **What a successful unpacking must have found.** -/
theorem run_unpack_eq_ok_iff {P : Primitives} {blob : Bytes} {password : SecretBytes}
    {w w' : World} {u : UnpackedKeystore} :
    (unpack P blob password).run w = .ok u w' ↔
      Readable blob ∧ ∃ key, derivedKey P (headerCall blob password) = .ok key ∧
        openHeader P (header blob) key = .ok u ∧
        w' = w.recordKdf (headerCall blob password) := by
  -- an unreadable blob is refused first, a readable one depends on the key and on what opens
  by_cases h : Readable blob
  · rw [run_unpack h]
    cases derivedKey P (headerCall blob password) with
    | error e => simp
    | ok key =>
      simp only [Effect.ok_bind, h, true_and, Except.ok.injEq, exists_eq_left']
      cases openHeader P (header blob) key with
      | error e => simp
      | ok u' => simp [@eq_comm _ w']
  · obtain ⟨e, -, hrun⟩ := run_unpack_of_not_readable P password h w
    rw [hrun]
    refine ⟨?_, ?_⟩
    · intro h'
      cases h'
    · intro h'
      exact absurd h'.1 h

theorem aad_toNat (version kdfId : UInt8) :
    aad version.toNat kdfId.toNat = .ok [version, kdfId] := by
  unfold aad
  rw [bytesOfInt_natCast version.toNat_lt, bytesOfInt_natCast kdfId.toNat_lt]
  simp [pure, Except.pure]

/-- Opening succeeds exactly on a ciphertext the cipher accepts, with `kdf_id` 1 and a plaintext
in the expected layout. -/
theorem openHeader_eq_ok_iff {P : Primitives} {h : Header} {key : SecretBytes}
    {u : UnpackedKeystore} :
    openHeader P h key = .ok u ↔ ∃ plaintext, h.kdfId = 1 ∧ h.nonce.length = 12 ∧
      key.buf.length = 32 ∧
      P.aesGcmDecrypt key.buf h.nonce h.ciphertext [h.version, h.kdfId] = .ok plaintext ∧
      unpackPlaintext plaintext = .ok u := by
  have hone : h.kdfId.toNat = 1 ↔ h.kdfId = 1 := by
    rw [← UInt8.toNat_inj]
    rfl
  unfold openHeader
  simp only [aad_toNat, Effect.ok_bind, Effect.bind_eq_ok_iff, decrypt_eq_ok_iff, raiseIf_eq_ok_iff,
    ne_eq, not_not, hone]
  refine ⟨?_, ?_⟩
  · rintro ⟨plaintext, ⟨hn, hk, hd⟩, _, h1, hu⟩
    exact ⟨plaintext, h1, hn, hk, hd, hu⟩
  · rintro ⟨plaintext, h1, hn, hk, hd, hu⟩
    exact ⟨plaintext, ⟨hn, hk, hd⟩, (), h1, hu⟩

end Envelope

end KeystoneCrypto
