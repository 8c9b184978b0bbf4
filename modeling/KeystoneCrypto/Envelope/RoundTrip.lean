import KeystoneCrypto.Envelope.Run

/-!
# Packing and unpacking

`unpack` reads at fixed offsets what `pack` concatenated. Only one field has a length that the
parameters choose, the salt, and the offsets are right for sixteen bytes of it. With such a salt
every field is read back as it was written (`header_blob`), the same Argon2id call is made, and
the seed, the flag and the timestamp come back (`run_unpack_blob`). With a salt of any other
length the bytes taken for the ciphertext have the wrong length, so a cipher that opens nothing
but the sealed tuple refuses (`saltLen_eq_of_run_unpack`).

`unpack_pack_iff` puts the two directions together. Public parameters allow salts of 8 to 64
bytes, and those of 16 bytes are the ones for which packing can be undone.
-/

namespace KeystoneCrypto

namespace Envelope

/-! ### The parameter block -/

/-- **The parameters are read back**, except for the salt length, which `unpack` sets to 16. -/
theorem unpackKdfParams_of_packKdfParams {p : Argon2Params} {b : Bytes}
    (h : packKdfParams p = .ok b) :
    b.length = 32 ∧ unpackU32 b 0 = p.timeCost ∧ unpackU32 b 4 = p.memoryCost ∧
      unpackU32 b 8 = p.parallelism ∧ unpackU32 b 12 = p.hashLen ∧ unpackU32 b 16 = p.version := by
  obtain ⟨t, m, par, hl, v, ht, hm, hpar, hhl, hv, rfl⟩ := packKdfParams_eq_ok_iff.mp h
  have lt := length_of_packU32 ht
  have lm := length_of_packU32 hm
  have lpar := length_of_packU32 hpar
  have lhl := length_of_packU32 hhl
  have lv := length_of_packU32 hv
  -- every word lies between the words before it and the words after it
  have key : ∀ {n : ℤ} {w : Bytes} (l₁ l₃ : Bytes), packU32 n = .ok w →
      unpackU32 (l₁ ++ (w ++ l₃)) l₁.length = n := by
    intro n w l₁ l₃ hw
    unfold unpackU32
    rw [sliceFromTo_middle l₁ w l₃ rfl (by rw [length_of_packU32 hw]),
      intFromBytes_of_packU32 hw]
  refine ⟨?_, ?_, ?_, ?_, ?_, ?_⟩
  · simp only [List.length_append, List.length_replicate, lt, lm, lpar, lhl, lv]
  · simpa only [List.append_assoc, List.nil_append, List.length_nil] using
      key [] (m ++ (par ++ (hl ++ (v ++ List.replicate 12 0)))) ht
  · simpa only [List.append_assoc, lt] using
      key t (par ++ (hl ++ (v ++ List.replicate 12 0))) hm
  · simpa only [List.append_assoc, List.length_append, lt, lm] using
      key (t ++ m) (hl ++ (v ++ List.replicate 12 0)) hpar
  · simpa only [List.append_assoc, List.length_append, lt, lm, lpar] using
      key (t ++ (m ++ par)) (v ++ List.replicate 12 0) hhl
  · simpa only [List.append_assoc, List.length_append, lt, lm, lpar, lhl] using
      key (t ++ (m ++ (par ++ hl))) (List.replicate 12 0) hv

/-! ### The plaintext -/

/-- **The plaintext is read back.** -/
theorem unpackPlaintext_of_packPlaintext {seed : SecretBytes} {ts : ℤ} {hasPassphrase : Bool}
    {b : Bytes} (hseed : seed.buf.length ≤ 255)
    (h : packPlaintext seed ts hasPassphrase = .ok b) :
    unpackPlaintext b = .ok ⟨seed, hasPassphrase, ts⟩ := by
  obtain ⟨stamp, hstamp, rfl⟩ := (packPlaintext_eq_ok_iff hseed).mp h
  have lstamp := length_of_packI64 hstamp
  have hlen : (UInt8.ofNat seed.buf.length).toNat = seed.buf.length :=
    Nat.mod_eq_of_lt (Nat.lt_succ_of_le hseed)
  set flag : UInt8 := if hasPassphrase then 1 else 0 with hflag
  set b : Bytes := UInt8.ofNat seed.buf.length :: (seed.buf ++ stamp
    ++ flag :: List.replicate 6 0) with hb
  have lb : b.length = 16 + seed.buf.length := by
    simp only [hb, List.length_cons, List.length_append, lstamp, List.length_replicate]
    omega
  -- length byte, seed, timestamp and flag, each where the reader looks for it
  have hslice₁ : sliceFromTo b 1 (1 + seed.buf.length) = seed.buf := by
    rw [hb, List.append_assoc]
    exact sliceFromTo_middle [UInt8.ofNat seed.buf.length] seed.buf _ rfl rfl
  have hslice₂ : sliceFromTo b (1 + seed.buf.length) (1 + seed.buf.length + 8) = stamp := by
    rw [hb, List.append_assoc]
    exact sliceFromTo_middle (UInt8.ofNat seed.buf.length :: seed.buf) stamp _
      (Nat.add_comm _ 1) (by rw [lstamp])
  have hat : b[1 + seed.buf.length + 8]? = some flag := by
    have hsplit : b = (UInt8.ofNat seed.buf.length :: (seed.buf ++ stamp))
        ++ flag :: List.replicate 6 0 := rfl
    rw [hsplit, List.getElem?_append_right (by simp [lstamp])]
    simp [lstamp, show 1 + seed.buf.length + 8 - (seed.buf.length + 8 + 1) = 0 by omega]
  have hbit : (flag &&& 0x01 != 0) = hasPassphrase := by
    rw [hflag]
    cases hasPassphrase <;> rfl
  unfold unpackPlaintext
  rw [raiseIf_neg (by omega), show indexAt b 0 = .ok (UInt8.ofNat seed.buf.length) from rfl]
  simp only [Effect.ok_bind, hlen]
  rw [raiseIf_neg (by omega), hslice₁, hslice₂, SecretBytes.new_buf, unpackI64_of_packI64 hstamp]
  simp only [Effect.ok_bind, indexAt, hat, hbit]
  rfl

/-! ### The blob -/

section Blob

variable {P : Primitives} {seed password : SecretBytes} {params : Argon2Params}
  {hasPassphrase : Bool} {ts : ℤ} (s : Sealing P seed password params hasPassphrase ts)

theorem Sealing.kdf_length : s.kdf.length = 32 :=
  (unpackKdfParams_of_packKdfParams s.kdf_eq).1

theorem Sealing.plaintext_length : s.plaintext.length = 16 + seed.buf.length := by
  obtain ⟨stamp, hstamp, hb⟩ := (packPlaintext_eq_ok_iff s.seed_le).mp s.plaintext_eq
  rw [hb]
  simp only [List.length_cons, List.length_append, length_of_packI64 hstamp,
    List.length_replicate]
  omega

theorem Sealing.ciphertext_length : 16 ≤ s.ciphertext.length := by
  unfold Sealing.ciphertext
  rw [P.aesGcmEncrypt_length]
  exact Nat.le_add_left 16 _

theorem Sealing.blob_length : s.blob.length = 50 + s.salt.length + s.ciphertext.length := by
  unfold Sealing.blob
  simp only [List.length_append, s.kdf_length, s.nonce_length, show magic.length = 4 from rfl,
    List.length_cons, List.length_nil]
  omega

/-- With sixteen bytes of salt the blob passes the checks of `unpack`. -/
theorem Sealing.readable (h : params.saltLen = 16) : Readable s.blob := by
  have hsalt := s.salt_length
  have hct := s.ciphertext_length
  refine ⟨?_, ?_, rfl⟩
  · rw [s.blob_length]
    omega
  · unfold Sealing.blob
    simp only [List.append_assoc]
    exact sliceFromTo_middle [] magic _ rfl rfl

/-- **The header is read back** when the salt has sixteen bytes. -/
theorem Sealing.header_blob (h : params.saltLen = 16) :
    header s.blob = ⟨1, 1, params, s.salt, s.nonce, s.ciphertext⟩ := by
  have lkdf := s.kdf_length
  have lsalt : s.salt.length = 16 := by have := s.salt_length; omega
  have lnonce := s.nonce_length
  obtain ⟨-, ht, hm, hpar, hhl, hv⟩ := unpackKdfParams_of_packKdfParams s.kdf_eq
  -- the prefix before each field has the length of its offset
  have hkdf : sliceFromTo s.blob 6 38 = s.kdf := by
    unfold Sealing.blob
    simp only [List.append_assoc]
    exact sliceFromTo_middle (magic ++ [1, 1]) s.kdf _ rfl (by rw [lkdf])
  have hsalt : sliceFromTo s.blob 38 54 = s.salt := by
    unfold Sealing.blob
    rw [List.append_assoc, List.append_assoc]
    exact sliceFromTo_middle _ s.salt _ (by simp [lkdf, magic]) (by rw [lsalt])
  have hnonce : sliceFromTo s.blob 54 66 = s.nonce := by
    unfold Sealing.blob
    rw [List.append_assoc]
    exact sliceFromTo_middle _ s.nonce _ (by simp [lkdf, lsalt, magic]) (by rw [lnonce])
  have hct : s.blob.drop 66 = s.ciphertext := by
    unfold Sealing.blob
    exact List.drop_left' (by simp [lkdf, lsalt, lnonce, magic])
  have hparams : Argon2Params.forTesting params.timeCost params.memoryCost params.parallelism
      params.hashLen 16 params.version = params := by
    unfold Argon2Params.forTesting
    rw [← h]
  unfold header
  simp only [hkdf, hsalt, hnonce, hct, ht, hm, hpar, hhl, hv, hparams]
  rfl

/-- **Unpacking what was packed.** With sixteen bytes of salt and a ciphertext that opens, the
seed, the flag and the timestamp come back, after the Argon2id call that packing made. -/
theorem Sealing.run_unpack_blob (h : params.saltLen = 16) (hopens : s.Opens) (w : World) :
    (unpack P s.blob password).run w
      = .ok ⟨seed, hasPassphrase, ts⟩ (w.recordKdf s.call) := by
  -- the header asks for the call that the key was derived by
  have hcall : headerCall s.blob password = s.call := by
    unfold headerCall
    rw [s.header_blob h]
    rfl
  -- the same call yields the same key, and the key opens the ciphertext
  refine run_unpack_eq_ok_iff.mpr ⟨s.readable h, s.key, ?_, ?_, by rw [hcall]⟩
  · rw [hcall]
    exact s.derived
  · rw [s.header_blob h]
    exact openHeader_eq_ok_iff.mpr ⟨s.plaintext, rfl, s.nonce_length, s.key_length, hopens,
      unpackPlaintext_of_packPlaintext s.seed_le s.plaintext_eq⟩

/-- What a successful unpacking took for the ciphertext was accepted by the cipher. -/
theorem decrypt_of_run_unpack {blob : Bytes} {w w' : World} {u : UnpackedKeystore}
    (h : (unpack P blob password).run w = .ok u w') :
    Readable blob ∧ ∃ key plaintext, derivedKey P (headerCall blob password) = .ok key ∧
      (header blob).kdfId = 1 ∧
      P.aesGcmDecrypt key.buf (header blob).nonce (header blob).ciphertext
        [(header blob).version, (header blob).kdfId] = .ok plaintext := by
  obtain ⟨hread, key, hkey, hopen, -⟩ := run_unpack_eq_ok_iff.mp h
  obtain ⟨plaintext, hid, -, -, hdec, -⟩ := openHeader_eq_ok_iff.mp hopen
  exact ⟨hread, key, plaintext, hkey, hid, hdec⟩

/-- The bytes behind offset 66 are as long as the ciphertext only if the salt has 16 bytes. -/
theorem Sealing.saltLen_eq_of_length (h : (header s.blob).ciphertext.length = s.ciphertext.length) :
    params.saltLen = 16 := by
  have hsalt := s.salt_length
  have hct := s.ciphertext_length
  have hblob := s.blob_length
  change (s.blob.drop 66).length = _ at h
  rw [List.length_drop] at h
  omega

/-- **No other salt length.** A cipher that opens the sealed tuple only makes every unpacking of a
blob with a shorter or longer salt fail. -/
theorem Sealing.saltLen_eq_of_run_unpack (hun : s.Unforgeable) {w w' : World}
    {u : UnpackedKeystore} (h : (unpack P s.blob password).run w = .ok u w') :
    params.saltLen = 16 := by
  obtain ⟨-, key, plaintext, -, -, hdec⟩ := decrypt_of_run_unpack h
  -- the cipher opened, so what it was given is the ciphertext of the sealing
  obtain ⟨-, -, hct, -⟩ := hun _ _ _ _ _ hdec
  exact s.saltLen_eq_of_length (congrArg List.length hct)

end Blob

/-! ### Which parameters round-trip -/

/-- What packing needs of its inputs and of the salt it draws. -/
structure Sealable (P : Primitives) (seed password : SecretBytes) (params : Argon2Params) (ts : ℤ)
    (salt : Bytes) : Prop where
  seed_le : seed.buf.length ≤ 255
  hashLen_eq : params.hashLen = 32
  salt_length : (salt.length : ℤ) = params.saltLen
  derives : ∃ raw, P.hashSecretRaw (argon2Call password params salt) = .ok raw
  ts_ge : -2 ^ 63 ≤ ts
  ts_lt : ts < 2 ^ 63
  words : ∀ n ∈ [params.timeCost, params.memoryCost, params.parallelism, params.version],
    0 ≤ n ∧ n < 2 ^ 32

/-- **There is a sealing** for a salt and a nonce exactly if these needs are met. -/
theorem exists_sealing_iff {P : Primitives} {seed password : SecretBytes} {params : Argon2Params}
    {hasPassphrase : Bool} {ts : ℤ} {salt nonce : Bytes} :
    (∃ s : Sealing P seed password params hasPassphrase ts, s.salt = salt ∧ s.nonce = nonce) ↔
      Sealable P seed password params ts salt ∧ nonce.length = 12 := by
  refine ⟨?_, ?_⟩
  · rintro ⟨s, rfl, rfl⟩
    obtain ⟨stamp, hstamp, -⟩ := (packPlaintext_eq_ok_iff s.seed_le).mp s.plaintext_eq
    obtain ⟨h₁, h₂, -⟩ := packI64_eq_ok_iff.mp hstamp
    obtain ⟨t, m, par, hl, v, ht, hm, hp, -, hv, -⟩ := packKdfParams_eq_ok_iff.mp s.kdf_eq
    refine ⟨⟨s.seed_le, s.hashLen_eq, s.salt_length, ⟨_, derivedKey_eq_ok_iff.mp s.derived⟩, h₁,
      h₂, ?_⟩, s.nonce_length⟩
    have hword : ∀ {n : ℤ} {b : Bytes}, packU32 n = .ok b → 0 ≤ n ∧ n < 2 ^ 32 := fun h =>
      ⟨(packU32_eq_ok_iff.mp h).1, (packU32_eq_ok_iff.mp h).2.1⟩
    simp only [List.forall_mem_cons, List.not_mem_nil, false_implies, implies_true, and_true]
    exact ⟨hword ht, hword hm, hword hp, hword hv⟩
  · rintro ⟨h, hnonce⟩
    obtain ⟨raw, hraw⟩ := h.derives
    have hne : raw ≠ [] := by
      -- an output of 32 bytes was asked for
      rintro rfl
      have hlen := P.hashSecretRaw_length _ _ hraw
      simp only [argon2Call, h.hashLen_eq] at hlen
      cases hlen
    have hwords := h.words
    simp only [List.forall_mem_cons, List.not_mem_nil, false_implies, implies_true, and_true]
      at hwords
    obtain ⟨ht, hm, hp, hv⟩ := hwords
    have hword : ∀ {n : ℤ}, 0 ≤ n ∧ n < 2 ^ 32 → ∃ b, packU32 n = .ok b := fun h =>
      ⟨_, packU32_eq_ok_iff.mpr ⟨h.1, h.2, rfl⟩⟩
    obtain ⟨t, ht⟩ := hword ht
    obtain ⟨m, hm⟩ := hword hm
    obtain ⟨par, hp⟩ := hword hp
    obtain ⟨v, hv⟩ := hword hv
    obtain ⟨hl, hhl⟩ : ∃ b, packU32 params.hashLen = .ok b :=
      hword (by rw [h.hashLen_eq]; norm_num)
    exact ⟨{ salt, nonce, key := ⟨raw, hne⟩, seed_le := h.seed_le, hashLen_eq := h.hashLen_eq
             salt_length := h.salt_length, nonce_length := hnonce
             derived := derivedKey_eq_ok_iff.mpr hraw, plaintext := _, kdf := _
             plaintext_eq := (packPlaintext_eq_ok_iff h.seed_le).mpr
               ⟨_, packI64_eq_ok_iff.mpr ⟨h.ts_ge, h.ts_lt, rfl⟩, rfl⟩
             kdf_eq := packKdfParams_eq_ok_iff.mpr
               ⟨t, m, par, hl, v, ht, hm, hp, hhl, hv, rfl⟩ }, rfl, rfl⟩

/-- Public parameters seal every short enough seed with every salt and nonce. -/
theorem exists_sealing (P : Primitives) {params : Argon2Params} (hpub : params.Public)
    (hlen : params.hashLen = 32) (seed password : SecretBytes) (hasPassphrase : Bool) {ts : ℤ}
    (hseed : seed.buf.length ≤ 255) (h₁ : -2 ^ 63 ≤ ts)
    (h₂ : ts < 2 ^ 63) {salt nonce : Bytes} (hsalt : (salt.length : ℤ) = params.saltLen)
    (hnonce : nonce.length = 12) :
    ∃ s : Sealing P seed password params hasPassphrase ts, s.salt = salt ∧ s.nonce = nonce := by
  -- every public parameter fits a 32-bit word
  have hr := Argon2Params.public_iff.mp hpub
  have hmem := hr.memoryCost_ge
  have hmem' := hr.memoryCost_le
  have hpar := hr.parallelism_ge
  have hpar' := hr.parallelism_le
  have htime := hr.timeCost_ge
  have htime' := hr.timeCost_le
  have hversion := hr.version_eq
  unfold owaspMinMemoryKib at hmem
  unfold owaspMinParallelism at hpar
  refine exists_sealing_iff.mpr ⟨⟨hseed, hlen, hsalt,
    P.hashSecretRaw_supported _ (argon2Call_supported hpub password hsalt), h₁, h₂, ?_⟩, hnonce⟩
  simp only [List.forall_mem_cons, List.not_mem_nil, false_implies, implies_true, and_true]
  omega

/-- Whatever `pack` returns under these parameters, `unpack` gives back what went in. -/
def Undone (P : Primitives) (params : Argon2Params) : Prop :=
  ∀ (seed password : SecretBytes) (kdfId : ℤ) (hasPassphrase : Bool) (createdAt : Option ℤ)
    (w w' : World) (blob : Bytes),
    (pack P seed password params kdfId hasPassphrase createdAt).run w = .ok blob w' →
    ∀ w₁, ∃ w₂, (unpack P blob password).run w₁
      = .ok ⟨seed, hasPassphrase, stamp createdAt w.clock⟩ w₂

theorem undone_of_saltLen {P : Primitives} (hP : P.AesGcmUndoes) {params : Argon2Params}
    (h : params.saltLen = 16) : Undone P params := by
  intro seed password kdfId hasPassphrase createdAt w w' blob hpack w₁
  obtain ⟨s, rfl, -⟩ := sealing_of_run_pack hpack
  exact ⟨_, s.run_unpack_blob h (s.opens_of_undoes hP) w₁⟩

/-- The tag of `toy` carries the length, so what it opens is as long as what was sealed. -/
theorem length_of_toy_decrypt {seed password : SecretBytes} {params : Argon2Params}
    {hasPassphrase : Bool} {ts : ℤ}
    (s : Sealing Primitives.toy seed password params hasPassphrase ts)
    (hshort : s.blob.length < 256 ^ 16) {key nonce aad data : Bytes}
    (h : Primitives.toy.aesGcmDecrypt key nonce (s.blob.drop 66) aad = .ok data) :
    (s.blob.drop 66).length = s.ciphertext.length := by
  have hdata : s.blob.drop 66 = data ++ Primitives.toyTag data := Primitives.eq_of_toy_decrypt h
  have hct : s.ciphertext = s.plaintext ++ Primitives.toyTag s.plaintext := rfl
  have hlen := congrArg List.length hdata
  have hblob := s.blob_length
  rw [hct] at hblob
  simp only [List.length_append, List.length_drop, Primitives.toyTag, Radix.length_digits]
    at hlen hblob
  -- both end the blob
  have hends : (s.blob.take 66 ++ data) ++ Primitives.toyTag data
      = (magic ++ [1, 1] ++ s.kdf ++ s.salt ++ s.nonce ++ s.plaintext)
        ++ Primitives.toyTag s.plaintext := by
    rw [List.append_assoc, ← hdata, List.take_append_drop, List.append_assoc, ← hct]
    rfl
  have htag := (List.append_inj' hends (by simp [Primitives.toyTag])).2
  have heq : data.length = s.plaintext.length :=
    Radix.digits_inj byteDigit (by omega) (by omega) htag
  rw [hdata, hct]
  simp [Primitives.toyTag, heq]

theorem saltLen_eq_of_undone {params : Argon2Params} (hpub : params.Public)
    (hlen : params.hashLen = 32) (h : Undone Primitives.toy params) : params.saltLen = 16 := by
  let one : SecretBytes := ⟨[0], by simp⟩
  let w : World := .fresh (Stream'.const 0) (Stream'.const 0)
  -- the salt is short enough for the length of the blob to fit the tag
  have hr := Argon2Params.public_iff.mp hpub
  have hge := hr.saltLen_ge
  have hle := hr.saltLen_le
  obtain ⟨s, hsalt, hnonce⟩ := exists_sealing Primitives.toy hpub hlen one one false
    (show [0].length ≤ 255 by decide) (show -2 ^ 63 ≤ stamp (some 0) w.clock by decide) (by decide)
    (show ((w.random.take params.saltLen.toNat).length : ℤ) = params.saltLen by
      rw [Stream'.length_take]; omega)
    (Stream'.length_take 12 (w.random.drop params.saltLen.toNat))
  obtain ⟨w₂, hrun⟩ := h one one 1 false (some 0) w _ _ (run_pack s hsalt hnonce) w
  obtain ⟨-, key, data, -, -, hdec⟩ := decrypt_of_run_unpack hrun
  refine s.saltLen_eq_of_length (length_of_toy_decrypt s ?_ hdec)
  have hct : s.ciphertext.length = 33 := by
    change (Primitives.toy.aesGcmEncrypt _ _ s.plaintext _).length = 33
    rw [Primitives.toy.aesGcmEncrypt_length, s.plaintext_length]
    rfl
  have hsaltLen := s.salt_length
  rw [s.blob_length, hct]
  norm_num
  omega

/-- **Round trip.** Public parameters with `hash_len=32` undo every packing, whatever the hash
functions and with every cipher whose decryption undoes its encryption, exactly if their salt has
16 bytes. With any other salt length not one blob is given back by a cipher that opens only what
was sealed. -/
theorem unpack_pack_iff {params : Argon2Params} (hpub : params.Public)
    (hlen : params.hashLen = 32) :
    ((∀ P : Primitives, P.AesGcmUndoes → Undone P params) ↔ params.saltLen = 16) ∧
    (∀ (P : Primitives) (seed password : SecretBytes) (hasPassphrase : Bool) (ts : ℤ)
      (s : Sealing P seed password params hasPassphrase ts), s.Unforgeable →
      params.saltLen ≠ 16 → ∀ w u w', (unpack P s.blob password).run w ≠ .ok u w') := by
  refine ⟨⟨?_, ?_⟩, ?_⟩
  · intro h
    exact saltLen_eq_of_undone hpub hlen (h Primitives.toy Primitives.toy_undoes)
  · intro h P hP
    exact undone_of_saltLen hP h
  · intro P seed password hasPassphrase ts s hun hne w u w' hrun
    exact hne (s.saltLen_eq_of_run_unpack hun hrun)

/-- The OWASP minimum with the shortest public salt. -/
def shortSalt : Argon2Params := ⟨2, 19456, 1, 32, 8, 0x13⟩

theorem unpack_pack_iff_shortSalt :
    ((∀ P : Primitives, P.AesGcmUndoes → Undone P shortSalt) ↔ shortSalt.saltLen = 16) ∧
    (∀ (P : Primitives) (seed password : SecretBytes) (hasPassphrase : Bool) (ts : ℤ)
      (s : Sealing P seed password shortSalt hasPassphrase ts), s.Unforgeable →
      shortSalt.saltLen ≠ 16 → ∀ w u w', (unpack P s.blob password).run w ≠ .ok u w') :=
  unpack_pack_iff rfl rfl

/-- A wallet packed with eight bytes of salt cannot be unpacked with its password. -/
theorem pack_shortSalt_lost :
    shortSalt.Public ∧ Primitives.toy.AesGcmUndoes ∧
    ∃ blob w', (pack Primitives.toy ⟨[7], by simp⟩ ⟨[9], by simp⟩ shortSalt 1 false (some 0)).run
        (.fresh (Stream'.const 0) (Stream'.const 0)) = .ok blob w' ∧
      (unpack Primitives.toy blob ⟨[9], by simp⟩).run w'
        = .error ⟨.keystoreDecryptionError,
            [.lit "AES-GCM decryption failed: ", .foreign "InvalidTag"]⟩
          (w'.recordKdf (headerCall blob ⟨[9], by simp⟩)) :=
  ⟨rfl, Primitives.toy_undoes, _, _, rfl, rfl⟩

end Envelope

end KeystoneCrypto
