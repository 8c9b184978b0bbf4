import KeystoneCrypto.Envelope.RoundTrip

/-!
# The blobs that are accepted

`pack` writes one blob for each choice of parameters, salt, nonce and contents. `unpack` accepts
more: it takes the parameters as the header has them, looks at one bit of the flags byte and skips
the reserved bytes of the header and of the plaintext, as well as whatever follows them. A
*loose sealing* is what is left of a sealing when these are free. With a cipher that opens what it
encrypted and nothing else under one key, nonce and associated data, the accepted blobs are those of
the loose sealings (`unpack_accepts_iff`). So every accepted blob has been encrypted under the key
that Argon2id derives from the password and the parameters in its header.

The plaintext and the header are characterised apart, each in both directions: the fields of an
accepted string are read off and put together again, and a string put together from fields is read
as these. Between them stands the cipher, of which nothing else is used.
-/

namespace KeystoneCrypto

/-- Under one key, nonce and associated data, AES-GCM opens encryptions only. -/
def Primitives.AesGcmOpensEncrypted (P : Primitives) : Prop :=
  ∀ key nonce ciphertext aad data, P.aesGcmDecrypt key nonce ciphertext aad = .ok data →
    ciphertext = P.aesGcmEncrypt key nonce data aad

namespace Envelope

/-! ### The plaintext -/

/-- The plaintext of a seed, a timestamp and a flags byte, with whatever is behind it. -/
def loosePlaintext (seed stamp : Bytes) (flags : UInt8) (tail : Bytes) : Bytes :=
  UInt8.ofNat seed.length :: (seed ++ (stamp ++ flags :: tail))

/-- **The plaintexts that are accepted**, and what they are read as. -/
theorem unpackPlaintext_eq_ok_iff {b : Bytes} {u : UnpackedKeystore} :
    unpackPlaintext b = .ok u ↔ ∃ stamp flags tail, u.seed.buf.length ≤ 255 ∧
      packI64 u.createdAt = .ok stamp ∧ u.hasPassphrase = (flags &&& 0x01 != 0) ∧
      6 ≤ tail.length ∧ b = loosePlaintext u.seed.buf stamp flags tail := by
  refine ⟨?_, ?_⟩
  · intro h
    unfold unpackPlaintext at h
    simp only [Effect.bind_eq_ok_iff, raiseIf_eq_ok_iff, Nat.not_lt] at h
    obtain ⟨_, hshort, first, hfirst, _, hlong, seed, hseed, ts, hts, flags, hflags, h⟩ := h
    have hfirst : b[0]? = some first := indexAt_eq_ok_iff.mp hfirst
    have hflags := indexAt_eq_ok_iff.mp hflags
    obtain ⟨h₀, hfirst⟩ := List.getElem?_eq_some_iff.mp hfirst
    obtain ⟨h₁, hflags⟩ := List.getElem?_eq_some_iff.mp hflags
    have hlen : seed.buf.length = first.toNat := by
      rw [SecretBytes.new_eq_ok_iff.mp hseed, length_sliceFromTo]
      omega
    rw [← Except.ok.inj h]
    refine ⟨_, flags, b.drop (1 + first.toNat + 8 + 1), ?_, packI64_of_unpackI64 hts, rfl, ?_, ?_⟩
    · have hbyte := first.toNat_lt
      change seed.buf.length ≤ 255
      omega
    · rw [List.length_drop]
      omega
    · -- the fields one after the other
      change b = loosePlaintext seed.buf _ flags _
      unfold loosePlaintext
      rw [hlen, UInt8.ofNat_toNat, SecretBytes.new_eq_ok_iff.mp hseed, ← hflags,
        ← List.drop_eq_getElem_cons h₁, sliceFromTo_append_drop b (Nat.le_add_right _ 8),
        sliceFromTo_append_drop b (Nat.le_add_right 1 _), ← hfirst,
        ← List.drop_eq_getElem_cons h₀, List.drop_zero]
  -- conversely the checks pass, as the tail is long enough
  · rintro ⟨stamp, flags, tail, hseed, hstamp, hflags, htail, rfl⟩
    have lstamp := length_of_packI64 hstamp
    have hfirst : (UInt8.ofNat u.seed.buf.length).toNat = u.seed.buf.length :=
      Nat.mod_eq_of_lt (Nat.lt_succ_of_le hseed)
    set n := u.seed.buf.length with hn
    set b := loosePlaintext u.seed.buf stamp flags tail with hb
    have lb : b.length = 1 + n + 8 + 1 + tail.length := by
      simp only [hb, loosePlaintext, List.length_cons, List.length_append, lstamp, hn]
      omega
    -- each field where the reader looks for it
    have hslice₁ : sliceFromTo b 1 (1 + n) = u.seed.buf :=
      sliceFromTo_middle [UInt8.ofNat n] u.seed.buf _ rfl rfl
    have hslice₂ : sliceFromTo b (1 + n) (1 + n + 8) = stamp :=
      sliceFromTo_middle (UInt8.ofNat n :: u.seed.buf) stamp _ (Nat.add_comm _ 1) (by rw [lstamp])
    have hat : indexAt b (1 + n + 8) = .ok flags := by
      have hsplit : b = (UInt8.ofNat n :: (u.seed.buf ++ stamp)) ++ flags :: tail := by
        rw [hb, loosePlaintext, List.cons_append, List.append_assoc]
      have hoff : 1 + n + 8 = (UInt8.ofNat n :: (u.seed.buf ++ stamp)).length + 0 := by
        rw [List.length_cons, List.length_append, lstamp]
        omega
      rw [hsplit, hoff, indexAt_append_right]
      rfl
    unfold unpackPlaintext
    rw [raiseIf_neg (by omega), show indexAt b 0 = .ok (UInt8.ofNat n) from rfl]
    simp only [Effect.ok_bind, hfirst]
    rw [raiseIf_neg (by omega), hslice₁, hslice₂, SecretBytes.new_buf,
      unpackI64_of_packI64 hstamp, hat]
    simp only [Effect.ok_bind, ← hflags]
    rfl

/-! ### The blob -/

/-- A sealing in which the bytes that `unpack` does not look at are left open. -/
structure LooseSealing (P : Primitives) (password : SecretBytes) (u : UnpackedKeystore) where
  params : Argon2Params
  words : Bytes
  reserved : Bytes
  salt : Bytes
  nonce : Bytes
  key : SecretBytes
  stamp : Bytes
  flags : UInt8
  tail : Bytes
  saltLen_eq : params.saltLen = 16
  words_eq : packKdfParams params = .ok (words ++ List.replicate 12 0)
  reserved_length : reserved.length = 12
  salt_length : salt.length = 16
  nonce_length : nonce.length = 12
  derived : derivedKey P (argon2Call password params salt) = .ok key
  key_length : key.buf.length = 32
  seed_le : u.seed.buf.length ≤ 255
  stamp_eq : packI64 u.createdAt = .ok stamp
  flags_eq : u.hasPassphrase = (flags &&& 0x01 != 0)
  tail_ge : 6 ≤ tail.length

namespace LooseSealing

variable {P : Primitives} {password : SecretBytes} {u : UnpackedKeystore}
  (s : LooseSealing P password u)

/-- The plaintext under the encryption. -/
def plaintext : Bytes := loosePlaintext u.seed.buf s.stamp s.flags s.tail

/-- The ciphertext with its tag. -/
def ciphertext : Bytes := P.aesGcmEncrypt s.key.buf s.nonce s.plaintext [1, 1]

/-- The blob. -/
def blob : Bytes :=
  magic ++ ([1, 1] ++ (s.words ++ (s.reserved ++ (s.salt ++ (s.nonce ++ s.ciphertext)))))

theorem words_length : s.words.length = 20 := by
  have h := (unpackKdfParams_of_packKdfParams s.words_eq).1
  rw [List.length_append, List.length_replicate] at h
  omega

theorem readable : Readable s.blob := by
  refine ⟨?_, rfl, rfl⟩
  unfold blob ciphertext
  simp only [List.length_append, P.aesGcmEncrypt_length, s.words_length, s.reserved_length,
    s.salt_length, s.nonce_length, magic, List.length_cons, List.length_nil]
  omega

/-- The reserved bytes are behind the words of the parameters. -/
theorem unpackU32_words {off : ℕ} (h : off + 4 ≤ 20) :
    unpackU32 (s.words ++ s.reserved) off = unpackU32 (s.words ++ List.replicate 12 0) off := by
  -- the five words are the first twenty bytes of either block
  have htake : (s.words ++ s.reserved).take 20 = (s.words ++ List.replicate 12 0).take 20 := by
    rw [List.take_left' s.words_length, List.take_left' s.words_length]
  unfold unpackU32
  rw [sliceFromTo_eq_of_take_eq htake h]

/-- **The header is read back**, whatever the reserved bytes are. -/
theorem header_blob : header s.blob = ⟨1, 1, s.params, s.salt, s.nonce, s.ciphertext⟩ := by
  have lwords := s.words_length
  have lreserved := s.reserved_length
  have lsalt := s.salt_length
  have lnonce := s.nonce_length
  -- the prefix before each field has the length of its offset
  have hkdf : sliceFromTo s.blob 6 38 = s.words ++ s.reserved := by
    have hsplit : s.blob = (magic ++ [1, 1])
        ++ ((s.words ++ s.reserved) ++ (s.salt ++ (s.nonce ++ s.ciphertext))) := by
      simp only [blob, List.append_assoc]
    rw [hsplit]
    exact sliceFromTo_middle _ (s.words ++ s.reserved) _ rfl (by simp [lwords, lreserved])
  have hsalt : sliceFromTo s.blob 38 54 = s.salt := by
    have hsplit : s.blob = (magic ++ [1, 1] ++ s.words ++ s.reserved)
        ++ (s.salt ++ (s.nonce ++ s.ciphertext)) := by
      simp only [blob, List.append_assoc]
    rw [hsplit]
    exact sliceFromTo_middle _ s.salt _ (by simp [lwords, lreserved, magic]) (by rw [lsalt])
  have hnonce : sliceFromTo s.blob 54 66 = s.nonce := by
    have hsplit : s.blob = (magic ++ [1, 1] ++ s.words ++ s.reserved ++ s.salt)
        ++ (s.nonce ++ s.ciphertext) := by
      simp only [blob, List.append_assoc]
    rw [hsplit]
    exact sliceFromTo_middle _ s.nonce _ (by simp [lwords, lreserved, lsalt, magic])
      (by rw [lnonce])
  have hct : s.blob.drop 66 = s.ciphertext := by
    have hsplit : s.blob
        = (magic ++ [1, 1] ++ s.words ++ s.reserved ++ s.salt ++ s.nonce) ++ s.ciphertext := by
      simp only [blob, List.append_assoc]
    rw [hsplit]
    exact List.drop_left' (by simp [lwords, lreserved, lsalt, lnonce, magic])
  obtain ⟨-, ht, hm, hpar, hhl, hv⟩ := unpackKdfParams_of_packKdfParams s.words_eq
  have hparams : Argon2Params.forTesting s.params.timeCost s.params.memoryCost
      s.params.parallelism s.params.hashLen 16 s.params.version = s.params := by
    unfold Argon2Params.forTesting
    rw [← s.saltLen_eq]
  unfold header
  simp only [hkdf, hsalt, hnonce, hct, s.unpackU32_words (show 0 + 4 ≤ 20 by decide),
    s.unpackU32_words (show 4 + 4 ≤ 20 by decide), s.unpackU32_words (show 8 + 4 ≤ 20 by decide),
    s.unpackU32_words (show 12 + 4 ≤ 20 by decide),
    s.unpackU32_words (show 16 + 4 ≤ 20 by decide), ht, hm, hpar, hhl, hv, hparams]
  rfl

end LooseSealing

section Accepts

variable {blob : Bytes}

/-- The parameters in the header of a readable blob are those packed into its words. -/
theorem packKdfParams_header (h : Readable blob) :
    packKdfParams (header blob).params
      = .ok (sliceFromTo blob 6 26 ++ List.replicate 12 0) := by
  have hlen := h.length_ge
  have hword : ∀ off, off + 4 ≤ 32 → packU32 (unpackU32 (sliceFromTo blob 6 38) off)
      = .ok (sliceFromTo blob (6 + off) (6 + (off + 4))) := by
    intro off hoff
    rw [packU32_unpackU32 (by rw [length_sliceFromTo]; omega),
      sliceFromTo_sliceFromTo blob (by omega)]
  refine packKdfParams_eq_ok_iff.mpr ⟨_, _, _, _, _, hword 0 (by decide), hword 4 (by decide),
    hword 8 (by decide), hword 12 (by decide), hword 16 (by decide), ?_⟩
  -- the five words are adjacent
  rw [sliceFromTo_append blob (by decide) (by decide),
    sliceFromTo_append blob (by decide) (by decide),
    sliceFromTo_append blob (by decide) (by decide),
    sliceFromTo_append blob (by decide) (by decide)]

/-- A readable blob with `kdf_id` 1 is the sequence of its fields. -/
theorem eq_fields (h : Readable blob) (hid : (header blob).kdfId = 1) :
    magic ++ ([1, 1] ++ (sliceFromTo blob 6 26 ++ (sliceFromTo blob 26 38
      ++ (sliceFromTo blob 38 54 ++ (sliceFromTo blob 54 66 ++ blob.drop 66))))) = blob := by
  have hlen := h.length_ge
  -- version and `kdf_id` are known, all other fields are slices that follow one another
  have hids : [1, 1] ++ blob.drop 6 = blob.drop 4 := by
    have hver := h.version_eq
    have hid : blob.getD 5 0 = 1 := hid
    rw [getD_of_lt (by omega)] at hver hid
    rw [List.drop_eq_getElem_cons (show 4 < blob.length by omega),
      List.drop_eq_getElem_cons (show 4 + 1 < blob.length by omega), hver, hid]
    rfl
  rw [sliceFromTo_append_drop blob (by decide), sliceFromTo_append_drop blob (by decide),
    sliceFromTo_append_drop blob (by decide), sliceFromTo_append_drop blob (by decide), hids,
    ← h.magic_eq, sliceFromTo_append_drop blob (by decide), List.drop_zero]

end Accepts

/-- **The accepted blobs** are those of the loose sealings. -/
theorem unpack_accepts_iff {P : Primitives} (hundo : P.AesGcmUndoes)
    (honly : P.AesGcmOpensEncrypted) {blob : Bytes} {password : SecretBytes} {u : UnpackedKeystore}
    (w : World) :
    (∃ w', (unpack P blob password).run w = .ok u w') ↔
      ∃ s : LooseSealing P password u, s.blob = blob := by
  refine ⟨?_, ?_⟩
  · rintro ⟨w', h⟩
    obtain ⟨hread, key, hkey, hopen, -⟩ := run_unpack_eq_ok_iff.mp h
    obtain ⟨plaintext, hid, hnonce, hlen, hdec, hu⟩ := openHeader_eq_ok_iff.mp hopen
    obtain ⟨stamp, flags, tail, hseed, hstamp, hflags, htail, rfl⟩ :=
      unpackPlaintext_eq_ok_iff.mp hu
    -- the fields of the blob are those of a loose sealing; the ciphertext is an encryption
    -- because it opened
    have hct := honly _ _ _ _ _ hdec
    have hge := hread.length_ge
    have hver : (header blob).version = 1 := hread.version_eq
    rw [hver, hid] at hct
    have hfield : ∀ {i j : ℕ}, j ≤ 66 → (sliceFromTo blob i j).length = j - i := by
      intro i j hj
      rw [length_sliceFromTo]
      omega
    refine ⟨{ params := (header blob).params, words := sliceFromTo blob 6 26
              reserved := sliceFromTo blob 26 38, salt := sliceFromTo blob 38 54
              nonce := sliceFromTo blob 54 66, key, stamp, flags, tail
              saltLen_eq := rfl, words_eq := packKdfParams_header hread
              reserved_length := hfield (by decide), salt_length := hfield (by decide)
              nonce_length := hfield le_rfl, derived := hkey, key_length := hlen
              seed_le := hseed, stamp_eq := hstamp, flags_eq := hflags, tail_ge := htail }, ?_⟩
    refine Eq.trans ?_ (eq_fields hread hid)
    exact congrArg (fun c => magic ++ ([1, 1] ++ (sliceFromTo blob 6 26 ++ (sliceFromTo blob 26 38
      ++ (sliceFromTo blob 38 54 ++ (sliceFromTo blob 54 66 ++ c)))))) hct.symm
  · rintro ⟨s, rfl⟩
    -- conversely the header asks for the call that the key was derived by
    have hcall : headerCall s.blob password = argon2Call password s.params s.salt := by
      unfold headerCall
      rw [s.header_blob]
    refine ⟨_, run_unpack_eq_ok_iff.mpr ⟨s.readable, s.key, hcall ▸ s.derived, ?_, rfl⟩⟩
    rw [s.header_blob]
    exact openHeader_eq_ok_iff.mpr ⟨s.plaintext, rfl, s.nonce_length, s.key_length,
      hundo _ _ _ _, unpackPlaintext_eq_ok_iff.mpr
        ⟨s.stamp, s.flags, s.tail, s.seed_le, s.stamp_eq, s.flags_eq, s.tail_ge, rfl⟩⟩

theorem toy_opensEncrypted : Primitives.toy.AesGcmOpensEncrypted :=
  fun _ _ _ _ _ h => Primitives.eq_of_toy_decrypt h

/-- A sealing of one byte with all bits set where `unpack` does not look. -/
def looseDemo : LooseSealing Primitives.toy ⟨[0x5A], by simp⟩ ⟨⟨[0xA5], by simp⟩, true, 0⟩ where
  params := ⟨2, 19456, 1, 32, 16, 0x13⟩
  words := [0, 0, 0, 2, 0, 0, 0x4C, 0, 0, 0, 0, 1, 0, 0, 0, 32, 0, 0, 0, 0x13]
  reserved := List.replicate 12 0xFF
  salt := List.replicate 16 3
  nonce := List.replicate 12 5
  key := ⟨List.replicate 32 0, by simp⟩
  stamp := List.replicate 8 0
  flags := 0xFF
  tail := List.replicate 9 0xFF
  saltLen_eq := rfl
  words_eq := by decide
  reserved_length := rfl
  salt_length := rfl
  nonce_length := rfl
  derived := by decide
  key_length := rfl
  seed_le := by decide
  stamp_eq := by decide
  flags_eq := rfl
  tail_ge := by decide

theorem unpack_accepts_iff_looseDemo : ∃ w',
    (unpack Primitives.toy looseDemo.blob ⟨[0x5A], by simp⟩).run zeroWorld
      = .ok ⟨⟨[0xA5], by simp⟩, true, 0⟩ w' :=
  (unpack_accepts_iff Primitives.toy_undoes toy_opensEncrypted zeroWorld).mpr ⟨looseDemo, rfl⟩

end Envelope

end KeystoneCrypto
