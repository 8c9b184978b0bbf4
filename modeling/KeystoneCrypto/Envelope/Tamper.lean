import KeystoneCrypto.Envelope.RoundTrip

/-!
# Tampering with a blob

A blob is protected in three ways. Version and `kdf_id` are associated data of the cipher; the
nonce and the body are what the cipher opens; salt and parameters enter the key. Together they fix
everything `unpack` reads, and what it reads is every byte of the blob except the twelve reserved
bytes at the end of the parameter block (`header_eq_iff`). Those bytes are skipped by
`struct.unpack(">IIIII 12x", ...)` and nothing authenticates them.

So a changed blob is rejected unless the change is confined to bytes 26 to 37
(`unpack_fails_iff`), and such a change goes unnoticed. For the one direction the accepted blob has
the header of the sealed one, because its ciphertext opened and its key came from one call
(`Sealing.Ideal.header_eq`); for the other, equal headers are unpacked alike.
-/

namespace KeystoneCrypto

namespace Envelope

/-- Two blobs of one length that agree outside the reserved bytes 26 to 37. -/
structure SameOutsideReserved (blob blob' : Bytes) : Prop where
  length_eq : blob'.length = blob.length
  front : blob'.take 26 = blob.take 26
  back : blob'.drop 38 = blob.drop 38

/-! ### What the header determines -/

section Header

variable {blob blob' : Bytes}

theorem getD_eq_of_take_eq {n i : ℕ} (h : blob'.take n = blob.take n) (hi : i < n) :
    blob'.getD i 0 = blob.getD i 0 := by
  have hget := congrArg (fun l : Bytes => l.getD i 0) h
  simpa only [List.getD_eq_getElem?_getD, List.getElem?_take_of_lt hi] using hget

/-- One more byte. -/
theorem take_succ_eq_of_getD_eq {n : ℕ} (hlen : n < blob.length) (hlen' : n < blob'.length)
    (h : blob'.take n = blob.take n) (hget : blob'.getD n 0 = blob.getD n 0) :
    blob'.take (n + 1) = blob.take (n + 1) := by
  rw [getD_of_lt hlen, getD_of_lt hlen'] at hget
  rw [List.take_succ_eq_append_getElem hlen, List.take_succ_eq_append_getElem hlen', h, hget]

/-- A word of the parameter block, as a slice of the blob. -/
theorem unpackU32_kdf_inj (h : Readable blob) (h' : Readable blob') {off : ℕ}
    (hoff : off + 4 ≤ 32) :
    unpackU32 (sliceFromTo blob' 6 38) off = unpackU32 (sliceFromTo blob 6 38) off ↔
      sliceFromTo blob' (6 + off) (6 + (off + 4)) = sliceFromTo blob (6 + off) (6 + (off + 4)) := by
  have hlen := h.length_ge
  have hlen' := h'.length_ge
  rw [unpackU32_inj (by rw [length_sliceFromTo]; omega) (by rw [length_sliceFromTo]; omega),
    sliceFromTo_sliceFromTo _ (by omega), sliceFromTo_sliceFromTo _ (by omega)]

/-- **The header covers everything but the reserved bytes.** -/
theorem header_eq_iff (h : Readable blob) (h' : Readable blob') :
    header blob' = header blob ↔ SameOutsideReserved blob blob' := by
  have hlen := h.length_ge
  have hlen' := h'.length_ge
  unfold header Argon2Params.forTesting
  simp only [Header.mk.injEq, Argon2Params.mk.injEq, true_and]
  rw [unpackU32_kdf_inj h h' (show 0 + 4 ≤ 32 by decide),
    unpackU32_kdf_inj h h' (show 4 + 4 ≤ 32 by decide),
    unpackU32_kdf_inj h h' (show 8 + 4 ≤ 32 by decide),
    unpackU32_kdf_inj h h' (show 12 + 4 ≤ 32 by decide),
    unpackU32_kdf_inj h h' (show 16 + 4 ≤ 32 by decide)]
  refine ⟨?_, ?_⟩
  · rintro ⟨hver, hid, ⟨ht, hm, hp, hhl, hv⟩, hsalt, hnonce, hct⟩
    -- the front grows field by field, the back shrinks field by field
    have h₄ : blob'.take 4 = blob.take 4 := h'.magic_eq.trans h.magic_eq.symm
    have h₅ := take_succ_eq_of_getD_eq (by omega) (by omega) h₄ hver
    have h₆ := take_succ_eq_of_getD_eq (by omega) (by omega) h₅ hid
    have h₁₀ := take_eq_of_sliceFromTo_eq (by decide) h₆ ht
    have h₁₄ := take_eq_of_sliceFromTo_eq (by decide) h₁₀ hm
    have h₁₈ := take_eq_of_sliceFromTo_eq (by decide) h₁₄ hp
    have h₂₂ := take_eq_of_sliceFromTo_eq (by decide) h₁₈ hhl
    have h₂₆ := take_eq_of_sliceFromTo_eq (by decide) h₂₂ hv
    have d₅₄ := drop_eq_of_sliceFromTo_eq (by decide) hnonce hct
    have d₃₈ := drop_eq_of_sliceFromTo_eq (by decide) hsalt d₅₄
    refine ⟨?_, h₂₆, d₃₈⟩
    have hl := congrArg List.length d₃₈
    rw [List.length_drop, List.length_drop] at hl
    omega
  · rintro ⟨-, hf, hb⟩
    have hb₆₆ : blob'.drop 66 = blob.drop 66 := by
      have := congrArg (List.drop 28) hb
      simpa only [List.drop_drop] using this
    exact ⟨getD_eq_of_take_eq hf (by decide), getD_eq_of_take_eq hf (by decide),
      ⟨sliceFromTo_eq_of_take_eq hf (by decide), sliceFromTo_eq_of_take_eq hf (by decide),
        sliceFromTo_eq_of_take_eq hf (by decide), sliceFromTo_eq_of_take_eq hf (by decide),
        sliceFromTo_eq_of_take_eq hf (by decide)⟩,
      sliceFromTo_eq_of_drop_eq hb le_rfl, sliceFromTo_eq_of_drop_eq hb (by decide), hb₆₆⟩

theorem SameOutsideReserved.readable (hs : SameOutsideReserved blob blob')
    (h : Readable blob) : Readable blob' where
  length_ge := by rw [hs.length_eq]; exact h.length_ge
  magic_eq := (sliceFromTo_eq_of_take_eq hs.front (by decide)).trans h.magic_eq
  version_eq := (getD_eq_of_take_eq hs.front (by decide)).trans h.version_eq

end Header

/-! ### Acceptance of a changed blob -/

section Tamper

variable {P : Primitives} {seed password : SecretBytes} {params : Argon2Params}
  {hasPassphrase : Bool} {ts : ℤ} {s : Sealing P seed password params hasPassphrase ts}

/-- The cipher and the key derivation are ideal for this sealing: its tuple opens and no other
does, and its key comes from its Argon2id call only. -/
structure Sealing.Ideal (s : Sealing P seed password params hasPassphrase ts) : Prop where
  opens : s.Opens
  unforgeable : s.Unforgeable
  onlyDerivedBy : P.OnlyDerivedBy s.call s.key.buf

/-- A blob is accepted only if it has the header of the sealed one. -/
theorem Sealing.Ideal.header_eq (hi : s.Ideal) (h16 : params.saltLen = 16) {blob' : Bytes}
    {w w' : World} {u : UnpackedKeystore} (h : (unpack P blob' password).run w = .ok u w') :
    Readable blob' ∧ header blob' = header s.blob := by
  obtain ⟨hread, key, plaintext, hkey, hid, hdec⟩ := decrypt_of_run_unpack h
  obtain ⟨hk, hnonce, hct, had⟩ := hi.unforgeable _ _ _ _ _ hdec
  -- the key is that of the sealing, so the call that yielded it is too
  have hcall : headerCall blob' password = s.call :=
    hi.onlyDerivedBy _ (hk ▸ derivedKey_eq_ok_iff.mp hkey)
  have hver : (header blob').version = 1 := hread.version_eq
  obtain ⟨hsalt, ht, hm, hp, hhl, hv⟩ : (header blob').salt = s.salt ∧
      (header blob').params.timeCost = params.timeCost ∧
      (header blob').params.memoryCost = params.memoryCost ∧
      (header blob').params.parallelism = params.parallelism ∧
      (header blob').params.hashLen = params.hashLen ∧
      (header blob').params.version = params.version := by
    simpa only [headerCall, Sealing.call, argon2Call, Argon2Call.mk.injEq, true_and] using hcall
  -- the call does not carry the salt length, but `unpack` sets it to sixteen
  have hparams : (header blob').params = params := by
    have h16' : (header blob').params.saltLen = params.saltLen := h16.symm
    cases hp' : (header blob').params
    cases params
    simp_all
  refine ⟨hread, ?_⟩
  rw [s.header_blob h16]
  cases hb : header blob'
  simp_all

/-- **Acceptance.** A change of the reserved bytes makes no difference to `unpack`. -/
theorem Sealing.run_unpack_of_same (h16 : params.saltLen = 16) (hopens : s.Opens)
    {blob' : Bytes} (hs : SameOutsideReserved s.blob blob') (w : World) :
    (unpack P blob' password).run w = .ok ⟨seed, hasPassphrase, ts⟩ (w.recordKdf s.call) := by
  have hread := hs.readable (s.readable h16)
  have heq := (header_eq_iff (s.readable h16) hread).mpr hs
  have hcall : headerCall blob' password = headerCall s.blob password := by
    unfold headerCall
    rw [heq]
  -- an equal header asks for the same key and hands the cipher the same tuple
  rw [← s.run_unpack_blob h16 hopens w, run_unpack hread, run_unpack (s.readable h16), heq, hcall]

/-- A blob with sixteen bytes of salt has one sealing. -/
theorem Sealing.eq_of_blob_eq (h16 : params.saltLen = 16)
    {s s' : Sealing P seed password params hasPassphrase ts} (h : s'.blob = s.blob) :
    s' = s := by
  -- salt and nonce can be read off the blob; the other fields are determined by the arguments
  have hh := congrArg header h
  rw [s.header_blob h16, s'.header_blob h16, Header.mk.injEq] at hh
  obtain ⟨-, -, -, hsalt, hnonce, -⟩ := hh
  have hkey : s'.key = s.key := by
    have hd := s'.derived
    rw [hsalt, s.derived] at hd
    exact (Except.ok.inj hd).symm
  have hplain := s'.plaintext_eq
  rw [s.plaintext_eq] at hplain
  have hkdf := s'.kdf_eq
  rw [s.kdf_eq] at hkdf
  exact Sealing.ext hsalt hnonce hkey (Except.ok.inj hplain).symm (Except.ok.inj hkdf).symm

/-- **Tampering.** Take a blob `pack` returned for a sixteen-byte salt, with primitives that are
ideal for it. A byte string fails to unpack under the same password exactly if it differs from
that blob in its length or in a byte outside the reserved ones. -/
theorem unpack_fails_iff {kdfId : ℤ} {createdAt : Option ℤ} {w w' : World} {blob : Bytes}
    (hpack : (pack P seed password params kdfId hasPassphrase createdAt).run w = .ok blob w')
    (h16 : params.saltLen = 16)
    (hideal : ∀ s : Sealing P seed password params hasPassphrase (stamp createdAt w.clock),
      s.blob = blob → s.Ideal) (blob' : Bytes) (w₁ : World) :
    (¬ ∃ u w₂, (unpack P blob' password).run w₁ = .ok u w₂) ↔
      ¬ SameOutsideReserved blob blob' := by
  -- every blob is that of a sealing, and for this one the primitives are ideal
  obtain ⟨s, rfl, -⟩ := sealing_of_run_pack hpack
  have hi := hideal s rfl
  refine not_congr ⟨?_, ?_⟩
  · rintro ⟨u, w₂, hrun⟩
    obtain ⟨hread, heq⟩ := hi.header_eq h16 hrun
    exact (header_eq_iff (s.readable h16) hread).mp heq
  · intro hs
    exact ⟨_, _, s.run_unpack_of_same h16 hi.opens hs w₁⟩

/-! ### Primitives that are ideal for one sealing -/

/-- The values of a packing with sixteen bytes of salt. -/
def demoCall : Argon2Call := ⟨[9], List.replicate 16 0, 2, 19456, 1, 32, 0x13⟩

def demoPlaintext : Bytes := [1, 7, 0, 0, 0, 0, 0, 0, 0, 0, 0, 0, 0, 0, 0, 0, 0]

/-- `toy` with one key that comes from `demoCall` only, and one tuple that opens. -/
def ideal : Primitives :=
  { Primitives.toy with
    hashSecretRaw := fun c =>
      if c = demoCall then .ok (List.replicate 32 1) else Primitives.toy.hashSecretRaw c
    hashSecretRaw_length := by
      intro c raw h
      split at h
      · next hc =>
        cases h
        rw [hc]
        rfl
      · exact Primitives.toy.hashSecretRaw_length c raw h
    hashSecretRaw_supported := by
      intro c hc
      split
      · exact ⟨_, rfl⟩
      · exact Primitives.toy.hashSecretRaw_supported c hc
    aesGcmDecrypt := fun key nonce c aad =>
      if key = List.replicate 32 1 ∧ nonce = List.replicate 12 0 ∧
          c = demoPlaintext ++ Primitives.toyTag demoPlaintext ∧ aad = [1, 1] then
        .ok demoPlaintext
      else .error "InvalidTag" }

/-- The OWASP minimum with the salt length `unpack` expects. -/
def demoParams : Argon2Params := ⟨2, 19456, 1, 32, 16, 0x13⟩

def demoSealing : Sealing ideal ⟨[7], by simp⟩ ⟨[9], by simp⟩ demoParams false 0 where
  salt := List.replicate 16 0
  nonce := List.replicate 12 0
  key := ⟨List.replicate 32 1, by simp⟩
  plaintext := demoPlaintext
  kdf := [0, 0, 0, 2, 0, 0, 76, 0, 0, 0, 0, 1, 0, 0, 0, 32, 0, 0, 0, 19] ++ List.replicate 12 0
  seed_le := by decide
  hashLen_eq := rfl
  salt_length := rfl
  nonce_length := rfl
  derived := rfl
  plaintext_eq := rfl
  kdf_eq := rfl

theorem demoSealing_ideal : demoSealing.Ideal where
  opens := rfl
  unforgeable := by
    intro k n c a data h
    simp only [ideal] at h
    split at h
    · next heq => exact heq
    · cases h
  onlyDerivedBy := by
    intro c h
    simp only [ideal] at h
    split at h
    · next hc => exact hc
    · -- any other call yields zeros
      change Primitives.toy.hashSecretRaw c = .ok (List.replicate 32 1) at h
      unfold Primitives.toy at h
      simp only at h
      split at h
      · have hz := Except.ok.inj h
        have hlen := congrArg List.length hz
        rw [List.length_replicate, List.length_replicate] at hlen
        rw [hlen] at hz
        exact absurd hz (by decide)
      · cases h

/-- A world that hands out zeros. -/
def demoWorld : World := .fresh (Stream'.const 0) (Stream'.const 0)

theorem run_pack_demo :
    (pack ideal ⟨[7], by simp⟩ ⟨[9], by simp⟩ demoParams 1 false (some 0)).run demoWorld
      = .ok demoSealing.blob (packedWorld demoWorld demoCall 16 (some 0)) := rfl

/-- A reserved byte of the sealed blob, overwritten. -/
theorem unpack_fails_iff_demo :
    (¬ ∃ u w₂, (unpack ideal (demoSealing.blob.set 30 1) ⟨[9], by simp⟩).run demoWorld
        = .ok u w₂) ↔
      ¬ SameOutsideReserved demoSealing.blob (demoSealing.blob.set 30 1) :=
  unpack_fails_iff run_pack_demo rfl
    (fun _ hs => (Sealing.eq_of_blob_eq (s := demoSealing) rfl hs) ▸ demoSealing_ideal) _ _

/-- **An accepted change.** Ideal primitives accept the blob with byte 30 overwritten, and it
unpacks to the packed seed. -/
theorem unpack_tampered :
    demoSealing.Ideal ∧
    (pack ideal ⟨[7], by simp⟩ ⟨[9], by simp⟩ demoParams 1 false (some 0)).run demoWorld
      = .ok demoSealing.blob (packedWorld demoWorld demoCall 16 (some 0)) ∧
    demoSealing.blob.set 30 1 ≠ demoSealing.blob ∧
    (unpack ideal (demoSealing.blob.set 30 1) ⟨[9], by simp⟩).run demoWorld
      = .ok ⟨⟨[7], by simp⟩, false, 0⟩ (demoWorld.recordKdf demoCall) := by
  have hsame : SameOutsideReserved demoSealing.blob (demoSealing.blob.set 30 1) :=
    ⟨List.length_set, List.take_set_of_le (by decide), List.drop_set_of_lt (by decide)⟩
  refine ⟨demoSealing_ideal, run_pack_demo, ?_,
    demoSealing.run_unpack_of_same rfl rfl hsame demoWorld⟩
  intro h
  have hbyte : (demoSealing.blob.set 30 1).getD 30 0 = demoSealing.blob.getD 30 0 := by rw [h]
  exact absurd hbyte (by decide)

end Tamper

end Envelope

end KeystoneCrypto
