import KeystoneCrypto.Keystore.Run
import KeystoneCrypto.Mnemonic.Spelling

/-!
# Recovery: from a mnemonic to a file and back

A mnemonic the library hands out spells an entropy of 16, 20, 24, 28 or 32 bytes
(`Obtained.exists_words`). `create` seals that entropy, `unlock` opens the seal again, and since
the loop of `unlock` knows exactly these sizes (`reconstruct_eq`), it finds the mnemonic back from
the entropy alone. What it finds is the canonical spelling: the words joined by single spaces.

`create_save_unlock` puts the layers together. It holds from any world: salt and nonce are
whatever the world hands out, and between saving and opening everything but the file may change.
-/

namespace KeystoneCrypto

/-- The mnemonics the library hands out. -/
inductive Obtained (P : Primitives) (m : Mnemonic) : Prop
  | generate {strength : ℤ} {w w' : World}
      (h : (Mnemonic.generate P strength).run w = .ok m w')
  | fromEntropy {e : SecretBytes} (hsize : e.buf.length ∈ entropySizes)
      (h : Mnemonic.fromEntropy P e = .ok m)
  | fromPhrase {p : PyStr} (h : Mnemonic.fromPhrase P p = .ok m)

section Obtained

variable {P : Primitives} {m : Mnemonic}

/-- A generated mnemonic is that of the random bytes drawn for it. -/
theorem exists_entropy_of_generate {strength : ℤ} {w w' : World}
    (h : (Mnemonic.generate P strength).run w = .ok m w') :
    ∃ e, e.buf = w.random.take (strength / 8).toNat ∧ e.buf.length ∈ entropySizes ∧
      Mnemonic.fromEntropy P e = .ok m ∧
      w' = { w with random := w.random.drop (strength / 8).toNat } := by
  unfold Mnemonic.generate generateEntropy at h
  -- every step has returned; the tests of the two functions leave five strengths
  simp only [Effect.run_bind_eq_ok_iff, Effect.run_liftM_eq_ok_iff, raiseIf_eq_ok_iff, not_not,
    run_tokenBytes_eq_ok_iff] at h
  obtain ⟨-, _, ⟨hs, -, rfl⟩, e, _, ⟨-, _, ⟨-, -, rfl⟩, -, _, ⟨-, -, rfl⟩, b, _, ⟨-, rfl, rfl⟩,
    he, rfl⟩, hm, rfl⟩ := h
  have hbuf : e.buf = w.random.take (strength / 8).toNat := SecretBytes.new_eq_ok_iff.mp he
  refine ⟨e, hbuf, ?_, hm, rfl⟩
  rw [hbuf, Stream'.length_take]
  -- in bytes they are the five sizes
  simp only [strengthBits, List.mem_cons, List.not_mem_nil, or_false] at hs
  rcases hs with rfl | rfl | rfl | rfl | rfl <;> decide

/-- The mnemonic made from an entropy has the words of that entropy. -/
theorem exists_words_of_fromEntropy {e : SecretBytes} (hsize : e.buf.length ∈ entropySizes)
    (h : Mnemonic.fromEntropy P e = .ok m) :
    ∃ k, 4 ≤ k ∧ k ≤ 8 ∧ e.buf.length = 4 * k ∧ m.phrase.split = wordsOf P k e.buf := by
  obtain ⟨k, h₁, h₂, hlen⟩ := mem_entropySizes_iff.mp hsize
  rw [fromEntropy_eq (by omega) hlen, Except.ok.injEq] at h
  exact ⟨k, h₁, h₂, hlen, by rw [← h, split_joinSpace_wordsOf]⟩

/-- **The words of a mnemonic spell its entropy.** -/
theorem Obtained.exists_words (h : Obtained P m) :
    ∃ (k : ℕ) (e : SecretBytes), 4 ≤ k ∧ k ≤ 8 ∧ e.buf.length = 4 * k ∧
      m.phrase.split = wordsOf P k e.buf := by
  cases h with
  | generate h =>
    obtain ⟨e, -, hsize, hm, -⟩ := exists_entropy_of_generate h
    obtain ⟨k, hk⟩ := exists_words_of_fromEntropy hsize hm
    exact ⟨k, e, hk⟩
  | @fromEntropy e hsize h =>
    obtain ⟨k, hk⟩ := exists_words_of_fromEntropy hsize h
    exact ⟨k, e, hk⟩
  | fromPhrase h =>
    obtain ⟨rfl, e, he⟩ := fromPhrase_eq_ok_iff_spells.mp h
    obtain ⟨k, h₁, h₂, hlen, hsplit⟩ := spells_iff.mp he
    exact ⟨k, e, h₁, h₂, hlen, hsplit⟩

/-- The entropy of a mnemonic leads back to its words. -/
theorem Obtained.exists_entropy (h : Obtained P m) :
    ∃ e, m.entropy = .ok e ∧ e.buf.length ∈ entropySizes ∧
      Mnemonic.fromEntropy P e = .ok ⟨PyStr.joinSpace m.phrase.split⟩ := by
  obtain ⟨k, e, h₁, h₂, hlen, hsplit⟩ := h.exists_words
  refine ⟨e, entropy_eq (by omega) hlen hsplit, mem_entropySizes_iff.mpr ⟨k, h₁, h₂, hlen⟩, ?_⟩
  rw [fromEntropy_eq (by omega) hlen, hsplit]

end Obtained

/-- **The loop of `unlock`** reconstructs a mnemonic exactly for the sizes it tries. -/
theorem reconstruct_eq (P : Primitives) (seed : SecretBytes) (sizes : List ℕ) :
    KeystoreContext.reconstruct P seed sizes
      = if seed.buf.length ∈ sizes.map (· / 8) then (Mnemonic.fromEntropy P seed).toOption
        else none := by
  -- the loop stops at the first size that fits, and all sizes that fit give the same result
  induction sizes with
  | nil => rfl
  | cons bits rest ih =>
    unfold KeystoreContext.reconstruct
    by_cases h : seed.buf.length = bits / 8
    -- the first size that fits decides
    · rw [if_pos h, if_pos (by simp [h])]
    · have hmem : seed.buf.length ∈ (bits :: rest).map (· / 8)
          ↔ seed.buf.length ∈ rest.map (· / 8) := by
        rw [List.map_cons, List.mem_cons, or_iff_right h]
      rw [if_neg h, ih]
      simp only [hmem]

/-- The sizes `unlock` tries are those of an entropy. -/
theorem reconstruct_of_mem {P : Primitives} {seed : SecretBytes} {m : Mnemonic}
    (hsize : seed.buf.length ∈ entropySizes) (h : Mnemonic.fromEntropy P seed = .ok m) :
    KeystoreContext.reconstruct P seed [128, 160, 192, 224, 256] = some m := by
  have hsizes : [128, 160, 192, 224, 256].map (· / 8) = entropySizes := rfl
  rw [reconstruct_eq, hsizes, if_pos hsize, h]
  rfl

theorem length_le_of_mem_entropySizes {n : ℕ} (h : n ∈ entropySizes) : n ≤ 32 := by
  obtain ⟨k, -, h₂, rfl⟩ := mem_entropySizes_iff.mp h
  omega

section Recovery

variable {P : Primitives} {m : Mnemonic} {password : PyStr} {params : Argon2Params} {w : World}

/-- Creating succeeds, and what it returns opens under the password. -/
theorem exists_create (hP : P.AesGcmUndoes) {e : SecretBytes} (he : m.entropy = .ok e)
    (hshort : e.buf.length ≤ 255) (hne : password ≠ []) {pw : SecretBytes}
    (hpw : Encodes password pw) (hpub : params.Public) (hsalt : params.saltLen = 16)
    (hlen : params.hashLen = 32) (hasPassphrase : Bool) (h₁ : -2 ^ 63 ≤ w.clock.head)
    (h₂ : w.clock.head < 2 ^ 63) :
    ∃ ks w₁, (Keystore.create P m password params hasPassphrase).run w = .ok ks w₁ ∧
      Envelope.Unpacks P ks.blob pw ⟨e, hasPassphrase, w.clock.head⟩ ∧ w₁.disk = w.disk := by
  have hdrawn : ((w.random.take params.saltLen.toNat).length : ℤ) = params.saltLen := by
    rw [Stream'.length_take]
    omega
  -- public parameters are in the ranges of every step of packing
  obtain ⟨s, hs, hn⟩ := Envelope.exists_sealing P hpub hlen e pw hasPassphrase hshort h₁ h₂ hdrawn
    (Stream'.length_take 12 (w.random.drop params.saltLen.toNat))
  exact ⟨_, _, Keystore.run_create hne hpw he s hs hn,
    s.unpacks hsalt (s.opens_of_undoes hP), rfl⟩

/-- **End-to-end recovery.** A mnemonic from any of the three sources is created into a keystore
with 16 bytes of salt, saved, opened and unlocked: the wallet holds its entropy and its words. The
file may be opened under another name than it was saved under, and in another process. -/
theorem create_save_unlock (hP : P.AesGcmUndoes) (hm : Obtained P m) (hne : password ≠ [])
    {encoded : Bytes} (hencoded : password.encodeUtf8 = .ok encoded) (hpub : params.Public)
    (hsalt : params.saltLen = 16) (hlen : params.hashLen = 32) (hasPassphrase : Bool)
    (h₁ : -2 ^ 63 ≤ w.clock.head) (h₂ : w.clock.head < 2 ^ 63) :
    ∃ ks w₁, (Keystore.create P m password params hasPassphrase).run w = .ok ks w₁ ∧
      w₁.disk = w.disk ∧
      ∀ path file w₂, w₂.disk.locate path = .ok file → w₂.disk.faults.head = none →
      ∃ w₃, (ks.save path).run w₂ = .ok () w₃ ∧
      ∀ path' w₄, w₄.disk.locate path' = .ok file → w₄.disk.faults.head = none →
      w₄.disk.files file = w₃.disk.files file → ∃ e wallet w₅,
        (do let ctx ← Keystore.openFile path'; ctx.unlock P password).run w₄ = .ok wallet w₅ ∧
        m.entropy = .ok e ∧ w₅.secrets.read wallet.seed = e ∧
        w₅.flags.read wallet.closed = false ∧
        wallet.mnemonic = some ⟨PyStr.joinSpace m.phrase.split⟩ := by
  obtain ⟨e, he, hsize, hback⟩ := hm.exists_entropy
  obtain ⟨pw, hpw⟩ := exists_encodes hne hencoded
  have hshort : e.buf.length ≤ 255 := le_trans (length_le_of_mem_entropySizes hsize) (by decide)
  obtain ⟨ks, w₁, hcreate, hopens, hdisk⟩ :=
    exists_create hP he hshort hne hpw hpub hsalt hlen hasPassphrase h₁ h₂
  refine ⟨ks, w₁, hcreate, hdisk, fun path file w₂ hlocate hfault => ⟨_,
    run_writeBytes w₂ hlocate hfault ks.blob, fun path' w₄ hlocate' hfault' hfile => ?_⟩⟩
  -- the file holds the blob, whatever else happened in between
  have hread : w₄.disk.files file = some ks.blob := by
    rw [hfile]
    exact Function.update_self file (some ks.blob) w₂.disk.files
  have hopen : (Keystore.openFile path').run w₄
      = .ok ⟨ks.blob⟩ { w₄ with disk := w₄.disk.used } := by
    unfold Keystore.openFile
    rw [Effect.run_bind_of_ok (run_readBytes w₄ hlocate' hfault' hread)]
    rfl
  -- from here on the world is the one after reading, whatever it is
  generalize hw : { w₄ with disk := w₄.disk.used } = w' at hopen
  have hunlock : (KeystoreContext.unlock P ⟨ks.blob⟩ password).run w'
      = .ok (unlockedWallet P w' e) (unlockedWorld w' pw (Envelope.headerCall ks.blob pw) e) :=
    KeystoreContext.run_unlock_eq_ok_iff.mpr ⟨pw, _, hpw, hopens, rfl, rfl⟩
  refine ⟨e, unlockedWallet P w' e, unlockedWorld w' pw (Envelope.headerCall ks.blob pw) e, ?_, he,
    read_unlockedWorld_seed P w' pw _ e, read_unlockedWorld_closed P w' pw _ e,
    reconstruct_of_mem hsize hback⟩
  rw [Effect.run_bind_of_ok hopen]
  exact hunlock

end Recovery

theorem zeroPhrase_obtained : Obtained Primitives.toy ⟨zeroPhrase⟩ :=
  .fromPhrase fromPhrase_zeroPhrase

theorem zeroPhrase_entropy :
    (⟨zeroPhrase⟩ : Mnemonic).entropy = .ok ⟨List.replicate 16 0, by decide⟩ :=
  entropy_eq (P := Primitives.toy) (k := 4) (by decide) rfl split_zeroPhrase

theorem pwBytes_ne_nil : ([0x70, 0x77] : Bytes) ≠ [] := List.cons_ne_nil _ _

/-- The wrapper of the password `pw`. -/
def pwWrapper : SecretBytes := ⟨[0x70, 0x77], pwBytes_ne_nil⟩

theorem encodes_pw : Encodes (PyStr.ofString "pw") pwWrapper := by
  unfold Encodes
  decide

/-- Saved as `k`, opened as `./k`. -/
theorem create_save_unlock_zeroPhrase :
    ∃ ks w₁ w₂, (Keystore.create Primitives.toy ⟨zeroPhrase⟩ (PyStr.ofString "pw")
        interactiveProfile false).run zeroWorld = .ok ks w₁ ∧
      (ks.save [0x6B]).run w₁ = .ok () w₂ ∧ ∃ e wallet w₃,
        (do let ctx ← Keystore.openFile [0x2E, 0x2F, 0x6B]
            ctx.unlock Primitives.toy (PyStr.ofString "pw")).run w₂ = .ok wallet w₃ ∧
        (⟨zeroPhrase⟩ : Mnemonic).entropy = .ok e ∧ w₃.secrets.read wallet.seed = e ∧
        w₃.flags.read wallet.closed = false ∧
        wallet.mnemonic = some ⟨PyStr.joinSpace zeroPhrase.split⟩ := by
  obtain ⟨ks, w₁, hcreate, hdisk, hsave⟩ := create_save_unlock (w := zeroWorld)
    Primitives.toy_undoes zeroPhrase_obtained (by decide)
    (show (PyStr.ofString "pw").encodeUtf8 = .ok [0x70, 0x77] by decide) profiles_public.1
    rfl rfl false (by decide) (by decide)
  obtain ⟨random, clock, kdfCalls, secrets, flags, disk⟩ := w₁
  obtain rfl : disk = .blank := hdisk
  obtain ⟨w₂, hrun, hopen⟩ :=
    hsave [0x6B] [0x6B] ⟨random, clock, kdfCalls, secrets, flags, .blank⟩ rfl rfl
  -- the world after saving is known, and `./k` leads to `k` in it
  obtain rfl := (EStateM.Result.ok.inj (hrun.symm.trans (run_writeBytes _ rfl rfl _))).2
  exact ⟨ks, _, _, hcreate, hrun, hopen [0x2E, 0x2F, 0x6B] _ rfl rfl rfl⟩

end KeystoneCrypto
